import Pfaedle.Osm

set_option autoImplicit false

/-!
# `osm_builder::read_relations` and `keep_way`

Which ways are kept depends on the relations that have been registered for them. The flags of a
relation are written only when the relation passes the filters.
-/
namespace Pfaedle.OsmRelations
open Osm

/-- `osm_relation` as it is built up for one element; flags that are not written are `none`. -/
structure OsmRelation where
  id : Osmid
  attrs : AttributeMap
  nodes : List Osmid
  ways : List Osmid
  nodeRoles : List String
  wayRoles : List String
  keepFlags : Option UInt64
  dropFlags : Option UInt64

/-- `relation_list` with the two relation maps and the restrictions. -/
structure Relations where
  rels : List AttributeMap
  flat : List ℕ
  nodeRels : Osmid → List ℕ
  wayRels : Osmid → List ℕ
  rests : Restrictions

def Relations.empty : Relations := ⟨[], [], fun _ => [], fun _ => [], ⟨fun _ => [], fun _ => []⟩⟩

def register (map : Osmid → List ℕ) (index : ℕ) (ids : List Osmid) : Osmid → List ℕ :=
  ids.foldl (fun map id => Function.update map id (map id ++ [index])) map

section model
variable (iter : AttributeMap → AttributeMap) (filter : OsmFilter)

/-- The first member way of the given role; `none` when there are two. -/
def onlyWay (role : String) (rel : OsmRelation) : Option Osmid :=
  (rel.ways.zip rel.wayRoles).foldl
    (fun found m => found.bind fun id =>
      if m.2 = role then (if id ≠ 0 then none else some m.1) else some id)
    (some 0)

def viaNode (rel : OsmRelation) : Osmid :=
  (((rel.nodes.zip rel.nodeRoles).find? fun m => m.2 = "via").map Prod.fst).getD 0

def readRestrictions (rel : OsmRelation) (rests : Restrictions) : Restrictions :=
  if rel.attrs.lookup "type" ≠ some "restriction" then rests
  else
    let pos := filter.posRestr iter rel.attrs
    let neg := filter.negRestr iter rel.attrs
    if pos = 0 ∧ neg = 0 then rests
    else
      match onlyWay "from" rel, onlyWay "to" rel with
      | some frm, some to_ =>
        let via := viaNode rel
        if frm ≠ 0 ∧ to_ ≠ 0 ∧ via ≠ 0 then
          if pos ≠ 0 then
            { rests with pos := Function.update rests.pos via (rests.pos via ++ [⟨frm, to_⟩]) }
          else { rests with neg := Function.update rests.neg via (rests.neg via ++ [⟨frm, to_⟩]) }
        else rests
      | _, _ => rests

variable (keepAttrs : List String)

def relationKept (id : Osmid) (attrs : AttributeMap) : Bool :=
  id ≠ 0 ∧ attrs ≠ [] ∧ filter.keep iter attrs .rel ≠ 0 ∧ filter.drop iter attrs .rel = 0

def readRelation (xml : XmlRelation) : OsmRelation :=
  let attrs := readAttrs keepAttrs xml.tags
  let kept := relationKept iter filter xml.id attrs
  let nodeMembers := xml.members.filter fun m => m.type = "node"
  let wayMembers := xml.members.filter fun m => m.type = "way"
  { id := xml.id
    attrs
    nodes := nodeMembers.map Member.ref
    ways := wayMembers.map Member.ref
    nodeRoles := nodeMembers.map Member.role
    wayRoles := wayMembers.map Member.role
    keepFlags := if kept then some (filter.keep iter attrs .rel) else none
    dropFlags := if kept then some (filter.drop iter attrs .rel) else none }

/-- One round of the relation pass; `uninit` is what an unwritten `keepFlags` holds. -/
def addRelation (uninit : ℕ → UInt64) (rs : Relations) (xml : XmlRelation) : Relations :=
  let rel := readRelation iter filter keepAttrs xml
  let index := rs.rels.length
  { rels := rs.rels ++ [rel.attrs]
    flat :=
      if rel.keepFlags.getD (uninit index) &&& relNoDown ≠ 0 then rs.flat ++ [index] else rs.flat
    nodeRels := register rs.nodeRels index rel.nodes
    wayRels := register rs.wayRels index rel.ways
    rests := readRestrictions iter filter rel rs.rests }

def readRelations (uninit : ℕ → UInt64) (xml : List XmlRelation) : Relations :=
  xml.foldl (addRelation iter filter keepAttrs uninit) .empty

end model

section keep
variable (iter : AttributeMap → AttributeMap) (filter : OsmFilter)

def shouldKeepRelation (id : Osmid) (rels : Osmid → List ℕ) (flat : List ℕ) : Bool :=
  (rels id).any fun relId => relId ∉ flat

def keepWay (w : OsmWay) (wayRels : Osmid → List ℕ) (bBoxNodes : Osmid → Bool)
    (flat : List ℕ) : Bool :=
  w.id ≠ 0 ∧ 1 < w.nodes.length ∧
    (shouldKeepRelation w.id wayRels flat ∨ filter.keep iter w.attrs .way ≠ 0) ∧
    filter.drop iter w.attrs .way = 0 ∧ w.nodes.any bBoxNodes

end keep

section registered
variable {iter : AttributeMap → AttributeMap} {filter : OsmFilter} {keepAttrs : List String}
  {uninit : ℕ → UInt64}

theorem mem_register {map : Osmid → List ℕ} {index i : ℕ} {ids : List Osmid} {id : Osmid} :
    i ∈ register map index ids id ↔ i ∈ map id ∨ (i = index ∧ id ∈ ids) := by
  induction ids generalizing map with
  | nil => simp [register]
  | cons x ids ih =>
    change i ∈ register (Function.update map x (map x ++ [index])) index ids id ↔ _
    rw [ih]
    by_cases hx : id = x
    · subst hx
      rw [Function.update_self, List.mem_append, List.mem_singleton]
      simp only [List.mem_cons, true_or, and_true]
      constructor
      · intro h
        cases h with
        | inl h => exact h
        | inr h => exact Or.inr h.1
      · exact Or.inl
    · rw [Function.update_of_ne hx]
      simp [hx]

theorem getElem?_concat {α : Type*} {xs : List α} {x y : α} {i : ℕ} :
    (xs ++ [x])[i]? = some y ↔ xs[i]? = some y ∨ (i = xs.length ∧ x = y) := by
  rw [List.getElem?_append]
  split
  · rename_i hlt
    constructor
    · exact Or.inl
    · intro h
      exact h.resolve_right fun h => by omega
  · rename_i hge
    rw [List.getElem?_eq_none (by omega : xs.length ≤ i)]
    by_cases hi : i = xs.length
    · simp [hi]
    · rw [List.getElem?_eq_none (by simp; omega)]
      simp [hi]

theorem exists_getElem?_concat {α : Type*} {xs : List α} {x : α} {i : ℕ} {q : α → Prop} :
    (∃ y, (xs ++ [x])[i]? = some y ∧ q y) ↔ (∃ y, xs[i]? = some y ∧ q y) ∨ (i = xs.length ∧ q x) := by
  simp only [getElem?_concat]
  constructor
  · rintro ⟨y, hy | hy, hq⟩
    · exact Or.inl ⟨y, hy, hq⟩
    · exact Or.inr ⟨hy.1, hy.2 ▸ hq⟩
  · rintro (⟨y, hy, hq⟩ | ⟨hi, hq⟩)
    · exact ⟨y, Or.inl hy, hq⟩
    · exact ⟨x, Or.inr ⟨hi, rfl⟩, hq⟩

/-- The flags that the pass reads for relation number `i`. -/
def readFlags (iter : AttributeMap → AttributeMap) (filter : OsmFilter) (keepAttrs : List String)
    (uninit : ℕ → UInt64) (i : ℕ) (xml : XmlRelation) : UInt64 :=
  (readRelation iter filter keepAttrs xml).keepFlags.getD (uninit i)

structure Registered (iter : AttributeMap → AttributeMap) (filter : OsmFilter)
    (keepAttrs : List String) (uninit : ℕ → UInt64) (doc : List XmlRelation) (rs : Relations) :
    Prop where
  length : rs.rels.length = doc.length
  wayRels : ∀ i id, i ∈ rs.wayRels id ↔
    ∃ xml, doc[i]? = some xml ∧ id ∈ (readRelation iter filter keepAttrs xml).ways
  flat : ∀ i, i ∈ rs.flat ↔
    ∃ xml, doc[i]? = some xml ∧ readFlags iter filter keepAttrs uninit i xml &&& relNoDown ≠ 0

theorem addRelation_registered {doc : List XmlRelation} {rs : Relations}
    (h : Registered iter filter keepAttrs uninit doc rs) (xml : XmlRelation) :
    Registered iter filter keepAttrs uninit (doc ++ [xml])
      (addRelation iter filter keepAttrs uninit rs xml) := by
  constructor
  · simp [addRelation, h.length]
  · intro i id
    change i ∈ register rs.wayRels rs.rels.length _ id ↔ _
    rw [mem_register, h.wayRels, h.length, exists_getElem?_concat]
  · intro i
    have hflat : i ∈ (addRelation iter filter keepAttrs uninit rs xml).flat ↔ i ∈ rs.flat ∨
        (i = doc.length ∧ readFlags iter filter keepAttrs uninit i xml &&& relNoDown ≠ 0) := by
      rw [addRelation]
      dsimp only
      rw [h.length]
      split
      · rename_i hflag
        rw [List.mem_append, List.mem_singleton]
        apply or_congr_right
        constructor
        · intro hi
          exact ⟨hi, by rw [hi]; exact hflag⟩
        · exact fun hi => hi.1
      · rename_i hflag
        constructor
        · exact Or.inl
        · intro hi
          refine hi.resolve_right fun hi => hflag ?_
          rw [hi.1] at hi
          exact hi.2
    rw [hflat, h.flat, exists_getElem?_concat]

theorem readRelations_registered (iter : AttributeMap → AttributeMap) (filter : OsmFilter)
    (keepAttrs : List String) (uninit : ℕ → UInt64) (doc : List XmlRelation) :
    Registered iter filter keepAttrs uninit doc
      (readRelations iter filter keepAttrs uninit doc) := by
  induction doc using List.reverseRecOn with
  | nil => exact ⟨rfl, by simp [readRelations, Relations.empty], by simp [readRelations, Relations.empty]⟩
  | append_singleton doc xml ih =>
    rw [readRelations, List.foldl_append]
    exact addRelation_registered ih xml

end registered

section spec
variable (iter : AttributeMap → AttributeMap) (filter : OsmFilter) (keepAttrs : List String)

def hasWay (id : Osmid) (xml : XmlRelation) : Prop :=
  id ∈ (readRelation iter filter keepAttrs xml).ways

def isKept (xml : XmlRelation) : Prop :=
  relationKept iter filter xml.id (readAttrs keepAttrs xml.tags) = true

/-- The relation carries its member ways: it is kept and not flagged `rel_flat`. -/
def keepsWays (xml : XmlRelation) : Prop :=
  isKept iter filter keepAttrs xml ∧
    filter.keep iter (readAttrs keepAttrs xml.tags) .rel &&& relNoDown = 0

def wayTests (w : OsmWay) (bBoxNodes : Osmid → Bool) : Prop :=
  w.id ≠ 0 ∧ 1 < w.nodes.length ∧ (∃ nid ∈ w.nodes, bBoxNodes nid) ∧
    filter.drop iter w.attrs .way = 0

def wayWanted (doc : List XmlRelation) (w : OsmWay) (bBoxNodes : Osmid → Bool) : Prop :=
  wayTests iter filter w bBoxNodes ∧
    (filter.keep iter w.attrs .way ≠ 0 ∨
      ∃ xml ∈ doc, hasWay iter filter keepAttrs w.id xml ∧ keepsWays iter filter keepAttrs xml)

end spec

section result
variable {iter : AttributeMap → AttributeMap} {filter : OsmFilter} {keepAttrs : List String}
  {uninit : ℕ → UInt64}

theorem readFlags_kept {i : ℕ} {xml : XmlRelation} (h : isKept iter filter keepAttrs xml) :
    readFlags iter filter keepAttrs uninit i xml =
      filter.keep iter (readAttrs keepAttrs xml.tags) .rel := by
  have h' : relationKept iter filter xml.id (readAttrs keepAttrs xml.tags) = true := h
  simp [readFlags, readRelation, h']

theorem readFlags_unkept {i : ℕ} {xml : XmlRelation} (h : ¬ isKept iter filter keepAttrs xml) :
    readFlags iter filter keepAttrs uninit i xml = uninit i := by
  have h' : ¬ relationKept iter filter xml.id (readAttrs keepAttrs xml.tags) = true := h
  simp [readFlags, readRelation, h']

theorem shouldKeepRelation_places {doc : List XmlRelation} {rels : Osmid → List ℕ} {flat : List ℕ}
    {id : Osmid} {P : XmlRelation → Prop} {flagged : ℕ → XmlRelation → Prop}
    (hrels : ∀ i, i ∈ rels id ↔ ∃ xml, doc[i]? = some xml ∧ P xml)
    (hflat : ∀ i, i ∈ flat ↔ ∃ xml, doc[i]? = some xml ∧ flagged i xml) :
    shouldKeepRelation id rels flat = true ↔
      ∃ i xml, doc[i]? = some xml ∧ P xml ∧ ¬ flagged i xml := by
  rw [shouldKeepRelation, List.any_eq_true]
  simp only [decide_eq_true_eq]
  constructor
  · intro hany
    obtain ⟨i, hi, hnot⟩ := hany
    obtain ⟨xml, hxml, hp⟩ := (hrels i).1 hi
    exact ⟨i, xml, hxml, hp, fun hflag => hnot ((hflat i).2 ⟨xml, hxml, hflag⟩)⟩
  · intro hex
    obtain ⟨i, xml, hxml, hp, hflag⟩ := hex
    refine ⟨i, (hrels i).2 ⟨xml, hxml, hp⟩, fun hmem => ?_⟩
    obtain ⟨x, hx, hflagged⟩ := (hflat i).1 hmem
    obtain rfl := Option.some.inj (hxml.symm.trans hx)
    exact hflag hflagged

theorem shouldKeepRelation_iff {doc : List XmlRelation} {rs : Relations}
    (h : Registered iter filter keepAttrs uninit doc rs) (id : Osmid) :
    shouldKeepRelation id rs.wayRels rs.flat = true ↔
      ∃ i xml, doc[i]? = some xml ∧ hasWay iter filter keepAttrs id xml ∧
        readFlags iter filter keepAttrs uninit i xml &&& relNoDown = 0 := by
  rw [shouldKeepRelation_places (fun i => h.wayRels i id) h.flat]
  simp only [ne_eq, not_not]
  rfl

theorem keepWay_iff {doc : List XmlRelation} (w : OsmWay) (bBoxNodes : Osmid → Bool) :
    let rs := readRelations iter filter keepAttrs uninit doc
    keepWay iter filter w rs.wayRels bBoxNodes rs.flat = true ↔
      wayTests iter filter w bBoxNodes ∧ (filter.keep iter w.attrs .way ≠ 0 ∨
        ∃ i xml, doc[i]? = some xml ∧ hasWay iter filter keepAttrs w.id xml ∧
          readFlags iter filter keepAttrs uninit i xml &&& relNoDown = 0) := by
  have hrel := shouldKeepRelation_iff
    (readRelations_registered iter filter keepAttrs uninit doc) w.id
  simp only [keepWay, decide_eq_true_eq, hrel, wayTests, List.any_eq_true]
  constructor
  · intro h
    exact ⟨⟨h.1, h.2.1, h.2.2.2.2, h.2.2.2.1⟩, h.2.2.1.symm⟩
  · intro h
    exact ⟨h.1.1, h.1.2.1, h.2.symm, h.1.2.2.2, h.1.2.2.1⟩

/-- Ways are kept as the filters say exactly when no relation that fails its filter decides. -/
theorem keepWay_wanted_iff (iter : AttributeMap → AttributeMap) (filter : OsmFilter)
    (keepAttrs : List String) (doc : List XmlRelation) (w : OsmWay) (bBoxNodes : Osmid → Bool) :
    (∀ uninit, (keepWay iter filter w (readRelations iter filter keepAttrs uninit doc).wayRels
        bBoxNodes (readRelations iter filter keepAttrs uninit doc).flat = true ↔
      wayWanted iter filter keepAttrs doc w bBoxNodes)) ↔
    (¬ wayTests iter filter w bBoxNodes ∨ filter.keep iter w.attrs .way ≠ 0 ∨
      (∃ xml ∈ doc, hasWay iter filter keepAttrs w.id xml ∧ keepsWays iter filter keepAttrs xml) ∨
      ∀ xml ∈ doc, hasWay iter filter keepAttrs w.id xml → isKept iter filter keepAttrs xml) := by
  simp only [keepWay_iff, wayWanted]
  constructor
  · intro h
    by_contra hnot
    simp only [not_or, not_not] at hnot
    obtain ⟨htests, hkeep, hnone, hall⟩ := hnot
    apply hall
    intro xml hxml hway
    by_contra hunkept
    obtain ⟨i, hi⟩ := List.getElem?_of_mem hxml
    have hwanted := (h fun _ => 0).1
      ⟨htests, Or.inr ⟨i, xml, hi, hway, by rw [readFlags_unkept hunkept]; rfl⟩⟩
    cases hwanted.2 with
    | inl h => exact h hkeep
    | inr h => exact hnone h
  · intro h uninit
    apply and_congr_right
    intro htests
    rcases h with hnot | hkeep | hwanted | hall
    · exact absurd htests hnot
    · simp [hkeep]
    · apply or_congr_right
      refine ⟨fun _ => hwanted, fun _ => ?_⟩
      obtain ⟨xml, hmem, hway, hkept, hflag⟩ := hwanted
      obtain ⟨i, hi⟩ := List.getElem?_of_mem hmem
      exact ⟨i, xml, hi, hway, by rw [readFlags_kept hkept]; exact hflag⟩
    · apply or_congr_right
      constructor
      · intro hex
        obtain ⟨i, xml, hi, hway, hflag⟩ := hex
        have hmem := List.mem_of_getElem? hi
        have hkept := hall xml hmem hway
        rw [readFlags_kept hkept] at hflag
        exact ⟨xml, hmem, hway, hkept, hflag⟩
      · intro hex
        obtain ⟨xml, hmem, hway, hkept, hflag⟩ := hex
        obtain ⟨i, hi⟩ := List.getElem?_of_mem hmem
        exact ⟨i, xml, hi, hway, by rw [readFlags_kept hkept]; exact hflag⟩

/-- A road that is member of a bus stop relation, and a filter for railways. -/
def railFilter : OsmFilter where
  keepRules key := if key = "railway" then [("rail", 1)] else []
  dropRules _ := []
  posRestrRules _ := []
  negRestrRules _ := []
  noRestrRules _ := []

def busStop : XmlRelation := ⟨9, [("public_transport", "stop_area")], [⟨"way", 5, ""⟩]⟩

theorem keepWay_not_wanted :
    ¬ ∀ (filter : OsmFilter) (keepAttrs : List String) (doc : List XmlRelation) (w : OsmWay)
      (bBoxNodes : Osmid → Bool) (uninit : ℕ → UInt64),
      (keepWay id filter w (readRelations id filter keepAttrs uninit doc).wayRels bBoxNodes
        (readRelations id filter keepAttrs uninit doc).flat = true ↔
      wayWanted id filter keepAttrs doc w bBoxNodes) := by
  intro h
  have hkept : keepWay id railFilter ⟨5, [("highway", "primary")], [1, 2]⟩
      (readRelations id railFilter ["railway"] (fun _ => 0) [busStop]).wayRels (fun _ => true)
      (readRelations id railFilter ["railway"] (fun _ => 0) [busStop]).flat = true := by decide
  have hwanted := ((h railFilter ["railway"] [busStop] ⟨5, [("highway", "primary")], [1, 2]⟩
    (fun _ => true) fun _ => 0).1 hkept).2
  rcases hwanted with hway | ⟨xml, hxml, -, hrel, -⟩
  · exact hway (by decide)
  · rw [List.mem_singleton.1 hxml] at hrel
    exact absurd hrel (by rw [isKept]; decide)

end result

end Pfaedle.OsmRelations

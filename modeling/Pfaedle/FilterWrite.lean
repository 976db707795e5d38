import Pfaedle.FilterMerge
import Pfaedle.ReadNodes

set_option autoImplicit false

/-!
# `osm_builder::filter_write`

The filters and the keys of all options are merged, and the second half of the passes writes what
the first half has kept.
-/
namespace Pfaedle.OsmBuilder
open Osm OsmRelations KeptKeys ReadEdges BoundingBoxes FilterMerge

section model
variable {C : Type*} [Field C] [LinearOrder C]

/-- `filter.merge(osm_filter(o.keepFilter, o.dropFilter))` for all options -/
def mergedFilter (opts : List (OsmReadOptions C)) : OsmFilter :=
  opts.foldl (fun filter o => merge filter (osmFilter o.keepFilter.map o.dropFilter.map))
    (osmFilter (fun _ => []) fun _ => [])

def writeFilter (opts : List (OsmReadOptions C)) : ReadFilter where
  toOsmFilter := mergedFilter opts
  nohupRules _ := []
  onewayRules _ := []
  onewayrevRules _ := []
  twowayRules _ := []
  stationRules _ := []
  blockerRules _ := []
  levelRules _ _ := []

def mergedKeys (opts : List (OsmReadOptions C)) : AttributeKeySets where
  nodes := opts.flatMap fun o => o.getKeptAttributeKeys.nodes
  ways := opts.flatMap fun o => o.getKeptAttributeKeys.ways
  rels := opts.flatMap fun o => o.getKeptAttributeKeys.rels

variable (iter : AttributeMap → AttributeMap) (bbox : BoundingBox C)
  (opts : List (OsmReadOptions C)) (uninit : ℕ → UInt64) (doc : List (XmlElement C))

def relationsFiltered : Relations :=
  readRelations iter (mergedFilter opts) (mergedKeys opts).rels uninit (xmlRelations doc)

def wayWritten (x : XmlElement C) : Bool :=
  let rs := relationsFiltered iter opts uninit doc
  keepWay iter (mergedFilter opts) (x.way (mergedKeys opts).ways) rs.wayRels
    (inBBox bbox doc (writeFilter opts)) rs.flat

def readWays : List Osmid × List Osmid :=
  (children "way" doc).foldl (fun ret x =>
    if wayWritten iter bbox opts uninit doc x then (ret.1 ++ [x.id], ret.2 ++ x.nds) else ret)
    ([], [])

/-- `count(id)`, and the searches in the list of ways -/
def hasId (ids : List Osmid) (id : Osmid) : Bool := ids.any fun i => i = id

def nodeTest (nds : List Osmid) (x : XmlElement C) : Bool :=
  let rs := relationsFiltered iter opts uninit doc
  keepNode iter (mergedFilter opts) x.id (readAttrs (mergedKeys opts).nodes x.tags)
    (hasId nds x.id) false rs.nodeRels
    (inBBox bbox doc (writeFilter opts)) rs.flat

def nodeElement (x : XmlElement C) : XmlElement C :=
  ⟨"node", x.id, x.lat, x.lon, [], iter (readAttrs (mergedKeys opts).nodes x.tags), []⟩

def readWriteNodes (nds : List Osmid) : List Osmid × List (XmlElement C) :=
  (children "node" doc).foldl (fun st x =>
    if nodeTest iter bbox opts uninit doc st.1 x then
      (st.1 ++ [x.id], st.2 ++ [nodeElement iter opts x])
    else st) (nds, [])

def wayElement (x : XmlElement C) : XmlElement C :=
  ⟨"way", x.id, 0, 0, x.nds, iter (readAttrs (mergedKeys opts).ways x.tags), []⟩

def readWriteWays (ways : List Osmid) : List (XmlElement C) :=
  (doc.filter fun x => hasId ways x.id).map (wayElement iter opts)

def realMembers (type : String) (ids : List Osmid) (members : List Member) : List Member :=
  (members.filter fun m => m.type = type).filter fun m => hasId ids m.ref

def relationElement (ways nodes : List Osmid) (x : XmlElement C) : Option (XmlElement C) :=
  let members := realMembers "node" nodes x.members ++ realMembers "way" ways x.members
  if members.isEmpty then none
  else some ⟨"relation", x.id, 0, 0, [], iter (readAttrs (mergedKeys opts).rels x.tags), members⟩

def readWriteRelations (ways nodes : List Osmid) : List (XmlElement C) :=
  (children "relation" doc).filterMap (relationElement iter opts ways nodes)

def boundsElement : XmlElement C := ⟨"bounds", 0, 0, 0, [], [], []⟩

def filterWrite : List (XmlElement C) :=
  let ways := (readWays iter bbox opts uninit doc).1
  let nodes := readWriteNodes iter bbox opts uninit doc (readWays iter bbox opts uninit doc).2
  boundsElement :: (nodes.2 ++ readWriteWays iter opts doc ways ++
    readWriteRelations iter opts doc ways nodes.1)

end model

section spec
variable {C : Type*} [Field C] [LinearOrder C]

/-- Ids are unique for each type of element. -/
structure UniqueIds (doc : List (XmlElement C)) : Prop where
  nodes : ((children "node" doc).map XmlElement.id).Nodup
  ways : ((children "way" doc).map XmlElement.id).Nodup
  relations : ((children "relation" doc).map XmlElement.id).Nodup

variable (iter : AttributeMap → AttributeMap) (bbox : BoundingBox C)
  (opts : List (OsmReadOptions C)) (uninit : ℕ → UInt64) (doc : List (XmlElement C))

/-- Every way element that is written stands for its own way of the input. -/
def WaysOfInput : Prop :=
  (children "way" (filterWrite iter bbox opts uninit doc)).Sublist
    ((children "way" doc).map (wayElement iter opts))

/-- No other element has the id of a way that is kept. -/
def NoSharedId : Prop :=
  ∀ x ∈ doc, x.name ≠ "way" →
    ∀ w ∈ children "way" doc, wayWritten iter bbox opts uninit doc w = true → x.id ≠ w.id

end spec

section passes
variable {C : Type*} {iter : AttributeMap → AttributeMap} {bbox : BoundingBox C}
  {opts : List (OsmReadOptions C)} {uninit : ℕ → UInt64} {doc : List (XmlElement C)}

theorem mem_children {name : String} {x : XmlElement C} :
    x ∈ children name doc ↔ x ∈ doc ∧ x.name = name := by
  rw [children, List.mem_filter, decide_eq_true_iff]

theorem hasId_iff {ids : List Osmid} {id : Osmid} : hasId ids id = true ↔ id ∈ ids := by
  simp [hasId]

variable [Field C] [LinearOrder C]

theorem readWays_eq : readWays iter bbox opts uninit doc =
    (((children "way" doc).filter (wayWritten iter bbox opts uninit doc)).map XmlElement.id,
      ((children "way" doc).filter (wayWritten iter bbox opts uninit doc)).flatMap
        XmlElement.nds) := by
  rw [readWays]
  induction children "way" doc using List.reverseRecOn with
  | nil => rfl
  | append_singleton xs x ih =>
    rw [List.foldl_append, ih, List.foldl_cons, List.foldl_nil, List.filter_append,
      List.filter_singleton]
    cases wayWritten iter bbox opts uninit doc x with
    | true => simp
    | false => simp

def referredTo (iter : AttributeMap → AttributeMap) (bbox : BoundingBox C)
    (opts : List (OsmReadOptions C)) (uninit : ℕ → UInt64) (doc : List (XmlElement C))
    (nid : Osmid) : Bool :=
  (children "way" doc).any fun w => wayWritten iter bbox opts uninit doc w && hasId w.nds nid

/-- `keep_node` with the nodes of the kept ways in the node map. -/
def nodeWritten (iter : AttributeMap → AttributeMap) (bbox : BoundingBox C)
    (opts : List (OsmReadOptions C)) (uninit : ℕ → UInt64) (doc : List (XmlElement C))
    (x : XmlElement C) : Bool :=
  let rs := relationsFiltered iter opts uninit doc
  keepNode iter (mergedFilter opts) x.id (readAttrs (mergedKeys opts).nodes x.tags)
    (referredTo iter bbox opts uninit doc x.id) false rs.nodeRels
    (inBBox bbox doc (writeFilter opts)) rs.flat

theorem hasId_refs (nid : Osmid) : hasId (readWays iter bbox opts uninit doc).2 nid =
    referredTo iter bbox opts uninit doc nid := by
  rw [Bool.eq_iff_iff, hasId_iff, readWays_eq, referredTo, List.any_eq_true, List.mem_flatMap]
  simp only [List.mem_filter, Bool.and_eq_true, hasId_iff, and_assoc]

theorem nodeTest_refs : nodeTest iter bbox opts uninit doc (readWays iter bbox opts uninit doc).2 =
    nodeWritten iter bbox opts uninit doc := by
  funext x
  rw [nodeTest, hasId_refs]
  rfl

theorem nodeTest_congr {nds nds' : List Osmid} {x : XmlElement C} (h : x.id ∈ nds ↔ x.id ∈ nds') :
    nodeTest iter bbox opts uninit doc nds x = nodeTest iter bbox opts uninit doc nds' x := by
  have hsame : hasId nds x.id = hasId nds' x.id := by
    rw [Bool.eq_iff_iff, hasId_iff, hasId_iff, h]
  unfold nodeTest
  rw [hsame]

theorem readWriteNodes_eq (hids : UniqueIds doc) (nds : List Osmid) :
    readWriteNodes iter bbox opts uninit doc nds =
      (nds ++ ((children "node" doc).filter (nodeTest iter bbox opts uninit doc nds)).map
          XmlElement.id,
        ((children "node" doc).filter (nodeTest iter bbox opts uninit doc nds)).map
          (nodeElement iter opts)) := by
  rw [readWriteNodes]
  have hnodup := hids.nodes
  generalize children "node" doc = xs at hnodup
  induction xs using List.reverseRecOn with
  | nil => simp
  | append_singleton xs x ih =>
    rw [List.map_append, List.nodup_append] at hnodup
    have hsame : x.id ∈ nds ++ (xs.filter (nodeTest iter bbox opts uninit doc nds)).map
        XmlElement.id ↔ x.id ∈ nds := by
      rw [List.mem_append]
      refine or_iff_left fun hmem => ?_
      obtain ⟨y, hy, heq⟩ := List.mem_map.1 hmem
      exact hnodup.2.2 y.id (List.mem_map_of_mem (List.mem_of_mem_filter hy)) x.id (by simp) heq
    rw [List.foldl_append, ih hnodup.1, List.foldl_cons, List.foldl_nil, List.filter_append,
      List.filter_singleton, nodeTest_congr hsame]
    cases nodeTest iter bbox opts uninit doc nds x with
    | true => simp
    | false => simp

omit [Field C] [LinearOrder C] in
theorem children_map {name : String} {f : XmlElement C → XmlElement C} (xs : List (XmlElement C))
    (h : ∀ x, (f x).name = name) (other : String) :
    children other (xs.map f) = if name = other then xs.map f else [] := by
  split
  · rename_i heq
    refine List.filter_eq_self.2 fun y hy => ?_
    obtain ⟨x, -, rfl⟩ := List.mem_map.1 hy
    exact decide_eq_true ((h x).trans heq)
  · rename_i hne
    refine List.filter_eq_nil_iff.2 fun y hy hname => ?_
    obtain ⟨x, -, rfl⟩ := List.mem_map.1 hy
    exact hne ((h x).symm.trans (of_decide_eq_true hname))

omit [Field C] [LinearOrder C] in
theorem children_append (name : String) (xs ys : List (XmlElement C)) :
    children name (xs ++ ys) = children name xs ++ children name ys := List.filter_append ..

omit [LinearOrder C] in
theorem children_relations (ways nodes : List Osmid) (name : String) :
    children name (readWriteRelations iter opts doc ways nodes) =
      if name = "relation" then readWriteRelations iter opts doc ways nodes else [] := by
  have hname : ∀ x ∈ readWriteRelations iter opts doc ways nodes, x.name = "relation" := by
    intro x hx
    obtain ⟨y, -, hy⟩ := List.mem_filterMap.1 hx
    rw [relationElement] at hy
    split at hy
    · cases hy
    · rw [← Option.some.inj hy]
  rw [children]
  split
  · rename_i heq
    exact List.filter_eq_self.2 fun x hx => decide_eq_true ((hname x hx).trans heq.symm)
  · rename_i hne
    exact List.filter_eq_nil_iff.2 fun x hx h => hne ((of_decide_eq_true h).symm.trans (hname x hx))

theorem children_filterWrite (hids : UniqueIds doc) (name : String) :
    children name (filterWrite iter bbox opts uninit doc) =
      if name = "bounds" then [boundsElement]
      else if name = "node" then
        ((children "node" doc).filter (nodeWritten iter bbox opts uninit doc)).map
          (nodeElement iter opts)
      else if name = "way" then
        readWriteWays iter opts doc (readWays iter bbox opts uninit doc).1
      else if name = "relation" then
        readWriteRelations iter opts doc (readWays iter bbox opts uninit doc).1
          ((readWays iter bbox opts uninit doc).2 ++
            ((children "node" doc).filter (nodeWritten iter bbox opts uninit doc)).map
              XmlElement.id)
      else [] := by
  have hbounds : children name [(boundsElement : XmlElement C)] =
      if name = "bounds" then [boundsElement] else [] := by
    rw [children, List.filter_singleton]
    by_cases h : name = "bounds"
    · rw [h]
      rfl
    · simp [h, boundsElement, eq_comm]
  have hnodes : readWriteNodes iter bbox opts uninit doc (readWays iter bbox opts uninit doc).2 =
      ((readWays iter bbox opts uninit doc).2 ++
          ((children "node" doc).filter (nodeWritten iter bbox opts uninit doc)).map XmlElement.id,
        ((children "node" doc).filter (nodeWritten iter bbox opts uninit doc)).map
          (nodeElement iter opts)) := by
    rw [readWriteNodes_eq hids, nodeTest_refs]
  rw [filterWrite, hnodes, ← List.singleton_append, children_append, hbounds,
    children_append, children_append, children_relations, readWriteWays,
    children_map _ (fun _ => rfl : ∀ x, (nodeElement iter opts x).name = "node"),
    children_map _ (fun _ => rfl : ∀ x, (wayElement iter opts x).name = "way")]
  simp only [eq_comm (b := name)]
  by_cases h : name = "bounds"
  · subst h
    simp
  · by_cases h' : name = "node"
    · subst h'
      simp
    · by_cases h'' : name = "way"
      · subst h''
        simp
      · simp [h, h', h'']

end passes

section ways
variable {C : Type*} [Field C] [LinearOrder C] {iter : AttributeMap → AttributeMap}
  {bbox : BoundingBox C} {opts : List (OsmReadOptions C)} {uninit : ℕ → UInt64}
  {doc : List (XmlElement C)}

theorem mem_readWays {id : Osmid} : id ∈ (readWays iter bbox opts uninit doc).1 ↔
    ∃ w ∈ children "way" doc, wayWritten iter bbox opts uninit doc w = true ∧ w.id = id := by
  rw [readWays_eq, List.mem_map]
  simp only [List.mem_filter, and_assoc]

/-- If no id is shared, the loop over all children writes the kept ways. -/
theorem readWriteWays_eq (hids : UniqueIds doc) (hshared : NoSharedId iter bbox opts uninit doc) :
    readWriteWays iter opts doc (readWays iter bbox opts uninit doc).1 =
      ((children "way" doc).filter (wayWritten iter bbox opts uninit doc)).map
        (wayElement iter opts) := by
  rw [readWriteWays, children, List.filter_filter]
  congr 1
  refine List.filter_congr fun x hx => ?_
  rw [Bool.eq_iff_iff, hasId_iff, mem_readWays, Bool.and_eq_true, decide_eq_true_iff]
  constructor
  · intro hex
    obtain ⟨w, hw, hwritten, hid⟩ := hex
    have hname : x.name = "way" := by
      by_contra hne
      exact hshared x hx hne w hw hwritten hid.symm
    rw [List.inj_on_of_nodup_map hids.ways (mem_children.2 ⟨hx, hname⟩) hw hid.symm]
    exact ⟨hwritten, (mem_children.1 hw).2⟩
  · intro h
    exact ⟨x, mem_children.2 ⟨hx, h.2⟩, h.1, rfl⟩

/-- An element that shares its id is written as one more way. -/
theorem waysOfInput_iff (hids : UniqueIds doc) :
    WaysOfInput iter bbox opts uninit doc ↔ NoSharedId iter bbox opts uninit doc := by
  rw [WaysOfInput, children_filterWrite hids, if_neg (by decide), if_neg (by decide), if_pos rfl]
  constructor
  · intro hsub x hx hname w hw hwritten hid
    have hmap := hsub.map XmlElement.id
    rw [readWriteWays, List.map_map, List.map_map] at hmap
    have hnodup := hmap.nodup hids.ways
    have hkept : w.id ∈ (readWays iter bbox opts uninit doc).1 :=
      mem_readWays.2 ⟨w, hw, hwritten, rfl⟩
    have heq : x = w := List.inj_on_of_nodup_map hnodup
      (List.mem_filter.2 ⟨hx, hasId_iff.2 (hid ▸ hkept)⟩)
      (List.mem_filter.2 ⟨(mem_children.1 hw).1, hasId_iff.2 hkept⟩) hid
    exact hname (heq ▸ (mem_children.1 hw).2)
  · intro hshared
    rw [readWriteWays_eq hids hshared]
    exact List.filter_sublist.map _

end ways

end Pfaedle.OsmBuilder

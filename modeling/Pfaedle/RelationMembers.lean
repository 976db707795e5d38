import Pfaedle.SameEntries
import Pfaedle.OsmRelations

set_option autoImplicit false

/-!
# The relations of a member

For nodes and ways alike, the relation pass lists the relations of a member in the order of the
document, and the restrictions of the document at a node.
-/
namespace Pfaedle.OsmRelations
open Osm KeptKeys

inductive MemberKind
  | node
  | way
deriving DecidableEq

def MemberKind.type : MemberKind → String
  | .node => "node"
  | .way => "way"

def memberIds (kind : MemberKind) (xml : XmlRelation) : List Osmid :=
  (xml.members.filter fun m => m.type = kind.type).map Member.ref

def Relations.relMap (rs : Relations) : MemberKind → Osmid → List ℕ
  | .node => rs.nodeRels
  | .way => rs.wayRels

section places
variable (iter : AttributeMap → AttributeMap) (filter : OsmFilter) (keepAttrs : List String)
  (uninit : ℕ → UInt64) (kind : MemberKind) (id : Osmid)

theorem register_eq (map : Osmid → List ℕ) (index : ℕ) (ids : List Osmid) :
    register map index ids id = map id ++ List.replicate (ids.count id) index := by
  induction ids generalizing map with
  | nil => simp [register]
  | cons x ids ih =>
    change register (Function.update map x (map x ++ [index])) index ids id = _
    rw [ih]
    by_cases hx : x = id
    · subst hx
      rw [Function.update_self, List.count_cons_self, List.append_assoc, List.singleton_append]
      rfl
    · rw [Function.update_of_ne (Ne.symm hx), List.count_cons_of_ne hx]

theorem addRelation_relMap (rs : Relations) (xml : XmlRelation) :
    (addRelation iter filter keepAttrs uninit rs xml).relMap kind =
      register (rs.relMap kind) rs.rels.length (memberIds kind xml) := by
  cases kind with
  | node => rfl
  | way => rfl

theorem readRelations_concat (xs : List XmlRelation) (xml : XmlRelation) :
    readRelations iter filter keepAttrs uninit (xs ++ [xml]) =
      addRelation iter filter keepAttrs uninit (readRelations iter filter keepAttrs uninit xs)
        xml := by
  rw [readRelations, List.foldl_append]
  rfl

theorem mem_relMap (xs : List XmlRelation) (i : ℕ) :
    i ∈ (readRelations iter filter keepAttrs uninit xs).relMap kind id ↔
      ∃ xml, xs[i]? = some xml ∧ id ∈ memberIds kind xml := by
  induction xs using List.reverseRecOn with
  | nil =>
    cases kind with
    | node => simp [readRelations, Relations.empty, Relations.relMap]
    | way => simp [readRelations, Relations.empty, Relations.relMap]
  | append_singleton xs xml ih =>
    rw [readRelations_concat, addRelation_relMap, mem_register, ih, exists_getElem?_concat,
      (readRelations_registered iter filter keepAttrs uninit xs).length]

/-- The attributes of the relations that have the member, one for each time. -/
theorem relsOf_readRelations (xs : List XmlRelation) :
    relsOf id ((readRelations iter filter keepAttrs uninit xs).relMap kind)
        (readRelations iter filter keepAttrs uninit xs).rels =
      xs.flatMap fun xml =>
        List.replicate ((memberIds kind xml).count id) (readAttrs keepAttrs xml.tags) := by
  induction xs using List.reverseRecOn with
  | nil =>
    cases kind with
    | node => rfl
    | way => rfl
  | append_singleton xs xml ih =>
    have hlength := (readRelations_registered iter filter keepAttrs uninit xs).length
    have hrels : (readRelations iter filter keepAttrs uninit (xs ++ [xml])).rels =
        (readRelations iter filter keepAttrs uninit xs).rels ++ [readAttrs keepAttrs xml.tags] := by
      rw [readRelations_concat]
      rfl
    have hold : ∀ i ∈ (readRelations iter filter keepAttrs uninit xs).relMap kind id,
        ((readRelations iter filter keepAttrs uninit xs).rels ++
          [readAttrs keepAttrs xml.tags])[i]? =
            (readRelations iter filter keepAttrs uninit xs).rels[i]? := by
      intro i hi
      obtain ⟨y, hy, -⟩ := (mem_relMap iter filter keepAttrs uninit kind id xs i).1 hi
      obtain ⟨hlt, -⟩ := List.getElem?_eq_some_iff.1 hy
      exact List.getElem?_append_left (hlength ▸ hlt)
    rw [relsOf, hrels, readRelations_concat, addRelation_relMap, register_eq, List.filterMap_append,
      List.filterMap_congr hold, ← relsOf, ih, List.flatMap_append, List.flatMap_singleton]
    congr 1
    exact List.filterMap_replicate_of_some List.getElem?_concat_length

theorem shouldKeep_iff (xs : List XmlRelation) :
    shouldKeepRelation id ((readRelations iter filter keepAttrs uninit xs).relMap kind)
        (readRelations iter filter keepAttrs uninit xs).flat = true ↔
      ∃ i xml, xs[i]? = some xml ∧ id ∈ memberIds kind xml ∧
        readFlags iter filter keepAttrs uninit i xml &&& relNoDown = 0 := by
  rw [shouldKeepRelation_places (mem_relMap iter filter keepAttrs uninit kind id xs)
    (readRelations_registered iter filter keepAttrs uninit xs).flat]
  simp only [ne_eq, not_not]

end places

section decided
variable (iter : AttributeMap → AttributeMap) (filter : OsmFilter) (keepAttrs : List String)
  (kind : MemberKind) (id : Osmid) (xs : List XmlRelation)

def KeptMember : Prop :=
  ∃ xml ∈ xs, id ∈ memberIds kind xml ∧ keepsWays iter filter keepAttrs xml

def Decided : Prop :=
  KeptMember iter filter keepAttrs kind id xs ∨
    ∀ xml ∈ xs, id ∈ memberIds kind xml → isKept iter filter keepAttrs xml

variable {iter filter keepAttrs kind id xs} {uninit : ℕ → UInt64}

theorem KeptMember.shouldKeep (h : KeptMember iter filter keepAttrs kind id xs) :
    shouldKeepRelation id ((readRelations iter filter keepAttrs uninit xs).relMap kind)
      (readRelations iter filter keepAttrs uninit xs).flat = true := by
  obtain ⟨xml, hxml, hid, hkept, hflag⟩ := h
  obtain ⟨i, hi⟩ := List.getElem?_of_mem hxml
  rw [shouldKeep_iff]
  exact ⟨i, xml, hi, hid, by rw [readFlags_kept hkept]; exact hflag⟩

theorem Decided.shouldKeep_iff (h : Decided iter filter keepAttrs kind id xs) :
    shouldKeepRelation id ((readRelations iter filter keepAttrs uninit xs).relMap kind)
        (readRelations iter filter keepAttrs uninit xs).flat = true ↔
      KeptMember iter filter keepAttrs kind id xs := by
  refine ⟨fun hshould => ?_, KeptMember.shouldKeep⟩
  cases h with
  | inl hkept => exact hkept
  | inr hall =>
    rw [OsmRelations.shouldKeep_iff] at hshould
    obtain ⟨i, xml, hxml, hid, hflag⟩ := hshould
    have hmem := List.mem_of_getElem? hxml
    have hkept := hall xml hmem hid
    rw [readFlags_kept hkept] at hflag
    exact ⟨xml, hmem, hid, hkept, hflag⟩

end decided

section restrictions
variable (iter : AttributeMap → AttributeMap) (filter : OsmFilter) (keepAttrs : List String)
  (uninit : ℕ → UInt64)

def rulesAt (rests : Restrictions) : Bool → Osmid → List Restriction
  | true => rests.pos
  | false => rests.neg

/-- The rule that a relation states: whether it demands, its node and its ways. -/
def statedRule (rel : OsmRelation) : Option (Bool × Osmid × Restriction) :=
  if rel.attrs.lookup "type" ≠ some "restriction" then none
  else if filter.posRestr iter rel.attrs = 0 ∧ filter.negRestr iter rel.attrs = 0 then none
  else
    (onlyWay "from" rel).bind fun frm => (onlyWay "to" rel).bind fun to_ =>
      if frm ≠ 0 ∧ to_ ≠ 0 ∧ viaNode rel ≠ 0 then
        some (decide (filter.posRestr iter rel.attrs ≠ 0), viaNode rel, ⟨frm, to_⟩)
      else none

def statedAt (rel : OsmRelation) (pos : Bool) (nid : Osmid) : List Restriction :=
  (statedRule iter filter rel).elim [] fun r => if r.1 = pos ∧ r.2.1 = nid then [r.2.2] else []

theorem rulesAt_pos (rests : Restrictions) (via nid : Osmid) (r : Restriction) (pos : Bool) :
    rulesAt { rests with pos := Function.update rests.pos via (rests.pos via ++ [r]) } pos nid =
      rulesAt rests pos nid ++ if true = pos ∧ via = nid then [r] else [] := by
  cases pos with
  | false => simp [rulesAt]
  | true =>
    by_cases h : via = nid
    · simp [rulesAt, h]
    · simp [rulesAt, h, Function.update_of_ne (Ne.symm h)]

theorem rulesAt_neg (rests : Restrictions) (via nid : Osmid) (r : Restriction) (pos : Bool) :
    rulesAt { rests with neg := Function.update rests.neg via (rests.neg via ++ [r]) } pos nid =
      rulesAt rests pos nid ++ if false = pos ∧ via = nid then [r] else [] := by
  cases pos with
  | true => simp [rulesAt]
  | false =>
    by_cases h : via = nid
    · simp [rulesAt, h]
    · simp [rulesAt, h, Function.update_of_ne (Ne.symm h)]

theorem rulesAt_readRestrictions (rel : OsmRelation) (rests : Restrictions) (pos : Bool)
    (nid : Osmid) :
    rulesAt (readRestrictions iter filter rel rests) pos nid =
      rulesAt rests pos nid ++ statedAt iter filter rel pos nid := by
  unfold readRestrictions statedAt statedRule
  by_cases htype : rel.attrs.lookup "type" ≠ some "restriction"
  · rw [if_pos htype, if_pos htype]
    simp
  rw [if_neg htype, if_neg htype]
  by_cases hnone : filter.posRestr iter rel.attrs = 0 ∧ filter.negRestr iter rel.attrs = 0
  · simp [hnone]
  simp only [if_neg hnone]
  cases onlyWay "from" rel with
  | none => simp
  | some frm =>
    cases onlyWay "to" rel with
    | none => simp
    | some to_ =>
      simp only [Option.bind_some]
      by_cases hids : frm ≠ 0 ∧ to_ ≠ 0 ∧ viaNode rel ≠ 0
      · rw [if_pos hids, if_pos hids, Option.elim_some]
        by_cases hpos : filter.posRestr iter rel.attrs ≠ 0
        · rw [if_pos hpos, rulesAt_pos, decide_eq_true hpos]
        · rw [if_neg hpos, rulesAt_neg, decide_eq_false hpos]
      · rw [if_neg hids, if_neg hids, Option.elim_none, List.append_nil]

theorem rulesAt_readRelations (xs : List XmlRelation) (pos : Bool) (nid : Osmid) :
    rulesAt (readRelations iter filter keepAttrs uninit xs).rests pos nid =
      xs.flatMap fun xml => statedAt iter filter (readRelation iter filter keepAttrs xml) pos nid := by
  induction xs using List.reverseRecOn with
  | nil =>
    cases pos with
    | true => rfl
    | false => rfl
  | append_singleton xs xml ih =>
    rw [readRelations_concat, List.flatMap_append, List.flatMap_singleton, ← ih]
    exact rulesAt_readRestrictions iter filter _ _ pos nid

end restrictions

end Pfaedle.OsmRelations

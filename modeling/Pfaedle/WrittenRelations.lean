import Pfaedle.RelationMembers

set_option autoImplicit false

/-!
# Relations that have been written

A written relation has the members that have been written, and more attributes than an option
keeps. A relation without any members is left out.
-/
namespace Pfaedle.OsmRelations
open Osm KeptKeys

section model
variable (iter : AttributeMap → AttributeMap) (more : List String)
  (real : MemberKind → Osmid → Bool)

def realOf (kind : MemberKind) (xml : XmlRelation) : List Member :=
  (xml.members.filter fun m => m.type = kind.type).filter fun m => real kind m.ref

def onlyReal (xml : XmlRelation) : XmlRelation :=
  { xml with members := realOf real .node xml ++ realOf real .way xml }

def rewriteRelation (xml : XmlRelation) : Option XmlRelation :=
  if (onlyReal real xml).members.isEmpty then none
  else some { onlyReal real xml with tags := iter (readAttrs more xml.tags) }

end model

section members
variable {iter : AttributeMap → AttributeMap} {more : List String}
  {real : MemberKind → Osmid → Bool} {xml xml' : XmlRelation} {kind : MemberKind} {id : Osmid}

theorem type_inj {kind kind' : MemberKind} (h : kind.type = kind'.type) : kind = kind' := by
  cases kind with
  | node =>
    cases kind' with
    | node => rfl
    | way => exact absurd h (by decide)
  | way =>
    cases kind' with
    | node => exact absurd h (by decide)
    | way => rfl

theorem realOf_type (kind kind' : MemberKind) (xml : XmlRelation) :
    ((realOf real kind xml).filter fun m => m.type = kind'.type) =
      if kind = kind' then realOf real kind xml else [] := by
  have htype : ∀ m ∈ realOf real kind xml, m.type = kind.type := fun m hm =>
    of_decide_eq_true (List.mem_filter.1 (List.mem_of_mem_filter hm)).2
  split
  · rename_i heq
    exact List.filter_eq_self.2 fun m hm => decide_eq_true (heq ▸ htype m hm)
  · rename_i hne
    refine List.filter_eq_nil_iff.2 fun m hm h => hne (type_inj ?_)
    exact (htype m hm).symm.trans (of_decide_eq_true h)

theorem members_onlyReal (kind : MemberKind) (xml : XmlRelation) :
    ((onlyReal real xml).members.filter fun m => m.type = kind.type) = realOf real kind xml := by
  rw [onlyReal, List.filter_append, realOf_type, realOf_type]
  cases kind with
  | node => simp
  | way => simp

theorem memberIds_onlyReal (kind : MemberKind) (xml : XmlRelation) :
    memberIds kind (onlyReal real xml) = (memberIds kind xml).filter (real kind) := by
  rw [memberIds, members_onlyReal, realOf, memberIds, List.filter_map]
  rfl

theorem count_onlyReal (hreal : real kind id = true) :
    (memberIds kind (onlyReal real xml)).count id = (memberIds kind xml).count id := by
  rw [memberIds_onlyReal, List.count_filter hreal]

theorem mem_onlyReal (hreal : real kind id = true) :
    id ∈ memberIds kind (onlyReal real xml) ↔ id ∈ memberIds kind xml := by
  rw [memberIds_onlyReal, List.mem_filter]
  simp [hreal]

theorem rewriteRelation_none (h : rewriteRelation iter more real xml = none) :
    (onlyReal real xml).members = [] := by
  rw [rewriteRelation] at h
  split at h
  · exact List.isEmpty_iff.1 ‹_›
  · cases h

theorem rewriteRelation_some (h : rewriteRelation iter more real xml = some xml') :
    xml' = { onlyReal real xml with tags := iter (readAttrs more xml.tags) } := by
  rw [rewriteRelation] at h
  split at h
  · cases h
  · exact (Option.some.inj h).symm

theorem not_mem_of_none (h : rewriteRelation iter more real xml = none)
    (hreal : real kind id = true) : id ∉ memberIds kind xml := by
  rw [← mem_onlyReal hreal, memberIds, rewriteRelation_none h]
  exact List.not_mem_nil

end members

section reread
variable {iter : AttributeMap → AttributeMap} (hiter : ∀ attrs, (iter attrs).Perm attrs)
  {keepAttrs more : List String} (hmore : ∀ key ∈ keepAttrs, key ∈ more)
  {real : MemberKind → Osmid → Bool} {kind : MemberKind} {id : Osmid} (hreal : real kind id = true)
  {xs : List XmlRelation}

include hreal in
theorem exists_rewritten {P : XmlRelation → Prop}
    (hP : ∀ xml ∈ xs, id ∈ memberIds kind xml → ∀ xml',
      rewriteRelation iter more real xml = some xml' → (P xml' ↔ P xml)) :
    (∃ xml' ∈ xs.filterMap (rewriteRelation iter more real), id ∈ memberIds kind xml' ∧ P xml') ↔
      ∃ xml ∈ xs, id ∈ memberIds kind xml ∧ P xml := by
  constructor
  · intro hex
    obtain ⟨xml', hmem, hid, hxml'⟩ := hex
    obtain ⟨xml, hxml, hwrite⟩ := List.mem_filterMap.1 hmem
    rw [rewriteRelation_some hwrite] at hid
    have hid := (mem_onlyReal hreal).1 hid
    exact ⟨xml, hxml, hid, (hP xml hxml hid xml' hwrite).1 hxml'⟩
  · intro hex
    obtain ⟨xml, hxml, hid, hp⟩ := hex
    cases hwrite : rewriteRelation iter more real xml with
    | none => exact absurd hid (not_mem_of_none hwrite hreal)
    | some xml' =>
      refine ⟨xml', List.mem_filterMap.2 ⟨xml, hxml, hwrite⟩, ?_, (hP xml hxml hid xml' hwrite).2 hp⟩
      rw [rewriteRelation_some hwrite]
      exact (mem_onlyReal hreal).2 hid

include hiter hmore

theorem attrs_rewritten {xml xml' : XmlRelation}
    (h : rewriteRelation iter more real xml = some xml') :
    SameEntries (readAttrs keepAttrs xml'.tags) (readAttrs keepAttrs xml.tags) := by
  rw [rewriteRelation_some h]
  exact SameEntries.reread hiter hmore xml.tags

include hreal

theorem sameRels_rewritten (xs : List XmlRelation) :
    List.Forall₂ SameEntries
      ((xs.filterMap (rewriteRelation iter more real)).flatMap fun xml =>
        List.replicate ((memberIds kind xml).count id) (readAttrs keepAttrs xml.tags))
      (xs.flatMap fun xml =>
        List.replicate ((memberIds kind xml).count id) (readAttrs keepAttrs xml.tags)) := by
  induction xs with
  | nil => exact List.Forall₂.nil
  | cons xml xs ih =>
    rw [List.filterMap_cons, List.flatMap_cons]
    cases hwrite : rewriteRelation iter more real xml with
    | none =>
      rw [List.count_eq_zero_of_not_mem (not_mem_of_none hwrite hreal)]
      exact ih
    | some xml' =>
      have hcount : (memberIds kind xml').count id = (memberIds kind xml).count id := by
        rw [rewriteRelation_some hwrite]
        exact count_onlyReal hreal
      rw [List.flatMap_cons, hcount]
      refine List.rel_append ?_ ih
      induction (memberIds kind xml).count id with
      | zero => exact List.Forall₂.nil
      | succ n ihn => exact List.Forall₂.cons (attrs_rewritten hiter hmore hwrite) ihn

end reread

section decided
variable {iter : AttributeMap → AttributeMap} (hiter : ∀ attrs, (iter attrs).Perm attrs)
  {keepAttrs more : List String} (hmore : ∀ key ∈ keepAttrs, key ∈ more)
  {real : MemberKind → Osmid → Bool} {kind : MemberKind} {id : Osmid}
  {filter : OsmFilter} (hkeep : ∀ key, ∀ r ∈ filter.keepRules key, r.2 ≠ 0)
  (hdrop : ∀ key, ∀ r ∈ filter.dropRules key, r.2 ≠ 0) {xs : List XmlRelation}
include hiter hmore hkeep hdrop

theorem isKept_rewritten {xml xml' : XmlRelation}
    (h : rewriteRelation iter more real xml = some xml') :
    isKept iter filter keepAttrs xml' ↔ isKept iter filter keepAttrs xml := by
  have hattrs := attrs_rewritten hiter hmore h
  have hnil : readAttrs keepAttrs xml'.tags = [] ↔ readAttrs keepAttrs xml.tags = [] := by
    rw [← List.length_eq_zero_iff, ← List.length_eq_zero_iff, hattrs.perm.length_eq]
  have hid : xml'.id = xml.id := by
    rw [rewriteRelation_some h]
    rfl
  have hdropped : filter.drop iter (readAttrs keepAttrs xml'.tags) .rel = 0 ↔
      filter.drop iter (readAttrs keepAttrs xml.tags) .rel = 0 :=
    not_iff_not.1 (hattrs.contained_iff hiter hdrop .rel)
  have hkept : filter.keep iter (readAttrs keepAttrs xml'.tags) .rel ≠ 0 ↔
      filter.keep iter (readAttrs keepAttrs xml.tags) .rel ≠ 0 :=
    hattrs.contained_iff hiter hkeep .rel
  simp only [isKept, relationKept, decide_eq_true_iff, ne_eq, hnil, hid, hdropped]
  simp only [ne_eq] at hkept
  rw [hkept]

variable (hreal : real kind id = true)
  (hflat : ∀ xml ∈ xs, id ∈ memberIds kind xml → isKept iter filter keepAttrs xml →
    SameFlags (· &&& relNoDown) filter.keepRules .rel (readAttrs keepAttrs xml.tags))
include hreal

include hflat in
theorem keptMember_rewritten :
    KeptMember iter filter keepAttrs kind id (xs.filterMap (rewriteRelation iter more real)) ↔
      KeptMember iter filter keepAttrs kind id xs := by
  refine exists_rewritten hreal fun xml hxml hid xml' h => ?_
  rw [keepsWays, keepsWays, isKept_rewritten hiter hmore hkeep hdrop h]
  refine and_congr_right fun hkept => ?_
  have hattrs := attrs_rewritten hiter hmore h
  rw [OsmFilter.keep, OsmFilter.keep,
    hattrs.flags hiter (· &&& relNoDown) (hflat xml hxml hid hkept)]

theorem allKept_rewritten :
    (∀ xml' ∈ xs.filterMap (rewriteRelation iter more real), id ∈ memberIds kind xml' →
        isKept iter filter keepAttrs xml') ↔
      ∀ xml ∈ xs, id ∈ memberIds kind xml → isKept iter filter keepAttrs xml := by
  have hnot : (∃ xml' ∈ xs.filterMap (rewriteRelation iter more real), id ∈ memberIds kind xml' ∧
      ¬ isKept iter filter keepAttrs xml') ↔
        ∃ xml ∈ xs, id ∈ memberIds kind xml ∧ ¬ isKept iter filter keepAttrs xml :=
    exists_rewritten hreal fun xml _ _ xml' h =>
      not_congr (isKept_rewritten hiter hmore hkeep hdrop h)
  constructor
  · intro h xml hxml hid
    by_contra hunkept
    obtain ⟨xml', hxml', hid', hunkept'⟩ := hnot.2 ⟨xml, hxml, hid, hunkept⟩
    exact hunkept' (h xml' hxml' hid')
  · intro h xml' hxml' hid
    by_contra hunkept
    obtain ⟨xml, hxml, hid', hunkept'⟩ := hnot.1 ⟨xml', hxml', hid, hunkept⟩
    exact hunkept' (h xml hxml hid')

include hflat in
theorem decided_rewritten :
    Decided iter filter keepAttrs kind id (xs.filterMap (rewriteRelation iter more real)) ↔
      Decided iter filter keepAttrs kind id xs :=
  or_congr (keptMember_rewritten hiter hmore hkeep hdrop hreal hflat)
    (allKept_rewritten hiter hmore hkeep hdrop hreal)

end decided

section restrictions
variable {iter : AttributeMap → AttributeMap} (hiter : ∀ attrs, (iter attrs).Perm attrs)
  {keepAttrs more : List String} (hmore : ∀ key ∈ keepAttrs, key ∈ more)
  {real : MemberKind → Osmid → Bool} {filter : OsmFilter}
  (hpos : ∀ key, ∀ r ∈ filter.posRestrRules key, r.2 ≠ 0)
  (hneg : ∀ key, ∀ r ∈ filter.negRestrRules key, r.2 ≠ 0)
  (hno : ∀ key, ∀ r ∈ filter.noRestrRules key, r.2 ≠ 0)

/-- The rules that `process_restrictions` looks at for a way. -/
def concerning (wid : Osmid) (rules : List Restriction) : List Restriction :=
  rules.filter fun r => r.eFrom = wid ∨ r.eTo = wid

include hiter hmore hpos hneg hno in
theorem statedRule_rewritten {xml xml' : XmlRelation}
    (h : rewriteRelation iter more real xml = some xml') :
    statedRule iter filter (readRelation iter filter keepAttrs xml') =
      statedRule iter filter (readRelation iter filter keepAttrs (onlyReal real xml)) := by
  have hattrs := attrs_rewritten hiter hmore h
  have hposKept : filter.posRestr iter (readAttrs keepAttrs xml'.tags) ≠ 0 ↔
      filter.posRestr iter (readAttrs keepAttrs xml.tags) ≠ 0 :=
    hattrs.guarded_iff hiter hno hpos .all
  have hnegKept : filter.negRestr iter (readAttrs keepAttrs xml'.tags) ≠ 0 ↔
      filter.negRestr iter (readAttrs keepAttrs xml.tags) ≠ 0 :=
    hattrs.guarded_iff hiter hno hneg .all
  have hmembers : xml'.members = (onlyReal real xml).members := by
    rw [rewriteRelation_some h]
  have htags : (onlyReal real xml).tags = xml.tags := rfl
  simp only [ne_eq, not_iff_not] at hposKept hnegKept
  simp only [statedRule, onlyWay, viaNode, readRelation, hmembers, htags, hattrs.lookup, hposKept,
    hnegKept, ne_eq]

theorem statedRule_nil {xml : XmlRelation} (h : xml.members = []) :
    statedRule iter filter (readRelation iter filter keepAttrs xml) = none := by
  simp [statedRule, readRelation, h, onlyWay]

include hiter hmore hpos hneg hno in
/-- The rules for a way at a node, where every relation states them with its real members, too. -/
theorem concerning_rewritten {xs : List XmlRelation} {pos : Bool} {nid wid : Osmid}
    (hstated : ∀ xml ∈ xs,
      concerning wid (statedAt iter filter (readRelation iter filter keepAttrs (onlyReal real xml))
          pos nid) =
        concerning wid (statedAt iter filter (readRelation iter filter keepAttrs xml) pos nid)) :
    concerning wid ((xs.filterMap (rewriteRelation iter more real)).flatMap fun xml =>
        statedAt iter filter (readRelation iter filter keepAttrs xml) pos nid) =
      concerning wid (xs.flatMap fun xml =>
        statedAt iter filter (readRelation iter filter keepAttrs xml) pos nid) := by
  induction xs with
  | nil => rfl
  | cons xml xs ih =>
    have hrest := ih fun y hy => hstated y (List.mem_cons_of_mem _ hy)
    have hhead := hstated xml List.mem_cons_self
    unfold concerning at hrest hhead ⊢
    rw [List.filterMap_cons, List.flatMap_cons, List.filter_append, ← hhead, ← hrest]
    cases hwrite : rewriteRelation iter more real xml with
    | none =>
      have hnone : statedRule iter filter
          (readRelation iter filter keepAttrs (onlyReal real xml)) = none :=
        statedRule_nil (rewriteRelation_none hwrite)
      simp [statedAt, hnone]
    | some xml' =>
      have hrule := statedRule_rewritten hiter hmore hpos hneg hno hwrite
      rw [List.flatMap_cons, List.filter_append]
      unfold statedAt
      rw [hrule]

end restrictions

end Pfaedle.OsmRelations

import Pfaedle.KeptKeys
import Pfaedle.TagOrder

set_option autoImplicit false

/-!
# Attribute maps with the same entries

Attributes that are written out and read again come back with the same entries, and maybe in
another order.
-/
namespace Pfaedle.Osm

section entries
variable {attrs : AttributeMap} {keys : List String} {tags : List (String × String)}

def UniqueKeys (attrs : AttributeMap) : Prop := (attrs.map Prod.fst).Nodup

theorem UniqueKeys.mem_iff (h : UniqueKeys attrs) {key v : String} :
    (key, v) ∈ attrs ↔ attrs.lookup key = some v := by
  induction attrs with
  | nil => simp
  | cons kv attrs ih =>
    obtain ⟨k, u⟩ := kv
    rw [UniqueKeys, List.map_cons, List.nodup_cons] at h
    by_cases hk : key = k
    · subst hk
      have hnot : (key, v) ∉ attrs := fun hmem => h.1 (List.mem_map.2 ⟨_, hmem, rfl⟩)
      simp [hnot, eq_comm]
    · rw [lookup_cons_ne hk, ← ih h.2]
      simp [hk]

theorem setAttr_keys (attrs : AttributeMap) (key v : String) :
    (setAttr attrs key v).map Prod.fst =
      if (attrs.lookup key).isSome then attrs.map Prod.fst else attrs.map Prod.fst ++ [key] := by
  rw [setAttr]
  split
  · rw [List.map_map]
    refine List.map_congr_left fun kv _ => ?_
    rw [Function.comp_apply]
    split
    · exact Eq.symm ‹kv.1 = key›
    · rfl
  · simp

theorem setAttr_unique (h : UniqueKeys attrs) (key v : String) :
    UniqueKeys (setAttr attrs key v) := by
  rw [UniqueKeys, setAttr_keys]
  split
  · exact h
  · rename_i hnone
    refine List.nodup_append.2 ⟨h, List.nodup_singleton key, fun k hk k' hk' heq => hnone ?_⟩
    obtain ⟨kv, hkv, rfl⟩ := List.mem_map.1 hk
    rw [← List.mem_singleton.1 hk', ← heq, h.mem_iff.1 hkv]
    rfl

theorem lookup_replace (attrs : AttributeMap) (key v k : String) :
    (attrs.map fun kv => if kv.1 = key then (key, v) else kv).lookup k =
      if k = key then (attrs.lookup key).map fun _ => v else attrs.lookup k := by
  induction attrs with
  | nil => simp
  | cons kv attrs ih =>
    obtain ⟨k', u⟩ := kv
    rw [List.map_cons]
    grind

theorem lookup_setAttr (attrs : AttributeMap) (key v k : String) :
    (setAttr attrs key v).lookup k = if k = key then some v else attrs.lookup k := by
  rw [setAttr]
  split
  · rename_i hsome
    obtain ⟨u, hu⟩ := Option.isSome_iff_exists.1 hsome
    rw [lookup_replace, hu]
    rfl
  · rename_i hnone
    rw [List.lookup_append]
    by_cases hk : k = key
    · rw [hk, Option.not_isSome_iff_eq_none.1 hnone]
      simp
    · simp [hk]

theorem readAttrs_unique (keys : List String) (tags : List (String × String)) :
    UniqueKeys (readAttrs keys tags) := by
  refine LoopRules.foldl_inv _ UniqueKeys tags List.nodup_nil fun attrs kv _ h => ?_
  split
  · exact setAttr_unique h kv.1 kv.2
  · exact h

theorem lookup_readAttrs (keys : List String) (tags : List (String × String)) (k : String) :
    (readAttrs keys tags).lookup k = if k ∈ keys then tags.reverse.lookup k else none := by
  induction tags using List.reverseRecOn with
  | nil => simp [readAttrs]
  | append_singleton tags kv ih =>
    obtain ⟨key, v⟩ := kv
    rw [readAttrs, List.foldl_append, ← readAttrs, List.reverse_append, List.reverse_singleton,
      List.singleton_append, List.foldl_cons, List.foldl_nil]
    split
    · rename_i hkey
      rw [lookup_setAttr, ih]
      by_cases hk : k = key
      · rw [hk, if_pos rfl, if_pos hkey, List.lookup_cons_self]
      · rw [if_neg hk, lookup_cons_ne hk]
    · rename_i hkey
      rw [ih]
      split
      · rename_i hmem
        rw [lookup_cons_ne fun hk => hkey (hk ▸ hmem)]
      · rfl

theorem mem_readAttrs {kv : String × String} (h : kv ∈ readAttrs keys tags) : kv ∈ tags := by
  have hlookup := (readAttrs_unique keys tags).mem_iff.1 h
  rw [lookup_readAttrs] at hlookup
  split at hlookup
  · obtain ⟨front, back, htags, -⟩ := List.lookup_eq_some_iff.1 hlookup
    rw [← List.mem_reverse, htags]
    simp
  · cases hlookup

/-- More keys keep more. -/
theorem readAttrs_subset {more : List String} (hkeys : ∀ key ∈ keys, key ∈ more)
    {kv : String × String} (h : kv ∈ readAttrs keys tags) : kv ∈ readAttrs more tags := by
  have hlookup := (readAttrs_unique keys tags).mem_iff.1 h
  rw [lookup_readAttrs] at hlookup
  split at hlookup
  · rename_i hkey
    refine (readAttrs_unique more tags).mem_iff.2 ?_
    rw [lookup_readAttrs, if_pos (hkeys _ hkey), hlookup]
  · cases hlookup

end entries

structure SameEntries (a b : AttributeMap) : Prop where
  left : UniqueKeys a
  right : UniqueKeys b
  lookup : ∀ k, a.lookup k = b.lookup k

namespace SameEntries
variable {a b : AttributeMap}

theorem mem_iff (h : SameEntries a b) (kv : String × String) : kv ∈ a ↔ kv ∈ b := by
  obtain ⟨k, v⟩ := kv
  rw [h.left.mem_iff, h.right.mem_iff, h.lookup]

theorem perm (h : SameEntries a b) : a.Perm b :=
  (List.perm_ext_iff_of_nodup (List.Nodup.of_map _ h.left) (List.Nodup.of_map _ h.right)).2
    h.mem_iff

theorem of_perm (h : a.Perm b) (hb : UniqueKeys b) : SameEntries a b where
  left := ((h.map Prod.fst).nodup_iff).2 hb
  right := hb
  lookup k := by
    have ha : UniqueKeys a := ((h.map Prod.fst).nodup_iff).2 hb
    refine Option.ext fun v => ?_
    rw [← ha.mem_iff, ← hb.mem_iff, h.mem_iff]

variable {iter : AttributeMap → AttributeMap} (hiter : ∀ attrs, (iter attrs).Perm attrs)
include hiter

theorem reread {keys more : List String} (hkeys : ∀ key ∈ keys, key ∈ more)
    (tags : List (String × String)) :
    SameEntries (readAttrs keys (iter (readAttrs more tags))) (readAttrs keys tags) where
  left := readAttrs_unique _ _
  right := readAttrs_unique _ _
  lookup k := by
    have hwritten := of_perm (((iter (readAttrs more tags)).reverse_perm).trans (hiter _))
      (readAttrs_unique more tags)
    rw [lookup_readAttrs, lookup_readAttrs, hwritten.lookup, lookup_readAttrs]
    split
    · rename_i hk
      rw [if_pos (hkeys k hk)]
    · rfl

theorem contained_iff (h : SameEntries a b) {map : MultiAttributeMap}
    (hused : ∀ key, ∀ r ∈ map key, r.2 ≠ 0) (t : FilterType) :
    contained iter a map t ≠ 0 ↔ contained iter b map t ≠ 0 := by
  have hmem : ∀ kv, kv ∈ iter a ↔ kv ∈ iter b := fun kv => by
    rw [(hiter a).mem_iff, (hiter b).mem_iff, h.mem_iff]
  rw [contained_ne_zero_iff hused, contained_ne_zero_iff hused]
  simp only [hmem]

theorem guarded_iff (h : SameEntries a b) {veto map : MultiAttributeMap}
    (hveto : ∀ key, ∀ r ∈ veto key, r.2 ≠ 0) (hused : ∀ key, ∀ r ∈ map key, r.2 ≠ 0)
    (t : FilterType) :
    (if contained iter a veto t ≠ 0 then 0 else contained iter a map t) ≠ 0 ↔
      (if contained iter b veto t ≠ 0 then 0 else contained iter b map t) ≠ 0 := by
  rw [KeptKeys.guarded_ne_zero, KeptKeys.guarded_ne_zero, h.contained_iff hiter hveto,
    h.contained_iff hiter hused]

/-- Flags that all rules agree on. -/
theorem flags {β : Type*} (h : SameEntries a b) (g : UInt64 → β) {map : MultiAttributeMap}
    {t : FilterType} (hsame : SameFlags g map t b) :
    g (contained iter a map t) = g (contained iter b map t) :=
  (contained_order_iff g).2 hsame (fun _ => iter a) iter ((hiter a).trans h.perm) (hiter b)

end SameEntries

end Pfaedle.Osm

namespace Pfaedle.KeptKeys
open Osm

section relations
variable (id : Osmid) (entRels entRels' : Osmid → List ℕ) (rels rels' : List AttributeMap)

def relsOf : List AttributeMap := (entRels id).filterMap fun relId => rels[relId]?

def SameRels : Prop := List.Forall₂ SameEntries (relsOf id entRels rels) (relsOf id entRels' rels')

theorem map_same {β : Type*} {f : AttributeMap → β} (hf : ∀ a b, SameEntries a b → f a = f b)
    {as bs : List AttributeMap} (h : List.Forall₂ SameEntries as bs) : as.map f = bs.map f := by
  induction h with
  | nil => rfl
  | cons hab _ ih => rw [List.map_cons, List.map_cons, hf _ _ hab, ih]

theorem findSome_filterMap {α β γ : Type*} (f : α → Option β) (g : β → Option γ) (l : List α) :
    (l.filterMap f).findSome? g = l.findSome? fun x => (f x).bind g := by
  induction l with
  | nil => rfl
  | cons x l ih =>
    rw [List.filterMap_cons, List.findSome?_cons, ← ih]
    cases f x with
    | none => rfl
    | some y => rw [Option.bind_some, List.findSome?_cons]

theorem getAttribute_relsOf (s : DeepAttributeRule) (attrs : AttributeMap) :
    getAttribute s id attrs entRels rels =
      if s.relRule.kv.1 = "" then (attrs.lookup s.attr).getD ""
      else (((relsOf id entRels rels).map fun rel =>
        if containedAttribute rel s.relRule.kv then rel.lookup s.attr else none).findSome? fun v =>
          v).getD "" := by
  rw [getAttribute, relsOf, List.findSome?_map, findSome_filterMap]
  rfl

end relations

section decisions
variable {C : Type*} {iter : AttributeMap → AttributeMap} (hiter : ∀ attrs, (iter attrs).Perm attrs)
  (norm : ReplRules → String → String) (o : OsmReadOptions C) {id : Osmid}
  {entRels entRels' : Osmid → List ℕ} {rels rels' : List AttributeMap} {a b : AttributeMap}

theorem getAttribute_same (h : SameEntries a b) (hrels : SameRels id entRels entRels' rels rels')
    (s : DeepAttributeRule) :
    getAttribute s id a entRels rels = getAttribute s id b entRels' rels' := by
  rw [getAttribute_relsOf, getAttribute_relsOf, h.lookup]
  congr 3
  refine map_same (fun a b hab => ?_) hrels
  rw [containedAttribute, containedAttribute, hab.lookup, hab.lookup]

theorem getAttrMatchRanked_same (h : SameEntries a b)
    (hrels : SameRels id entRels entRels' rels rels') (rule : List DeepAttributeRule)
    (norm : String → String) :
    getAttrMatchRanked rule id a entRels rels norm =
      getAttrMatchRanked rule id b entRels' rels' norm := by
  unfold getAttrMatchRanked
  simp only [getAttribute_same h hrels]

theorem lineNames_same (h : SameEntries a b) : lineNames norm o a = lineNames norm o b := by
  unfold lineNames lineName
  simp only [h.lookup]

include hiter

theorem nodeDecisions_same (h : SameEntries a b) (hrels : SameRels id entRels entRels' rels rels') :
    nodeDecisions norm iter o id entRels rels a = nodeDecisions norm iter o id entRels' rels' b := by
  simp only [nodeDecisions, NodeDecisions.mk.injEq, getAttrByFirstMatch,
    getAttrMatchRanked_same h hrels, getAttribute_same h hrels, and_true]
  refine ⟨?_, ?_, ?_, ?_⟩
  · exact decide_eq_decide.2 (h.contained_iff hiter o.keepFilter.map_used .node)
  · exact decide_eq_decide.2 (h.contained_iff hiter o.dropFilter.map_used .node)
  · exact decide_eq_decide.2 (h.contained_iff hiter o.stationFilter.map_used .node)
  · exact decide_eq_decide.2 (h.contained_iff hiter o.stationBlockerFilter.map_used .node)

theorem wayDecisions_same (h : SameEntries a b) (hrels : SameRels id entRels entRels' rels rels') :
    wayDecisions norm iter o id entRels rels a = wayDecisions norm iter o id entRels' rels' b := by
  have hlevel : o.filter.level a = o.filter.level b := by
    unfold ReadFilter.level ReadFilter.levelMatches
    have hany : ∀ i, (a.any fun kv => anyValue (o.filter.levelRules i) kv.1 kv.2) =
        b.any fun kv => anyValue (o.filter.levelRules i) kv.1 kv.2 := fun i => by
      rw [Bool.eq_iff_iff, List.any_eq_true, List.any_eq_true]
      simp only [h.mem_iff]
    simp only [hany]
  have hlines : ((entRels id).filterMap fun relId => rels[relId]?).map (lineNames norm o) =
      ((entRels' id).filterMap fun relId => rels'[relId]?).map (lineNames norm o) :=
    map_same (fun a b hab => lineNames_same norm o hab) hrels
  simp only [wayDecisions, WayDecisions.mk.injEq, getAttrByFirstMatch, hlevel, hlines, h.lookup,
    getAttrMatchRanked_same h hrels, and_true]
  refine ⟨?_, ?_, ?_, ?_⟩
  · exact decide_eq_decide.2 (h.contained_iff hiter o.keepFilter.map_used .way)
  · exact decide_eq_decide.2 (h.contained_iff hiter o.dropFilter.map_used .way)
  · exact decide_eq_decide.2
      (h.guarded_iff hiter o.twoWayFilter.map_used o.oneWayFilter.map_used .way)
  · exact decide_eq_decide.2
      (h.guarded_iff hiter o.twoWayFilter.map_used o.oneWayFilterRev.map_used .way)

end decisions

end Pfaedle.KeptKeys

import Pfaedle.FilterRules
import Pfaedle.FirstWins

set_option autoImplicit false

/-!
# `osm_filter::merge`

`std::map::insert` leaves an older entry as it is, so that the flags of the first filter that has a
key and a value decide.
-/
namespace Pfaedle.FilterMerge
open FirstWins Osm

section model

/-- `keep[key].insert(begin, end)` from `a` and then from `b` -/
def mergeRules (a b : MultiAttributeMap) : MultiAttributeMap := fun key =>
  ((SortedMap.empty.insertAll (a key)).insertAll (b key)).entries

def osmFilter (keep drop : MultiAttributeMap) : OsmFilter where
  keepRules := keep
  dropRules := drop
  posRestrRules _ := []
  negRestrRules _ := []
  noRestrRules _ := []

def merge (a b : OsmFilter) : OsmFilter :=
  osmFilter (mergeRules a.keepRules b.keepRules) fun _ => []

/-- One filter after the other; `filter_write` starts with `osm_filter()`. -/
def mergeAll : List OsmFilter → OsmFilter
  | [] => osmFilter (fun _ => []) fun _ => []
  | f :: fs => fs.foldl merge f

structure FilterSource where
  keep : RuleMap
  drop : RuleMap

def FilterSource.filter (s : FilterSource) : OsmFilter := osmFilter s.keep.map s.drop.map

variable (iter : AttributeMap → AttributeMap)

def wouldKeep (f : OsmFilter) (attrs : AttributeMap) (t : FilterType) : Prop :=
  f.keep iter attrs t ≠ 0 ∧ f.drop iter attrs t = 0

instance (f : OsmFilter) (attrs : AttributeMap) (t : FilterType) :
    Decidable (wouldKeep iter f attrs t) := inferInstanceAs (Decidable (_ ∧ _))

end model

section tables

def keepTable (f : OsmFilter) : Table (String × String) UInt64 := fun kv =>
  (f.keepRules kv.1).lookup kv.2

def Matching (attrs : AttributeMap) (t : FilterType) (kv : String × String) (flags : UInt64) :
    Prop := ∃ v, (kv.1, v) ∈ attrs ∧ Applies v t (kv.2, flags)

structure Built (f : OsmFilter) : Prop where
  sorted : ∀ key, (f.keepRules key).Pairwise fun a b => a.1 < b.1
  used : ∀ key, ∀ r ∈ f.keepRules key, r.2 ≠ 0

theorem FilterSource.built (s : FilterSource) : Built s.filter :=
  ⟨s.keep.map_sorted, s.keep.map_used⟩

theorem Built.lookup {f : OsmFilter} (h : Built f) {key : String} {r : String × UInt64} :
    r ∈ f.keepRules key ↔ keepTable f (key, r.1) = some r.2 := by
  let m : SortedMap String UInt64 := ⟨f.keepRules key, h.sorted key⟩
  exact (m.find?_eq_some_iff r.1 r.2).symm

theorem Built.merge {a b : OsmFilter} (ha : Built a) (hb : Built b) : Built (merge a b) where
  sorted key := SortedMap.sorted _
  used key r hr := by
    cases SortedMap.mem_insertAll _ hr with
    | inl hr =>
      cases SortedMap.mem_insertAll _ hr with
      | inl hr => exact absurd hr List.not_mem_nil
      | inr hr => exact ha.used key r hr
    | inr hr => exact hb.used key r hr

theorem keepTable_merge (a b : OsmFilter) (kv : String × String) :
    keepTable (merge a b) kv = (keepTable a kv).or (keepTable b kv) := by
  change ((SortedMap.empty.insertAll (a.keepRules kv.1)).insertAll (b.keepRules kv.1)).find? kv.2 =
    _
  rw [SortedMap.find?_insertAll, SortedMap.find?_insertAll, SortedMap.find?_empty, Option.none_or]
  rfl

theorem foldl_merge {f : OsmFilter} (hf : Built f) {fs : List OsmFilter} (hfs : ∀ g ∈ fs, Built g) :
    Built (fs.foldl merge f) ∧ keepTable (fs.foldl merge f) = firstWins ((f :: fs).map keepTable) := by
  induction fs generalizing f with
  | nil =>
    refine ⟨hf, ?_⟩
    funext kv
    rw [List.map_singleton, firstWins_cons]
    exact Option.or_none.symm
  | cons g fs ih =>
    obtain ⟨hbuilt, htable⟩ := ih (hf.merge (hfs g List.mem_cons_self))
      fun g' hg' => hfs g' (List.mem_cons_of_mem _ hg')
    refine ⟨hbuilt, ?_⟩
    rw [List.foldl_cons, htable]
    funext kv
    rw [List.map_cons, List.map_cons, List.map_cons, firstWins_cons, firstWins_cons, firstWins_cons,
      keepTable_merge, Option.or_assoc]

theorem mergeAll_built {fs : List OsmFilter} (hfs : ∀ g ∈ fs, Built g) :
    Built (mergeAll fs) ∧ keepTable (mergeAll fs) = firstWins (fs.map keepTable) := by
  cases fs with
  | nil => exact ⟨⟨fun _ => List.Pairwise.nil, fun _ _ hr => absurd hr List.not_mem_nil⟩, rfl⟩
  | cons f fs =>
    exact foldl_merge (hfs f List.mem_cons_self) fun g hg => hfs g (List.mem_cons_of_mem _ hg)

variable {iter : AttributeMap → AttributeMap} {attrs : AttributeMap} {t : FilterType}

theorem Built.keep_iff_hits (hiter : ∀ attrs, (iter attrs).Perm attrs) {f : OsmFilter}
    (h : Built f) : f.keep iter attrs t ≠ 0 ↔ Hits (Matching attrs t) (keepTable f) := by
  rw [OsmFilter.keep, contained_ne_zero_iff h.used]
  constructor
  · intro hex
    obtain ⟨kv, hkv, r, hr, happlies⟩ := hex
    exact ⟨(kv.1, r.1), r.2, h.lookup.1 hr, kv.2, (hiter attrs).mem_iff.1 hkv, happlies⟩
  · intro hhits
    obtain ⟨kv, flags, htable, v, hv, happlies⟩ := hhits
    exact ⟨(kv.1, v), (hiter attrs).mem_iff.2 hv, (kv.2, flags), h.lookup.2 htable, happlies⟩

/-- More than one filter: the drop rules have gone. -/
theorem wouldKeep_mergeAll {fs : List OsmFilter} (h : 1 < fs.length) :
    wouldKeep iter (mergeAll fs) attrs t ↔ (mergeAll fs).keep iter attrs t ≠ 0 := by
  obtain ⟨f, g, fs, rfl⟩ : ∃ f g tail, fs = f :: g :: tail := by
    cases fs with
    | nil => cases h
    | cons f fs =>
      cases fs with
      | nil => exact absurd h (Nat.lt_irrefl 1)
      | cons g fs => exact ⟨f, g, fs, rfl⟩
  have hdrop : ∀ (fs : List OsmFilter) (f : OsmFilter), (f.dropRules = fun _ => []) →
      ((fs.foldl merge f).dropRules = fun _ => []) := by
    intro fs
    induction fs with
    | nil => exact fun f hf => hf
    | cons g fs ih => exact fun f _ => ih (merge f g) rfl
  have hnone : (mergeAll (f :: g :: fs)).drop iter attrs t = 0 := by
    rw [OsmFilter.drop, mergeAll, List.foldl_cons, hdrop fs (merge f g) rfl]
    exact contained_empty iter attrs
  exact ⟨fun h => h.1, fun h => ⟨h, hnone⟩⟩

end tables

section result
variable {iter : AttributeMap → AttributeMap}

theorem perm_of_perm_map {α β : Type*} {f : α → β} {xs : List α} {ys : List β}
    (h : ys.Perm (xs.map f)) : ∃ xs' : List α, xs'.Perm xs ∧ xs'.map f = ys := by
  have hcomp : Relation.Comp (fun ys xs => ys = List.map f xs) List.Perm ys xs := by
    rw [List.eq_map_comp_perm]
    exact h
  obtain ⟨xs', hys, hperm⟩ := hcomp
  exact ⟨xs', hperm, hys.symm⟩

/-- The merged tables hit in every order or in none, where no filter keeps anything or a group of
filters is firm. -/
theorem orders_agree_iff {attrs : AttributeMap} {t : FilterType} {fs : List OsmFilter}
    (hiter : ∀ attrs, (iter attrs).Perm attrs) (hbuilt : ∀ f ∈ fs, Built f) :
    (∀ fs' : List OsmFilter, fs'.Perm fs →
        (Hits (Matching attrs t) (firstWins (fs'.map keepTable)) ↔
          Hits (Matching attrs t) (firstWins (fs.map keepTable)))) ↔
      (∀ f ∈ fs, f.keep iter attrs t = 0) ∨
        ∃ group rest, Firm (Matching attrs t) (fs.map keepTable) group rest := by
  have hnone : (∀ f ∈ fs, f.keep iter attrs t = 0) ↔
      ∀ table ∈ fs.map keepTable, ¬ Hits (Matching attrs t) table := by
    refine Iff.trans (forall₂_congr fun f hf => ?_) (List.forall_mem_map (f := keepTable)).symm
    rw [← (hbuilt f hf).keep_iff_hits hiter, not_ne_iff]
  rw [hnone, ← hits_all_orders_iff]
  constructor
  · intro h ts hts
    obtain ⟨fs', hfs', rfl⟩ := perm_of_perm_map hts
    exact h fs' hfs'
  · exact fun h fs' hperm => h _ (List.Perm.map keepTable hperm)

theorem mergeAll_short {fs : List OsmFilter} (h : ¬ 1 < fs.length) :
    (∀ fs' : List OsmFilter, fs'.Perm fs → fs' = fs) ∧ ∀ f ∈ fs, mergeAll fs = f := by
  cases fs with
  | nil => exact ⟨fun fs' hperm => List.perm_nil.1 hperm, fun f hf => absurd hf List.not_mem_nil⟩
  | cons f rest =>
    obtain rfl : rest = [] := List.length_eq_zero_iff.1 (by
      rw [List.length_cons] at h
      omega)
    exact ⟨fun fs' hperm => List.perm_singleton.1 hperm, fun g hg => (List.mem_singleton.1 hg).symm⟩

/-- No filter loses anything exactly when no keep rule matches at all or a group of filters is
    firm: each of them has a rule that matches, for a key and a value that no other filter names. -/
theorem merge_lossless_iff (hiter : ∀ attrs, (iter attrs).Perm attrs) (sources : List FilterSource)
    (attrs : AttributeMap) (t : FilterType) :
    let fs := sources.map FilterSource.filter
    (((∃ f ∈ fs, wouldKeep iter f attrs t) → wouldKeep iter (mergeAll fs) attrs t) ∧
        ∀ fs' : List OsmFilter, fs'.Perm fs →
          (wouldKeep iter (mergeAll fs') attrs t ↔ wouldKeep iter (mergeAll fs) attrs t)) ↔
      (∀ f ∈ fs, f.keep iter attrs t = 0) ∨
        ∃ group rest, Firm (Matching attrs t) (fs.map keepTable) group rest := by
  intro fs
  have hbuilt : ∀ f ∈ fs, Built f := by
    intro f hf
    obtain ⟨s, -, rfl⟩ := List.mem_map.1 hf
    exact s.built
  clear_value fs
  have hmerged : ∀ fs' : List OsmFilter, fs'.Perm fs → ((mergeAll fs').keep iter attrs t ≠ 0 ↔
      Hits (Matching attrs t) (firstWins (fs'.map keepTable))) := by
    intro fs' hperm
    obtain ⟨hmerge, htable⟩ := mergeAll_built fun f hf => hbuilt f (hperm.mem_iff.1 hf)
    rw [hmerge.keep_iff_hits hiter, htable]
  rw [← orders_agree_iff hiter hbuilt]
  by_cases hlength : 1 < fs.length
  · have hiff : ∀ fs' : List OsmFilter, fs'.Perm fs → (wouldKeep iter (mergeAll fs') attrs t ↔
        Hits (Matching attrs t) (firstWins (fs'.map keepTable))) := fun fs' hperm =>
      (wouldKeep_mergeAll (hperm.length_eq ▸ hlength)).trans (hmerged fs' hperm)
    have hrefl := List.Perm.refl fs
    constructor
    · intro h fs' hperm
      rw [← hiff fs' hperm, ← hiff fs hrefl]
      exact h.2 fs' hperm
    · intro h
      refine ⟨fun hsome => ?_, fun fs' hperm => ?_⟩
      · obtain ⟨f, hf, hkeep, -⟩ := hsome
        obtain ⟨pre, post, hfs⟩ := List.append_of_mem hf
        have hperm : (f :: (pre ++ post)).Perm fs := by
          rw [hfs]
          exact List.perm_middle.symm
        rw [hiff fs hrefl, ← h _ hperm]
        exact hits_of_head (((hbuilt f hf).keep_iff_hits hiter).1 hkeep) _
      · rw [hiff fs' hperm, hiff fs hrefl]
        exact h fs' hperm
  · obtain ⟨hone, hmerged⟩ := mergeAll_short hlength
    constructor
    · intro _ fs' hperm
      rw [hone fs' hperm]
    · intro _
      refine ⟨fun hsome => ?_, fun fs' hperm => by rw [hone fs' hperm]⟩
      obtain ⟨f, hf, hkeep⟩ := hsome
      rw [hmerged f hf]
      exact hkeep

def railRules (flags : List String) : FilterSource :=
  ⟨RuleMap.ofRules [⟨("railway", "rail"), flags⟩], .empty⟩

def tramRules : FilterSource := ⟨RuleMap.ofRules [⟨("railway", "tram"), []⟩], .empty⟩

theorem merge_lossless_iff_tram :
    let fs := [railRules ["no_match_nds"], tramRules].map FilterSource.filter
    let attrs := [("railway", "tram")]
    ((∃ f ∈ fs, wouldKeep id f attrs .node) → wouldKeep id (mergeAll fs) attrs .node) ∧
      ∀ fs' : List OsmFilter, fs'.Perm fs →
        (wouldKeep id (mergeAll fs') attrs .node ↔ wouldKeep id (mergeAll fs) attrs .node) := by
  refine (merge_lossless_iff (fun attrs => List.Perm.refl attrs)
    [railRules ["no_match_nds"], tramRules] [("railway", "tram")] .node).2
    (Or.inr ⟨[keepTable tramRules.filter], [keepTable (railRules ["no_match_nds"]).filter],
      List.Perm.swap _ _ _, List.cons_ne_nil _ _, fun table htable => ?_⟩)
  rw [List.mem_singleton.1 htable]
  refine ⟨("railway", "tram"), 1, by decide +kernel,
    ⟨"tram", List.mem_singleton_self _, by decide +kernel, by decide +kernel⟩, fun u hu => ?_⟩
  rw [List.mem_singleton.1 hu]
  decide +kernel

/-- A node that the second filter keeps: the rule of the first one is not for nodes. -/
theorem merge_loses :
    ¬ ∀ (a b : FilterSource) (attrs : AttributeMap) (t : FilterType),
      wouldKeep id a.filter attrs t ∨ wouldKeep id b.filter attrs t →
        wouldKeep id (merge a.filter b.filter) attrs t := by
  intro h
  exact absurd (h (railRules ["no_match_nds"]) (railRules []) [("railway", "rail")] .node
    (Or.inr (by decide +kernel))) (by decide +kernel)

end result

end Pfaedle.FilterMerge

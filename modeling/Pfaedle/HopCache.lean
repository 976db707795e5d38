import Pfaedle.HopCosts
import Pfaedle.NestedCache

set_option autoImplicit false

/-!
# The hop cache

Whatever a search has put into the cache is the cost of a cheapest walk, whichever candidates and
whichever maximum distance the search was run for.
-/
namespace Pfaedle.Router
open LabelSetting

section entries
variable {N E C : Type*} [DecidableEq N] [Field C] [LinearOrder C] {S : Setting N E C} {thread : ℕ}
  {rAttrs : RoutingAttributes} {tgGrp : Option ℕ} {maxD : C}

variable (S rAttrs tgGrp maxD) in
theorem wayCost_eq_legs (l : List E) (f : E) :
    wayCost S.g.toDirGraph (costFunc S rAttrs tgGrp maxD) (l ++ [f]) =
      legs (hopNetwork S rAttrs tgGrp f) f l.reverse := by
  induction l with
  | nil => rfl
  | cons a l ih =>
    rw [List.reverse_cons]
    cases l with
    | nil => rfl
    | cons b l =>
      have hlast : (f :: (b :: l).reverse).getLast? = some b := by
        rw [List.reverse_cons, ← List.cons_append, List.getLast?_concat]
      rw [legs_concat _ f a b _ hlast, ← ih, add_comm]
      rfl

variable [DecidableEq E]

theorem nestedCache_entry {el froms : List E} {caches : Caches E C} {f t : E} {th : ℕ}
    {attrs : RoutingAttributes} {cv : C × List E}
    (hcv : nestedCache S thread rAttrs el froms (costFunc S rAttrs tgGrp maxD) caches th attrs f t =
      some cv) :
    caches th attrs f t = some cv ∨
    (th = thread ∧ attrs = rAttrs ∧ el.head? = some t ∧ f ≠ t ∧ ∃ pre post,
      el = pre ++ f :: post ∧
      cv = (legs (hopNetwork S rAttrs tgGrp f) f pre.reverse, pre ++ [f])) := by
  by_cases hcaching : S.caching
  · rcases nestedCache_spec thread rAttrs froms (costFunc S rAttrs tgGrp maxD) caches hcaching el th
      attrs f t with ⟨-, hhead, hnested, cv', hcv', pre, ⟨post, hsplit⟩, hval⟩ | ⟨-, hkept⟩
    · obtain rfl := Option.some.inj (hcv.symm.trans hcv')
      refine Or.inr ⟨hnested.thread, hnested.attrs, hhead, hnested.ne, pre, post, ?_, ?_⟩
      · rw [← hsplit]
        simp
      · rw [hval, wayCost_eq_legs]
        change ((0 : C) + _, _) = _
        rw [zero_add]
    · rw [hkept] at hcv
      exact Or.inl hcv
  · rw [nestedCache_off hcaching] at hcv
    exact Or.inl hcv

end entries

section sound
variable {N E C : Type*} [DecidableEq N] [DecidableEq E] [Field C] [LinearOrder C]
  {S : Setting N E C} {grp : ℕ → RoutingAttributes → E → Option ℕ} {thread : ℕ}
  {rAttrs : RoutingAttributes} {tgGrp : Option ℕ} {maxD : C} {caches : Caches E C}

/-- Every entry is the cost of a cheapest walk. `grp` tells the station group that a target is
    searched for under. -/
def CacheSound (S : Setting N E C) (grp : ℕ → RoutingAttributes → E → Option ℕ)
    (caches : Caches E C) : Prop :=
  ∀ thread rAttrs f t cv, caches thread rAttrs f t = some cv →
    Least (hopNetwork S rAttrs (grp thread rAttrs t) f) t cv.1

/-- What may be put into the cache: the edges of a cheapest walk, or too few to matter. -/
def Cacheable (S : Setting N E C) (grp : ℕ → RoutingAttributes → E → Option ℕ) (thread : ℕ)
    (rAttrs : RoutingAttributes) (tgGrp : Option ℕ) (el : List E) : Prop :=
  el.length ≤ 1 ∨ ∃ P t d, (∀ f, P.outOf f = hopNetwork S rAttrs tgGrp f) ∧ Walk P t el d ∧
    (∀ p c, Walk P t p c → d ≤ c) ∧
    edgePairCost S rAttrs tgGrp = edgePairCost S rAttrs (grp thread rAttrs t)

theorem CacheSound.nestedCache [IsStrictOrderedRing C] (h : CacheSound S grp caches) {el : List E}
    (hel : Cacheable S grp thread rAttrs tgGrp el) (froms : List E) :
    CacheSound S grp
      (nestedCache S thread rAttrs el froms (costFunc S rAttrs tgGrp maxD) caches) := by
  intro th attrs f t cv hcv
  cases nestedCache_entry hcv with
  | inl hold => exact h th attrs f t cv hold
  | inr hnew =>
    obtain ⟨rfl, rfl, hhead, hne, pre, post, rfl, hval⟩ := hnew
    rw [hval]
    cases hel with
    | inl hshort =>
      rw [List.length_append, List.length_cons] at hshort
      have hpre : pre = [] := List.length_eq_zero_iff.1 (by omega)
      rw [hpre] at hhead
      exact absurd (Option.some.inj hhead) hne
    | inr hwalk =>
      obtain ⟨P, t', d, hP, hw, hbest, hgrp⟩ := hwalk
      obtain ⟨q, hq⟩ := hw.head
      rw [hq] at hhead
      obtain rfl := Option.some.inj hhead
      rw [← hopNetwork_congr hgrp, ← hP f, legs_outOf]
      exact Least.tail hw hbest

theorem CacheSound.getHopBand [IsStrictOrderedRing C] (h : CacheSound S grp caches) (hw : Weighed S)
    {a b : EdgeCandidateGroup E C} (hsteady : PilotSteady S rAttrs a b)
    (hin : ∀ c ∈ a, c.e ∈ S.g.edges)
    (hgrp : ∀ c ∈ b, edgePairCost S rAttrs (targetGroup S b) =
      edgePairCost S rAttrs (grp thread rAttrs c.e)) :
    CacheSound S grp (getHopBand S thread rAttrs a b caches).2 := by
  rw [Router.getHopBand]
  dsimp only
  split
  · exact h
  · apply h.nestedCache
    cases hw.pilotRun_spec hsteady hin with
    | inl hshort => exact Or.inl hshort
    | inr hfound =>
      obtain ⟨t, ht, source, d, hw, hbest⟩ := hfound
      obtain ⟨c, hc, rfl⟩ := List.mem_map.1 (S.edgeSet.mem.1 ht)
      refine Or.inr ⟨EDijkstra.network S.g.toDirGraph (costFunc S rAttrs (targetGroup S b) 0) source,
        c.e, d, ?_, hw, hbest, hgrp c hc⟩
      intro f
      rfl

omit [Field C] in
theorem mem_hopTargets {frm t : E} {tos : List E} :
    t ∈ hopTargets S thread rAttrs frm tos caches ↔
      t ∈ tos ∧ cachedHop S thread rAttrs caches frm t = none ∧ isShortcut S frm t = false := by
  rw [hopTargets, List.mem_filter, getCachedHops, List.mem_filter]
  simp [and_assoc]

omit [Field C] in
theorem hopTargets_nodup {frm : E} {tos : List E} (h : tos.Nodup) :
    (hopTargets S thread rAttrs frm tos caches).Nodup :=
  (h.filter _).filter _

theorem CacheSound.hops [IsStrictOrderedRing C] (h : CacheSound S grp caches) (hw : Weighed S)
    {frm : E}
    {froms tos : List E} (hfrm : frm ∈ S.g.edges) (hnodup : tos.Nodup) (hmax : 0 ≤ maxD)
    (hsteady : HopSteady S rAttrs tgGrp frm (hopTargets S thread rAttrs frm tos caches))
    (hgrp : ∀ t ∈ tos, edgePairCost S rAttrs tgGrp = edgePairCost S rAttrs (grp thread rAttrs t)) :
    CacheSound S grp (hops S thread rAttrs frm froms tos tgGrp maxD caches).2 := by
  rw [Router.hops]
  dsimp only
  apply List.foldlRecOn _ _ h
  intro caches' h' t ht
  apply h'.nestedCache
  cases hw.hopSearch_outcome hsteady hfrm (hopTargets_nodup hnodup) hmax ht with
  | inl hfound =>
    refine Or.inr ⟨hopNetwork S rAttrs tgGrp frm, t, _, ?_, hfound.2.1, hfound.2.2,
      hgrp t (mem_hopTargets.1 ht).1⟩
    intro f
    rfl
  | inr hnone => exact Or.inl hnone.2.1

def HopCost (S : Setting N E C) (rAttrs : RoutingAttributes) (tgGrp : Option ℕ) (maxD : C)
    (frm t : E) (v : C) : Prop :=
  if isShortcut S frm t then v = maxD
  else v < maxD ∧ Least (hopNetwork S rAttrs tgGrp frm) t v ∨
    v = maxD ∧ ∀ p c, Walk (hopNetwork S rAttrs tgGrp frm) t p c → maxD ≤ c

theorem HopCost.unique {frm t : E} {v w : C} (hv : HopCost S rAttrs tgGrp maxD frm t v)
    (hw : HopCost S rAttrs tgGrp maxD frm t w) : v = w := by
  rw [HopCost] at hv hw
  split at hv
  · rename_i hs
    rw [if_pos hs] at hw
    exact hv.trans hw.symm
  · rename_i hs
    rw [if_neg hs] at hw
    rcases hv with ⟨hlt, hv⟩ | ⟨hv, hnone⟩
    · rcases hw with ⟨-, hw⟩ | ⟨-, hnone⟩
      · exact hv.unique hw
      · obtain ⟨p, hp⟩ := hv.walk
        exact absurd (hnone p v hp) (not_le_of_gt hlt)
    · rcases hw with ⟨hlt, hw⟩ | ⟨hw, -⟩
      · obtain ⟨p, hp⟩ := hw.walk
        exact absurd (hnone p w hp) (not_le_of_gt hlt)
      · exact hv.trans hw.symm

/-- A cached cost is above no limit, and is the limit for a hop that is not searched for. -/
def HitFits (S : Setting N E C) (frm t : E) (maxD c : C) : Prop :=
  if isShortcut S frm t then c = maxD else c ≤ maxD

theorem HitFits.hopCost {frm t : E} {c : C} (h : HitFits S frm t maxD c)
    (hc : isShortcut S frm t = false → Least (hopNetwork S rAttrs tgGrp frm) t c) :
    HopCost S rAttrs tgGrp maxD frm t c := by
  unfold HitFits at h
  unfold HopCost
  by_cases hs : isShortcut S frm t
  · rw [if_pos hs] at h ⊢
    exact h
  · rw [if_neg hs] at h ⊢
    have hleast := hc (Bool.eq_false_iff.2 hs)
    cases lt_or_eq_of_le h with
    | inl hlt => exact Or.inl ⟨hlt, hleast⟩
    | inr heq => exact Or.inr ⟨heq, fun p d hw => heq ▸ hleast.le hw⟩

theorem Weighed.hops_cost_miss [IsStrictOrderedRing C] (hw : Weighed S) {frm t : E}
    {froms tos : List E}
    (hfrm : frm ∈ S.g.edges) (hnodup : tos.Nodup) (hmax : 0 ≤ maxD)
    (hsteady : HopSteady S rAttrs tgGrp frm (hopTargets S thread rAttrs frm tos caches))
    (ht : t ∈ tos) (hmiss : cachedHop S thread rAttrs caches frm t = none) :
    HopCost S rAttrs tgGrp maxD frm t
      ((hops S thread rAttrs frm froms tos tgGrp maxD caches).1.costs t) := by
  rw [hops]
  dsimp only
  rw [if_neg (not_not_intro ht), hmiss, HopCost]
  dsimp only
  split
  · rfl
  · rename_i hs
    have hrem := mem_hopTargets.2 ⟨ht, hmiss, Bool.eq_false_iff.2 hs⟩
    cases hw.hopSearch_outcome hsteady hfrm (hopTargets_nodup hnodup) hmax hrem with
    | inl hfound =>
      exact Or.inl ⟨hfound.1, ⟨_, hfound.2.1⟩, fun hw => hfound.2.2 _ _ hw⟩
    | inr hnone => exact Or.inr ⟨hnone.1, hnone.2.2⟩

theorem hops_cost_hit {frm t : E} {froms tos : List E} (ht : t ∈ tos) {cv : C × List E}
    (hhit : cachedHop S thread rAttrs caches frm t = some cv) :
    (hops S thread rAttrs frm froms tos tgGrp maxD caches).1.costs t = cv.1 := by
  rw [hops]
  dsimp only
  rw [if_neg (not_not_intro ht), hhit]

omit [DecidableEq E] in
/-- An entry of a sound cache is found for the group of the lookup too. -/
theorem CacheSound.least (h : CacheSound S grp caches) {frm t : E} {cv : C × List E}
    (hhit : cachedHop S thread rAttrs caches frm t = some cv)
    (hgrp : edgePairCost S rAttrs tgGrp = edgePairCost S rAttrs (grp thread rAttrs t)) :
    Least (hopNetwork S rAttrs tgGrp frm) t cv.1 := by
  rw [cachedHop] at hhit
  split at hhit
  · rw [hopNetwork_congr hgrp]
    exact h thread rAttrs frm t cv hhit
  · cases hhit

end sound

end Pfaedle.Router

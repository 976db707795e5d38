import Pfaedle.HopCosts

set_option autoImplicit false

/-!
# Hop costs without the heuristic

The heuristic steers the search of `hops` and does not change what it costs to reach a target.
-/
namespace Pfaedle.EDijkstra
open LabelSetting

section outcome
variable {N E C : Type*} [DecidableEq N] [AddCommGroup C] [LinearOrder C] {P : Network E C}
  {inf : WithTop C} {res res' : Results E C} {t : E}

theorem TargetOutcome.costs_le (h : TargetOutcome P inf res t) (h' : TargetOutcome P inf res' t) :
    res.costs t ≤ res'.costs t := by
  cases h with
  | inl hfound =>
    obtain ⟨d, hd, hlt, hwalk, hbest⟩ := hfound
    rw [hd]
    cases h' with
    | inl hfound' =>
      obtain ⟨d', hd', -, hwalk', -⟩ := hfound'
      rw [hd']
      exact WithTop.coe_le_coe.2 (hbest _ _ hwalk')
    | inr hnone =>
      rw [hnone.1]
      exact hlt.le
  | inr hnone =>
    rw [hnone.1]
    cases h' with
    | inl hfound' =>
      obtain ⟨d', hd', -, hwalk', -⟩ := hfound'
      rw [hd']
      exact hnone.2.2 _ _ hwalk'
    | inr hnone' => rw [hnone'.1]

theorem TargetOutcome.costs_eq (h : TargetOutcome P inf res t) (h' : TargetOutcome P inf res' t) :
    res.costs t = res'.costs t := le_antisymm (h.costs_le h') (h'.costs_le h)

end outcome

section blocked
variable {N E C : Type*} [DecidableEq N] [DecidableEq E] [AddCommGroup C] [LinearOrder C]
  {g : DirGraph N E} {costFunc : CostFunc N E C} {heurFunc : HeurFunc E C} {tos : List E}
  (pq : PriorityQueue (RouteEdge N E C) RouteEdge.less)

theorem shortestPathAll_blocked_costs (hinf : costFunc.inf ≤ ((0 : C) : WithTop C))
    (hnonneg : ∀ e ∈ g.edges, ∀ n e', 0 ≤ costFunc.cost e n e') {fromE : E}
    (hstart : costFunc.start fromE = 0) (hin : fromE ∈ g.edges) (t : E) :
    (shortestPathAll pq g costFunc heurFunc tos fromE).costs t =
      if t = fromE ∧ fromE ∈ tos then ((0 : C) : WithTop C) else costFunc.inf := by
  have hblocked : Blocked g costFunc [] [initial costFunc heurFunc tos fromE] :=
    Blocked.start hinf hnonneg hstart hin
  have hlast : ∀ k settled (res : Results E C),
      searchAll pq g costFunc heurFunc tos k settled [] res = res := by
    intro k settled res
    cases k with
    | zero => rfl
    | succ k => rw [searchAll, pq.pop_nil]
  unfold shortestPathAll rounds
  by_cases htos : tos = []
  · simp [htos]
  · rw [if_neg htos, searchAll, pq.pop_singleton]
    dsimp only
    rw [hblocked.relax hin hstart, List.append_nil]
    simp only [hlast, ite_self]
    change (if fromE ∈ tos then _ else _ : Results E C).costs t = _
    by_cases hfrom : fromE ∈ tos
    · rw [if_pos hfrom]
      by_cases ht : t = fromE
      · rw [ht, if_pos ⟨rfl, hfrom⟩]
        unfold Results.hit initial
        dsimp only
        rw [Function.update_self, hstart]
      · rw [if_neg fun h => ht h.1]
        exact Function.update_of_ne ht _ _
    · rw [if_neg hfrom, if_neg fun h => hfrom h.2]

end blocked

end Pfaedle.EDijkstra

namespace Pfaedle.Router
open LabelSetting

section model
variable {N E C : Type*} [DecidableEq N] [DecidableEq E] [Field C] [LinearOrder C]
  (S : Setting N E C) (thread : ℕ) (rAttrs : RoutingAttributes)

/-- `hopSearch` with another heuristic, which may look at the targets. -/
def hopSearchWith (heur : List E → EDijkstra.HeurFunc E C) (frm : E) (rem : List E)
    (tgGrp : Option ℕ) (maxD : C) : EDijkstra.Results E C :=
  EDijkstra.shortestPathAll S.pq S.g.toDirGraph (costFunc S rAttrs tgGrp maxD) (heur rem) rem frm

def hopCostsWith (heur : List E → EDijkstra.HeurFunc E C) (frm : E) (tos : List E)
    (tgGrp : Option ℕ) (maxD : C) (caches : Caches E C) (t : E) : C :=
  let rem := hopTargets S thread rAttrs frm tos caches
  if t ∉ tos then 0
  else
    match cachedHop S thread rAttrs caches frm t with
    | some cv => cv.1
    | none =>
      if isShortcut S frm t then maxD
      else getValue ((hopSearchWith S rAttrs heur frm rem tgGrp maxD).costs t)

def zeroHeur : List E → EDijkstra.HeurFunc E C := fun _ _ _ => 0

theorem hops_costs (frm : E) (froms tos : List E) (tgGrp : Option ℕ) (maxD : C)
    (caches : Caches E C) :
    (hops S thread rAttrs frm froms tos tgGrp maxD caches).1.costs =
      hopCostsWith S thread rAttrs (distHeur S (S.g.minEdgeLvl (S.g.component (S.g.getFrom frm))))
        frm tos tgGrp maxD caches := rfl

end model

section graded
variable {N E C : Type*} [Field C] [LinearOrder C]

/-- Edges are as long as their ends are apart and stay within a component, and none but loops is
    below the level of its component. -/
structure Graded (S : Setting N E C) : Prop where
  opts : NonnegOptions S.rOpts
  levelPunish : ∀ l l', l ≤ l' → l' < 8 → S.rOpts.levelPunish l ≤ S.rOpts.levelPunish l'
  nonneg : ∀ p q, 0 ≤ S.webMercMeterDist p q
  triangle : ∀ p q r, S.webMercMeterDist p r ≤ S.webMercMeterDist p q + S.webMercMeterDist q r
  length : ∀ e ∈ S.g.edges,
    S.webMercMeterDist (S.g.geom (S.g.getFrom e)) (S.g.geom (S.g.getTo e)) ≤ S.g.length e
  level_lt : ∀ e ∈ S.g.edges, S.g.level e < 8
  minEdgeLvl : ∀ e ∈ S.g.edges, S.g.getFrom e ≠ S.g.getTo e →
    S.g.minEdgeLvl (S.g.component (S.g.getFrom e)) ≤ S.g.level e
  component : ∀ e ∈ S.g.edges, S.g.component (S.g.getTo e) = S.g.component (S.g.getFrom e)

variable {S : Setting N E C} {rAttrs : RoutingAttributes} {tgGrp : Option ℕ} {frm : E}

theorem Graded.weighed (h : Graded S) : Weighed S :=
  ⟨h.opts, fun e he => (h.nonneg _ _).trans (h.length e he), h.level_lt⟩

variable [DecidableEq N]

theorem Graded.walk_component (h : Graded S) {u : E} {p : List E} {d : C}
    (hw : Walk (hopNetwork S rAttrs tgGrp frm) u p d) :
    S.g.component (S.g.getFrom u) = S.g.component (S.g.getFrom frm) := by
  induction hw with
  | source hs =>
    obtain rfl := hs
    rfl
  | snoc _ hstep ih =>
    obtain ⟨hu, hv⟩ := hstep
    rw [(S.g.mem_adjListOut.1 hv).2, h.component _ hu, ih]

variable [IsStrictOrderedRing C]

/-- A step along a loop leaves the estimate as it is. -/
theorem Graded.drop (h : Graded S) {lvl : ℕ} {tos : List E} {e e' : E} (he : e ∈ S.g.edges)
    (hlvl : S.g.minEdgeLvl (S.g.component (S.g.getFrom e)) = lvl)
    (hnext : S.g.getFrom e' = S.g.getTo e) :
    distHeur S lvl tos e tos ≤
      edgePairCost S rAttrs tgGrp e (S.g.getTo e) e' + distHeur S lvl tos e' tos := by
  by_cases hloop : S.g.getFrom e = S.g.getTo e
  · have hsame : distHeur S lvl tos e' tos = distHeur S lvl tos e tos := by
      unfold distHeur
      dsimp only
      rw [hnext, hloop]
    rw [hsame]
    exact le_add_of_nonneg_left (h.weighed.edgePairCost_nonneg he _ _)
  · apply h.weighed.distHeur_le h.triangle he (h.length e he) _ hnext
    rw [← hlvl]
    exact h.levelPunish _ _ (h.minEdgeLvl e he hloop) (h.level_lt e he)

theorem Graded.consistent_distHeur (h : Graded S) (rem : List E) :
    Consistent (hopNetwork S rAttrs tgGrp frm) fun e =>
      distHeur S (S.g.minEdgeLvl (S.g.component (S.g.getFrom frm))) rem e rem := by
  constructor
  · intro u v p d _ hstep
    exact h.weighed.edgePairCost_nonneg hstep.1 _ v
  · intro u v p d hw hstep
    apply h.drop hstep.1 _ (S.g.mem_adjListOut.1 hstep.2).2
    rw [h.walk_component hw]

variable (rAttrs) in
theorem Graded.pilotSteady (h : Graded S) (a b : EdgeCandidateGroup E C) :
    PilotSteady S rAttrs a b where
  nonneg _ hstep := h.weighed.edgePairCost_nonneg hstep.1 _ _
  drop _ hstep := h.weighed.distHeur_le h.triangle hstep.1 (h.length _ hstep.1)
    (h.levelPunish _ _ (Nat.zero_le _) (h.level_lt _ hstep.1)) (S.g.mem_adjListOut.1 hstep.2).2

theorem Graded.consistent_zero (h : Graded S) (rem : List E) :
    Consistent (hopNetwork S rAttrs tgGrp frm) fun e => zeroHeur rem e rem := by
  constructor
  · intro u v p d _ hstep
    exact h.weighed.edgePairCost_nonneg hstep.1 _ v
  · intro u v p d _ hstep
    unfold zeroHeur
    rw [add_zero]
    exact h.weighed.edgePairCost_nonneg hstep.1 _ v

variable [DecidableEq E]

/-- Searches with consistent heuristics find the same costs. -/
theorem Graded.hopSearchWith_costs (h : Graded S) (hfrm : frm ∈ S.g.edges) {rem : List E}
    (hrem : rem.Nodup) {heur heur' : List E → EDijkstra.HeurFunc E C}
    (hc : Consistent (hopNetwork S rAttrs tgGrp frm) fun e => heur rem e rem)
    (hc' : Consistent (hopNetwork S rAttrs tgGrp frm) fun e => heur' rem e rem) (maxD : C) {t : E}
    (ht : t ∈ rem) :
    (hopSearchWith S rAttrs heur frm rem tgGrp maxD).costs t =
      (hopSearchWith S rAttrs heur' frm rem tgGrp maxD).costs t := by
  unfold hopSearchWith
  by_cases hmax : 0 < maxD
  · rw [← hopNetwork_eq hfrm maxD] at hc hc'
    have hspec := EDijkstra.shortestPathAll_spec S.pq hc hrem hfrm (WithTop.coe_lt_coe.2 hmax) ht
    have hspec' := EDijkstra.shortestPathAll_spec S.pq hc' hrem hfrm (WithTop.coe_lt_coe.2 hmax) ht
    exact hspec.costs_eq hspec'
  · have hinf : (costFunc S rAttrs tgGrp maxD).inf ≤ ((0 : C) : WithTop C) :=
      WithTop.coe_le_coe.2 (not_lt.1 hmax)
    have hnonneg : ∀ e ∈ S.g.toDirGraph.edges, ∀ n e',
        0 ≤ (costFunc S rAttrs tgGrp maxD).cost e n e' :=
      fun e he n e' => h.weighed.edgePairCost_nonneg he n e'
    rw [EDijkstra.shortestPathAll_blocked_costs S.pq hinf hnonneg rfl hfrm,
      EDijkstra.shortestPathAll_blocked_costs S.pq hinf hnonneg rfl hfrm]

/-- The heuristic of `hops` does not change a cost. -/
theorem hops_costs_zeroHeur (h : Graded S) (thread : ℕ) (rAttrs : RoutingAttributes)
    (hfrm : frm ∈ S.g.edges) (froms : List E) {tos : List E} (htos : tos.Nodup)
    (tgGrp : Option ℕ) (maxD : C) (caches : Caches E C) :
    (hops S thread rAttrs frm froms tos tgGrp maxD caches).1.costs =
      hopCostsWith S thread rAttrs zeroHeur frm tos tgGrp maxD caches := by
  rw [hops_costs]
  funext t
  unfold hopCostsWith
  by_cases ht : t ∈ tos
  · rw [if_neg (not_not.2 ht), if_neg (not_not.2 ht)]
    cases hcached : cachedHop S thread rAttrs caches frm t with
    | some cv => rfl
    | none =>
      by_cases hshort : isShortcut S frm t = true
      · simp [hshort]
      · have hrem : t ∈ hopTargets S thread rAttrs frm tos caches := by
          simp [hopTargets, getCachedHops, ht, hcached, hshort]
        have hnodup : (hopTargets S thread rAttrs frm tos caches).Nodup :=
          (htos.filter _).filter _
        dsimp only
        rw [if_neg hshort, if_neg hshort, h.hopSearchWith_costs hfrm hnodup
          (h.consistent_distHeur _) (h.consistent_zero _) maxD hrem]
  · rw [if_pos ht, if_pos ht]

/-- A street of two levels that is longer than its ends are apart, with a way back. -/
def gradedStreet : TransitGraph ℕ (Fin 4) ℚ where
  toDirGraph := .ofEdges (List.finRange 4) ![0, 1, 1, 2] ![1, 2, 0, 1]
  geom n := ((n : ℚ), 0)
  si _ := none
  component _ := 0
  minEdgeLvl _ := 1
  level := ![1, 2, 1, 2]
  length _ := 3 / 2
  oneWay _ := 0
  is_restricted _ := false
  lines _ := []

def gradedSetting : Setting ℕ (Fin 4) ℚ where
  g := gradedStreet
  rOpts := ⟨0, 1, 0, 0, 0, 0, 0, 0, fun l => l + 1, true, false⟩
  may _ _ _ := true
  simi _ _ := 0
  webMercMeterDist a b := |a.1 - b.1|
  innerProd _ _ _ := 0
  caching := false
  pq := EDijkstra.routeQueue
  edgeSet := .dedup
  candPq := EDijkstra.routeQueue
  candSet := .dedup

theorem gradedSetting_graded : Graded gradedSetting where
  opts := ⟨by decide, by decide, by decide, by decide, by decide, by decide, by decide,
    fun l => by simp only [gradedSetting]; positivity⟩
  levelPunish l l' h _ := by
    simp only [gradedSetting]
    gcongr
  nonneg p q := abs_nonneg _
  triangle p q r := abs_sub_le p.1 q.1 r.1
  length := by decide +kernel
  level_lt := by decide
  minEdgeLvl := by decide
  component _ _ := rfl

theorem hops_costs_zeroHeur_graded :
    (hops gradedSetting 0 ⟨"", "", ""⟩ 0 [0] [1, 2] none 100 fun _ _ _ _ => none).1.costs =
      hopCostsWith gradedSetting 0 ⟨"", "", ""⟩ zeroHeur 0 [1, 2] none 100 fun _ _ _ _ => none :=
  hops_costs_zeroHeur gradedSetting_graded 0 ⟨"", "", ""⟩ (by decide) [0] (by decide) none 100 _

end graded

end Pfaedle.Router

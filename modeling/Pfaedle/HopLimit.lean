import Pfaedle.EDijkstraTargets
import Pfaedle.HopCosts

set_option autoImplicit false

/-!
# The limit of the searches between two groups

`getHopBand` takes it from the cost of the walk at which its pilot run stops. Where the estimate of
the pilot run does not drop too fast, that is a walk to a target which is nearest by its estimate.
-/
namespace Pfaedle.Router
open LabelSetting

section model
variable {N E C : Type*} [DecidableEq N] [DecidableEq E] [Field C] [LinearOrder C]

def PilotTarget (S : Setting N E C) (rAttrs : RoutingAttributes) (a b : EdgeCandidateGroup E C)
    (cur : EDijkstra.RouteEdge N E C) : Prop :=
  EDijkstra.FirstTarget S.g.toDirGraph
    (costFunc S rAttrs (targetGroup S b) (pilotBound S a b))
    (distHeur S 0 (S.edgeSet.toList (edgesOf b))) (S.edgeSet.toList (edgesOf b))
    (S.edgeSet.toList (edgesOf a)) (· ∈ edgesOf a) cur

/-- The greatest cost that a hop between two groups may have: three times that of a walk to a target
than which, by the estimate, none is nearer, and 1 where there is no walk below the bound. -/
inductive HopLimit (S : Setting N E C) (rAttrs : RoutingAttributes) (a b : EdgeCandidateGroup E C) :
    C → Prop
  | unreached (hfar : compConned S a b → ∀ t ∈ edgesOf b, ∀ p c,
      Walk (pilotNetwork S rAttrs a b) t p c → pilotBound S a b ≤ c) : HopLimit S rAttrs a b 1
  | reached {t : E} {p : List E} {m : C} (hconn : compConned S a b) (ht : t ∈ edgesOf b)
      (hwalk : Walk (pilotNetwork S rAttrs a b) t p m) (hbelow : m < pilotBound S a b)
      (hnear : ∀ t' ∈ edgesOf b, ∀ p' c, Walk (pilotNetwork S rAttrs a b) t' p' c →
        c < pilotBound S a b →
        m + distHeur S 0 (S.edgeSet.toList (edgesOf b)) t (S.edgeSet.toList (edgesOf b)) ≤
          c + distHeur S 0 (S.edgeSet.toList (edgesOf b)) t' (S.edgeSet.toList (edgesOf b))) :
      HopLimit S rAttrs a b (max m (pendingDistance S a b * S.rOpts.levelPunish 2) * 3 +
        S.rOpts.fullTurnPunishFac + S.rOpts.platformUnmatchedPen)

theorem getHopBand_maxD_eq (S : Setting N E C) (thread : ℕ) (rAttrs : RoutingAttributes)
    (a b : EdgeCandidateGroup E C) (caches : Caches E C) :
    (getHopBand S thread rAttrs a b caches).1.maxD =
      if (pilotRun S rAttrs a b).2.length < 2 ∧
          pilotBound S a b ≤ (pilotRun S rAttrs a b).1 then 1
      else max (pilotRun S rAttrs a b).1 (pendingDistance S a b * S.rOpts.levelPunish 2) * 3 +
        S.rOpts.fullTurnPunishFac + S.rOpts.platformUnmatchedPen := by
  rw [getHopBand, pilotBound_eq]
  dsimp only
  split_ifs <;> rfl

theorem le_getValue {bound : C} {cost : WithTop C} (hzero : bound ≤ 0)
    (h : (bound : WithTop C) ≤ cost) : bound ≤ getValue cost := by
  cases cost with
  | top => exact hzero
  | coe d => exact WithTop.coe_le_coe.1 h

end model

section pilot
variable {N E C : Type*} [DecidableEq N] [DecidableEq E] [Field C] [LinearOrder C]
  [IsStrictOrderedRing C] {S : Setting N E C} {rAttrs : RoutingAttributes}
  {a b : EdgeCandidateGroup E C}

omit [DecidableEq E] in
/-- Where the group has one target, there is one limit. -/
theorem HopLimit.unique (hone : ∀ t ∈ edgesOf b, ∀ t' ∈ edgesOf b, t = t') {maxD maxD' : C}
    (h : HopLimit S rAttrs a b maxD) (h' : HopLimit S rAttrs a b maxD') : maxD = maxD' := by
  cases h with
  | unreached hfar =>
    cases h' with
    | unreached _ => rfl
    | reached hconn ht hwalk hbelow _ =>
      exact absurd (hfar hconn _ ht _ _ hwalk) (not_le_of_gt hbelow)
  | reached hconn ht hwalk hbelow hnear =>
    cases h' with
    | unreached hfar => exact absurd (hfar hconn _ ht _ _ hwalk) (not_le_of_gt hbelow)
    | reached _ ht' hwalk' hbelow' hnear' =>
      have hle := hnear _ ht' _ _ hwalk' hbelow'
      have hge := hnear' _ ht _ _ hwalk hbelow
      rw [hone _ ht _ ht'] at hle hge
      rw [le_antisymm (le_of_add_le_add_right hle) (le_of_add_le_add_right hge)]

theorem PilotSteady.first (h : PilotSteady S rAttrs a b) (hin : ∀ e ∈ edgesOf a, e ∈ S.g.edges)
    (hconn : compConned S a b) (hpos : 0 < pilotBound S a b) :
    (∃ cur, PilotTarget S rAttrs a b cur ∧ (pilotRun S rAttrs a b).1 = cur.d) ∨
      pilotRun S rAttrs a b = (pilotBound S a b, []) ∧
        ∀ t ∈ edgesOf b, ∀ p c, Walk (pilotNetwork S rAttrs a b) t p c →
          pilotBound S a b ≤ c := by
  have hsource : (fun e => e ∈ S.edgeSet.toList (edgesOf a)) = (· ∈ edgesOf a) :=
    funext fun e => propext S.edgeSet.mem
  have hlt : ∀ e ∈ S.edgeSet.toList (edgesOf a),
      ((costFunc S rAttrs (targetGroup S b) (pilotBound S a b)).start e : WithTop C) <
        (costFunc S rAttrs (targetGroup S b) (pilotBound S a b)).inf :=
    fun e _ => WithTop.coe_lt_coe.2 hpos
  have hfirst := EDijkstra.shortestPathSet_first S.pq h.atEdges
    (fun e he => hin e (S.edgeSet.mem.1 he)) hlt
  rw [hsource] at hfirst
  rw [pilotRun, ← pilotBound_eq, if_pos hconn]
  rcases hfirst with ⟨cur, hcur, hret⟩ | ⟨hnone, hfar⟩
  · exact Or.inl ⟨cur, hcur, congrArg getValue hret⟩
  · refine Or.inr ⟨?_, fun t ht p c hw => ?_⟩
    · rw [← edgesOf, ← edgesOf, hnone]
      rfl
    · exact WithTop.coe_le_coe.1 (hfar t (S.edgeSet.mem.2 ht) p c hw)

omit [DecidableEq E] in
theorem Weighed.pilotWalk_nonneg (hw : Weighed S) {t : E} {p : List E} {c : C}
    (h : Walk (pilotNetwork S rAttrs a b) t p c) : 0 ≤ c := by
  induction h with
  | source _ => exact le_refl _
  | snoc _ hstep ih => exact add_nonneg ih (hw.edgePairCost_nonneg hstep.1 _ _)

theorem Weighed.pilotRun_noRoom (hw : Weighed S) (hin : ∀ e ∈ edgesOf a, e ∈ S.g.edges)
    (hconn : compConned S a b) (hzero : pilotBound S a b ≤ 0) :
    (pilotRun S rAttrs a b).2.length < 2 ∧ pilotBound S a b ≤ (pilotRun S rAttrs a b).1 := by
  have hinf : (costFunc S rAttrs (targetGroup S b) (pilotBound S a b)).inf ≤
      ((0 : C) : WithTop C) := WithTop.coe_le_coe.2 hzero
  have hnonneg : ∀ e ∈ S.g.toDirGraph.edges, ∀ n e',
      0 ≤ (costFunc S rAttrs (targetGroup S b) (pilotBound S a b)).cost e n e' :=
    fun e he n e' => hw.edgePairCost_nonneg he n e'
  have hfrm : ∀ e ∈ S.edgeSet.toList (edgesOf a), e ∈ S.g.edges :=
    fun e he => hin e (S.edgeSet.mem.1 he)
  rw [pilotRun, if_pos hconn, ← pilotBound_eq]
  constructor
  · exact Nat.lt_succ_of_le
      (EDijkstra.shortestPathSet_blocked S.pq hinf hnonneg (fun _ => rfl) hfrm).2
  · exact le_getValue hzero
      (EDijkstra.shortestPathSet_blocked S.pq hinf hnonneg (fun _ => rfl) hfrm).1

/-- The limit that `getHopBand` sets. -/
theorem Weighed.getHopBand_limit (hw : Weighed S) (hsteady : PilotSteady S rAttrs a b)
    (hin : ∀ e ∈ edgesOf a, e ∈ S.g.edges) (thread : ℕ) (caches : Caches E C) :
    HopLimit S rAttrs a b (getHopBand S thread rAttrs a b caches).1.maxD := by
  rw [getHopBand_maxD_eq]
  by_cases hconn : compConned S a b
  · cases lt_or_ge 0 (pilotBound S a b) with
    | inl hpos =>
      rcases hsteady.first hin hconn hpos with ⟨cur, hcur, hret⟩ | ⟨hnone, hfar⟩
      · have hbelow : cur.d < pilotBound S a b := WithTop.coe_lt_coe.1 hcur.below
        obtain ⟨p, hwalk⟩ := hcur.walk
        rw [hret, if_neg fun hnone => not_lt_of_ge hnone.2 hbelow]
        exact HopLimit.reached hconn (S.edgeSet.mem.1 hcur.target) hwalk hbelow
          fun t' ht' p' c hw hlt =>
            hcur.least t' (S.edgeSet.mem.2 ht') p' c hw (WithTop.coe_lt_coe.2 hlt)
      · rw [hnone, if_pos ⟨Nat.zero_lt_two, le_refl _⟩]
        exact HopLimit.unreached fun _ => hfar
    | inr hzero =>
      rw [if_pos (hw.pilotRun_noRoom hin hconn hzero)]
      exact HopLimit.unreached fun _ _ _ _ _ hwalk => hzero.trans (hw.pilotWalk_nonneg hwalk)
  · rw [if_pos]
    · exact HopLimit.unreached fun h => absurd h hconn
    · rw [pilotRun, if_neg hconn]
      exact ⟨Nat.zero_lt_two, le_refl _⟩

end pilot

end Pfaedle.Router

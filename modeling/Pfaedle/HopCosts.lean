import Pfaedle.CheapestWalk
import Pfaedle.EDijkstraBlocked
import Pfaedle.Router
import Mathlib.Tactic.Positivity

set_option autoImplicit false

/-!
# What the searches of a router deliver

Under punishments that are not negative the distance to the centre of the targets is a consistent
estimate, and a hop costs as much as a cheapest walk.
-/
namespace Pfaedle.Router
open LabelSetting

section sound
variable {N E C : Type*} [Field C] [LinearOrder C]

structure NonnegOptions (o : RoutingOptions C) : Prop where
  fullTurn : 0 ≤ o.fullTurnPunishFac
  passThru : 0 ≤ o.passThruStationsPunish
  oneWayFac : 0 ≤ o.oneWayPunishFac
  oneWayEdge : 0 ≤ o.oneWayEdgePunish
  lineUnmatched : 0 ≤ o.lineUnmatchedPunishFact
  noLines : 0 ≤ o.noLinesPunishFact
  platform : 0 ≤ o.platformUnmatchedPen
  level : ∀ l, 0 ≤ o.levelPunish l

structure Weighed (S : Setting N E C) : Prop where
  opts : NonnegOptions S.rOpts
  length : ∀ e ∈ S.g.edges, 0 ≤ S.g.length e
  level_lt : ∀ e ∈ S.g.edges, S.g.level e < 8

omit [Field C] in
theorem Setting.forall_edgeSet (S : Setting N E C) {a : EdgeCandidateGroup E C} {good : E → Prop}
    (h : ∀ c ∈ a, good c.e) : ∀ e ∈ S.edgeSet.toList (a.map EdgeCandidate.e), good e := by
  intro e he
  obtain ⟨c, hc, rfl⟩ := List.mem_map.1 (S.edgeSet.mem.1 he)
  exact h c hc

variable [IsStrictOrderedRing C] {S : Setting N E C} {rAttrs : RoutingAttributes}
  {tgGrp : Option ℕ}

theorem bestSimi_nonneg (simi : ℕ → C) (lines : List ℕ) {best : C} (h : 0 ≤ best) :
    0 ≤ bestSimi simi best lines := by
  induction lines generalizing best with
  | nil => exact h
  | cons l lines ih =>
    rw [bestSimi]
    split
    · exact le_refl _
    · rename_i hcur
      apply ih
      split
      · have hpos : (0 : C) ≤ 1 / 10000 := by positivity
        exact hpos.trans (not_lt.1 hcur)
      · exact h

theorem transitLineCmp_nonneg (S : Setting N E C) (rAttrs : RoutingAttributes) (e : E) :
    0 ≤ transitLineCmp S rAttrs e := by
  rw [transitLineCmp]
  split
  · exact le_refl _
  · exact bestSimi_nonneg _ _ zero_le_one

theorem edgeCost_ge {o : RoutingOptions C} (hlevel : ∀ l < 8, 0 ≤ o.levelPunish l) {len : C}
    (hlen : 0 ≤ len) {lvl : ℕ} (hlvl : lvl < 8) {fullTurns passThru oneWayEdges : ℕ}
    {oneWayMeters lineUnmatchedMeters noLinesMeters : C}
    (hmeters : 0 ≤ oneWayMeters * o.oneWayPunishFac)
    (hedges : 0 ≤ (oneWayEdges : C) * o.oneWayEdgePunish)
    (hline : 0 ≤ lineUnmatchedMeters * o.lineUnmatchedPunishFact)
    (hnoLines : 0 ≤ noLinesMeters * o.noLinesPunishFact)
    (hturns : 0 ≤ (fullTurns : C) * o.fullTurnPunishFac)
    (hpass : 0 ≤ (passThru : C) * o.passThruStationsPunish) :
    len * o.levelPunish lvl ≤ edgeCost o (fun l => if lvl = l then len else 0) fullTurns passThru
      oneWayMeters oneWayEdges lineUnmatchedMeters noLinesMeters 0 := by
  have hlevels : len * o.levelPunish lvl ≤
      ((List.range 8).map fun l => (if lvl = l then len else 0) * o.levelPunish l).sum := by
    have hmem : len * o.levelPunish lvl ∈ (List.range 8).map fun l =>
        (if lvl = l then len else 0) * o.levelPunish l :=
      List.mem_map.2 ⟨lvl, List.mem_range.2 hlvl, by rw [if_pos rfl]⟩
    apply List.single_le_sum _ _ hmem
    intro x hx
    obtain ⟨l, hl, rfl⟩ := List.mem_map.1 hx
    apply mul_nonneg _ (hlevel l (List.mem_range.1 hl))
    split
    · exact hlen
    · exact le_refl _
  rw [edgeCost, add_zero]
  exact le_add_of_le_of_nonneg (le_add_of_le_of_nonneg (le_add_of_le_of_nonneg
    (le_add_of_le_of_nonneg (le_add_of_le_of_nonneg (le_add_of_le_of_nonneg hlevels hmeters)
      hedges) hline) hnoLines) hturns) hpass

variable [DecidableEq N]

theorem Weighed.edgePairCost_ge (h : Weighed S) {e : E} (he : e ∈ S.g.edges) (n : N) (e' : E) :
    S.g.length e * S.rOpts.levelPunish (S.g.level e) ≤ edgePairCost S rAttrs tgGrp e n e' := by
  have ho := h.opts
  have hlen := h.length e he
  have hline := transitLineCmp_nonneg S rAttrs e
  rw [edgePairCost]
  refine edgeCost_ge (fun l _ => ho.level l) hlen (h.level_lt e he) ?_ ?_ ?_ ?_ ?_ ?_
  · exact mul_nonneg (mul_nonneg hlen (Nat.cast_nonneg _)) ho.oneWayFac
  · exact mul_nonneg (Nat.cast_nonneg _) ho.oneWayEdge
  · exact mul_nonneg (mul_nonneg hlen hline) ho.lineUnmatched
  · apply mul_nonneg _ ho.noLines
    split
    · exact hlen
    · exact le_refl _
  · exact mul_nonneg (Nat.cast_nonneg _) ho.fullTurn
  · exact mul_nonneg (Nat.cast_nonneg _) ho.passThru

theorem Weighed.edgePairCost_nonneg (h : Weighed S) {e : E} (he : e ∈ S.g.edges) (n : N)
    (e' : E) : 0 ≤ edgePairCost S rAttrs tgGrp e n e' :=
  (mul_nonneg (h.length e he) (h.opts.level _)).trans (h.edgePairCost_ge he n e')

/-- The distance to the centre of the targets drops by no more than an edge costs. -/
theorem Weighed.distHeur_le (h : Weighed S)
    (htriangle : ∀ p q r, S.webMercMeterDist p r ≤ S.webMercMeterDist p q + S.webMercMeterDist q r)
    {lvl : ℕ} {tos : List E} {e e' : E} (he : e ∈ S.g.edges)
    (hdist : S.webMercMeterDist (S.g.geom (S.g.getFrom e)) (S.g.geom (S.g.getTo e)) ≤ S.g.length e)
    (hlvl : S.rOpts.levelPunish lvl ≤ S.rOpts.levelPunish (S.g.level e))
    (hnext : S.g.getFrom e' = S.g.getTo e) :
    distHeur S lvl tos e tos ≤
      edgePairCost S rAttrs tgGrp e (S.g.getTo e) e' + distHeur S lvl tos e' tos := by
  have hpos := h.opts.level lvl
  have htri := htriangle (S.g.geom (S.g.getFrom e)) (S.g.geom (S.g.getTo e)) (groupCenter S tos)
  have hcost : S.webMercMeterDist (S.g.geom (S.g.getFrom e)) (S.g.geom (S.g.getTo e)) *
      S.rOpts.levelPunish lvl ≤ edgePairCost S rAttrs tgGrp e (S.g.getTo e) e' :=
    ((mul_le_mul_of_nonneg_right hdist hpos).trans
      (mul_le_mul_of_nonneg_left hlvl (h.length e he))).trans (h.edgePairCost_ge he _ _)
  have hcenter := mul_le_mul_of_nonneg_right htri hpos
  rw [add_mul] at hcenter
  rw [distHeur, distHeur]
  dsimp only
  rw [hnext, ← add_sub_assoc]
  apply sub_le_sub_right
  exact hcenter.trans (add_le_add_left hcost _)

end sound

section search
variable {N E C : Type*} [DecidableEq N] [Field C] [LinearOrder C]

def hopNetwork (S : Setting N E C) (rAttrs : RoutingAttributes) (tgGrp : Option ℕ) (frm : E) :
    Network E C :=
  (EDijkstra.network S.g.toDirGraph (costFunc S rAttrs tgGrp 0) fun _ => True).outOf frm

/-- The estimate of the search of `hops` drops along no walk by more than an edge costs. -/
def HopSteady (S : Setting N E C) (rAttrs : RoutingAttributes) (tgGrp : Option ℕ) (frm : E)
    (rem : List E) : Prop :=
  Consistent (hopNetwork S rAttrs tgGrp frm) fun e =>
    distHeur S (S.g.minEdgeLvl (S.g.component (S.g.getFrom frm))) rem e rem

def edgesOf (grp : EdgeCandidateGroup E C) : List E := grp.map EdgeCandidate.e

def pilotBound (S : Setting N E C) (a b : EdgeCandidateGroup E C) : C :=
  pendingDistance S a b * (50 : ℕ)

omit [DecidableEq N] in
theorem pilotBound_eq (S : Setting N E C) (a b : EdgeCandidateGroup E C) :
    pilotBound S a b = pendingDistance S a b * 50 := rfl

def pilotNetwork (S : Setting N E C) (rAttrs : RoutingAttributes) (a b : EdgeCandidateGroup E C) :
    Network E C :=
  EDijkstra.network S.g.toDirGraph
    (costFunc S rAttrs (targetGroup S b) (pilotBound S a b)) (· ∈ edgesOf a)

/-- The estimate of the pilot run drops along no walk by more than an edge costs. -/
def PilotSteady (S : Setting N E C) (rAttrs : RoutingAttributes) (a b : EdgeCandidateGroup E C) :
    Prop :=
  Consistent (pilotNetwork S rAttrs a b) fun e =>
    distHeur S 0 (S.edgeSet.toList (edgesOf b)) e (S.edgeSet.toList (edgesOf b))

theorem hopNetwork_eq {S : Setting N E C} {rAttrs : RoutingAttributes} {tgGrp : Option ℕ}
    {frm : E} (hfrm : frm ∈ S.g.edges) (maxD : C) :
    EDijkstra.network S.g.toDirGraph (costFunc S rAttrs tgGrp maxD) (· ∈ [frm]) =
      hopNetwork S rAttrs tgGrp frm := by
  have hsource : (fun e => e ∈ S.g.edges ∧ e ∈ [frm]) = fun e => e = frm := by
    funext e
    apply propext
    constructor
    · intro he
      exact List.mem_singleton.1 he.2
    · rintro rfl
      exact ⟨hfrm, List.mem_singleton_self _⟩
  rw [EDijkstra.network, hsource]
  rfl

theorem hopNetwork_congr {S : Setting N E C} {rAttrs : RoutingAttributes} {tgGrp tgGrp' : Option ℕ}
    (h : edgePairCost S rAttrs tgGrp = edgePairCost S rAttrs tgGrp') (frm : E) :
    hopNetwork S rAttrs tgGrp frm = hopNetwork S rAttrs tgGrp' frm := by
  rw [hopNetwork, hopNetwork, costFunc, costFunc, h]

variable [IsStrictOrderedRing C] {S : Setting N E C} {rAttrs : RoutingAttributes}
  {tgGrp : Option ℕ}

theorem Weighed.walk_nonneg (h : Weighed S) {frm t : E} {p : List E} {d : C}
    (hw : Walk (hopNetwork S rAttrs tgGrp frm) t p d) : 0 ≤ d := by
  induction hw with
  | source _ => exact le_refl _
  | snoc _ hstep ih => exact add_nonneg ih (h.edgePairCost_nonneg hstep.1 _ _)

variable [DecidableEq E]

theorem Weighed.hopSearch_outcome (h : Weighed S) {frm t : E} {rem : List E} {maxD : C}
    (hc : HopSteady S rAttrs tgGrp frm rem) (hfrm : frm ∈ S.g.edges) (hrem : rem.Nodup)
    (hmax : 0 ≤ maxD) (ht : t ∈ rem) :
    let res := hopSearch S rAttrs frm rem tgGrp maxD
    (getValue (res.costs t) < maxD ∧
      Walk (hopNetwork S rAttrs tgGrp frm) t (res.resEdges t) (getValue (res.costs t)) ∧
      ∀ p c, Walk (hopNetwork S rAttrs tgGrp frm) t p c → getValue (res.costs t) ≤ c) ∨
    (getValue (res.costs t) = maxD ∧ (res.resEdges t).length ≤ 1 ∧
      ∀ p c, Walk (hopNetwork S rAttrs tgGrp frm) t p c → maxD ≤ c) := by
  intro res
  cases lt_or_eq_of_le hmax with
  | inl hpos =>
    rw [HopSteady, ← hopNetwork_eq hfrm maxD] at hc
    have hspec := EDijkstra.shortestPathAll_spec S.pq hc hrem hfrm (WithTop.coe_lt_coe.2 hpos) ht
    rw [hopNetwork_eq hfrm maxD] at hspec
    cases hspec with
    | inl hfound =>
      obtain ⟨d, hd, hlt, hwalk, hbest⟩ := hfound
      left
      change res.costs t = _ at hd
      rw [hd]
      exact ⟨WithTop.coe_lt_coe.1 hlt, hwalk, hbest⟩
    | inr hnone =>
      obtain ⟨hd, hedges, hbest⟩ := hnone
      right
      change res.costs t = _ at hd
      change res.resEdges t = _ at hedges
      rw [hd, hedges]
      exact ⟨rfl, Nat.zero_le _, fun p c hw => WithTop.coe_le_coe.1 (hbest p c hw)⟩
  | inr hzero =>
    subst hzero
    right
    have hblocked : EDijkstra.Unreached ((0 : C) : WithTop C) res :=
      EDijkstra.shortestPathAll_blocked S.pq (le_refl _)
        (fun e he n e' => h.edgePairCost_nonneg he n e') rfl hfrm
    obtain ⟨hcost, hedges⟩ := hblocked t
    have hcost : res.costs t = ((0 : C) : WithTop C) := hcost.elim id id
    rw [hcost]
    exact ⟨rfl, hedges, fun p c hw => h.walk_nonneg hw⟩

omit [Field C] [IsStrictOrderedRing C] in
theorem le_foldl_max (ds : List C) (best : C) :
    best ≤ ds.foldl max best ∧ ∀ d ∈ ds, d ≤ ds.foldl max best := by
  induction ds generalizing best with
  | nil => exact ⟨le_refl _, fun d hd => absurd hd List.not_mem_nil⟩
  | cons x ds ih =>
    obtain ⟨hbest, hall⟩ := ih (max best x)
    refine ⟨(le_max_left _ _).trans hbest, fun d hd => ?_⟩
    rcases List.mem_cons.1 hd with rfl | hd
    · exact (le_max_right _ _).trans hbest
    · exact hall d hd

omit [IsStrictOrderedRing C] in
theorem maxFrom_nonneg (ds : List C) : 0 ≤ maxFrom ds := (le_foldl_max ds 0).1

omit [IsStrictOrderedRing C] in
theorem le_maxFrom {ds : List C} {d : C} (h : d ∈ ds) : d ≤ maxFrom ds := (le_foldl_max ds 0).2 d h

theorem NonnegOptions.maxD_nonneg (ho : NonnegOptions S.rOpts) (thread : ℕ)
    (a b : EdgeCandidateGroup E C) (caches : Caches E C) :
    0 ≤ (getHopBand S thread rAttrs a b caches).1.maxD := by
  rw [getHopBand]
  dsimp only
  split
  · exact zero_le_one
  · have hpend := mul_nonneg (maxFrom_nonneg (a.flatMap fun i => b.map fun j =>
      S.webMercMeterDist (S.g.geom (S.g.getFrom i.e)) (S.g.geom (S.g.getFrom j.e)))) (ho.level 2)
    have hmax : (0 : C) ≤ max (pilotRun S rAttrs a b).1 (pendingDistance S a b * S.rOpts.levelPunish 2) :=
      le_max_of_le_right hpend
    exact add_nonneg (add_nonneg (mul_nonneg hmax (by norm_num)) ho.fullTurn) ho.platform

omit [DecidableEq E] [IsStrictOrderedRing C] in
theorem PilotSteady.atEdges {a b : EdgeCandidateGroup E C} (h : PilotSteady S rAttrs a b) :
    Consistent (EDijkstra.network S.g.toDirGraph
      (costFunc S rAttrs (targetGroup S b) (pilotBound S a b))
      (· ∈ S.edgeSet.toList (edgesOf a))) fun e =>
        distHeur S 0 (S.edgeSet.toList (edgesOf b)) e (S.edgeSet.toList (edgesOf b)) := by
  rw [show (fun e => e ∈ S.edgeSet.toList (edgesOf a)) = (· ∈ edgesOf a) from
    funext fun e => propext S.edgeSet.mem]
  exact h

/-- The pilot run finds a cheapest walk to one of the targets or no walk worth keeping. -/
theorem Weighed.pilotRun_spec (hw : Weighed S) {a b : EdgeCandidateGroup E C}
    (hsteady : PilotSteady S rAttrs a b) (hin : ∀ c ∈ a, c.e ∈ S.g.edges) :
    (pilotRun S rAttrs a b).2.length ≤ 1 ∨
    ∃ t ∈ S.edgeSet.toList (b.map EdgeCandidate.e), ∃ source d,
      Walk (EDijkstra.network S.g.toDirGraph (costFunc S rAttrs (targetGroup S b) 0) source) t
        (pilotRun S rAttrs a b).2 d ∧
      ∀ p c, Walk (EDijkstra.network S.g.toDirGraph (costFunc S rAttrs (targetGroup S b) 0) source)
        t p c → d ≤ c := by
  have hfrm : ∀ e ∈ S.edgeSet.toList (a.map EdgeCandidate.e), e ∈ S.g.edges :=
    S.forall_edgeSet hin
  rw [pilotRun]
  dsimp only
  split
  · have hpend : 0 ≤ pendingDistance S a b * 50 := mul_nonneg (maxFrom_nonneg _) (by norm_num)
    cases lt_or_eq_of_le hpend with
    | inl hpos =>
      obtain ⟨res, hres⟩ : ∃ res, res = EDijkstra.shortestPathSet S.pq S.g.toDirGraph
          (costFunc S rAttrs (targetGroup S b) (pendingDistance S a b * 50))
          (distHeur S 0 (S.edgeSet.toList (b.map EdgeCandidate.e)))
          (S.edgeSet.toList (b.map EdgeCandidate.e)) (S.edgeSet.toList (a.map EdgeCandidate.e)) :=
        ⟨_, rfl⟩
      rw [← hres]
      cases EDijkstra.shortestPathSet_spec S.pq hsteady.atEdges hfrm
        (fun _ _ => WithTop.coe_lt_coe.2 hpos) _ rfl res hres with
      | inl hfound =>
        obtain ⟨t, ht, d, -, -, hwalk, hbest⟩ := hfound
        exact Or.inr ⟨t, ht, _, d, hwalk, fun p c hw => hbest t ht rfl p c hw⟩
      | inr hnone =>
        left
        rw [hnone.1]
        exact Nat.zero_le _
    | inr hzero =>
      left
      rw [← hzero]
      exact (EDijkstra.shortestPathSet_blocked S.pq (le_refl _)
        (fun e he n e' => hw.edgePairCost_nonneg he n e') (fun _ => rfl) hfrm).2
  · exact Or.inl (Nat.zero_le _)

end search

end Pfaedle.Router

import Pfaedle.GreedyPlacement
import Pfaedle.HopLimit

set_option autoImplicit false

/-!
# The pilot run of `getHopBand`

It stops at the first target that is settled. That is a nearest one where the candidates are placed
so that the estimates do not mislead the search.
-/
namespace Pfaedle.Router
open LabelSetting

section spec
variable {N E C : Type} [DecidableEq N] [DecidableEq E] [Field C] [LinearOrder C]

/-- Edges are at least as long as their ends are apart, the factors of the levels do not decrease,
and no punishment is negative. -/
structure Spanned (M : Metric C) (S : Setting N E C) : Prop where
  dist : S.webMercMeterDist = M.dist
  length : ∀ e ∈ S.g.edges, M.dist (S.g.geom (S.g.getFrom e)) (S.g.geom (S.g.getTo e)) ≤ S.g.length e
  level_lt : ∀ e ∈ S.g.edges, S.g.level e < 8
  levelPunish : ∀ l l', l ≤ l' → l' < 8 → S.rOpts.levelPunish l ≤ S.rOpts.levelPunish l'
  opts : NonnegOptions S.rOpts

/-- The candidates are edges of the graph, and start at the given positions. -/
def Placed (pos : E → C × C) (S : Setting N E C) (a b : EdgeCandidateGroup E C) : Prop :=
  ∀ e, e ∈ edgesOf a ∨ e ∈ edgesOf b → e ∈ S.g.edges ∧ S.g.geom (S.g.getFrom e) = pos e

/-- The least distance that `getHopBand` takes is at most the cost of every path below the bound of
the pilot run. -/
def Nearest (S : Setting N E C) (thread : ℕ) (rAttrs : RoutingAttributes)
    (a b : EdgeCandidateGroup E C) (caches : Caches E C) : Prop :=
  ∀ t ∈ edgesOf b, ∀ p c, Walk (pilotNetwork S rAttrs a b) t p c →
    c < pilotBound S a b → (getHopBand S thread rAttrs a b caches).1.minD ≤ c

/-- Either the groups share no edge and the edges of `b` start equally far from their centre, or
from any edge of `a` a common edge starts no further from the centre than by way of any edge of
`b`. -/
def SafePair (M : Metric C) (pos : E → C × C) (a b : List E) : Prop :=
  (∀ e ∈ a, e ∉ b) ∧ (∀ t ∈ b, ∀ t' ∈ b, centreDist M pos b t = centreDist M pos b t') ∨
    ∀ s ∈ a, ∀ t ∈ b, ∃ x ∈ a, x ∈ b ∧
      centreDist M pos b x ≤ M.dist (pos s) (pos t) + centreDist M pos b t

end spec

section centre
variable {N E C : Type} [DecidableEq N] [DecidableEq E] [Field C] [LinearOrder C]
  [IsStrictOrderedRing C] {M : Metric C} {S : Setting N E C} {pos : E → C × C}

omit [DecidableEq N] [Field C] [IsStrictOrderedRing C] in
theorem edgeSet_perm (es : List E) : (S.edgeSet.toList es).Perm es.dedup :=
  (List.perm_ext_iff_of_nodup (S.edgeSet.nodup es) (List.nodup_dedup es)).2 fun e => by
    rw [S.edgeSet.mem, List.mem_dedup]

omit [DecidableEq N] [IsStrictOrderedRing C] in
theorem groupCenter_edgeSet {es : List E} (hpos : ∀ e ∈ es, S.g.geom (S.g.getFrom e) = pos e) :
    groupCenter S (S.edgeSet.toList es) = nodeCenter pos es.dedup :=
  (nodeCenter_perm (edgeSet_perm es)).trans
    (nodeCenter_congr fun e he => hpos e (List.mem_dedup.1 he))

omit [DecidableEq N] [IsStrictOrderedRing C] in
theorem distHeur_edgeSet (hdist : S.webMercMeterDist = M.dist) {es : List E}
    (hpos : ∀ e ∈ es, S.g.geom (S.g.getFrom e) = pos e) : ∃ radius, ∀ e,
      S.g.geom (S.g.getFrom e) = pos e →
        distHeur S 0 (S.edgeSet.toList es) e (S.edgeSet.toList es) =
          centreDist M pos es e * S.rOpts.levelPunish 0 - radius := by
  refine ⟨maxFrom ((S.edgeSet.toList es).map fun e =>
    S.webMercMeterDist (S.g.geom (S.g.getFrom e)) (groupCenter S (S.edgeSet.toList es)) *
      S.rOpts.levelPunish 0), fun e he => ?_⟩
  unfold distHeur
  dsimp only
  rw [groupCenter_edgeSet hpos, hdist, he]
  rfl

end centre

section nearest
variable {N E C : Type} [DecidableEq N] [DecidableEq E] [Field C] [LinearOrder C]
  [IsStrictOrderedRing C] {M : Metric C} {S : Setting N E C} {rAttrs : RoutingAttributes}
  {a b : EdgeCandidateGroup E C} {pos : E → C × C}

omit [DecidableEq N] [DecidableEq E] in
theorem Spanned.weighed (h : Spanned M S) : Weighed S :=
  ⟨h.opts, fun e he => (M.nonneg _ _).trans (h.length e he), h.level_lt⟩

omit [DecidableEq N] [DecidableEq E] [IsStrictOrderedRing C] in
theorem Spanned.base (h : Spanned M S) {e : E} (he : e ∈ S.g.edges) :
    S.rOpts.levelPunish 0 ≤ S.rOpts.levelPunish (S.g.level e) :=
  h.levelPunish _ _ (Nat.zero_le _) (h.level_lt e he)

variable (rAttrs a b) in
omit [DecidableEq E] in
theorem Spanned.steady (h : Spanned M S) : PilotSteady S rAttrs a b where
  nonneg _ hstep := h.weighed.edgePairCost_nonneg hstep.1 _ _
  drop _ hstep := by
    refine h.weighed.distHeur_le ?_ hstep.1 ?_ (h.base hstep.1) (S.g.mem_adjListOut.1 hstep.2).2
    · rw [h.dist]
      exact M.triangle
    · rw [h.dist]
      exact h.length _ hstep.1

omit [DecidableEq E] in
theorem Spanned.walk_ge (h : Spanned M S) {t : E} {p : List E} {c : C}
    (hw : Walk (pilotNetwork S rAttrs a b) t p c) : ∃ s ∈ edgesOf a,
      M.dist (S.g.geom (S.g.getFrom s)) (S.g.geom (S.g.getFrom t)) * S.rOpts.levelPunish 0 ≤ c := by
  induction hw with
  | @source s hs =>
    refine ⟨s, hs.2, ?_⟩
    rw [M.self, zero_mul]
    exact le_refl _
  | @snoc u v p c _ hstep ih =>
    obtain ⟨s, hs, hle⟩ := ih
    have hpos := h.opts.level 0
    have htriangle := mul_le_mul_of_nonneg_right (M.triangle (S.g.geom (S.g.getFrom s))
      (S.g.geom (S.g.getFrom u)) (S.g.geom (S.g.getTo u))) hpos
    have hlength := mul_le_mul_of_nonneg_right (h.length u hstep.1) hpos
    have hlevel := mul_le_mul_of_nonneg_left (h.base hstep.1) (h.weighed.length u hstep.1)
    have hcost : _ ≤ (pilotNetwork S rAttrs a b).weight u v :=
      h.weighed.edgePairCost_ge hstep.1 (S.g.getTo u) v
    refine ⟨s, hs, ?_⟩
    rw [(S.g.mem_adjListOut.1 hstep.2).2]
    rw [add_mul] at htriangle
    linarith

omit [DecidableEq E] in
theorem Spanned.walk_nonneg (h : Spanned M S) {t : E} {p : List E} {c : C}
    (hw : Walk (pilotNetwork S rAttrs a b) t p c) : 0 ≤ c := by
  obtain ⟨s, -, hle⟩ := h.walk_ge hw
  exact (mul_nonneg (M.nonneg _ _) (h.opts.level 0)).trans hle

omit [IsStrictOrderedRing C] in
theorem getHopBand_minD_eq (S : Setting N E C) (thread : ℕ) (rAttrs : RoutingAttributes)
    (a b : EdgeCandidateGroup E C) (caches : Caches E C) :
    (getHopBand S thread rAttrs a b caches).1.minD =
      if (pilotRun S rAttrs a b).2.length < 2 ∧
          pilotBound S a b ≤ (pilotRun S rAttrs a b).1 then 0
      else (pilotRun S rAttrs a b).1 := by
  rw [getHopBand, pilotBound_eq]
  dsimp only
  split_ifs <;> rfl

theorem getHopBand_minD (h : Spanned M S) (thread : ℕ) (caches : Caches E C)
    (hin : ∀ e ∈ edgesOf a, e ∈ S.g.edges) (hconn : compConned S a b)
    (hpos : 0 < pilotBound S a b) :
    (∃ cur, PilotTarget S rAttrs a b cur ∧
      (getHopBand S thread rAttrs a b caches).1.minD = cur.d) ∨
      (getHopBand S thread rAttrs a b caches).1.minD = 0 ∧
        ∀ t ∈ edgesOf b, ∀ p c, Walk (pilotNetwork S rAttrs a b) t p c →
          pilotBound S a b ≤ c := by
  rw [getHopBand_minD_eq]
  rcases (h.steady rAttrs a b).first hin hconn hpos with ⟨cur, hcur, hret⟩ | ⟨hnone, hfar⟩
  · have hbelow : cur.d < pilotBound S a b := WithTop.coe_lt_coe.1 hcur.below
    refine Or.inl ⟨cur, hcur, ?_⟩
    rw [hret, if_neg fun hnone => not_lt_of_ge hnone.2 hbelow]
  · refine Or.inr ⟨?_, hfar⟩
    rw [hnone, if_pos ⟨Nat.zero_lt_two, le_refl _⟩]

/-- On a safe placement the pilot run stops at a nearest target. -/
theorem nearest_of_safe (h : Spanned M S) (thread : ℕ) (caches : Caches E C)
    (hplaced : Placed pos S a b) (hconn : compConned S a b)
    (hsafe : SafePair M pos (edgesOf a) (edgesOf b)) : Nearest S thread rAttrs a b caches := by
  intro t ht p c hw hbelow
  have hnonneg := h.walk_nonneg hw
  have hin := fun e (he : e ∈ edgesOf a) => (hplaced e (Or.inl he)).1
  have ha := fun e (he : e ∈ edgesOf a) => (hplaced e (Or.inl he)).2
  have hb := fun e (he : e ∈ edgesOf b) => (hplaced e (Or.inr he)).2
  rcases getHopBand_minD h thread caches hin hconn (hnonneg.trans_lt hbelow) with
    ⟨cur, hcur, hmin⟩ | ⟨hmin, -⟩
  · have htarget : cur.e ∈ edgesOf b := S.edgeSet.mem.1 hcur.target
    obtain ⟨radius, hheur⟩ := distHeur_edgeSet h.dist hb
    rw [hmin]
    rcases hsafe with ⟨-, hequal⟩ | hcommon
    · have hleast := hcur.least t (S.edgeSet.mem.2 ht) p c hw (WithTop.coe_lt_coe.2 hbelow)
      rw [hheur _ (hb _ htarget), hheur _ (hb t ht), hequal _ htarget t ht] at hleast
      exact le_of_add_le_add_right hleast
    · obtain ⟨q, hwalk⟩ := hcur.walk
      obtain ⟨s, hs, hle⟩ := h.walk_ge hwalk
      obtain ⟨x, hxa, hxb, hnear⟩ := hcommon s hs cur.e htarget
      have hless := hcur.start x (S.edgeSet.mem.2 hxa) (S.edgeSet.mem.2 hxb)
      rw [ha s hs, hb _ htarget] at hle
      have hscaled := mul_le_mul_of_nonneg_right hnear (h.opts.level 0)
      rw [add_mul] at hscaled
      -- the entry of `x` would be popped before a target that costs anything
      have hkey : (EDijkstra.initial (N := N) (costFunc S rAttrs (targetGroup S b)
          (pilotBound S a b)) (distHeur S 0 (S.edgeSet.toList (edgesOf b)))
          (S.edgeSet.toList (edgesOf b)) x).h ≤ cur.h := by
        rw [hcur.keyed, hheur _ (hb _ htarget)]
        change 0 + distHeur S 0 _ x _ ≤ _
        rw [hheur x (hb x hxb)]
        linarith
      have hzero : cur.d ≤ 0 := not_lt.1 fun hd =>
        hless (hkey.lt_or_eq.imp_right fun heq => ⟨heq.symm, hd⟩)
      exact hzero.trans hnonneg
  · rw [hmin]
    exact hnonneg

end nearest

end Pfaedle.Router

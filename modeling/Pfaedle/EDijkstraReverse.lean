import Pfaedle.EDijkstraBlocked
import Pfaedle.EDijkstraOneToOne

set_option autoImplicit false

/-!
# The one-to-all search against the one-to-one search

Forwards the two agree if and only if no start edge is reached from another one for less than its
own cost, except for nothing. Backwards they always do.
-/
namespace Pfaedle.EDijkstra
open LabelSetting

section property
variable {N E C : Type*} [DecidableEq N] [DecidableEq E] [AddCommGroup C] [LinearOrder C]
  (pq : PriorityQueue (RouteEdge N E C) RouteEdge.less) (g : InOutGraph N E)
  (costFunc : CostFunc N E C) (froms : List E)

/-- An edge that is reached below `inf` gets its least cost, which is what the one-to-one search
returns. -/
def ForwardExact : Prop :=
  ∀ t p c, Walk (network g.toDirGraph costFunc (· ∈ froms)) t p c →
    (c : WithTop C) < costFunc.inf →
      ∃ d, shortestPathCosts pq g costFunc false froms t = some d ∧
        Least (network g.toDirGraph costFunc (· ∈ froms)) t d ∧
        (shortestPathSet pq g.toDirGraph costFunc zeroHeurFunc [t] froms).1 = d

def ReverseExact : Prop :=
  ∀ t ∈ g.edges, ∀ e ∈ g.edges,
    (shortestPathSet pq g.toDirGraph costFunc zeroHeurFunc [t] [e]).1 =
      (shortestPathCosts pq g costFunc true [t] e).elim costFunc.inf fun d => d

structure ExactSearches : Prop where
  forward : ForwardExact pq g costFunc froms
  reverse : (∀ e, costFunc.start e = 0) → ReverseExact pq g costFunc

/-- A start edge that is reached below its own cost and below `inf` is reached for nothing. -/
def StartsExact : Prop :=
  ∀ s ∈ froms, (∃ p, Walk (network g.toDirGraph costFunc (· ∈ froms)) s p 0) ∨
    ∀ p c, Walk (network g.toDirGraph costFunc (· ∈ froms)) s p c →
      (c : WithTop C) < costFunc.inf → costFunc.start s ≤ c

end property

section forward
variable {N E C : Type*} [AddCommGroup C] [LinearOrder C]
  {pq : PriorityQueue (RouteEdge N E C) RouteEdge.less} {g : InOutGraph N E}
  {costFunc : CostFunc N E C} {froms : List E}

theorem StartsExact.closedKept (hin : ∀ e ∈ froms, e ∈ g.edges)
    (h : StartsExact g costFunc froms) :
    ClosedKept (network g.toDirGraph costFunc (· ∈ froms)) costFunc.inf
      (Free g.toDirGraph costFunc froms) := by
  intro v hv p c hw hlt
  rw [Free, not_or, not_not] at hv
  exact ⟨⟨hin v hv.1, hv.1⟩, (h v hv.1).resolve_left hv.2 p c hw hlt⟩

variable [DecidableEq N] [DecidableEq E] [IsOrderedAddMonoid C]

theorem forwardExact_iff (pq : PriorityQueue (RouteEdge N E C) RouteEdge.less)
    (hcost : (network g.toDirGraph costFunc (· ∈ froms)).NonNeg)
    (hin : ∀ e ∈ froms, e ∈ g.edges) :
    ForwardExact pq g costFunc froms ↔ StartsExact g costFunc froms := by
  by_cases hinf : ((0 : C) : WithTop C) < costFunc.inf
  · obtain ⟨settled, I⟩ := shortestPathCosts_forward pq g hcost hinf hin
    constructor
    · intro h s hs
      by_cases hfree : ∃ p, Walk (network g.toDirGraph costFunc (· ∈ froms)) s p 0
      · exact .inl hfree
      · refine .inr fun p c hw hlt => ?_
        obtain ⟨d, hd, hleast, -⟩ := h s p c hw hlt
        have hclosed : ¬ Free g.toDirGraph costFunc froms s :=
          not_or.2 ⟨not_not.2 hs, hfree⟩
        rw [I.start_kept hs hclosed] at hd
        rw [Option.some.inj hd]
        exact hleast.le hw
    · intro h t p c hw hlt
      have hclosed := h.closedKept hin
      obtain ⟨q, e, hq, -, hbelow⟩ := hw.into_le hcost hclosed hlt
      obtain ⟨d, hd, hdlt, hleast⟩ := I.reached hcost hq hbelow
      have hbest := Least.of_into hcost hclosed hdlt hleast
      obtain ⟨d', hd', hleast'⟩ := shortestPathSet_least pq hcost hin hw hlt
      refine ⟨d, hd, hbest, ?_⟩
      rw [hd', hleast'.unique hbest]
  · -- No walk costs less than nothing.
    have hnone : ∀ t p c, Walk (network g.toDirGraph costFunc (· ∈ froms)) t p c →
        ¬ (c : WithTop C) < costFunc.inf := fun t p c hw hlt =>
      hinf ((WithTop.coe_le_coe.2 (hcost.walk hw)).trans_lt hlt)
    constructor
    · exact fun _ s _ => .inr fun p c hw hlt => absurd hlt (hnone s p c hw)
    · exact fun _ t p c hw hlt => absurd hlt (hnone t p c hw)

end forward

section reverse
variable {N E C : Type*} [DecidableEq E] [AddCommGroup C] [LinearOrder C]
  {pq : PriorityQueue (RouteEdge N E C) RouteEdge.less} {g : InOutGraph N E}
  {costFunc : CostFunc N E C} {cur r : RouteEdge N E C}

theorem mem_relaxInv (source : E → Prop) (hin : cur.e ∈ g.edges)
    (h : r ∈ relaxInv g costFunc cur) :
    (network g.reverse costFunc.reverse source).step cur.e r.e ∧
      r.d = cur.d + (network g.reverse costFunc.reverse source).weight cur.e r.e ∧
      (r.d : WithTop C) < costFunc.inf ∧ r.h = 0 := by
  obtain ⟨edge, hedge, he⟩ := List.mem_filterMap.1 h
  dsimp only at he
  split at he
  · cases he
  · split at he
    · cases he
    · rename_i hlt
      rw [← Option.some.inj he]
      exact ⟨⟨hin, hedge⟩, rfl, not_le.1 hlt, rfl⟩

theorem relaxInv_complete {source : E → Prop} {e : E} (hne : e ≠ cur.e)
    (hstep : (network g.reverse costFunc.reverse source).step cur.e e)
    (hlt : ((cur.d + (network g.reverse costFunc.reverse source).weight cur.e e : C) :
      WithTop C) < costFunc.inf) :
    ∃ r ∈ relaxInv g costFunc cur, r.e = e ∧
      r.d = cur.d + (network g.reverse costFunc.reverse source).weight cur.e e := by
  refine ⟨⟨e, some cur.e, some (g.getFrom cur.e),
    cur.d + costFunc.cost e (g.getFrom cur.e) cur.e, 0⟩, ?_, rfl, rfl⟩
  refine List.mem_filterMap.2 ⟨e, hstep.2, ?_⟩
  rw [if_neg hne]
  exact if_neg (not_le.2 hlt)

theorem relaxInv_length [DecidableEq N] (cur : RouteEdge N E C) :
    (relaxInv g costFunc cur).length ≤ fan g.reverse cur.e :=
  (List.length_filterMap_le _ _).trans (Nat.le_add_left _ _)

structure ReverseLoop (g : InOutGraph N E) (costFunc : CostFunc N E C) (t : E)
    (settled : Settled N E C) (queue : List (RouteEdge N E C)) (costs : E → Option C) : Prop where
  loop : BelowLoop (network g.reverse costFunc.reverse (· ∈ [t])) costFunc.inf settled queue
  queue : ∀ r ∈ queue, r.e ∈ g.edges ∧ r.h = 0 ∧ Below costFunc.inf r
  written : ∀ e, costs e = (settled.find e).map RouteEdge.d

variable {settled : Settled N E C} {queue rest : List (RouteEdge N E C)} {costs : E → Option C}
  {t : E}

theorem ReverseLoop.stale (I : ReverseLoop g costFunc t settled queue costs)
    (hpop : pq.pop queue = some (cur, rest)) (hold : (settled.find cur.e).isSome) :
    ReverseLoop g costFunc t settled rest costs :=
  ⟨I.loop.stale hpop hold, fun r hr => I.queue r ((pq.mem_iff hpop r).2 (.inr hr)), I.written⟩

variable [IsOrderedAddMonoid C]

theorem ReverseLoop.settle (I : ReverseLoop g costFunc t settled queue costs)
    (hcost : (network g.reverse costFunc.reverse (· ∈ [t])).NonNeg)
    (hpop : pq.pop queue = some (cur, rest)) (hnew : (settled.find cur.e).isSome = false) :
    ReverseLoop g costFunc t (cur :: settled) (rest ++ relaxInv g costFunc cur)
      (Function.update costs cur.e (some cur.d)) := by
  obtain ⟨hin, hkey, hbelow⟩ := I.queue cur ((pq.mem_iff hpop cur).2 (.inl rfl))
  have hmin : ∀ r ∈ queue, cur.d ≤ r.d := fun r hr =>
    (pop_le hpop hr).2 (hkey.trans (I.queue r hr).2.1.symm)
  refine ⟨I.loop.settle hpop hbelow (I.loop.best hcost hpop hbelow hnew hmin) ⟨?_, ?_⟩, ?_, ?_⟩
  · intro r hr _
    obtain ⟨hstep, hd, hlt, -⟩ := mem_relaxInv (· ∈ [t]) hin hr
    exact ⟨⟨hstep, trivial⟩, hd, hlt⟩
  · intro e hne hstep hlt
    obtain ⟨r, hr, he, hd⟩ := relaxInv_complete hne hstep.1 hlt
    refine ⟨r, hr, ?_, he, hd⟩
    rw [Below, hd]
    exact hlt
  · intro r hr
    rcases List.mem_append.1 hr with hr | hr
    · exact I.queue r ((pq.mem_iff hpop r).2 (.inr hr))
    · obtain ⟨hstep, -, hlt, hkey'⟩ := mem_relaxInv (· ∈ [t]) hin hr
      exact ⟨(g.mem_adjListIn.1 hstep.2).1, hkey', hlt⟩
  · intro e
    by_cases he : e = cur.e
    · subst he
      simp [Settled.find]
    · rw [Function.update_of_ne he, I.written]
      simp [Settled.find, Ne.symm he]

variable (pq) in
theorem shortestPathCosts_reverse [DecidableEq N]
    (hcost : (network g.reverse costFunc.reverse (· ∈ [t])).NonNeg)
    (hstart : costFunc.start t = 0) (hinf : ((0 : C) : WithTop C) < costFunc.inf)
    (ht : t ∈ g.edges) :
    ∃ settled, ReverseLoop g costFunc t settled [] (shortestPathCosts pq g costFunc true [t]) := by
  have hinitial : ReverseLoop g costFunc t [] ([t].map (startEntry costFunc)) fun _ => none := by
    have hin : ∀ e ∈ [t], e ∈ g.reverse.edges := fun e he => by
      rw [List.mem_singleton.1 he]
      exact ht
    refine ⟨⟨labels_initial hin (fun _ => rfl) (fun _ => rfl) fun _ => Iff.rfl, by simp⟩, ?_,
      fun _ => rfl⟩
    intro r hr
    rw [List.map_singleton, List.mem_singleton] at hr
    subst hr
    refine ⟨ht, rfl, ?_⟩
    change ((costFunc.start t : C) : WithTop C) < costFunc.inf
    rw [hstart]
    exact hinf
  refine searchCosts_run g.reverse (ReverseLoop g costFunc t) (fun I r hr => (I.queue r hr).1)
    relaxInv_length (fun I hpop hold => I.stale hpop hold)
    (fun I hpop hnew => I.settle hcost hpop hnew) _ hinitial ?_
  simp only [pending, rounds, unpaid_nil, List.length_map, if_true]
  omega

/-- What the reverse search leaves without an entry cannot reach `t` below `inf`. -/
theorem ReverseLoop.outcome (I : ReverseLoop g costFunc t settled [] costs)
    (hcost : (network g.reverse costFunc.reverse (· ∈ [t])).NonNeg) (e : E) :
    (∃ d, costs e = some d ∧ (d : WithTop C) < costFunc.inf ∧
      Least (network g.reverse costFunc.reverse (· ∈ [t])) e d) ∨
    (costs e = none ∧ ∀ p c, Walk (network g.reverse costFunc.reverse (· ∈ [t])) e p c →
      costFunc.inf ≤ (c : WithTop C)) := by
  rw [I.written]
  cases hfind : settled.find e with
  | some r =>
    obtain ⟨hr, rfl⟩ := Settled.find_some hfind
    exact .inl ⟨r.d, rfl, I.loop.below r hr, I.loop.least hcost hr⟩
  | none =>
    refine .inr ⟨rfl, fun p c hw => ?_⟩
    by_contra hlt
    obtain ⟨q, d, hq, -, hbelow⟩ := hw.into_le hcost closedKept_all (not_le.1 hlt)
    have hreach := I.loop.labels.exhausted (consistent_into hcost) (by simp [liveDist]) hq hbelow
    exact not_liveDist (by rw [hfind]; rfl) hreach

variable (g costFunc) in
omit [DecidableEq E] [AddCommGroup C] [LinearOrder C] [IsOrderedAddMonoid C] in
theorem opposite_network (source source' : E → Prop) :
    Opposite (network g.toDirGraph costFunc source) (network g.reverse costFunc.reverse source') ∧
      Opposite (network g.reverse costFunc.reverse source')
        (network g.toDirGraph costFunc source) := by
  constructor
  · intro u v hstep
    obtain ⟨hv, hfrom⟩ := g.mem_adjListOut.1 hstep.2
    refine ⟨⟨hv, g.mem_adjListIn.2 ⟨hstep.1, hfrom.symm⟩⟩, ?_⟩
    change costFunc.cost u (g.getFrom v) v = costFunc.cost u (g.getTo u) v
    rw [hfrom]
  · intro u v hstep
    obtain ⟨hv, hto⟩ := g.mem_adjListIn.1 hstep.2
    refine ⟨⟨hv, g.mem_adjListOut.2 ⟨hstep.1, hto.symm⟩⟩, ?_⟩
    change costFunc.cost v (g.getTo v) u = costFunc.cost v (g.getFrom u) u
    rw [hto]
    rfl

omit [DecidableEq E] [LinearOrder C] [IsOrderedAddMonoid C] in
theorem walk_single {g : DirGraph N E} {e : E} (he : e ∈ g.edges) (hzero : costFunc.start e = 0) :
    Walk (network g costFunc (· ∈ [e])) e [e] 0 := by
  rw [← hzero]
  exact Walk.source ⟨he, List.mem_singleton_self e⟩

theorem reverse_agrees [DecidableEq N] (pq : PriorityQueue (RouteEdge N E C) RouteEdge.less)
    (hnonneg : ∀ e n e', 0 ≤ costFunc.cost e n e') (hzero : ∀ e, costFunc.start e = 0)
    (hinf : ((0 : C) : WithTop C) < costFunc.inf) (ht : t ∈ g.edges) {e : E} (he : e ∈ g.edges) :
    (shortestPathSet pq g.toDirGraph costFunc zeroHeurFunc [t] [e]).1 =
      (shortestPathCosts pq g costFunc true [t] e).elim costFunc.inf fun d => d := by
  have hcost : (network g.toDirGraph costFunc (· ∈ [e])).NonNeg :=
    network_nonNeg hnonneg (fun e => (hzero e).ge) _
  have hcostR : (network g.reverse costFunc.reverse (· ∈ [t])).NonNeg :=
    ⟨fun s => (hzero s).ge, fun _ _ => hnonneg _ _ _⟩
  have hin : ∀ s ∈ [e], s ∈ g.edges := fun s hs => List.mem_singleton.1 hs ▸ he
  obtain ⟨hthere, hback⟩ := opposite_network g costFunc (· ∈ [e]) (· ∈ [t])
  have hwalk : ∀ p c, Walk (network g.toDirGraph costFunc (· ∈ [e])) t p c →
      ∃ r, Walk (network g.reverse costFunc.reverse (· ∈ [t])) e r (c + 0) := fun p c hw =>
    hw.meet hthere (fun s hs => ⟨List.mem_singleton.1 hs.2, hzero s⟩) (walk_single ht (hzero t))
  obtain ⟨settled, I⟩ := shortestPathCosts_reverse pq hcostR (hzero t) hinf ht
  rcases I.outcome hcostR e with ⟨d, hd, hlt, hleast⟩ | ⟨hnone, hfar⟩
  · rw [hd]
    obtain ⟨p, hp⟩ := hleast.walk
    obtain ⟨q, hq⟩ := hp.meet hback (fun s hs => ⟨List.mem_singleton.1 hs.2, hzero s⟩)
      (walk_single he (hzero e))
    rw [add_zero] at hq
    have hbest : Least (network g.toDirGraph costFunc (· ∈ [e])) t d := by
      refine ⟨⟨q, hq⟩, fun {p c} hw => ?_⟩
      obtain ⟨r, hr⟩ := hwalk p c hw
      rw [add_zero] at hr
      exact hleast.le hr
    obtain ⟨d', hd', hleast'⟩ := shortestPathSet_least pq hcost hin hq hlt
    rw [hd', hleast'.unique hbest]
    rfl
  · rw [hnone]
    have hbelow : ∀ s ∈ [e], (costFunc.start s : WithTop C) < costFunc.inf := fun s _ =>
      hzero s ▸ hinf
    have hcons : Consistent (network g.toDirGraph costFunc (· ∈ [e]))
        fun e => zeroHeurFunc e [t] := hcost.consistent
    rcases shortestPathSet_spec pq hcons hin hbelow _ rfl _ rfl with
      ⟨t', ht', d, -, hlt, hw, -⟩ | ⟨hres, -⟩
    · rw [List.mem_singleton.1 ht'] at hw
      obtain ⟨r, hr⟩ := hwalk _ d hw
      rw [add_zero] at hr
      exact absurd hlt (not_lt.2 (hfar r d hr))
    · rw [hres]
      rfl

omit [AddCommGroup C] [IsOrderedAddMonoid C] in
theorem searchCosts_alone {push : RouteEdge N E C → List (RouteEdge N E C)} (hpush : push r = [])
    (k : ℕ) (costs : E → Option C) :
    searchCosts pq push (k + 2) [] [r] costs = Function.update costs r.e (some r.d) := by
  simp [searchCosts, pq.pop_singleton, Settled.find, hpush, pq.pop_nil]

omit [IsOrderedAddMonoid C] in
theorem searchSet_alone [DecidableEq N] {heurFunc : HeurFunc E C} {tos : List E}
    (hpush : relax g.toDirGraph costFunc heurFunc tos r = []) (k : ℕ) :
    searchSet pq g.toDirGraph costFunc heurFunc tos (k + 2) [] [r] =
      if r.e ∈ tos then some (r, [r]) else none := by
  simp [searchSet, pq.pop_singleton, Settled.find, hpush, pq.pop_nil]

/-- Without room below `inf` only the start edge is settled, in both directions. -/
theorem reverse_agrees_blocked [DecidableEq N] (pq : PriorityQueue (RouteEdge N E C) RouteEdge.less)
    (hnonneg : ∀ e n e', 0 ≤ costFunc.cost e n e') (hzero : ∀ e, costFunc.start e = 0)
    (hinf : costFunc.inf ≤ ((0 : C) : WithTop C)) (ht : t ∈ g.edges) {e : E} (he : e ∈ g.edges) :
    (shortestPathSet pq g.toDirGraph costFunc zeroHeurFunc [t] [e]).1 =
      (shortestPathCosts pq g costFunc true [t] e).elim costFunc.inf fun d => d := by
  have hforward : (shortestPathSet pq g.toDirGraph costFunc zeroHeurFunc [t] [e]).1 =
      if e = t then ((0 : C) : WithTop C) else costFunc.inf := by
    have hblocked : Blocked g.toDirGraph costFunc [] [initial costFunc zeroHeurFunc [t] e] :=
      Blocked.start hinf (fun e _ n e' => hnonneg e n e') (hzero e) he
    have hpush : relax g.toDirGraph costFunc zeroHeurFunc [t]
        (initial costFunc zeroHeurFunc [t] e) = [] := hblocked.relax he (hzero e)
    obtain ⟨k, hk⟩ : ∃ k, rounds g.toDirGraph [e].length = k + 2 :=
      ⟨(g.edges.map (fan g.toDirGraph)).sum, by simp only [rounds, List.length_singleton]; omega⟩
    rw [shortestPathSet, if_neg (by simp), hk, List.map_singleton, searchSet_alone hpush]
    have hmem : (initial costFunc zeroHeurFunc [t] e).e ∈ [t] ↔ e = t := List.mem_singleton
    by_cases het : e = t
    · rw [if_pos (hmem.2 het), if_pos het]
      change ((costFunc.start e : C) : WithTop C) = _
      rw [hzero]
    · rw [if_neg (mt hmem.1 het), if_neg het]
  have hreverse : shortestPathCosts pq g costFunc true [t] e = if e = t then some 0 else none := by
    have hpush : relaxInv g costFunc (startEntry costFunc t) = [] := by
      rw [List.eq_nil_iff_forall_not_mem]
      intro r hr
      obtain ⟨-, hd, hlt, -⟩ := mem_relaxInv (· ∈ [t]) ht hr
      refine absurd hlt (not_lt.2 (hinf.trans (WithTop.coe_le_coe.2 ?_)))
      rw [hd]
      exact add_nonneg (hzero t).ge (hnonneg _ _ _)
    obtain ⟨k, hk⟩ : ∃ k, rounds g.reverse [t].length = k + 2 :=
      ⟨(g.edges.map (fan g.reverse)).sum, by
        simp only [rounds, List.length_singleton]
        change 1 + (g.edges.map (fan g.reverse)).sum + 1 = _
        omega⟩
    have hrun : shortestPathCosts pq g costFunc true [t] =
        Function.update (fun _ => none) t (some (costFunc.start t)) := by
      rw [shortestPathCosts, if_pos rfl, if_pos rfl, hk]
      exact searchCosts_alone hpush k _
    rw [hrun]
    by_cases het : e = t
    · subst het
      rw [if_pos rfl, Function.update_self, hzero]
    · rw [if_neg het, Function.update_of_ne het]
  rw [hforward, hreverse]
  split <;> rfl

/-- The forward search is exact if and only if the start edges are, and the reverse one always. -/
theorem exactSearches_iff [DecidableEq N] (pq : PriorityQueue (RouteEdge N E C) RouteEdge.less)
    (g : InOutGraph N E) (costFunc : CostFunc N E C) (froms : List E)
    (hin : ∀ e ∈ froms, e ∈ g.edges) (hnonneg : ∀ e n e', 0 ≤ costFunc.cost e n e')
    (hstart : ∀ e, 0 ≤ costFunc.start e) :
    ExactSearches pq g costFunc froms ↔ StartsExact g costFunc froms := by
  rw [← forwardExact_iff pq (network_nonNeg hnonneg hstart _) hin]
  constructor
  · exact fun h => h.forward
  · refine fun h => ⟨h, fun hzero t ht e he => ?_⟩
    by_cases hinf : ((0 : C) : WithTop C) < costFunc.inf
    · exact reverse_agrees pq hnonneg hzero hinf ht he
    · exact reverse_agrees_blocked pq hnonneg hzero (not_lt.1 hinf) ht he

end reverse

section examples

/-- The edges `false` from 0 to 1 and `true` from 1 to 2. -/
def road : InOutGraph ℕ Bool := .ofEdges [false, true] (fun e => e.toNat) fun e => e.toNat + 1

def roadCosts : CostFunc ℕ Bool ℤ where
  start e := if e then 10 else 1
  cost _ _ _ := 1
  inf := (99 : ℤ)

/-- One start edge of a positive cost, which no other edge leads to. -/
theorem exactSearches_one_start : ExactSearches routeQueue road roadCosts [false] := by
  refine (exactSearches_iff routeQueue road roadCosts [false] (by decide)
    (fun _ _ _ => show (0 : ℤ) ≤ 1 by decide) (by decide)).2 ?_
  intro s hs
  obtain rfl := List.mem_singleton.1 hs
  refine .inr fun p c hw _ => ?_
  cases hw with
  | source _ => exact le_refl _
  | @snoc u _ _ _ _ hstep =>
    have hnone : ∀ u, false ∉ road.adjListOut (road.getTo u) := by decide
    exact absurd hstep.2 (hnone u)

/-- The second edge costs 2 when it is reached over the first one, and 10 as a start edge. -/
theorem second_start_kept : ¬ ExactSearches routeQueue road roadCosts [false, true] := by
  intro h
  have hfirst : Walk (network road.toDirGraph roadCosts (· ∈ [false, true])) false [false] 1 :=
    Walk.source ⟨by decide, by decide⟩
  have hsecond : Walk (network road.toDirGraph roadCosts (· ∈ [false, true])) true [true, false] 2 :=
    hfirst.snoc ⟨by decide, by decide⟩
  obtain ⟨d, hd, hleast, -⟩ := h.forward true _ _ hsecond (by decide)
  have hten : shortestPathCosts routeQueue road roadCosts false [false, true] true = some 10 := by
    decide
  rw [hten] at hd
  obtain rfl := Option.some.inj hd
  exact absurd (hleast.le hsecond) (by decide)

end examples

end Pfaedle.EDijkstra

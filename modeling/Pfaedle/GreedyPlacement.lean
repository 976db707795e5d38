import Pfaedle.RouteGreedy
import Mathlib.Data.Countable.Defs
import Mathlib.Data.Fintype.EquivFin

set_option autoImplicit false

/-!
# Placements of candidates that mislead `routeGreedy`

For a placement that is not safe there are streets on which a hop is not cheapest.
-/
namespace Pfaedle.Router
open Dijkstra
open EDijkstra (DirGraph)
open ShapeBuilder (NodeCandidate)

section placement
variable {N C : Type} [DecidableEq N] [Field C] [LinearOrder C] {M : Metric C}
  {pos pos' : N → C × C}

omit [DecidableEq N] [LinearOrder C] in
theorem nodeCenter_congr {ns : List N} (h : ∀ n ∈ ns, pos n = pos' n) :
    nodeCenter pos ns = nodeCenter pos' ns := by
  unfold nodeCenter
  rw [List.map_congr_left fun n hn => congrArg Prod.fst (h n hn),
    List.map_congr_left fun n hn => congrArg Prod.snd (h n hn)]

theorem centreDist_congr {b : List N} (h : ∀ n ∈ b, pos n = pos' n) {n : N} (hn : pos n = pos' n) :
    centreDist M pos b n = centreDist M pos' b n := by
  unfold centreDist
  rw [nodeCenter_congr fun t ht => h t (List.mem_dedup.1 ht), hn]

theorem Safe.congr {a b : List N} (h : Safe M pos a b) (ha : ∀ n ∈ a, pos n = pos' n)
    (hb : ∀ n ∈ b, pos n = pos' n) : Safe M pos' a b := by
  refine h.imp_right fun ⟨hapart, hequal, hone⟩ => ⟨hapart, fun t ht t' ht' => ?_,
    fun s hs s' hs' t ht hless hless' => hone s hs s' hs' t ht ?_ ?_⟩
  · rw [← centreDist_congr hb (hb t ht), ← centreDist_congr hb (hb t' ht')]
    exact hequal t ht t' ht'
  · rwa [centreDist_congr hb (ha s hs), centreDist_congr hb (hb t ht)]
  · rwa [centreDist_congr hb (ha s' hs'), centreDist_congr hb (hb t ht)]

end placement

section trial
variable {N C : Type} [DecidableEq N] [Field C] [LinearOrder C]

/-- Streets with their ends and their lengths, which are what they cost. -/
def streets (M : Metric C) (geom : N → C × C) (edges : List (N × N × C)) (address : N ↪ ℕ)
    (pq : PriorityQueue (RouteNode N (N × N × C) C) RouteNode.less) :
    GreedySetting N (N × N × C) C where
  g :=
    { DirGraph.ofEdges edges (fun e => e.1) (fun e => e.2.1) with
      geom := geom
      si := fun _ => none
      component := fun _ => 0
      minEdgeLvl := fun _ => 0
      level := fun _ => 0
      length := fun e => e.2.2
      oneWay := fun _ => 0
      is_restricted := fun _ => false
      lines := fun _ => [] }
  rOpts := ⟨0, 0, 0, 0, 0, 0, 0, 0, fun _ => 1, false, false⟩
  webMercMeterDist := M.dist
  address := address
  pq := pq

/-- A queue that lists `first` before other nodes with the same key. -/
def preferring {E : Type} (first : N) : PriorityQueue (RouteNode N E C) RouteNode.less :=
  PriorityQueue.leastFirst
    (fun r => toLex (r.h, toLex (r.d, if r.n = first then 0 else 1))) RouteNode.less
    fun a b h => by
      rw [Prod.Lex.toLex_lt_toLex]
      refine h.imp_right fun h => ⟨h.1.symm, ?_⟩
      rw [Prod.Lex.toLex_lt_toLex]
      exact Or.inl h.2

theorem preferring_pop {E : Type} {first : N} {queue rest : List (RouteNode N E C)}
    {cur : RouteNode N E C}
    (hpop : (preferring first).pop queue = some (cur, rest)) {s : N} (hcur : cur = initial s)
    (hfirst : initial first ∈ queue) : s = first := by
  have hle := (PriorityQueue.popLeast_spec _ _ _ _ hpop).2 _ hfirst
  rw [hcur, Prod.Lex.toLex_le_toLex] at hle
  rcases hle with hlt | ⟨-, hle⟩
  · exact absurd hlt (lt_irrefl _)
  · rw [Prod.Lex.toLex_le_toLex] at hle
    rcases hle with hlt | ⟨-, hle⟩
    · exact absurd hlt (lt_irrefl _)
    · by_contra hne
      simp [initial, hne] at hle

/-- Streets from two start nodes to `v`, of which the first is the longer one, and a street from
there to the target. -/
def detour (M : Metric C) (geom : N → C × C) (s s' v t : N) (long short last : C)
    (address : N ↪ ℕ) : GreedySetting N (N × N × C) C :=
  streets M geom [(s, v, long), (s', v, short), (v, t, last)] address (preferring s)

variable {M : Metric C} {geom : N → C × C} {edges : List (N × N × C)} {address : N ↪ ℕ}
  {pq : PriorityQueue (RouteNode N (N × N × C) C) RouteNode.less}

theorem streets_edgeCost (e : N × N × C) :
    Dijkstra.edgeCost (streets M geom edges address pq).g.toDirGraph
      (nCostFunc (streets M geom edges address pq)) e = e.2.2 := by
  simp [Dijkstra.edgeCost, nCostFunc, Router.edgeCost, streets, List.range_succ]

theorem streets_pathCost (es : List (N × N × C)) :
    pathCost (streets M geom edges address pq).g.toDirGraph
      (nCostFunc (streets M geom edges address pq)) es = (es.map fun e => e.2.2).sum := by
  unfold pathCost
  rw [List.map_congr_left fun e _ => streets_edgeCost e]

theorem mem_streets {n : N} {e : N × N × C} :
    e ∈ (streets M geom edges address pq).g.adjListOut n ↔ e ∈ edges ∧ e.1 = n :=
  (streets M geom edges address pq).g.mem_adjListOut

theorem streets_sound (h : ∀ e ∈ edges, M.dist (geom e.1) (geom e.2.1) ≤ e.2.2) :
    Sound M (streets M geom edges address pq) where
  dist := rfl
  length := h
  level_lt _ _ := Nat.zero_lt_succ 7
  levelPunish _ _ := le_refl _
  oneWayFac := le_refl _
  oneWayEdge := le_refl _

end trial

section misled
variable {N C : Type} [DecidableEq N] [Field C] [LinearOrder C] {M : Metric C}

abbrev HopKept {E : Type} (S : GreedySetting N E C) (bs : List N)
    (inv : Settled N E C → List (RouteNode N E C) → Prop) : Prop :=
  Kept S.pq S.g.toDirGraph (nCostFunc S) (nDistHeur S (nodeSet S bs)) (nodeSet S bs) inv

abbrev HopReached {E : Type} (S : GreedySetting N E C) (as bs : List N) :
    Settled N E C → List (RouteNode N E C) → Prop :=
  Reached S.g.toDirGraph (nCostFunc S) (nDistHeur S (nodeSet S bs)) (nodeSet S bs) (nodeSet S as)

theorem hopReached_kept {E : Type} (S : GreedySetting N E C) (as bs : List N) :
    HopKept S bs (HopReached S as bs) := reached_kept S.pq rfl

/-- The entry of a node that is reached from `r` along `e`. -/
abbrev hopEntry {E : Type} (S : GreedySetting N E C) (bs : List N) (r : RouteNode N E C) (e : E) :
    RouteNode N E C :=
  entry S.g.toDirGraph (nCostFunc S) (nDistHeur S (nodeSet S bs)) (nodeSet S bs) r e

theorem streets_entry_h {geom : N → C × C} {edges : List (N × N × C)} {address : N ↪ ℕ}
    {pq : PriorityQueue (RouteNode N (N × N × C) C) RouteNode.less}
    (hsound : Sound M (streets M geom edges address pq)) (bs : List N)
    (r : RouteNode N (N × N × C) C) (e : N × N × C) :
    (hopEntry (streets M geom edges address pq) bs r e).h =
      r.d + e.2.2 + (centreDist M geom bs e.2.1 -
        maxFrom ((nodeSet (streets M geom edges address pq) bs).map (centreDist M geom bs))) := by
  unfold hopEntry entry
  dsimp only
  rw [streets_edgeCost, nDistHeur_nodeSet hsound]
  rfl

/-- If a hop between groups without a common node is cheapest, then the target that the search took
off its queue costs no more than any path. -/
theorem Cheapest.popped {E : Type} {S : GreedySetting N E C} {a b : List (NodeCandidate N C)}
    (hcheap : Cheapest S (a.map NodeCandidate.nd) (b.map NodeCandidate.nd) (greedyHop S a b))
    (hapart : ∀ n ∈ a.map NodeCandidate.nd, n ∉ b.map NodeCandidate.nd)
    {inv : Settled N E C → List (RouteNode N E C) → Prop}
    (hkept : HopKept S (b.map NodeCandidate.nd) inv)
    (hstart : inv [] ((nodeSet S (a.map NodeCandidate.nd)).map initial))
    (hreached : ∀ {settled queue}, inv settled queue →
      HopReached S (a.map NodeCandidate.nd) (b.map NodeCandidate.nd) settled queue)
    {s t : N} (hs : s ∈ a.map NodeCandidate.nd) (ht : t ∈ b.map NodeCandidate.nd) {es : List E}
    (hleads : Dijkstra.Leads S.g.toDirGraph s es t) :
    ∃ settled queue rest q e, inv settled queue ∧ q ∈ settled ∧ e ∈ S.g.adjListOut q.n ∧
      S.pq.pop queue = some (hopEntry S (b.map NodeCandidate.nd) q e, rest) ∧
      S.g.getTo e ∈ b.map NodeCandidate.nd ∧
      q.d + Dijkstra.edgeCost S.g.toDirGraph (nCostFunc S) e ≤
        pathCost S.g.toDirGraph (nCostFunc S) es := by
  obtain ⟨-, -, -, -, -, -, -, hbest⟩ := hcheap ⟨s, hs, t, ht, es, hleads⟩
  have hle := hbest s hs t ht es hleads
  have hedges : (greedyHop S a b).edges = (shortestPath S.pq S.g.toDirGraph (nCostFunc S)
      (nDistHeur S (nodeSet S (b.map NodeCandidate.nd))) (nodeSet S (b.map NodeCandidate.nd))
      (nodeSet S (a.map NodeCandidate.nd))).2.1 := by
    unfold greedyHop
    dsimp only
    split_ifs <;> rfl
  rcases shortestPath_found S.pq hkept hstart hreached with ⟨settled, queue, cur, hfound⟩ | ⟨-, hno⟩
  · obtain ⟨rest, hpop⟩ := hfound.popped
    have htarget := mem_nodeSet.1 hfound.target
    have hcost := hfound.written.cost
    rw [hedges, ← hcost] at hle
    rcases (hreached hfound.inv).parented cur ((S.pq.mem_iff hpop cur).2 (Or.inl rfl)) with
      ⟨s', hs', rfl⟩ | ⟨q, hq, e, he, rfl⟩
    · exact absurd htarget (hapart s' (mem_nodeSet.1 hs'))
    · exact ⟨settled, queue, rest, q, e, hfound.inv, hq, he, hpop, htarget, hle⟩
  · exact absurd hleads (hno s (mem_nodeSet.2 hs) t (mem_nodeSet.2 ht) es)

theorem Reached.d_nonneg [IsStrictOrderedRing C] {E : Type} {g : DirGraph N E}
    {costFunc : Dijkstra.CostFunc N E C}
    {heurFunc : Dijkstra.HeurFunc N C} {tos froms : List N} {settled : Settled N E C}
    {queue : List (RouteNode N E C)} (h : Reached g costFunc heurFunc tos froms settled queue)
    {heur : N → C} (hc : Consistent g costFunc heur) {r : RouteNode N E C} (hr : r ∈ settled) :
    0 ≤ r.d := by
  have hwritten := buildPath_written h.linked h.linked (List.Subset.refl _) le_rfl hr
  obtain ⟨s, -, -, hleads⟩ := hwritten.leads
  rw [hwritten.cost]
  exact hc.pathCost_nonneg hleads

/-- A target that is nearer to the centre is found first although it costs more. -/
theorem not_cheapest_unequal [IsStrictOrderedRing C] [Countable N] {pos : N → C × C}
    {a b : List (NodeCandidate N C)}
    (hapart : ∀ n ∈ a.map NodeCandidate.nd, n ∉ b.map NodeCandidate.nd) (ha : a ≠ []) {t t' : N}
    (ht : t ∈ b.map NodeCandidate.nd) (ht' : t' ∈ b.map NodeCandidate.nd)
    (hless : centreDist M pos (b.map NodeCandidate.nd) t <
      centreDist M pos (b.map NodeCandidate.nd) t') :
    ∃ S : GreedySetting N (N × N × C) C, Sound M S ∧ S.g.geom = pos ∧
      ¬ Cheapest S (a.map NodeCandidate.nd) (b.map NodeCandidate.nd) (greedyHop S a b) := by
  obtain ⟨address, haddress⟩ := Countable.exists_injective_nat N
  obtain ⟨c, hc⟩ := List.exists_mem_of_ne_nil a ha
  have hs : c.nd ∈ a.map NodeCandidate.nd := List.mem_map_of_mem hc
  generalize c.nd = s at hs
  let near := M.dist (pos s) (pos t') + M.dist (pos s) (pos t)
  let gap := (centreDist M pos (b.map NodeCandidate.nd) t' -
    centreDist M pos (b.map NodeCandidate.nd) t) / 2
  have hgap : 0 < gap := half_pos (sub_pos.2 hless)
  let S := streets M pos [(s, t, near + gap), (s, t', near)] ⟨address, haddress⟩ (preferring s)
  have hsound : Sound M S := by
    refine streets_sound fun e he => ?_
    have hnonneg := M.nonneg (pos s) (pos t)
    have hnonneg' := M.nonneg (pos s) (pos t')
    rcases List.mem_cons.1 he with rfl | he
    · dsimp only [near]
      linarith
    · obtain rfl := List.mem_singleton.1 he
      dsimp only [near]
      linarith
  refine ⟨S, hsound, rfl, fun hcheap => ?_⟩
  have hleads : Dijkstra.Leads S.g.toDirGraph s [(s, t', near)] t' :=
    ⟨List.mem_cons_of_mem _ List.mem_cons_self, rfl, rfl⟩
  obtain ⟨settled, queue, rest, q, e, hinv, hq, he, hpop, -, hle⟩ := hcheap.popped hapart
    (hopReached_kept S _ _) reached_start (fun h => h) hs ht' hleads
  have hq0 : 0 ≤ q.d := Reached.d_nonneg hinv (hsound.consistent []) hq
  rw [streets_edgeCost, streets_pathCost, List.map_singleton, List.sum_singleton] at hle
  obtain ⟨hmem, hfrom⟩ := mem_streets.1 he
  rcases List.mem_cons.1 hmem with rfl | hmem
  · dsimp only at hle
    linarith
  · obtain rfl := List.mem_singleton.1 hmem
    -- the entry of the other target is on the queue, and its key is less
    have hother : hopEntry S (b.map NodeCandidate.nd) q (s, t, near + gap) ∈ queue :=
      (hinv.relaxed q hq _ (mem_streets.2 ⟨List.mem_cons_self, hfrom⟩)).resolve_left
        fun ⟨r, hr, hn⟩ => hinv.fresh r hr (mem_nodeSet.2 (hn ▸ ht))
    refine S.pq.pop_top hpop _ hother (Or.inl ?_)
    rw [streets_entry_h hsound, streets_entry_h hsound]
    have hhalf : gap + gap = centreDist M pos (b.map NodeCandidate.nd) t' -
      centreDist M pos (b.map NodeCandidate.nd) t := add_halves _
    dsimp only
    linarith

omit [Field C] in
theorem nodeSet_head {E : Type} {S : GreedySetting N E C} {ns : List N} {n : N} (hn : n ∈ ns)
    (hfirst : S.address n = 0) : (nodeSet S ns).head? = some n := by
  have hsorted := nodeSet_sorted (S := S) ns
  have hmem : n ∈ nodeSet S ns := mem_nodeSet.2 hn
  cases hset : nodeSet S ns with
  | nil =>
    rw [hset] at hmem
    cases hmem
  | cons first others =>
    rw [hset] at hmem hsorted
    rcases List.mem_cons.1 hmem with rfl | hlater
    · rfl
    · have hle := (List.pairwise_cons.1 hsorted).1 n hlater
      rw [hfirst] at hle
      have hzero : S.address first = S.address n := by omega
      rw [List.head?_cons, S.address.injective hzero]

theorem greedyHop_of_nil {E : Type} {S : GreedySetting N E C} (hnone : S.g.edges = [])
    (a b : List (NodeCandidate N C)) :
    greedyHop S a b = ⟨[], (nodeSet S (a.map NodeCandidate.nd)).head?,
      (nodeSet S (b.map NodeCandidate.nd)).head?⟩ := by
  have hnil : ∀ {s : N} {es : List E} {t : N}, Dijkstra.Leads S.g.toDirGraph s es t → es = [] := by
    intro s es t hleads
    cases es with
    | nil => rfl
    | cons e es =>
      have he := hleads.1
      rw [hnone] at he
      cases he
  unfold greedyHop
  dsimp only
  rcases shortestPath_found S.pq
      (hopReached_kept S (a.map NodeCandidate.nd) (b.map NodeCandidate.nd)) reached_start
      fun h => h with
    ⟨settled, queue, cur, hfound⟩ | ⟨hret, -⟩
  · obtain ⟨s, -, -, hleads⟩ := hfound.written.leads
    have hlength := hfound.written.length
    have hempty := hnil hleads
    dsimp only at hlength hempty
    rw [hempty] at hlength ⊢
    rw [if_neg (by rw [hlength]; simp)]
  · rw [hret]
    simp

/-- Groups with a common node, one of which has the node `y` that the other lacks. -/
theorem not_cheapest_shared [Countable N] {a b : List (NodeCandidate N C)} (pos : N → C × C) {x y : N}
    (ha : x ∈ a.map NodeCandidate.nd) (hb : x ∈ b.map NodeCandidate.nd)
    (hy : ¬ (y ∈ a.map NodeCandidate.nd ↔ y ∈ b.map NodeCandidate.nd)) :
    ∃ S : GreedySetting N (N × N × C) C, Sound M S ∧ S.g.geom = pos ∧
      ¬ Cheapest S (a.map NodeCandidate.nd) (b.map NodeCandidate.nd) (greedyHop S a b) := by
  obtain ⟨address, haddress⟩ := Countable.exists_injective_nat N
  have hinjective : Function.Injective fun n => if n = y then 0 else address n + 1 := by
    intro n n' heq
    by_cases hn : n = y
    · by_cases hn' : n' = y
      · rw [hn, hn']
      · simp [hn, hn'] at heq
    · by_cases hn' : n' = y
      · simp [hn, hn'] at heq
      · simp only [hn, hn', if_false, Nat.succ.injEq] at heq
        exact haddress heq
  let S := streets M pos [] ⟨_, hinjective⟩ (preferring y)
  have hfirst : S.address y = 0 := if_pos rfl
  refine ⟨S, streets_sound (fun e he => by cases he), rfl, fun hcheap => ?_⟩
  obtain ⟨s, hs, t, ht, hstart, hend, hleads, -⟩ := hcheap ⟨x, ha, x, hb, [], rfl⟩
  rw [greedyHop_of_nil rfl] at hstart hend hleads
  obtain rfl : s = t := hleads
  dsimp only at hstart hend
  by_cases hya : y ∈ a.map NodeCandidate.nd
  · rw [nodeSet_head hya hfirst] at hstart
    obtain rfl := Option.some.inj hstart
    exact hy ⟨fun _ => ht, fun _ => hya⟩
  · by_cases hyb : y ∈ b.map NodeCandidate.nd
    · rw [nodeSet_head hyb hfirst] at hend
      obtain rfl := Option.some.inj hend
      exact hya hs
    · exact hy ⟨fun h => absurd h hya, fun h => absurd h hyb⟩

end misled

section detour
variable {N E C : Type} [DecidableEq N] [Field C] [LinearOrder C] {M : Metric C}
  {S : GreedySetting N E C} {as bs : List N} {s : N} {e : E}

/-- The entry for the street `e` out of the start node `s`. -/
def firstEntry (S : GreedySetting N E C) (bs : List N) (s : N) (e : E) : RouteNode N E C :=
  entry S.g.toDirGraph (nCostFunc S) (nDistHeur S (nodeSet S bs)) (nodeSet S bs) (initial s) e

/-- The end of `e` is settled from `s` before any other start node comes off the queue. -/
inductive Misled (S : GreedySetting N E C) (as bs : List N) (s : N) (e : E) :
    Settled N E C → List (RouteNode N E C) → Prop
  | start {queue} : initial s ∈ queue → (∀ r ∈ queue, ∃ n ∈ as, r = initial n) →
      Misled S as bs s e [] queue
  | left {queue} : firstEntry S bs s e ∈ queue →
      (∀ r ∈ queue, r = firstEntry S bs s e ∨ ∃ n ∈ as, r = initial n) →
      Misled S as bs s e [initial s] queue
  | late {settled queue} : firstEntry S bs s e ∈ settled → Misled S as bs s e settled queue

theorem misled_start (hs : s ∈ as) : Misled S as bs s e [] ((nodeSet S as).map initial) := by
  refine .start (List.mem_map_of_mem (mem_nodeSet.2 hs)) fun r hr => ?_
  obtain ⟨n, hn, rfl⟩ := List.mem_map.1 hr
  exact ⟨n, mem_nodeSet.1 hn, rfl⟩

theorem misled_popped {queue rest : List (RouteNode N E C)} {cur : RouteNode N E C}
    (hkey : (firstEntry S bs s e).h < 0) (hmem : firstEntry S bs s e ∈ queue)
    (hall : ∀ r ∈ queue, r = firstEntry S bs s e ∨ ∃ n ∈ as, r = initial n)
    (hpop : S.pq.pop queue = some (cur, rest)) : cur = firstEntry S bs s e := by
  rcases hall cur ((S.pq.mem_iff hpop cur).2 (Or.inl rfl)) with heq | ⟨n, -, rfl⟩
  · exact heq
  · exact absurd (Or.inl hkey) (S.pq.pop_top hpop _ hmem)

theorem misled_kept (hpq : S.pq = preferring s) (he : e ∈ S.g.adjListOut s)
    (hout : ∀ e' ∈ S.g.adjListOut s, e' = e) (hend : S.g.getTo e ≠ s)
    (hkey : (firstEntry S bs s e).h < 0) :
    HopKept S bs fun settled queue =>
      HopReached S as bs settled queue ∧ Misled S as bs s e settled queue where
  stale {settled queue cur rest} h hpop hold := by
    obtain ⟨hreached, hmisled⟩ := h
    refine ⟨(hopReached_kept S as bs).stale hreached hpop hold, ?_⟩
    cases hmisled with
    | start _ _ =>
      obtain ⟨r, hr, -⟩ := hold
      cases hr
    | left hmem hall =>
      obtain rfl := misled_popped hkey hmem hall hpop
      obtain ⟨r, hr, hn⟩ := hold
      obtain rfl := List.mem_singleton.1 hr
      exact absurd hn.symm hend
    | late hmem => exact .late hmem
  settle {settled queue cur rest} h hpop hnew htarget := by
    obtain ⟨hreached, hmisled⟩ := h
    refine ⟨(hopReached_kept S as bs).settle hreached hpop hnew htarget, ?_⟩
    cases hmisled with
    | start hfirst hall =>
      obtain ⟨n, -, rfl⟩ := hall cur ((S.pq.mem_iff hpop cur).2 (Or.inl rfl))
      have hmem := fun r => (S.pq.mem_iff hpop r).2
      rw [hpq] at hpop
      obtain rfl := preferring_pop hpop rfl hfirst
      refine .left (List.mem_append_right _ ((mem_relax rfl).2 ⟨e, he, rfl⟩)) fun r hr => ?_
      rcases List.mem_append.1 hr with hrest | hpushed
      · exact Or.inr (hall r (hmem r (Or.inr hrest)))
      · obtain ⟨e', he', rfl⟩ := (mem_relax rfl).1 hpushed
        exact Or.inl (by rw [hout e' he']; rfl)
    | left hmem hall =>
      obtain rfl := misled_popped hkey hmem hall hpop
      exact .late List.mem_cons_self
    | late hmem => exact .late (List.mem_cons_of_mem _ hmem)

variable [IsStrictOrderedRing C]

/-- If the end of the longer street is close to the centre, then it is settled from `s`. -/
theorem detour_not_cheapest {geom : N → C × C} {a b : List (NodeCandidate N C)} {s s' v t : N}
    {long short last : C} {address : N ↪ ℕ}
    (hapart : ∀ n ∈ a.map NodeCandidate.nd, n ∉ b.map NodeCandidate.nd)
    (hs : s ∈ a.map NodeCandidate.nd) (hs' : s' ∈ a.map NodeCandidate.nd) (hne : s ≠ s')
    (ht : t ∈ b.map NodeCandidate.nd) (hsv : s ≠ v) (hvb : v ∉ b.map NodeCandidate.nd)
    (hsound : Sound M (detour M geom s s' v t long short last address)) (hless : short < long)
    (hkey : long + centreDist M geom (b.map NodeCandidate.nd) v <
      maxFrom ((nodeSet (detour M geom s s' v t long short last address)
        (b.map NodeCandidate.nd)).map (centreDist M geom (b.map NodeCandidate.nd)))) :
    ¬ Cheapest (detour M geom s s' v t long short last address) (a.map NodeCandidate.nd)
      (b.map NodeCandidate.nd)
      (greedyHop (detour M geom s s' v t long short last address) a b) := by
  intro hcheap
  have hends : ∀ e, e ∈ [(s, v, long), (s', v, short), (v, t, last)] ↔
      e = (s, v, long) ∨ e = (s', v, short) ∨ e = (v, t, last) := by simp
  have hout : ∀ e ∈ (detour M geom s s' v t long short last address).g.adjListOut s,
      e = (s, v, long) := by
    intro e he
    obtain ⟨hmem, hfrom⟩ := mem_streets.1 he
    rcases (hends e).1 hmem with rfl | rfl | rfl
    · rfl
    · exact absurd hfrom.symm hne
    · exact absurd hfrom.symm hsv
  have hfirst : (firstEntry (detour M geom s s' v t long short last address)
      (b.map NodeCandidate.nd) s (s, v, long)).h < 0 := by
    have hentry := streets_entry_h hsound (b.map NodeCandidate.nd) (initial s) (s, v, long)
    refine hentry.trans_lt ?_
    unfold detour at hkey
    dsimp only [initial]
    linarith
  have hleads : Dijkstra.Leads (detour M geom s s' v t long short last address).g.toDirGraph s'
      [(v, t, last), (s', v, short)] t :=
    ⟨(hends _).2 (Or.inr (Or.inr rfl)), rfl, (hends _).2 (Or.inr (Or.inl rfl)), rfl, rfl⟩
  obtain ⟨settled, queue, rest, q, e, ⟨hinv, hmisled⟩, hq, he, -, htarget, hle⟩ :=
    hcheap.popped hapart
      (misled_kept rfl (mem_streets.2 ⟨(hends _).2 (Or.inl rfl), rfl⟩) hout (Ne.symm hsv) hfirst)
      ⟨reached_start, misled_start hs⟩ (fun h => h.1) hs' ht hleads
  obtain ⟨hmem, hfrom⟩ := mem_streets.1 he
  rcases (hends e).1 hmem with rfl | rfl | rfl
  · exact hvb htarget
  · exact hvb htarget
  · have hqd : q.d = long := by
      cases hmisled with
      | start _ _ => cases hq
      | left _ _ =>
        obtain rfl := List.mem_singleton.1 hq
        exact absurd hfrom.symm hsv
      | late hmem =>
        rw [hinv.linked.unique hq hmem hfrom.symm]
        exact (zero_add _).trans (streets_edgeCost _)
    rw [hqd] at hle
    have hcost : long + last ≤ last + (short + 0) := by
      simpa only [detour, streets_edgeCost, streets_pathCost, List.map_cons, List.map_nil,
        List.sum_cons, List.sum_nil] using hle
    linarith

/-- Of two start nodes near the centre, the one that comes first settles a node from where it is
further away. -/
theorem not_cheapest_near [Countable N] {pos : N → C × C} {a b : List (NodeCandidate N C)}
    (hapart : ∀ n ∈ a.map NodeCandidate.nd, n ∉ b.map NodeCandidate.nd) {s s' t v : N}
    (hs : s ∈ a.map NodeCandidate.nd) (hs' : s' ∈ a.map NodeCandidate.nd) (hne : s ≠ s')
    (ht : t ∈ b.map NodeCandidate.nd) (hva : v ∉ a.map NodeCandidate.nd)
    (hvb : v ∉ b.map NodeCandidate.nd) {x : C}
    (hequal : ∀ t ∈ b.map NodeCandidate.nd, centreDist M pos (b.map NodeCandidate.nd) t = x)
    (hnear : centreDist M pos (b.map NodeCandidate.nd) s < x)
    (hnear' : centreDist M pos (b.map NodeCandidate.nd) s' < x) :
    ∃ S : GreedySetting N (N × N × C) C, Sound M S ∧ (∀ n, n ≠ v → S.g.geom n = pos n) ∧
      ¬ Cheapest S (a.map NodeCandidate.nd) (b.map NodeCandidate.nd) (greedyHop S a b) := by
  obtain ⟨address, haddress⟩ := Countable.exists_injective_nat N
  have hsv : s ≠ v := fun heq => hva (heq ▸ hs)
  have hsv' : s' ≠ v := fun heq => hva (heq ▸ hs')
  have hb : ∀ n ∈ b.map NodeCandidate.nd, n ≠ v := fun n hn heq => hvb (heq ▸ hn)
  -- `v` lies at the centre, and `s'` is nearer to it than the street from `s` is long
  let centre := nodeCenter pos (b.map NodeCandidate.nd).dedup
  let geom := fun n => if n = v then centre else pos n
  let short := max (centreDist M pos (b.map NodeCandidate.nd) s)
    (centreDist M pos (b.map NodeCandidate.nd) s')
  let long := (short + x) / 2
  have hshort : short < x := max_lt hnear hnear'
  have hlong : short < long := left_lt_add_div_two.2 hshort
  have hgeom : ∀ n, n ≠ v → geom n = pos n := fun n hn => if_neg hn
  have hv : geom v = centre := if_pos rfl
  have hcentre : ∀ n, n ≠ v → M.dist (geom n) (geom v) =
      centreDist M pos (b.map NodeCandidate.nd) n := by
    intro n hn
    rw [hgeom n hn, hv]
    rfl
  have hsound : Sound M (detour M geom s s' v t long short x ⟨address, haddress⟩) := by
    refine streets_sound fun e he => ?_
    simp only [List.mem_cons, List.not_mem_nil, or_false] at he
    rcases he with rfl | rfl | rfl
    · exact (hcentre s hsv).trans_le ((le_max_left _ _).trans hlong.le)
    · exact (hcentre s' hsv').trans_le (le_max_right _ _)
    · rw [M.comm]
      exact ((hcentre t (hb t ht)).trans (hequal t ht)).le
  refine ⟨_, hsound, hgeom, detour_not_cheapest hapart hs hs' hne ht hsv hvb hsound hlong ?_⟩
  have hcongr : ∀ n ∈ b.map NodeCandidate.nd, geom n = pos n := fun n hn => hgeom n (hb n hn)
  have hatCentre : centreDist M geom (b.map NodeCandidate.nd) v = 0 := by
    unfold centreDist
    rw [nodeCenter_congr fun n hn => hcongr n (List.mem_dedup.1 hn), hv, M.self]
  rw [hatCentre, add_zero, maxFrom_centreDist _ ht fun t' ht' =>
    (centreDist_congr hcongr (hcongr t' ht')).trans (hequal t' ht')]
  exact add_div_two_lt_right.2 hshort

end detour

section routes
variable {N C : Type} [DecidableEq N] [Field C] [LinearOrder C]

/-- Every hop of the route is cheapest, whatever the graph is that its candidates belong to. -/
def AlwaysCheapest (M : Metric C) (pos : N → C × C) (route : List (List (NodeCandidate N C))) :
    Prop :=
  ∀ (E : Type) (S : GreedySetting N E C), Sound M S →
    (∀ grp ∈ route, ∀ c ∈ grp, S.g.geom c.nd = pos c.nd) →
      ∀ k a b, route[k]? = some a → route[k + 1]? = some b →
        ∃ hop, (routeGreedy S route)[k]? = some hop ∧
          Cheapest S (a.map NodeCandidate.nd) (b.map NodeCandidate.nd) hop

theorem routeGreedy_getElem? {E : Type} (S : GreedySetting N E C)
    {route : List (List (NodeCandidate N C))} {k : ℕ} {a b : List (NodeCandidate N C)}
    (ha : route[k]? = some a) (hb : route[k + 1]? = some b) :
    (routeGreedy S route)[k]? = some (greedyHop S a b) := by
  induction route generalizing k with
  | nil => cases ha
  | cons grp rest ih =>
    cases rest with
    | nil => cases hb
    | cons grp' rest =>
      cases k with
      | zero =>
        cases ha
        cases hb
        rfl
      | succ k => exact ih ha hb

variable [IsStrictOrderedRing C] {M : Metric C} {pos : N → C × C}

/-- Where the placement of two groups is not safe, there are streets that mislead the search. -/
theorem exists_not_cheapest [Countable N] {a b : List (NodeCandidate N C)} (ha : a ≠ [])
    (hnot : ¬ Safe M pos (a.map NodeCandidate.nd) (b.map NodeCandidate.nd)) {v : N}
    (hva : v ∉ a.map NodeCandidate.nd) (hvb : v ∉ b.map NodeCandidate.nd) :
    ∃ S : GreedySetting N (N × N × C) C, Sound M S ∧ (∀ n, n ≠ v → S.g.geom n = pos n) ∧
      ¬ Cheapest S (a.map NodeCandidate.nd) (b.map NodeCandidate.nd) (greedyHop S a b) := by
  rw [Safe, not_or, not_and, not_and] at hnot
  obtain ⟨hdiffer, hunsafe⟩ := hnot
  by_cases hapart : ∀ n ∈ a.map NodeCandidate.nd, n ∉ b.map NodeCandidate.nd
  · by_cases hequal : ∀ t ∈ b.map NodeCandidate.nd, ∀ t' ∈ b.map NodeCandidate.nd,
        centreDist M pos (b.map NodeCandidate.nd) t = centreDist M pos (b.map NodeCandidate.nd) t'
    · have htwo := hunsafe hapart hequal
      simp only [not_forall] at htwo
      obtain ⟨s, hs, s', hs', t, ht, hnear, hnear', hne⟩ := htwo
      exact not_cheapest_near hapart hs hs' hne ht hva hvb (fun t' ht' => hequal t' ht' t ht)
        hnear hnear'
    · simp only [not_forall] at hequal
      obtain ⟨t, ht, t', ht', hne⟩ := hequal
      rcases lt_or_gt_of_ne hne with hlt | hgt
      · obtain ⟨S, hsound, hgeom, hcheap⟩ := not_cheapest_unequal hapart ha ht ht' hlt
        exact ⟨S, hsound, fun n _ => congrFun hgeom n, hcheap⟩
      · obtain ⟨S, hsound, hgeom, hcheap⟩ := not_cheapest_unequal hapart ha ht' ht hgt
        exact ⟨S, hsound, fun n _ => congrFun hgeom n, hcheap⟩
  · simp only [not_forall, not_not] at hapart hdiffer
    obtain ⟨x, hxa, hxb⟩ := hapart
    obtain ⟨y, hy⟩ := hdiffer
    obtain ⟨S, hsound, hgeom, hcheap⟩ := not_cheapest_shared pos hxa hxb hy
    exact ⟨S, hsound, fun n _ => congrFun hgeom n, hcheap⟩

/-- The hops are cheapest on every graph exactly for the candidates whose placement is safe. -/
theorem routeGreedy_cheapest_iff [Infinite N] [Countable N]
    {route : List (List (NodeCandidate N C))} (hne : ∀ grp ∈ route, grp ≠ []) :
    AlwaysCheapest M pos route ↔
      route.IsChain fun a b => Safe M pos (a.map NodeCandidate.nd) (b.map NodeCandidate.nd) := by
  rw [List.isChain_iff_getElem]
  constructor
  · intro h k hk
    by_contra hnot
    obtain ⟨v, hv⟩ := Infinite.exists_notMem_finset (route.flatten.map NodeCandidate.nd).toFinset
    rw [List.mem_toFinset] at hv
    have hfresh : ∀ grp ∈ route, ∀ c ∈ grp, c.nd ≠ v := fun grp hgrp c hc heq =>
      hv (heq ▸ List.mem_map_of_mem (List.mem_flatten.2 ⟨grp, hgrp, hc⟩))
    have hlacks : ∀ grp ∈ route, v ∉ grp.map NodeCandidate.nd := fun grp hgrp hmem => by
      obtain ⟨c, hc, heq⟩ := List.mem_map.1 hmem
      exact hfresh grp hgrp c hc heq
    have ha : route[k] ∈ route := List.getElem_mem _
    have hb : route[k + 1] ∈ route := List.getElem_mem hk
    obtain ⟨S, hsound, hgeom, hcheap⟩ := exists_not_cheapest (hne _ ha) hnot
      (hlacks _ ha) (hlacks _ hb)
    have hlt : k < route.length := by omega
    obtain ⟨hop, hhop, hbest⟩ := h _ S hsound
      (fun grp hgrp c hc => hgeom _ (hfresh grp hgrp c hc)) k _ _
      (List.getElem?_eq_getElem hlt) (List.getElem?_eq_getElem hk)
    rw [routeGreedy_getElem? S (List.getElem?_eq_getElem hlt) (List.getElem?_eq_getElem hk)] at hhop
    obtain rfl := Option.some.inj hhop
    exact hcheap hbest
  · intro h E S hsound hgeom k a b ha hb
    refine ⟨_, routeGreedy_getElem? S ha hb, ?_⟩
    obtain ⟨hk, rfl⟩ := List.getElem?_eq_some_iff.1 ha
    obtain ⟨hk', rfl⟩ := List.getElem?_eq_some_iff.1 hb
    have hplaced : ∀ grp ∈ route, ∀ n ∈ grp.map NodeCandidate.nd, pos n = S.g.geom n := by
      intro grp hgrp n hn
      obtain ⟨c, hc, rfl⟩ := List.mem_map.1 hn
      exact (hgeom grp hgrp c hc).symm
    have hmem := List.getElem_mem hk
    have hmem' := List.getElem_mem hk'
    exact greedyHop_cheapest hsound (hne _ hmem) (hne _ hmem')
      ((h k hk').congr (hplaced _ hmem) (hplaced _ hmem'))

end routes

section sample

def taxicab : Metric ℚ where
  dist p q := |p.1 - q.1| + |p.2 - q.2|
  self p := by simp
  comm p q := by rw [abs_sub_comm, abs_sub_comm p.2]
  triangle p q r := by
    have hx := abs_sub_le p.1 q.1 r.1
    have hy := abs_sub_le p.2 q.2 r.2
    linarith

def onLine (n : ℕ) : ℚ × ℚ := (n, 0)

/-- Two targets on the line, both half a unit from their centre, and two start nodes before them. -/
def lineRoute : List (List (NodeCandidate ℕ ℚ)) :=
  [[⟨0, 0⟩, ⟨1, 0⟩], [⟨2, 0⟩, ⟨3, 0⟩], [⟨3, 0⟩, ⟨2, 0⟩]]

theorem routeGreedy_cheapest_line : AlwaysCheapest taxicab onLine lineRoute := by
  refine (routeGreedy_cheapest_iff (by decide)).2 ?_
  refine .cons_cons (Or.inr ⟨by decide, by decide +kernel, by decide +kernel⟩)
    (.cons_cons (Or.inl fun n => ?_) (.singleton _))
  simp [or_comm]

def sharedStreets : GreedySetting ℕ (ℕ × ℕ × ℚ) ℚ :=
  streets taxicab onLine [(0, 2, 2)] (.refl ℕ) (preferring 0)

/-- The search ends at the shared node, and the hop is taken for one that was not found. -/
theorem routeGreedy_shared :
    Sound taxicab sharedStreets ∧ (∀ n, sharedStreets.g.geom n = onLine n) ∧
      routeGreedy sharedStreets [[⟨0, 0⟩, ⟨1, 0⟩], [⟨1, 0⟩, ⟨2, 0⟩]] = [⟨[], some 0, some 1⟩] ∧
      ¬ Cheapest sharedStreets [0, 1] [1, 2] ⟨[], some 0, some 1⟩ := by
  refine ⟨streets_sound (by decide +kernel), fun _ => rfl, by decide +kernel, fun hcheap => ?_⟩
  obtain ⟨s, -, t, -, hstart, hend, hleads, -⟩ := hcheap
    ⟨1, by decide, 1, by decide, [], rfl⟩
  obtain rfl := Option.some.inj hstart
  obtain rfl := Option.some.inj hend
  exact absurd hleads (by decide : ¬ (0 : ℕ) = 1)

end sample

end Pfaedle.Router

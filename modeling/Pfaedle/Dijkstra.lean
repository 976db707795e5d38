import Pfaedle.EDijkstraInvariant

set_option autoImplicit false

/-!
# `util::graph::Dijkstra`

The node-based search of `Dijkstra.h` between two sets of nodes. Start nodes are put on the queue
without a heuristic, and the search ends at the first target that it settles.
-/
namespace Pfaedle.Dijkstra
open EDijkstra (DirGraph sum_map_drop)

structure RouteNode (N E C : Type*) where
  n : N
  parent : Option N
  d : C
  h : C
  e : Option E

/-- `RouteNode::operator<`; the queue's top is a greatest element. -/
def RouteNode.less {N E C : Type*} [LT C] (a b : RouteNode N E C) : Prop :=
  b.h < a.h ∨ (a.h = b.h ∧ b.d < a.d)

structure CostFunc (N E C : Type*) where
  cost : N → E → N → C
  inf : WithTop C

abbrev HeurFunc (N C : Type*) := N → List N → C

abbrev Settled (N E C : Type*) := List (RouteNode N E C)

section search
variable {N E C : Type*} [DecidableEq N] [AddCommGroup C] [LinearOrder C]

def Settled.find (settled : Settled N E C) (n : N) : Option (RouteNode N E C) :=
  List.find? (fun r => r.n = n) settled

def initial (n : N) : RouteNode N E C := ⟨n, none, 0, 0, none⟩

def getOtherNd (g : DirGraph N E) (e : E) (notNode : N) : N :=
  if g.getTo e = notNode then g.getFrom e else g.getTo e

/-- The list that `buildPath` appends to `resNodes`, and the one for `resEdges`. -/
def buildPath (settled : Settled N E C) : ℕ → N → List N × List E
  | 0, _ => ([], [])
  | k + 1, curN =>
    match settled.find curN with
    | none => ([], [])
    | some curNode =>
      match curNode.parent with
      | none => ([curNode.n], [])
      | some parent =>
        let rest := buildPath settled k parent
        (curNode.n :: rest.1, curNode.e.toList ++ rest.2)

/-- More rounds than a search from `n` start nodes has. -/
def rounds (g : DirGraph N E) (n : ℕ) : ℕ :=
  n + (g.edges.map fun e => (g.adjListOut (g.getFrom e)).length).sum + 1

variable (pq : PriorityQueue (RouteNode N E C) RouteNode.less) (g : DirGraph N E)
  (costFunc : CostFunc N E C) (heurFunc : HeurFunc N C) (tos : List N)

def relaxEdge (cur : RouteNode N E C) (edge : E) : Option (RouteNode N E C) :=
  let other := getOtherNd g edge cur.n
  let newC := cur.d + costFunc.cost cur.n edge other
  if costFunc.inf ≤ (newC : WithTop C) then none
  else some ⟨other, some cur.n, newC, newC + heurFunc other tos, some edge⟩

def relax (cur : RouteNode N E C) : List (RouteNode N E C) :=
  (g.adjListOut cur.n).filterMap (relaxEdge g costFunc heurFunc tos cur)

/-- The `while` loop, up to its first settled target. -/
def search : ℕ → Settled N E C → List (RouteNode N E C) → Option (RouteNode N E C × Settled N E C)
  | 0, _, _ => none
  | k + 1, settled, queue =>
    match pq.pop queue with
    | none => none
    | some (cur, queue) =>
      if (settled.find cur.n).isSome then search k settled queue
      else if cur.n ∈ tos then some (cur, cur :: settled)
      else search k (cur :: settled) (queue ++ relax g costFunc heurFunc tos cur)

/-- `shortestPathImpl(set from, set to, ...)`: the returned cost, `resEdges` and `resNodes`. -/
def shortestPath (froms : List N) : WithTop C × List E × List N :=
  match search pq g costFunc heurFunc tos (rounds g froms.length) [] (froms.map initial) with
  | none => (costFunc.inf, [], [])
  | some (cur, settled) =>
    let path := buildPath settled settled.length cur.n
    (cur.d, path.2, path.1)

end search

section paths
variable {N E C : Type*} [AddCommMonoid C]

/-- The edges lead from `s` to `t`. The edge entered last comes first. -/
def Leads (g : DirGraph N E) (s : N) : List E → N → Prop
  | [], t => s = t
  | e :: es, t => e ∈ g.edges ∧ g.getTo e = t ∧ Leads g s es (g.getFrom e)

def edgeCost (g : DirGraph N E) (costFunc : CostFunc N E C) (e : E) : C :=
  costFunc.cost (g.getFrom e) e (g.getTo e)

def pathCost (g : DirGraph N E) (costFunc : CostFunc N E C) (es : List E) : C :=
  (es.map (edgeCost g costFunc)).sum

theorem pathCost_cons (g : DirGraph N E) (costFunc : CostFunc N E C) (e : E) (es : List E) :
    pathCost g costFunc (e :: es) = pathCost g costFunc es + edgeCost g costFunc e := by
  unfold pathCost
  rw [List.map_cons, List.sum_cons, add_comm]

end paths

section run
variable {N E C : Type*} [DecidableEq N] [AddCommGroup C] [LinearOrder C]
  {pq : PriorityQueue (RouteNode N E C) RouteNode.less} {g : DirGraph N E}
  {costFunc : CostFunc N E C} {heurFunc : HeurFunc N C} {tos : List N}
  {settled : Settled N E C} {queue rest : List (RouteNode N E C)} {cur : RouteNode N E C}

omit [AddCommGroup C] [LinearOrder C] in
theorem find_isSome {n : N} : (Settled.find settled n).isSome ↔ ∃ r ∈ settled, r.n = n := by
  simp [Settled.find]

omit [AddCommGroup C] [LinearOrder C] in
theorem find_none {n : N} : Settled.find settled n = none ↔ ∀ r ∈ settled, r.n ≠ n := by
  simp [Settled.find]

structure Kept (pq : PriorityQueue (RouteNode N E C) RouteNode.less) (g : DirGraph N E)
    (costFunc : CostFunc N E C) (heurFunc : HeurFunc N C) (tos : List N)
    (inv : Settled N E C → List (RouteNode N E C) → Prop) : Prop where
  stale : ∀ {settled queue cur rest}, inv settled queue → pq.pop queue = some (cur, rest) →
    (∃ r ∈ settled, r.n = cur.n) → inv settled rest
  settle : ∀ {settled queue cur rest}, inv settled queue → pq.pop queue = some (cur, rest) →
    (∀ r ∈ settled, r.n ≠ cur.n) → cur.n ∉ tos →
      inv (cur :: settled) (rest ++ relax g costFunc heurFunc tos cur)

theorem search_found {inv : Settled N E C → List (RouteNode N E C) → Prop}
    (h : Kept pq g costFunc heurFunc tos inv) (k : ℕ) (hinv : inv settled queue)
    {out : RouteNode N E C × Settled N E C}
    (hrun : search pq g costFunc heurFunc tos k settled queue = some out) :
    ∃ settled queue rest, inv settled queue ∧ pq.pop queue = some (out.1, rest) ∧
      (∀ r ∈ settled, r.n ≠ out.1.n) ∧ out.1.n ∈ tos ∧ out.2 = out.1 :: settled := by
  induction k generalizing settled queue with
  | zero => cases hrun
  | succ k ih =>
    rw [search] at hrun
    cases hpop : pq.pop queue with
    | none =>
      rw [hpop] at hrun
      cases hrun
    | some next =>
      obtain ⟨cur, rest⟩ := next
      rw [hpop] at hrun
      dsimp only at hrun
      split_ifs at hrun with hstale htarget
      · exact ih (h.stale hinv hpop (find_isSome.1 hstale)) hrun
      · rw [Option.not_isSome_iff_eq_none, find_none] at hstale
        cases hrun
        exact ⟨settled, queue, rest, hinv, hpop, hstale, htarget, rfl⟩
      · rw [Option.not_isSome_iff_eq_none, find_none] at hstale
        exact ih (h.settle hinv hpop hstale htarget) hrun

/-! Every round either drops an entry or settles a node and pays for its pushes. -/

theorem relax_length (g : DirGraph N E) (costFunc : CostFunc N E C) (heurFunc : HeurFunc N C)
    (tos : List N) (cur : RouteNode N E C) :
    (relax g costFunc heurFunc tos cur).length ≤ (g.adjListOut cur.n).length :=
  List.length_filterMap_le _ _

def unpaid (g : DirGraph N E) (settled : Settled N E C) : ℕ :=
  (g.edges.map fun e => if (settled.find (g.getFrom e)).isSome then 0
    else (g.adjListOut (g.getFrom e)).length).sum

omit [AddCommGroup C] [LinearOrder C] in
theorem unpaid_settle (hnew : ∀ r ∈ settled, r.n ≠ cur.n) :
    unpaid g (cur :: settled) + (g.adjListOut cur.n).length ≤ unpaid g settled := by
  have hle : ∀ e ∈ g.edges,
      (if (Settled.find (cur :: settled) (g.getFrom e)).isSome then 0
        else (g.adjListOut (g.getFrom e)).length) ≤
      if (Settled.find settled (g.getFrom e)).isSome then 0
        else (g.adjListOut (g.getFrom e)).length := by
    intro e _
    by_cases he : (Settled.find settled (g.getFrom e)).isSome
    · have hcons : (Settled.find (cur :: settled) (g.getFrom e)).isSome := by
        rw [find_isSome] at he ⊢
        exact he.imp fun r hr => ⟨List.mem_cons_of_mem _ hr.1, hr.2⟩
      simp [hcons]
    · rw [if_neg he]
      split <;> omega
  cases hout : g.adjListOut cur.n with
  | nil => exact List.sum_le_sum hle
  | cons e out =>
    obtain ⟨he, hfrom⟩ := g.mem_adjListOut.1 (hout ▸ List.mem_cons_self : e ∈ g.adjListOut cur.n)
    apply sum_map_drop he hle
    have hcur : (Settled.find (cur :: settled) cur.n).isSome := by simp [Settled.find]
    have hold : Settled.find settled cur.n = none := find_none.2 hnew
    simp [hfrom, hcur, hold, hout]

omit [AddCommGroup C] [LinearOrder C] in
theorem unpaid_nil : unpaid g ([] : Settled N E C) =
    (g.edges.map fun e => (g.adjListOut (g.getFrom e)).length).sum := by
  simp [unpaid, Settled.find]

/-- A search with rounds left ends at a target or with an empty queue. -/
theorem search_exhausted {inv : Settled N E C → List (RouteNode N E C) → Prop}
    (h : Kept pq g costFunc heurFunc tos inv) (k : ℕ) (hinv : inv settled queue)
    (hk : queue.length + unpaid g settled < k)
    (hrun : search pq g costFunc heurFunc tos k settled queue = none) :
    ∃ settled, inv settled [] := by
  induction k generalizing settled queue with
  | zero => exact absurd hk (Nat.not_lt_zero _)
  | succ k ih =>
    rw [search] at hrun
    cases hpop : pq.pop queue with
    | none =>
      rw [pq.eq_nil_of_pop hpop] at hinv
      exact ⟨settled, hinv⟩
    | some next =>
      obtain ⟨cur, rest⟩ := next
      have hlength := pq.length_pop hpop
      rw [hpop] at hrun
      dsimp only at hrun
      split_ifs at hrun with hstale htarget
      · exact ih (h.stale hinv hpop (find_isSome.1 hstale)) (by omega) hrun
      · rw [Option.not_isSome_iff_eq_none, find_none] at hstale
        have hpaid := unpaid_settle (g := g) hstale
        have hpushed := relax_length g costFunc heurFunc tos cur
        refine ih (h.settle hinv hpop hstale htarget) ?_ hrun
        rw [List.length_append]
        omega

end run

end Pfaedle.Dijkstra

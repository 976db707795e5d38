import Pfaedle.LabelSetting
import Pfaedle.PriorityQueue
import Mathlib.Data.Prod.Lex
import Mathlib.Algebra.BigOperators.Group.List.Basic

set_option autoImplicit false

/-!
# `util::graph::EDijkstra`

The edge-based search of `EDijkstra.h`. It settles edges, keeps stale duplicates on its queue
and prunes a relaxation whose cost reaches `inf`. Node pointers and edge pointers are opaque
types; a `std::set` of pointers is a duplicate-free list in some order.
-/
namespace Pfaedle.EDijkstra

/-- A finite directed graph as the search reads it: `getFrom`, `getTo` and `getAdjListOut`. -/
structure DirGraph (N E : Type*) where
  edges : List E
  getFrom : E → N
  getTo : E → N
  adjListOut : N → List E
  mem_adjListOut : ∀ {n e}, e ∈ adjListOut n ↔ e ∈ edges ∧ getFrom e = n

/-- The graph with the given edges, each in the out-list of its start in the given order. -/
def DirGraph.ofEdges {N E : Type*} [DecidableEq N] (edges : List E) (getFrom getTo : E → N) :
    DirGraph N E where
  edges := edges
  getFrom := getFrom
  getTo := getTo
  adjListOut n := edges.filter fun e => getFrom e = n
  mem_adjListOut := by simp

/-- `start e` is `costFunc(nullptr, nullptr, e)`. -/
structure CostFunc (N E C : Type*) where
  start : E → C
  cost : E → N → E → C
  inf : WithTop C

abbrev HeurFunc (E C : Type*) := E → List E → C

structure RouteEdge (N E C : Type*) where
  e : E
  parent : Option E
  n : Option N
  d : C
  h : C

/-- `RouteEdge::operator<`; the queue's top is a greatest element. -/
def RouteEdge.less {N E C : Type*} [LT C] (a b : RouteEdge N E C) : Prop :=
  b.h < a.h ∨ (a.h = b.h ∧ b.d < a.d)

def routeQueue {N E C : Type*} [LinearOrder C] :
    PriorityQueue (RouteEdge N E C) RouteEdge.less :=
  PriorityQueue.leastFirst (fun r => toLex (r.h, r.d)) RouteEdge.less fun a b h => by
    rw [Prod.Lex.toLex_lt_toLex]
    exact h.imp_right fun h => ⟨h.1.symm, h.2⟩

section search
variable {N E C : Type*} [DecidableEq N] [DecidableEq E] [AddCommGroup C] [LinearOrder C]

abbrev Settled (N E C : Type*) := List (RouteEdge N E C)

def Settled.find (settled : Settled N E C) (e : E) : Option (RouteEdge N E C) :=
  List.find? (fun r => r.e = e) settled

def relaxEdge (costFunc : CostFunc N E C) (heurFunc : HeurFunc E C) (tos : List E)
    (cur : RouteEdge N E C) (n : N) (edge : E) : Option (RouteEdge N E C) :=
  if edge = cur.e then none
  else
    let newC := cur.d + costFunc.cost cur.e n edge
    if costFunc.inf ≤ (newC : WithTop C) then none
    else some ⟨edge, some cur.e, some n, newC, newC + heurFunc edge tos⟩

/-- The entries that `relax` pushes. Only a self-edge ends at the node it starts from, and
    then the edges out of that node are pushed twice. -/
def relax (g : DirGraph N E) (costFunc : CostFunc N E C) (heurFunc : HeurFunc E C)
    (tos : List E) (cur : RouteEdge N E C) : List (RouteEdge N E C) :=
  (if g.getTo cur.e = g.getFrom cur.e then
    (g.adjListOut (g.getFrom cur.e)).filterMap
      (relaxEdge costFunc heurFunc tos cur (g.getFrom cur.e))
  else []) ++
  (g.adjListOut (g.getTo cur.e)).filterMap (relaxEdge costFunc heurFunc tos cur (g.getTo cur.e))

/-- The list that `buildPath` appends to `resEdges`: the edge itself, then its parents. -/
def buildPath (settled : Settled N E C) : ℕ → E → List E
  | 0, _ => []
  | k + 1, e =>
    match settled.find e with
    | none => []
    | some r =>
      match r.parent with
      | none => [r.e]
      | some parent => r.e :: buildPath settled k parent

def initial (costFunc : CostFunc N E C) (heurFunc : HeurFunc E C) (tos : List E) (e : E) :
    RouteEdge N E C :=
  ⟨e, none, none, costFunc.start e, costFunc.start e + heurFunc e tos⟩

/-- An upper bound on the number of entries pushed for one settled edge. -/
def fan (g : DirGraph N E) (e : E) : ℕ :=
  (if g.getTo e = g.getFrom e then (g.adjListOut (g.getFrom e)).length else 0) +
    (g.adjListOut (g.getTo e)).length

/-- More rounds than a search from `n` start edges has. -/
def rounds (g : DirGraph N E) (n : ℕ) : ℕ := n + (g.edges.map (fan g)).sum + 1

section
variable (pq : PriorityQueue (RouteEdge N E C) RouteEdge.less) (g : DirGraph N E)
  (costFunc : CostFunc N E C) (heurFunc : HeurFunc E C) (tos : List E)

/-- The `while` loop of the set-to-set search, up to its first settled target. -/
def searchSet : ℕ → Settled N E C → List (RouteEdge N E C) →
    Option (RouteEdge N E C × Settled N E C)
  | 0, _, _ => none
  | k + 1, settled, queue =>
    match pq.pop queue with
    | none => none
    | some (cur, queue) =>
      if (settled.find cur.e).isSome then searchSet k settled queue
      else if cur.e ∈ tos then some (cur, cur :: settled)
      else searchSet k (cur :: settled) (queue ++ relax g costFunc heurFunc tos cur)

/-- `shortestPathImpl(set from, set to, ...)`: the returned cost and `resEdges`. -/
def shortestPathSet (froms : List E) : WithTop C × List E :=
  if froms = [] ∨ tos = [] then (costFunc.inf, [])
  else
    match searchSet pq g costFunc heurFunc tos (rounds g froms.length) []
      (froms.map (initial costFunc heurFunc tos)) with
    | none => (costFunc.inf, [])
    | some (cur, settled) => (cur.d, buildPath settled settled.length cur.e)

structure Results (E C : Type*) where
  found : ℕ
  costs : E → WithTop C
  resEdges : E → List E

def Results.hit (res : Results E C) (cur : RouteEdge N E C) (settled : Settled N E C) :
    Results E C :=
  ⟨res.found + 1, Function.update res.costs cur.e cur.d,
    Function.update res.resEdges cur.e (buildPath settled settled.length cur.e)⟩

/-- The `while` loop of the edge-to-set search, up to its last target. -/
def searchAll : ℕ → Settled N E C → List (RouteEdge N E C) → Results E C → Results E C
  | 0, _, _, res => res
  | k + 1, settled, queue, res =>
    match pq.pop queue with
    | none => res
    | some (cur, queue) =>
      if (settled.find cur.e).isSome then searchAll k settled queue res
      else
        let res := if cur.e ∈ tos then res.hit cur (cur :: settled) else res
        if res.found = tos.length then res
        else searchAll k (cur :: settled) (queue ++ relax g costFunc heurFunc tos cur) res

/-- `shortestPathImpl(edge from, set to, ...)`: cost and `resEdges` of every target. -/
def shortestPathAll (fromE : E) : Results E C :=
  if tos = [] then ⟨0, fun _ => costFunc.inf, fun _ => []⟩
  else searchAll pq g costFunc heurFunc tos (rounds g 1) [] [initial costFunc heurFunc tos fromE]
    ⟨0, fun _ => costFunc.inf, fun _ => []⟩

end

def network (g : DirGraph N E) (costFunc : CostFunc N E C) (source : E → Prop) :
    LabelSetting.Network E C where
  source e := e ∈ g.edges ∧ source e
  start := costFunc.start
  step e e' := e ∈ g.edges ∧ e' ∈ g.adjListOut (g.getTo e)
  weight e e' := costFunc.cost e (g.getTo e) e'

end search

end Pfaedle.EDijkstra

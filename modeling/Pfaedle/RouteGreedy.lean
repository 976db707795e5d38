import Pfaedle.DijkstraOptimal
import Pfaedle.HopCosts
import Pfaedle.MotStops
import Mathlib.Data.List.Sort

set_option autoImplicit false

/-!
# `router::routeGreedy`

Hops between groups of node candidates. They are cheapest where the positions of the candidates do
not mislead the search.
-/
namespace Pfaedle.Router
open Dijkstra
open ShapeBuilder (NodeCandidate)

/-- What `routeGreedy` works on, with the order in which its queue lists equal entries. -/
structure GreedySetting (N E C : Type) [LinearOrder C] where
  g : TransitGraph N E C
  rOpts : RoutingOptions C
  webMercMeterDist : C × C → C × C → C
  /-- Different nodes are at different addresses. -/
  address : N ↪ ℕ
  pq : PriorityQueue (RouteNode N E C) RouteNode.less

/-- The fields that `routeGreedy` sets, edges from the end of the hop on. -/
structure GreedyHop (N E : Type) where
  edges : List E
  start : Option N
  end_ : Option N
deriving DecidableEq

section model
variable {N E C : Type} [DecidableEq N] [Field C] [LinearOrder C] (S : GreedySetting N E C)

/-- A `std::set` of nodes, in the order of their addresses. -/
def nodeSet (ns : List N) : List N :=
  ns.dedup.insertionSort fun a b => S.address a ≤ S.address b

def nCostFunc : Dijkstra.CostFunc N E C where
  cost _ e _ :=
    let oneway : ℕ := if S.g.oneWay e = 2 then 1 else 0
    Router.edgeCost S.rOpts (fun l => if S.g.level e = l then S.g.length e else 0) 0 0
      (S.g.length e * oneway) oneway 0 0 0
  inf := ⊤

def nodeCenter (geom : N → C × C) (tos : List N) : C × C :=
  ((tos.map fun n => (geom n).1).sum / (tos.length : C),
    (tos.map fun n => (geom n).2).sum / (tos.length : C))

def nDistHeur (tos : List N) : Dijkstra.HeurFunc N C := fun a _ =>
  let toCenter := fun n => S.webMercMeterDist (S.g.geom n) (nodeCenter S.g.geom tos)
  toCenter a - maxFrom (tos.map toCenter)

def greedyHop (a b : List (NodeCandidate N C)) : GreedyHop N E :=
  let frm := nodeSet S (a.map NodeCandidate.nd)
  let to_ := nodeSet S (b.map NodeCandidate.nd)
  let ret := shortestPath S.pq S.g.toDirGraph (nCostFunc S) (nDistHeur S to_) to_ frm
  if 1 < ret.2.2.length then ⟨ret.2.1, ret.2.2.getLast?, ret.2.2.head?⟩
  else ⟨ret.2.1, frm.head?, to_.head?⟩

def routeGreedy : List (List (NodeCandidate N C)) → List (GreedyHop N E)
  | a :: b :: rest => greedyHop S a b :: routeGreedy (b :: rest)
  | _ => []

end model

structure Metric (C : Type) [Field C] [LinearOrder C] where
  dist : C × C → C × C → C
  self : ∀ p, dist p p = 0
  comm : ∀ p q, dist p q = dist q p
  triangle : ∀ p q r, dist p r ≤ dist p q + dist q r

section spec
variable {N E C : Type} [DecidableEq N] [Field C] [LinearOrder C]

/-- Edges are at least as long as their ends are apart, levels make nothing shorter, and no
penalty is negative. -/
structure Sound (M : Metric C) (S : GreedySetting N E C) : Prop where
  dist : S.webMercMeterDist = M.dist
  length : ∀ e ∈ S.g.edges, M.dist (S.g.geom (S.g.getFrom e)) (S.g.geom (S.g.getTo e)) ≤ S.g.length e
  level_lt : ∀ e ∈ S.g.edges, S.g.level e < 8
  levelPunish : ∀ l < 8, 1 ≤ S.rOpts.levelPunish l
  oneWayFac : 0 ≤ S.rOpts.oneWayPunishFac
  oneWayEdge : 0 ≤ S.rOpts.oneWayEdgePunish

/-- If any node of `a` leads to one of `b`, then the hop is a cheapest path between such nodes. -/
def Cheapest (S : GreedySetting N E C) (a b : List N) (hop : GreedyHop N E) : Prop :=
  (∃ s ∈ a, ∃ t ∈ b, ∃ es, Dijkstra.Leads S.g.toDirGraph s es t) →
    ∃ s ∈ a, ∃ t ∈ b, hop.start = some s ∧ hop.end_ = some t ∧
      Dijkstra.Leads S.g.toDirGraph s hop.edges t ∧
      ∀ s' ∈ a, ∀ t' ∈ b, ∀ es, Dijkstra.Leads S.g.toDirGraph s' es t' →
        pathCost S.g.toDirGraph (nCostFunc S) hop.edges ≤ pathCost S.g.toDirGraph (nCostFunc S) es

def centreDist (M : Metric C) (pos : N → C × C) (b : List N) (n : N) : C :=
  M.dist (pos n) (nodeCenter pos b.dedup)

/-- Either both groups are the same set of nodes, or they share none, the nodes of `b` are equally
far from their centre and at most one node of `a` is nearer to it. -/
def Safe (M : Metric C) (pos : N → C × C) (a b : List N) : Prop :=
  (∀ n, n ∈ a ↔ n ∈ b) ∨
    (∀ n ∈ a, n ∉ b) ∧
      (∀ t ∈ b, ∀ t' ∈ b, centreDist M pos b t = centreDist M pos b t') ∧
      ∀ s ∈ a, ∀ s' ∈ a, ∀ t ∈ b, centreDist M pos b s < centreDist M pos b t →
        centreDist M pos b s' < centreDist M pos b t → s = s'

end spec

section sets
variable {N E C : Type} [DecidableEq N] [LinearOrder C] {S : GreedySetting N E C}

theorem nodeSet_perm (ns : List N) : (nodeSet S ns).Perm ns.dedup :=
  List.perm_insertionSort _ _

theorem mem_nodeSet {ns : List N} {n : N} : n ∈ nodeSet S ns ↔ n ∈ ns := by
  rw [(nodeSet_perm ns).mem_iff, List.mem_dedup]

theorem nodeSet_sorted (ns : List N) :
    (nodeSet S ns).Pairwise fun a b => S.address a ≤ S.address b := by
  have : Std.Total fun a b => S.address a ≤ S.address b := ⟨fun a b => Nat.le_total _ _⟩
  have : IsTrans N fun a b => S.address a ≤ S.address b := ⟨fun a b c => Nat.le_trans⟩
  exact List.pairwise_insertionSort _ _

theorem nodeSet_eq {a b : List N} (h : ∀ n, n ∈ a ↔ n ∈ b) : nodeSet S a = nodeSet S b := by
  have hnodup : ∀ ns, (nodeSet S ns).Nodup := fun ns =>
    (nodeSet_perm ns).nodup_iff.2 (List.nodup_dedup ns)
  have hperm : (nodeSet S a).Perm (nodeSet S b) := by
    rw [List.perm_ext_iff_of_nodup (hnodup a) (hnodup b)]
    intro n
    rw [mem_nodeSet, mem_nodeSet, h]
  refine hperm.eq_of_pairwise (fun x y _ _ hxy hyx => ?_) (nodeSet_sorted a) (nodeSet_sorted b)
  exact S.address.injective (Nat.le_antisymm hxy hyx)

end sets

section sound
variable {N E C : Type} [Field C] [LinearOrder C] [IsStrictOrderedRing C] {M : Metric C}
  {S : GreedySetting N E C}

theorem Metric.nonneg (M : Metric C) (p q : C × C) : 0 ≤ M.dist p q := by
  have h := M.triangle p q p
  rw [M.self, M.comm q p] at h
  linarith

theorem Sound.edgeCost_ge (h : Sound M S) {e : E} (he : e ∈ S.g.edges) :
    M.dist (S.g.geom (S.g.getFrom e)) (S.g.geom (S.g.getTo e)) ≤
      Dijkstra.edgeCost S.g.toDirGraph (nCostFunc S) e := by
  have hlen : 0 ≤ S.g.length e := (M.nonneg _ _).trans (h.length e he)
  have hpunish : S.g.length e ≤ S.g.length e * S.rOpts.levelPunish (S.g.level e) :=
    le_mul_of_one_le_right hlen (h.levelPunish _ (h.level_lt e he))
  refine ((h.length e he).trans hpunish).trans ?_
  unfold Dijkstra.edgeCost nCostFunc
  refine Router.edgeCost_ge (fun l hl => zero_le_one.trans (h.levelPunish l hl)) hlen
    (h.level_lt e he) ?_ ?_ ?_ ?_ ?_ ?_
  · exact mul_nonneg (mul_nonneg hlen (Nat.cast_nonneg _)) h.oneWayFac
  · exact mul_nonneg (Nat.cast_nonneg _) h.oneWayEdge
  · rw [zero_mul]
  · rw [zero_mul]
  · rw [Nat.cast_zero, zero_mul]
  · rw [Nat.cast_zero, zero_mul]

omit [IsStrictOrderedRing C] in
theorem nDistHeur_eq (h : Sound M S) (tos : List N) (n : N) :
    nDistHeur S tos n tos = M.dist (S.g.geom n) (nodeCenter S.g.geom tos) -
      maxFrom (tos.map fun t => M.dist (S.g.geom t) (nodeCenter S.g.geom tos)) := by
  unfold nDistHeur
  rw [h.dist]

/-- The distance to the centre drops by no more than an edge costs. -/
theorem Sound.consistent (h : Sound M S) (tos : List N) :
    Consistent S.g.toDirGraph (nCostFunc S) fun n => nDistHeur S tos n tos where
  nonneg e he := (M.nonneg _ _).trans (h.edgeCost_ge he)
  drop e he := by
    have htriangle := M.triangle (S.g.geom (S.g.getFrom e)) (S.g.geom (S.g.getTo e))
      (nodeCenter S.g.geom tos)
    have hcost := h.edgeCost_ge he
    rw [nDistHeur_eq h, nDistHeur_eq h]
    linarith

omit [IsStrictOrderedRing C] in
theorem maxFrom_const {ds : List C} {x : C} (hne : ds ≠ []) (hx : 0 ≤ x) (h : ∀ d ∈ ds, d = x) :
    maxFrom ds = x := by
  have hrepeat := List.eq_replicate_of_mem h
  have hfold : ∀ k : ℕ, (List.replicate k x).foldl max x = x := by
    intro k
    induction k with
    | zero => rfl
    | succ k ih => rw [List.replicate_succ, List.foldl_cons, max_self, ih]
  cases ds with
  | nil => exact absurd rfl hne
  | cons d ds =>
    rw [List.length_cons, List.replicate_succ] at hrepeat
    rw [hrepeat, maxFrom, List.foldl_cons, max_eq_right hx, hfold]

omit [LinearOrder C] [IsStrictOrderedRing C] in
theorem nodeCenter_perm {geom : N → C × C} {ns ns' : List N} (h : ns.Perm ns') :
    nodeCenter geom ns = nodeCenter geom ns' := by
  unfold nodeCenter
  rw [(h.map _).sum_eq, (h.map _).sum_eq, h.length_eq]

variable [DecidableEq N]

omit [IsStrictOrderedRing C] in
theorem nDistHeur_nodeSet (h : Sound M S) (b : List N) (n : N) :
    nDistHeur S (nodeSet S b) n (nodeSet S b) = centreDist M S.g.geom b n -
      maxFrom ((nodeSet S b).map (centreDist M S.g.geom b)) := by
  rw [nDistHeur_eq h, nodeCenter_perm (nodeSet_perm b)]
  rfl

theorem maxFrom_centreDist (S : GreedySetting N E C) {pos : N → C × C} {b : List N} {t : N}
    (ht : t ∈ b) {x : C} (hequal : ∀ t ∈ b, centreDist M pos b t = x) :
    maxFrom ((nodeSet S b).map (centreDist M pos b)) = x := by
  refine maxFrom_const (fun hnil => ?_) (hequal t ht ▸ M.nonneg _ _) fun d hd => ?_
  · exact List.ne_nil_of_mem (mem_nodeSet.2 ht) (List.map_eq_nil_iff.1 hnil)
  · obtain ⟨t', ht', rfl⟩ := List.mem_map.1 hd
    exact hequal t' (mem_nodeSet.1 ht')

theorem greedyHop_same (h : Sound M S) {a b : List (NodeCandidate N C)} (ha : a ≠ [])
    (hsame : ∀ n, n ∈ a.map NodeCandidate.nd ↔ n ∈ b.map NodeCandidate.nd) :
    Cheapest S (a.map NodeCandidate.nd) (b.map NodeCandidate.nd) (greedyHop S a b) := by
  have hset := nodeSet_eq (S := S) hsame
  have hne : nodeSet S (a.map NodeCandidate.nd) ≠ [] := by
    obtain ⟨c, hc⟩ := List.exists_mem_of_ne_nil a ha
    exact List.ne_nil_of_mem (mem_nodeSet.2 (List.mem_map_of_mem hc))
  have hsearch : ∃ s ∈ nodeSet S (a.map NodeCandidate.nd),
      (shortestPath S.pq S.g.toDirGraph (nCostFunc S)
        (nDistHeur S (nodeSet S (b.map NodeCandidate.nd))) (nodeSet S (b.map NodeCandidate.nd))
        (nodeSet S (a.map NodeCandidate.nd))).2 = ([], [s]) :=
    shortestPath_of_subset S.pq hne fun n hn => by rwa [hset] at hn
  obtain ⟨s, hs, hret⟩ := hsearch
  have hhop : greedyHop S a b = ⟨[], (nodeSet S (b.map NodeCandidate.nd)).head?,
      (nodeSet S (b.map NodeCandidate.nd)).head?⟩ := by
    unfold greedyHop
    dsimp only
    rw [hret]
    simp only [List.length_singleton, Nat.lt_irrefl, if_false, hset]
  have hfirst := List.head_mem hne
  refine fun _ => ⟨_, mem_nodeSet.1 hfirst, _, (hsame _).1 (mem_nodeSet.1 hfirst), ?_, ?_, ?_,
    fun s' _ t' _ es hleads => ?_⟩
  · rw [hhop, ← hset, List.head?_eq_some_head hne]
  · rw [hhop, ← hset, List.head?_eq_some_head hne]
  · rw [hhop]
    rfl
  · rw [hhop]
    exact (h.consistent []).pathCost_nonneg hleads

/-- Groups without a common node, whose positions do not mislead the search. -/
theorem greedyHop_apart (h : Sound M S) {a b : List (NodeCandidate N C)}
    (hapart : ∀ n ∈ a.map NodeCandidate.nd, n ∉ b.map NodeCandidate.nd) {x : C}
    (hequal : ∀ t ∈ b.map NodeCandidate.nd,
      centreDist M S.g.geom (b.map NodeCandidate.nd) t = x)
    (hone : ∀ s ∈ a.map NodeCandidate.nd, ∀ s' ∈ a.map NodeCandidate.nd,
      centreDist M S.g.geom (b.map NodeCandidate.nd) s < x →
        centreDist M S.g.geom (b.map NodeCandidate.nd) s' < x → s = s') :
    Cheapest S (a.map NodeCandidate.nd) (b.map NodeCandidate.nd) (greedyHop S a b) := by
  rintro ⟨s, hs, t, ht, es, hleads⟩
  generalize hfrom : a.map NodeCandidate.nd = as at *
  generalize hto : b.map NodeCandidate.nd = bs at *
  have hmax := maxFrom_centreDist S ht hequal
  have hheur : ∀ n, nDistHeur S (nodeSet S bs) n (nodeSet S bs) =
      centreDist M S.g.geom bs n - x := by
    intro n
    rw [nDistHeur_nodeSet h, hmax]
  have hbelow : OneBelow (fun n => nDistHeur S (nodeSet S bs) n (nodeSet S bs)) (nodeSet S as) := by
    intro s hs s' hs' hneg hneg'
    dsimp only at hneg hneg'
    rw [hheur] at hneg hneg'
    exact hone s (mem_nodeSet.1 hs) s' (mem_nodeSet.1 hs') (sub_neg.1 hneg) (sub_neg.1 hneg')
  have htargets : ∀ t ∈ nodeSet S bs, nDistHeur S (nodeSet S bs) t (nodeSet S bs) = 0 := by
    intro t ht
    rw [hheur, hequal t (mem_nodeSet.1 ht), sub_self]
  obtain ⟨cur, hwritten, htarget, hbest⟩ := shortestPath_cheapest S.pq rfl (h.consistent _) hbelow
    htargets ⟨s, mem_nodeSet.2 hs, t, mem_nodeSet.2 ht, es, hleads⟩
  obtain ⟨s₀, hs₀, hlast, hpath⟩ := hwritten.leads
  have hhop : greedyHop S a b =
      let ret := shortestPath S.pq S.g.toDirGraph (nCostFunc S) (nDistHeur S (nodeSet S bs))
        (nodeSet S bs) (nodeSet S as)
      ⟨ret.2.1, ret.2.2.getLast?, ret.2.2.head?⟩ := by
    unfold greedyHop
    rw [hfrom, hto]
    refine if_pos ?_
    rw [hwritten.length]
    -- a path without edges would join the groups
    refine Nat.succ_lt_succ (List.length_pos_iff.2 fun hnil => ?_)
    dsimp only at hpath hnil
    rw [hnil] at hpath
    obtain rfl : s₀ = cur.n := hpath
    exact hapart _ (mem_nodeSet.1 hs₀) (mem_nodeSet.1 htarget)
  rw [hhop]
  refine ⟨s₀, mem_nodeSet.1 hs₀, cur.n, mem_nodeSet.1 htarget, hlast, hwritten.head, hpath,
    fun s' hs' t' ht' es' hleads' => ?_⟩
  have hle := hbest s' (mem_nodeSet.2 hs') t' (mem_nodeSet.2 ht') es' hleads'
  rwa [hwritten.cost] at hle

theorem greedyHop_cheapest (h : Sound M S) {a b : List (NodeCandidate N C)} (ha : a ≠ [])
    (hb : b ≠ [])
    (hsafe : Safe M S.g.geom (a.map NodeCandidate.nd) (b.map NodeCandidate.nd)) :
    Cheapest S (a.map NodeCandidate.nd) (b.map NodeCandidate.nd) (greedyHop S a b) := by
  rcases hsafe with hsame | ⟨hapart, hequal, hone⟩
  · exact greedyHop_same h ha hsame
  · obtain ⟨c, hc⟩ := List.exists_mem_of_ne_nil b hb
    have hmem : c.nd ∈ b.map NodeCandidate.nd := List.mem_map_of_mem hc
    exact greedyHop_apart h hapart (fun t ht => hequal t ht c.nd hmem)
      fun s hs s' hs' => hone s hs s' hs' c.nd hmem

end sound

end Pfaedle.Router

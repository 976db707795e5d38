import Pfaedle.EDijkstraOptimal

set_option autoImplicit false

/-!
# Searches that `inf` leaves no room

When `inf` is not above the start cost, no edge is relaxed and a search sees its start edges only.
-/
namespace Pfaedle.EDijkstra
open LabelSetting

section
variable {N E C : Type*} [DecidableEq E] [AddCommGroup C] [LinearOrder C] {g : DirGraph N E}
  {costFunc : CostFunc N E C} {heurFunc : HeurFunc E C} {tos : List E}

structure Blocked (g : DirGraph N E) (costFunc : CostFunc N E C) (settled : Settled N E C)
    (queue : List (RouteEdge N E C)) : Prop where
  inf : costFunc.inf ≤ ((0 : C) : WithTop C)
  nonneg : ∀ e ∈ g.edges, ∀ n e', 0 ≤ costFunc.cost e n e'
  settled : ∀ r ∈ settled, r.parent = none
  queue : ∀ r ∈ queue, r.e ∈ g.edges ∧ r.d = 0 ∧ r.parent = none

variable {settled : Settled N E C} {queue rest : List (RouteEdge N E C)} {cur : RouteEdge N E C}

theorem Blocked.relaxEdge (h : Blocked g costFunc settled queue) (he : cur.e ∈ g.edges)
    (hd : cur.d = 0) (n : N) (edge : E) : relaxEdge costFunc heurFunc tos cur n edge = none := by
  rw [EDijkstra.relaxEdge]
  split
  · rfl
  · have hcost := h.nonneg cur.e he n edge
    dsimp only
    rw [hd, zero_add, if_pos (h.inf.trans (WithTop.coe_le_coe.2 hcost))]

variable [DecidableEq N]

theorem Blocked.relax (h : Blocked g costFunc settled queue) (he : cur.e ∈ g.edges)
    (hd : cur.d = 0) : relax g costFunc heurFunc tos cur = [] := by
  have hnone : ∀ (n : N) (edges : List E),
      edges.filterMap (EDijkstra.relaxEdge costFunc heurFunc tos cur n) = [] := by
    intro n edges
    rw [List.filterMap_eq_nil_iff]
    intro edge _
    exact h.relaxEdge he hd n edge
  rw [EDijkstra.relax, hnone, hnone, ite_self, List.append_nil]

variable (pq : PriorityQueue (RouteEdge N E C) RouteEdge.less)

omit [DecidableEq N] [DecidableEq E] in
theorem Blocked.pop (h : Blocked g costFunc settled queue) (hpop : pq.pop queue = some (cur, rest)) :
    (cur.e ∈ g.edges ∧ cur.d = 0 ∧ cur.parent = none) ∧ Blocked g costFunc settled rest ∧
      Blocked g costFunc (cur :: settled) rest := by
  have hmem := pq.mem_iff hpop
  have hcur := h.queue cur ((hmem cur).2 (Or.inl rfl))
  have hrest : ∀ r ∈ rest, r.e ∈ g.edges ∧ r.d = 0 ∧ r.parent = none :=
    fun r hr => h.queue r ((hmem r).2 (Or.inr hr))
  refine ⟨hcur, ⟨h.inf, h.nonneg, h.settled, hrest⟩, h.inf, h.nonneg, ?_, hrest⟩
  intro r hr
  cases List.mem_cons.1 hr with
  | inl hr => rw [hr, hcur.2.2]
  | inr hr => exact h.settled r hr

omit [DecidableEq N] [AddCommGroup C] [LinearOrder C] in
theorem buildPath_parentless (h : ∀ r ∈ settled, r.parent = none) (k : ℕ) (e : E) :
    (buildPath settled k e).length ≤ 1 := by
  cases k with
  | zero => exact Nat.zero_le _
  | succ k =>
    rw [buildPath]
    cases hfind : settled.find e with
    | none => exact Nat.zero_le _
    | some r =>
      dsimp only
      rw [h r (Settled.find_some hfind).1]
      exact le_refl _

theorem Blocked.searchSet (k : ℕ) (h : Blocked g costFunc settled queue)
    {found : RouteEdge N E C × Settled N E C}
    (hfound : searchSet pq g costFunc heurFunc tos k settled queue = some found) :
    found.1.d = 0 ∧ ∀ r ∈ found.2, r.parent = none := by
  induction k generalizing settled queue with
  | zero => cases hfound
  | succ k ih =>
    rw [EDijkstra.searchSet] at hfound
    cases hpop : pq.pop queue with
    | none =>
      rw [hpop] at hfound
      cases hfound
    | some popped =>
      obtain ⟨cur, rest⟩ := popped
      obtain ⟨⟨he, hd, -⟩, hold, hnew⟩ := h.pop pq hpop
      rw [hpop] at hfound
      dsimp only at hfound
      rw [h.relax he hd, List.append_nil] at hfound
      split at hfound
      · exact ih hold hfound
      · split at hfound
        · rw [← Option.some.inj hfound]
          exact ⟨hd, hnew.settled⟩
        · exact ih hnew hfound

theorem shortestPathSet_blocked (hinf : costFunc.inf ≤ ((0 : C) : WithTop C))
    (hnonneg : ∀ e ∈ g.edges, ∀ n e', 0 ≤ costFunc.cost e n e') (hstart : ∀ e, costFunc.start e = 0)
    {froms : List E} (hin : ∀ e ∈ froms, e ∈ g.edges) :
    costFunc.inf ≤ (shortestPathSet pq g costFunc heurFunc tos froms).1 ∧
      (shortestPathSet pq g costFunc heurFunc tos froms).2.length ≤ 1 := by
  have hblocked : Blocked g costFunc [] (froms.map (initial costFunc heurFunc tos)) := by
    refine ⟨hinf, hnonneg, by simp, ?_⟩
    intro r hr
    obtain ⟨e, he, rfl⟩ := List.mem_map.1 hr
    exact ⟨hin e he, hstart e, rfl⟩
  rw [shortestPathSet]
  split
  · exact ⟨le_refl _, Nat.zero_le _⟩
  · split
    · exact ⟨le_refl _, Nat.zero_le _⟩
    · rename_i cur settled hfound
      obtain ⟨hd, hparents⟩ := hblocked.searchSet pq _ hfound
      have hd : cur.d = 0 := hd
      dsimp only
      rw [hd]
      exact ⟨hinf, buildPath_parentless hparents _ _⟩

def Unreached (inf : WithTop C) (res : Results E C) : Prop :=
  ∀ t, (res.costs t = inf ∨ res.costs t = ((0 : C) : WithTop C)) ∧ (res.resEdges t).length ≤ 1

omit [DecidableEq N] in
theorem Blocked.hit (h : Blocked g costFunc (cur :: settled) rest) {inf : WithTop C}
    {res : Results E C} (hres : Unreached inf res) (hd : cur.d = 0) :
    Unreached inf (res.hit cur (cur :: settled)) := by
  intro t
  by_cases ht : t = cur.e
  · subst ht
    rw [Results.hit]
    dsimp only
    rw [Function.update_self, Function.update_self, hd]
    exact ⟨Or.inr rfl, buildPath_parentless h.settled _ _⟩
  · rw [Results.hit]
    dsimp only
    rw [Function.update_of_ne ht, Function.update_of_ne ht]
    exact hres t

theorem Blocked.searchAll (k : ℕ) (h : Blocked g costFunc settled queue) {inf : WithTop C}
    {res : Results E C} (hres : Unreached inf res) :
    Unreached inf (searchAll pq g costFunc heurFunc tos k settled queue res) := by
  induction k generalizing settled queue res with
  | zero => exact hres
  | succ k ih =>
    rw [EDijkstra.searchAll]
    cases hpop : pq.pop queue with
    | none => exact hres
    | some popped =>
      obtain ⟨cur, rest⟩ := popped
      obtain ⟨⟨he, hd, -⟩, hold, hnew⟩ := h.pop pq hpop
      dsimp only
      rw [h.relax he hd, List.append_nil]
      have hnext : Unreached inf (if cur.e ∈ tos then res.hit cur (cur :: settled) else res) := by
        split
        · exact hnew.hit hres hd
        · exact hres
      generalize (if cur.e ∈ tos then res.hit cur (cur :: settled) else res) = res' at hnext
      split
      · exact ih hold hres
      · split
        · exact hnext
        · exact ih hnew hnext

omit [DecidableEq N] [DecidableEq E] in
theorem Blocked.start (hinf : costFunc.inf ≤ ((0 : C) : WithTop C))
    (hnonneg : ∀ e ∈ g.edges, ∀ n e', 0 ≤ costFunc.cost e n e') {fromE : E}
    (hstart : costFunc.start fromE = 0) (hin : fromE ∈ g.edges) :
    Blocked g costFunc [] [initial costFunc heurFunc tos fromE] := by
  refine ⟨hinf, hnonneg, by simp, ?_⟩
  intro r hr
  rw [List.mem_singleton.1 hr]
  exact ⟨hin, hstart, rfl⟩

theorem shortestPathAll_blocked (hinf : costFunc.inf ≤ ((0 : C) : WithTop C))
    (hnonneg : ∀ e ∈ g.edges, ∀ n e', 0 ≤ costFunc.cost e n e') {fromE : E}
    (hstart : costFunc.start fromE = 0) (hin : fromE ∈ g.edges) :
    Unreached costFunc.inf (shortestPathAll pq g costFunc heurFunc tos fromE) := by
  have hempty : Unreached costFunc.inf (⟨0, fun _ => costFunc.inf, fun _ => []⟩ : Results E C) :=
    fun _ => ⟨Or.inl rfl, Nat.zero_le _⟩
  rw [shortestPathAll]
  split
  · exact hempty
  · exact (Blocked.start hinf hnonneg hstart hin).searchAll pq _ hempty

end

end Pfaedle.EDijkstra

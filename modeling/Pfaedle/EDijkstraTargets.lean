import Pfaedle.EDijkstraOptimal

set_option autoImplicit false

/-!
# The target that the set-to-set search stops at

It is cheapest together with its estimate. A target that is a start edge as well waits on the queue
from the beginning.
-/
namespace Pfaedle.EDijkstra
open LabelSetting

section
variable {N E C : Type*} [AddCommGroup C] [LinearOrder C] [IsOrderedAddMonoid C]
  {pq : PriorityQueue (RouteEdge N E C) RouteEdge.less} {g : DirGraph N E}
  {costFunc : CostFunc N E C} {heurFunc : HeurFunc E C} {tos froms : List E} {source : E → Prop}
  {settled : Settled N E C} {queue rest : List (RouteEdge N E C)} {cur : RouteEdge N E C}

structure FirstTarget (g : DirGraph N E) (costFunc : CostFunc N E C) (heurFunc : HeurFunc E C)
    (tos froms : List E) (source : E → Prop) (cur : RouteEdge N E C) : Prop where
  target : cur.e ∈ tos
  below : (cur.d : WithTop C) < costFunc.inf
  walk : ∃ p, Walk (network g costFunc source) cur.e p cur.d
  least : ∀ t ∈ tos, ∀ p c, Walk (network g costFunc source) t p c →
    (c : WithTop C) < costFunc.inf → cur.d + heurFunc cur.e tos ≤ c + heurFunc t tos
  keyed : cur.h = cur.d + heurFunc cur.e tos
  start : ∀ s ∈ froms, s ∈ tos → ¬ RouteEdge.less cur (initial costFunc heurFunc tos s)

theorem LoopInvariant.firstTarget
    (I : LoopInvariant g costFunc heurFunc tos source settled queue)
    (hc : Consistent (network g costFunc source) fun e => heurFunc e tos)
    (hfresh : ∀ r ∈ settled, r.e ∉ tos)
    (hstart : ∀ s ∈ froms, s ∈ tos → initial costFunc heurFunc tos s ∈ queue)
    (hpop : pq.pop queue = some (cur, rest)) (htarget : cur.e ∈ tos) :
    FirstTarget g costFunc heurFunc tos froms source cur := by
  have hcur : cur ∈ queue := (pq.mem_iff hpop cur).2 (Or.inl rfl)
  refine ⟨htarget, I.labels.front_lt cur.e cur.d ⟨cur, hcur, rfl, rfl⟩,
    I.labels.front_walk cur.e cur.d ⟨cur, hcur, rfl, rfl⟩, ?_, I.keyed cur hcur,
    fun s hs hst => pq.pop_top hpop _ (hstart s hs hst)⟩
  intro t ht p c hw hlt
  obtain ⟨u, d, hopen, -, hle⟩ := I.labels.frontier hc hw hlt (unsettled_of_fresh hfresh ht)
  exact (pop_least I hpop u d hopen).trans hle

variable [DecidableEq N] [DecidableEq E]

theorem searchSet_first (hc : Consistent (network g costFunc source) fun e => heurFunc e tos)
    {k : ℕ} (I : LoopInvariant g costFunc heurFunc tos source settled queue)
    (hfresh : ∀ r ∈ settled, r.e ∉ tos)
    (hstart : ∀ s ∈ froms, s ∈ tos → initial costFunc heurFunc tos s ∈ queue)
    {found : RouteEdge N E C × Settled N E C}
    (hfound : searchSet pq g costFunc heurFunc tos k settled queue = some found) :
    FirstTarget g costFunc heurFunc tos froms source found.1 := by
  induction k generalizing settled queue with
  | zero => cases hfound
  | succ k ih =>
    rw [searchSet] at hfound
    cases hpop : pq.pop queue with
    | none =>
      rw [hpop] at hfound
      cases hfound
    | some popped =>
      obtain ⟨cur, rest⟩ := popped
      rw [hpop] at hfound
      dsimp only at hfound
      have hkeep : cur.e ∉ tos → ∀ s ∈ froms, s ∈ tos →
          initial costFunc heurFunc tos s ∈ rest := by
        intro hother s hs hst
        refine ((pq.mem_iff hpop _).1 (hstart s hs hst)).resolve_left fun heq => hother ?_
        rw [← heq]
        exact hst
      split at hfound
      · rename_i hold
        refine ih (I.stale hpop hold) hfresh (hkeep fun ht => ?_) hfound
        exact unsettled_of_fresh hfresh ht ((dist_isSome cur.e).1 hold)
      · rename_i hnot
        have hnew : (settled.find cur.e).isSome = false := Bool.eq_false_iff.2 hnot
        split at hfound
        · rename_i htarget
          cases hfound
          exact I.firstTarget hc hfresh hstart hpop htarget
        · rename_i hother
          refine ih (I.settle hc hpop hnew) (fun r hr => ?_)
            (fun s hs hst => List.mem_append_left _ (hkeep hother s hs hst)) hfound
          rcases List.mem_cons.1 hr with rfl | hr
          · exact hother
          · exact hfresh r hr

theorem shortestPathSet_found_or
    (hc : Consistent (network g costFunc (· ∈ froms)) fun e => heurFunc e tos)
    (hin : ∀ e ∈ froms, e ∈ g.edges)
    (hlt : ∀ e ∈ froms, (costFunc.start e : WithTop C) < costFunc.inf) :
    (∃ cur, FirstTarget g costFunc heurFunc tos froms (· ∈ froms) cur ∧
      (shortestPathSet pq g costFunc heurFunc tos froms).1 = cur.d) ∨
      shortestPathSet pq g costFunc heurFunc tos froms = (costFunc.inf, []) := by
  unfold shortestPathSet
  split_ifs with hnone
  · exact Or.inr rfl
  · split
    · exact Or.inr rfl
    · rename_i cur settled hfound
      refine Or.inl ⟨cur, ?_, rfl⟩
      exact searchSet_first hc (loopInvariant_initial froms hin hlt)
        (fun r hr => absurd hr List.not_mem_nil)
        (fun s hs _ => List.mem_map_of_mem hs) hfound

variable (pq) in
/-- The cost that is returned is the one of the first target, or no walk is below `inf`. -/
theorem shortestPathSet_first
    (hc : Consistent (network g costFunc (· ∈ froms)) fun e => heurFunc e tos)
    (hin : ∀ e ∈ froms, e ∈ g.edges)
    (hlt : ∀ e ∈ froms, (costFunc.start e : WithTop C) < costFunc.inf) :
    (∃ cur, FirstTarget g costFunc heurFunc tos froms (· ∈ froms) cur ∧
      (shortestPathSet pq g costFunc heurFunc tos froms).1 = cur.d) ∨
      shortestPathSet pq g costFunc heurFunc tos froms = (costFunc.inf, []) ∧
        ∀ t ∈ tos, ∀ p c, Walk (network g costFunc (· ∈ froms)) t p c →
          costFunc.inf ≤ (c : WithTop C) := by
  refine (shortestPathSet_found_or hc hin hlt).imp_right fun hnone => ⟨hnone, ?_⟩
  rcases shortestPathSet_spec pq hc hin hlt _ rfl _ rfl with ⟨t, -, d, hd, hbelow, -⟩ | ⟨-, hall⟩
  · rw [hnone] at hd
    exact absurd hbelow (not_lt_of_ge hd.le)
  · exact hall

end

end Pfaedle.EDijkstra

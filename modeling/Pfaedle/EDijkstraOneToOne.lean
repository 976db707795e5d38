import Pfaedle.EDijkstraStarts

set_option autoImplicit false

/-!
# One-to-one search whatever its start edges cost

A start edge that costs `inf` or more is not settled before a target that is reached below `inf`.
-/
namespace Pfaedle.EDijkstra
open LabelSetting

section below
variable {N E C : Type*} [AddCommGroup C] [LinearOrder C]
  {pq : PriorityQueue (RouteEdge N E C) RouteEdge.less} {P : Network E C} {inf : WithTop C}
  {settled : Settled N E C} {queue rest new : List (RouteEdge N E C)} {cur r : RouteEdge N E C}

def Below (inf : WithTop C) (r : RouteEdge N E C) : Prop := (r.d : WithTop C) < inf

/-- Start edges that cost `inf` or more wait on the queue. -/
structure BelowLoop (P : Network E C) (inf : WithTop C) (settled : Settled N E C)
    (queue : List (RouteEdge N E C)) : Prop where
  labels : Invariant (P.into inf fun _ => True) inf (liveDist (Below inf) settled)
    (liveDist (Below inf) queue)
  below : ∀ r ∈ settled, Below inf r

theorem BelowLoop.stale [DecidableEq E] (I : BelowLoop P inf settled queue)
    (hpop : pq.pop queue = some (cur, rest)) (hold : (settled.find cur.e).isSome) :
    BelowLoop P inf settled rest := by
  refine ⟨labels_stale I.labels hpop fun _ => ?_, I.below⟩
  obtain ⟨q, hq, he⟩ := Settled.find_isSome.1 hold
  exact ⟨q.d, q, hq, I.below q hq, he, rfl⟩

theorem BelowLoop.best [DecidableEq E] [IsOrderedAddMonoid C] (I : BelowLoop P inf settled queue)
    (hcost : P.NonNeg)
    (hpop : pq.pop queue = some (cur, rest)) (hlt : Below inf cur)
    (hnew : (settled.find cur.e).isSome = false) (hmin : ∀ r ∈ queue, cur.d ≤ r.d) (p : List E)
    (c : C) (hw : Walk (P.into inf fun _ => True) cur.e p c) : cur.d ≤ c := by
  have hcur : cur ∈ queue := (pq.mem_iff hpop cur).2 (.inl rfl)
  refine I.labels.least_optimal (consistent_into hcost) ⟨cur, hcur, hlt, rfl, rfl⟩
    (not_liveDist hnew) ?_ p c hw
  intro u d hopen
  obtain ⟨r, hr, -, rfl, rfl⟩ := hopen
  rw [add_zero, add_zero]
  exact hmin r hr

theorem BelowLoop.settle (I : BelowLoop P inf settled queue)
    (hpop : pq.pop queue = some (cur, rest)) (hlt : Below inf cur)
    (hbest : ∀ p c, Walk (P.into inf fun _ => True) cur.e p c → cur.d ≤ c)
    (hpush : Pushes (P.into inf fun _ => True) inf (Below inf) cur new) :
    BelowLoop P inf (cur :: settled) (rest ++ new) := by
  refine ⟨labels_settle I.labels hpop hlt hbest hpush, fun r hr => ?_⟩
  rcases List.mem_cons.1 hr with rfl | hr
  · exact hlt
  · exact I.below r hr

theorem BelowLoop.least [IsOrderedAddMonoid C] (I : BelowLoop P inf settled queue)
    (hcost : P.NonNeg)
    (hr : r ∈ settled) : Least P r.e r.d := by
  have hdist : liveDist (Below inf) settled r.e r.d := ⟨r, hr, I.below r hr, rfl, rfl⟩
  refine Least.of_into hcost closedKept_all (I.below r hr)
    ⟨I.labels.dist_walk _ _ hdist, fun {p c} hw => I.labels.optimal _ _ hdist p c hw⟩

end below

section single
variable {N E C : Type*} [DecidableEq N] [DecidableEq E] [AddCommGroup C] [LinearOrder C]
  [IsOrderedAddMonoid C] {pq : PriorityQueue (RouteEdge N E C) RouteEdge.less} {g : DirGraph N E}
  {costFunc : CostFunc N E C} {froms : List E} {settled : Settled N E C}
  {queue : List (RouteEdge N E C)}

omit [IsOrderedAddMonoid C] in
theorem pushes_below {source : E → Prop} {cur : RouteEdge N E C} (hin : cur.e ∈ g.edges)
    (tos : List E) :
    Pushes ((network g costFunc source).into costFunc.inf fun _ => True) costFunc.inf
      (Below costFunc.inf) cur (relax g costFunc zeroHeurFunc tos cur) := by
  refine ⟨fun r hr _ => ?_, fun e hne hstep hlt => ?_⟩
  · obtain ⟨hstep, -, hd, hlt, -⟩ := mem_relax source hin hr
    exact ⟨⟨hstep, trivial⟩, hd, hlt⟩
  · obtain ⟨r, hr, he, hd⟩ := relax_complete zeroHeurFunc tos source hne hstep.1 hlt
    refine ⟨r, hr, ?_, he, hd⟩
    rw [Below, hd]
    exact hlt

variable (pq) in
theorem searchSet_least (hcost : (network g costFunc (· ∈ froms)).NonNeg) {t : E} {p : List E}
    {c : C} (hw : Walk ((network g costFunc (· ∈ froms)).into costFunc.inf fun _ => True) t p c)
    (hlt : (c : WithTop C) < costFunc.inf) (k : ℕ)
    (I : BelowLoop (network g costFunc (· ∈ froms)) costFunc.inf settled queue)
    (hqueue : ∀ r ∈ queue, r.e ∈ g.edges ∧ r.h = r.d) (ht : (settled.find t).isSome = false)
    (hk : pending g settled queue < k) :
    ∃ found, searchSet pq g costFunc zeroHeurFunc [t] k settled queue = some found ∧
      Least (network g costFunc (· ∈ froms)) t found.1.d := by
  induction k generalizing settled queue with
  | zero => omega
  | succ k ih =>
    -- An open label leads to the target, so what is popped is below `inf`.
    obtain ⟨u, d, ⟨r, hr, -, rfl, rfl⟩, -, hle⟩ :=
      I.labels.frontier (consistent_into hcost) hw hlt (not_liveDist ht)
    rw [add_zero, add_zero] at hle
    rw [searchSet]
    cases hpop : pq.pop queue with
    | none =>
      rw [pq.eq_nil_of_pop hpop] at hr
      cases hr
    | some popped =>
      obtain ⟨cur, rest⟩ := popped
      dsimp only
      have hcur : cur ∈ queue := (pq.mem_iff hpop cur).2 (.inl rfl)
      have hsub : ∀ r ∈ rest, r ∈ queue := fun r hr => (pq.mem_iff hpop r).2 (.inr hr)
      have hmin : ∀ r ∈ queue, cur.d ≤ r.d := fun r hr => by
        rw [← (hqueue cur hcur).2, ← (hqueue r hr).2]
        exact (pop_le hpop hr).1
      have hbelow : Below costFunc.inf cur :=
        (WithTop.coe_le_coe.2 ((hmin r hr).trans hle)).trans_lt hlt
      have hlen := pq.length_pop hpop
      split
      · rename_i hold
        apply ih (I.stale hpop hold) (fun r hr => hqueue r (hsub r hr)) ht
        simp only [pending] at hk ⊢
        omega
      · rename_i hnot
        have hnew : (settled.find cur.e).isSome = false := Bool.eq_false_iff.2 hnot
        have hin := (hqueue cur hcur).1
        have hnext := I.settle hpop hbelow (I.best hcost hpop hbelow hnew hmin)
          (pushes_below hin [t])
        split
        · rename_i htarget
          have hleast := hnext.least hcost List.mem_cons_self
          rw [List.mem_singleton.1 htarget] at hleast
          exact ⟨_, rfl, hleast⟩
        · rename_i hother
          apply ih hnext
          · intro r hr
            rcases List.mem_append.1 hr with hr | hr
            · exact hqueue r (hsub r hr)
            · obtain ⟨hstep, -, -, -, hkey⟩ := mem_relax (· ∈ froms) hin hr
              exact ⟨(g.mem_adjListOut.1 hstep.2).1, hkey.trans (add_zero _)⟩
          · have hne : cur.e ≠ t := fun he => hother (by simp [he])
            simpa [Settled.find, hne] using ht
          · have := pending_settle costFunc zeroHeurFunc [t] hin hpop hnew
            omega

variable (pq) in
theorem shortestPathSet_least (hcost : (network g costFunc (· ∈ froms)).NonNeg)
    (hin : ∀ e ∈ froms, e ∈ g.edges) {t : E} {p : List E} {c : C}
    (hw : Walk (network g costFunc (· ∈ froms)) t p c) (hlt : (c : WithTop C) < costFunc.inf) :
    ∃ d : C, (shortestPathSet pq g costFunc zeroHeurFunc [t] froms).1 = d ∧
      Least (network g costFunc (· ∈ froms)) t d := by
  obtain ⟨q, e, hq, -, hbelow⟩ := hw.into_le hcost closedKept_all hlt
  have hfroms : froms ≠ [] := by
    obtain ⟨s, -, -, hs⟩ := hw.isPath.1.head
    exact List.ne_nil_of_mem hs
  have hstart : BelowLoop (network g costFunc (· ∈ froms)) costFunc.inf []
      (froms.map (initial costFunc zeroHeurFunc [t])) :=
    ⟨labels_initial hin (fun _ => rfl) (fun _ => rfl) fun _ => Iff.rfl, by simp⟩
  have hqueue : ∀ r ∈ froms.map (initial costFunc zeroHeurFunc [t]), r.e ∈ g.edges ∧ r.h = r.d := by
    intro r hr
    obtain ⟨s, hs, rfl⟩ := List.mem_map.1 hr
    exact ⟨hin s hs, add_zero _⟩
  obtain ⟨found, hfound, hleast⟩ := searchSet_least pq hcost hq hbelow _ hstart hqueue rfl
    (pending_initial froms)
  refine ⟨found.1.d, ?_, hleast⟩
  rw [shortestPathSet, if_neg (by simp [hfroms]), hfound]

end single

end Pfaedle.EDijkstra

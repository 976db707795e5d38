import Pfaedle.EDijkstra
import Mathlib.Algebra.Order.BigOperators.Group.List
import Mathlib.Algebra.Order.Ring.Nat

set_option autoImplicit false

/-! # The loop invariant of the edge-based search -/
namespace Pfaedle.EDijkstra
open LabelSetting

section
variable {N E C : Type*} [DecidableEq E]

theorem Settled.find_some {settled : Settled N E C} {e : E} {r : RouteEdge N E C}
    (h : settled.find e = some r) : r ∈ settled ∧ r.e = e := by
  refine ⟨List.mem_of_find?_eq_some h, ?_⟩
  simpa using List.find?_some h

theorem Settled.find_isSome {settled : Settled N E C} {e : E} :
    (settled.find e).isSome ↔ ∃ r ∈ settled, r.e = e := by
  simp [Settled.find]

variable [AddCommGroup C]

def Parented (P : Network E C) (settled : Settled N E C) (r : RouteEdge N E C) : Prop :=
  (r.parent = none ∧ P.source r.e ∧ r.d = P.start r.e) ∨
  ∃ q ∈ settled, r.parent = some q.e ∧ P.step q.e r.e ∧ r.d = q.d + P.weight q.e r.e

/-- Every settled edge is settled once and its parent was settled before it. -/
def Linked (P : Network E C) : Settled N E C → Prop
  | [] => True
  | r :: rest => (∀ q ∈ rest, q.e ≠ r.e) ∧ Parented P rest r ∧ Linked P rest

omit [DecidableEq E] in
theorem Parented.mono {P : Network E C} {settled settled' : Settled N E C} {r : RouteEdge N E C}
    (h : Parented P settled r) (hsub : settled ⊆ settled') : Parented P settled' r := by
  cases h with
  | inl h => exact .inl h
  | inr h => exact .inr (h.imp fun q hq => ⟨hsub hq.1, hq.2⟩)

theorem find_cons_of_mem {P : Network E C} {r q : RouteEdge N E C} {rest : Settled N E C}
    (h : Linked P (r :: rest)) (hq : q ∈ rest) :
    Settled.find (r :: rest) q.e = Settled.find rest q.e := by
  have hne : r.e ≠ q.e := fun he => h.1 q hq he.symm
  simp [Settled.find, hne]

theorem find_of_mem {P : Network E C} {settled : Settled N E C} (h : Linked P settled)
    {r : RouteEdge N E C} (hr : r ∈ settled) : settled.find r.e = some r := by
  induction settled with
  | nil => simp at hr
  | cons q rest ih =>
    cases List.mem_cons.1 hr with
    | inl he =>
      subst he
      simp [Settled.find]
    | inr hin =>
      rw [find_cons_of_mem h hin]
      exact ih h.2.2 hin

omit [DecidableEq E] in
theorem Linked.parented {P : Network E C} {settled : Settled N E C} (h : Linked P settled)
    {r : RouteEdge N E C} (hr : r ∈ settled) : Parented P settled r := by
  induction settled with
  | nil => simp at hr
  | cons q rest ih =>
    have hsub := List.subset_cons_self q rest
    cases List.mem_cons.1 hr with
    | inl he => exact he ▸ h.2.1.mono hsub
    | inr hin => exact (ih h.2.2 hin).mono hsub

theorem buildPath_cons {P : Network E C} {r : RouteEdge N E C} {rest : Settled N E C}
    (h : Linked P (r :: rest)) (k : ℕ) (q : RouteEdge N E C) (hq : q ∈ rest) :
    buildPath (r :: rest) k q.e = buildPath rest k q.e := by
  induction k generalizing q with
  | zero => rfl
  | succ k ih =>
    have hfind := find_of_mem h.2.2 hq
    rw [buildPath, buildPath, find_cons_of_mem h hq, hfind]
    dsimp only
    cases hp : q.parent with
    | none => rfl
    | some parent =>
      cases h.2.2.parented hq with
      | inl hsrc => rw [hp] at hsrc; exact absurd hsrc.1 (by simp)
      | inr hpar =>
        obtain ⟨s, hs, hse, _⟩ := hpar
        rw [hp] at hse
        rw [Option.some.inj hse]
        exact congrArg (q.e :: ·) (ih s hs)

/-- Following parents from a settled edge lists a walk of exactly the settled cost. -/
theorem buildPath_walk {P : Network E C} {settled : Settled N E C} (h : Linked P settled)
    {k : ℕ} (hk : settled.length ≤ k) {r : RouteEdge N E C} (hr : r ∈ settled) :
    Walk P r.e (buildPath settled k r.e) r.d := by
  induction settled generalizing k r with
  | nil => simp at hr
  | cons q rest ih =>
    cases List.mem_cons.1 hr with
    | inr hin =>
      rw [buildPath_cons h k r hin]
      exact ih h.2.2 (by simp only [List.length_cons] at hk; omega) hin
    | inl he =>
      subst he
      cases k with
      | zero => simp at hk
      | succ k =>
        rw [buildPath, find_of_mem h hr]
        dsimp only
        cases h.2.1 with
        | inl hsrc =>
          rw [hsrc.1, hsrc.2.2]
          exact Walk.source hsrc.2.1
        | inr hpar =>
          obtain ⟨s, hs, hse, hstep, hd⟩ := hpar
          rw [hse, hd]
          dsimp only
          rw [buildPath_cons h k s hs]
          have hle : rest.length ≤ k := by simp only [List.length_cons] at hk; omega
          exact (ih h.2.2 hle hs).snoc hstep

/-! The entries that one relaxation pushes. -/

variable [DecidableEq N] [LinearOrder C]

theorem mem_relax {g : DirGraph N E} {costFunc : CostFunc N E C} {heurFunc : HeurFunc E C}
    {tos : List E} {cur r : RouteEdge N E C} (source : E → Prop)
    (hin : cur.e ∈ g.edges) (h : r ∈ relax g costFunc heurFunc tos cur) :
    (network g costFunc source).step cur.e r.e ∧ r.parent = some cur.e ∧
      r.d = cur.d + (network g costFunc source).weight cur.e r.e ∧
      (r.d : WithTop C) < costFunc.inf ∧ r.h = r.d + heurFunc r.e tos := by
  have key : ∀ n, n = g.getTo cur.e →
      r ∈ (g.adjListOut n).filterMap (relaxEdge costFunc heurFunc tos cur n) →
      (network g costFunc source).step cur.e r.e ∧ r.parent = some cur.e ∧
        r.d = cur.d + (network g costFunc source).weight cur.e r.e ∧
        (r.d : WithTop C) < costFunc.inf ∧ r.h = r.d + heurFunc r.e tos := by
    intro n hn hr
    subst hn
    obtain ⟨edge, hedge, he⟩ := List.mem_filterMap.1 hr
    unfold relaxEdge at he
    split at he
    · simp at he
    · dsimp only at he
      split at he
      · simp at he
      · rename_i hlt
        rw [← Option.some.inj he]
        exact ⟨⟨hin, hedge⟩, rfl, rfl, not_le.1 hlt, rfl⟩
  unfold relax at h
  cases List.mem_append.1 h with
  | inr h => exact key _ rfl h
  | inl h =>
    split at h
    · rename_i hself
      exact key _ hself.symm h
    · simp at h

theorem relax_complete {g : DirGraph N E} {costFunc : CostFunc N E C}
    (heurFunc : HeurFunc E C) (tos : List E) {cur : RouteEdge N E C} (source : E → Prop) {e : E}
    (hne : e ≠ cur.e) (hstep : (network g costFunc source).step cur.e e)
    (hlt : ((cur.d + (network g costFunc source).weight cur.e e : C) : WithTop C) < costFunc.inf) :
    ∃ r ∈ relax g costFunc heurFunc tos cur,
      r.e = e ∧ r.d = cur.d + (network g costFunc source).weight cur.e e := by
  let newC := cur.d + costFunc.cost cur.e (g.getTo cur.e) e
  refine ⟨⟨e, some cur.e, some (g.getTo cur.e), newC, newC + heurFunc e tos⟩, ?_, rfl, rfl⟩
  apply List.mem_append_right
  refine List.mem_filterMap.2 ⟨e, hstep.2, ?_⟩
  have hnot : ¬ costFunc.inf ≤ (newC : WithTop C) := not_le.2 hlt
  simp only [relaxEdge, if_neg hne]
  exact if_neg hnot

theorem relax_length (g : DirGraph N E) (costFunc : CostFunc N E C) (heurFunc : HeurFunc E C)
    (tos : List E) (cur : RouteEdge N E C) :
    (relax g costFunc heurFunc tos cur).length ≤ fan g cur.e := by
  unfold relax fan
  rw [List.length_append]
  apply Nat.add_le_add
  · split
    · exact List.length_filterMap_le _ _
    · exact Nat.zero_le _
  · exact List.length_filterMap_le _ _

/-! Every round either drops an entry or settles an edge and pays for its pushes. -/

def unpaid (g : DirGraph N E) (settled : Settled N E C) : ℕ :=
  (g.edges.map fun e => if (settled.find e).isSome then 0 else fan g e).sum

theorem sum_map_drop {α : Type*} {f f' : α → ℕ} {k : ℕ} {a : α} {l : List α} (ha : a ∈ l)
    (hle : ∀ b ∈ l, f' b ≤ f b) (hdrop : f' a + k ≤ f a) : (l.map f').sum + k ≤ (l.map f).sum := by
  induction l with
  | nil => simp at ha
  | cons b l ih =>
    have hb := hle b List.mem_cons_self
    have hl := fun c hc => hle c (List.mem_cons_of_mem b hc)
    simp only [List.map_cons, List.sum_cons]
    cases List.mem_cons.1 ha with
    | inl he =>
      subst he
      have := List.sum_le_sum hl
      omega
    | inr hin =>
      have := ih hin hl
      omega

omit [AddCommGroup C] [LinearOrder C]

theorem unpaid_settle (g : DirGraph N E) {settled : Settled N E C} {cur : RouteEdge N E C}
    (hin : cur.e ∈ g.edges) (hnew : (settled.find cur.e).isSome = false) :
    unpaid g (cur :: settled) + fan g cur.e ≤ unpaid g settled := by
  apply sum_map_drop hin
  · intro e _
    by_cases he : (settled.find e).isSome
    · have hcons : (Settled.find (cur :: settled) e).isSome := by
        rw [Settled.find_isSome] at he ⊢
        exact he.imp fun r hr => ⟨List.mem_cons_of_mem _ hr.1, hr.2⟩
      simp [hcons]
    · rw [if_neg he]
      split <;> omega
  · have hcur : (Settled.find (cur :: settled) cur.e).isSome := by simp [Settled.find]
    simp [hcur, hnew]

theorem unpaid_nil (g : DirGraph N E) :
    unpaid g ([] : Settled N E C) = (g.edges.map (fan g)).sum := by
  simp [unpaid, Settled.find]

end

section
variable {N E C : Type*} [DecidableEq E] [AddCommGroup C] [LinearOrder C]

def dist (settled : Settled N E C) (e : E) (d : C) : Prop := ∃ r ∈ settled, r.e = e ∧ r.d = d

structure LoopInvariant (g : DirGraph N E) (costFunc : CostFunc N E C)
    (heurFunc : HeurFunc E C) (tos : List E) (source : E → Prop) (settled : Settled N E C)
    (queue : List (RouteEdge N E C)) : Prop where
  labels : Invariant (network g costFunc source) costFunc.inf (dist settled) (dist queue)
  linked : Linked (network g costFunc source) settled
  parented : ∀ r ∈ queue, Parented (network g costFunc source) settled r
  keyed : ∀ r ∈ queue, r.h = r.d + heurFunc r.e tos
  inside : ∀ r ∈ queue, r.e ∈ g.edges

variable {pq : PriorityQueue (RouteEdge N E C) RouteEdge.less} {g : DirGraph N E}
  {costFunc : CostFunc N E C} {heurFunc : HeurFunc E C} {tos : List E} {source : E → Prop}
  {settled : Settled N E C} {queue rest : List (RouteEdge N E C)} {cur : RouteEdge N E C}

omit [AddCommGroup C] [LinearOrder C] in
theorem dist_isSome (e : E) : (settled.find e).isSome ↔ ∃ d, dist settled e d := by
  rw [Settled.find_isSome]
  constructor
  · intro h
    obtain ⟨r, hr, he⟩ := h
    exact ⟨r.d, r, hr, he, rfl⟩
  · intro h
    obtain ⟨_, r, hr, he, _⟩ := h
    exact ⟨r, hr, he⟩

omit [DecidableEq E] [AddCommGroup C] in
theorem pop_le {r : RouteEdge N E C} (hpop : pq.pop queue = some (cur, rest)) (hr : r ∈ queue) :
    cur.h ≤ r.h ∧ (cur.h = r.h → cur.d ≤ r.d) := by
  have htop := pq.pop_top hpop r hr
  exact ⟨not_lt.1 fun h => htop (.inl h), fun he => not_lt.1 fun h => htop (.inr ⟨he, h⟩)⟩

omit [DecidableEq E] in
theorem pop_least (I : LoopInvariant g costFunc heurFunc tos source settled queue)
    (hpop : pq.pop queue = some (cur, rest)) (u : E) (d : C) (h : dist queue u d) :
    cur.d + heurFunc cur.e tos ≤ d + heurFunc u tos := by
  obtain ⟨r, hr, he, hd⟩ := h
  have hcur : cur ∈ queue := (pq.mem_iff hpop cur).2 (.inl rfl)
  rw [← I.keyed cur hcur, ← he, ← hd, ← I.keyed r hr]
  exact (pop_le hpop hr).1

theorem LoopInvariant.stale (I : LoopInvariant g costFunc heurFunc tos source settled queue)
    (hpop : pq.pop queue = some (cur, rest)) (hold : (settled.find cur.e).isSome) :
    LoopInvariant g costFunc heurFunc tos source settled rest := by
  have hsub : ∀ r ∈ rest, r ∈ queue := fun r hr => (pq.mem_iff hpop r).2 (.inr hr)
  refine ⟨I.labels.discard ?_ ?_, I.linked, fun r hr => I.parented r (hsub r hr),
    fun r hr => I.keyed r (hsub r hr), fun r hr => I.inside r (hsub r hr)⟩
  · intro v d h
    exact h.imp fun r hr => ⟨hsub r hr.1, hr.2⟩
  · intro v d h
    obtain ⟨r, hr, he, hd⟩ := h
    cases (pq.mem_iff hpop r).1 hr with
    | inl hcur =>
      rw [← he, hcur]
      exact .inr ((dist_isSome cur.e).1 hold)
    | inr hrest => exact .inl ⟨r, hrest, he, hd⟩

variable [DecidableEq N]

theorem LoopInvariant.settle [IsOrderedAddMonoid C]
    (I : LoopInvariant g costFunc heurFunc tos source settled queue)
    (hc : Consistent (network g costFunc source) fun e => heurFunc e tos)
    (hpop : pq.pop queue = some (cur, rest)) (hnew : (settled.find cur.e).isSome = false) :
    LoopInvariant g costFunc heurFunc tos source (cur :: settled)
      (rest ++ relax g costFunc heurFunc tos cur) := by
  have hcur : cur ∈ queue := (pq.mem_iff hpop cur).2 (.inl rfl)
  have hin : cur.e ∈ g.edges := I.inside cur hcur
  have hsub : ∀ r ∈ rest, r ∈ queue := fun r hr => (pq.mem_iff hpop r).2 (.inr hr)
  have hopen : ¬ ∃ d, dist settled cur.e d := by
    rw [← dist_isSome, hnew]
    exact Bool.false_ne_true
  have hdist : dist (cur :: settled) = fun e d => dist settled e d ∨ e = cur.e ∧ d = cur.d := by
    funext e d
    apply propext
    simp only [dist, List.mem_cons, exists_eq_or_imp]
    constructor
    · intro h
      cases h with
      | inl h => exact .inr ⟨h.1.symm, h.2.symm⟩
      | inr h => exact .inl h
    · intro h
      cases h with
      | inl h => exact .inr h
      | inr h => exact .inl ⟨h.1.symm, h.2.symm⟩
  refine ⟨?_, ⟨?_, I.parented cur hcur, I.linked⟩, ?_, ?_, ?_⟩
  · rw [hdist]
    refine I.labels.settle hc ⟨cur, hcur, rfl, rfl⟩ hopen (pop_least I hpop) ?_ ?_ ?_
    · intro u d h
      obtain ⟨r, hr, he, hd⟩ := h
      cases List.mem_append.1 hr with
      | inl hr => exact .inl ⟨r, hsub r hr, he, hd⟩
      | inr hr =>
        have hspec := mem_relax source hin hr
        rw [he, hd] at hspec
        exact .inr ⟨hspec.1, hspec.2.2.1, hspec.2.2.2.1⟩
    · intro u d hne h
      obtain ⟨r, hr, he, hd⟩ := h
      cases (pq.mem_iff hpop r).1 hr with
      | inl hrc => exact absurd (by rw [← he, hrc]) hne
      | inr hr => exact ⟨r, List.mem_append_left _ hr, he, hd⟩
    · intro u hne hstep hlt
      obtain ⟨r, hr, he, hd⟩ := relax_complete heurFunc tos source hne hstep hlt
      exact ⟨r, List.mem_append_right _ hr, he, hd⟩
  · intro q hq he
    exact hopen ⟨q.d, q, hq, he, rfl⟩
  · intro r hr
    cases List.mem_append.1 hr with
    | inl hr => exact (I.parented r (hsub r hr)).mono (List.subset_cons_self _ _)
    | inr hr =>
      have hspec := mem_relax source hin hr
      exact .inr ⟨cur, List.mem_cons_self, hspec.2.1, hspec.1, hspec.2.2.1⟩
  · intro r hr
    cases List.mem_append.1 hr with
    | inl hr => exact I.keyed r (hsub r hr)
    | inr hr => exact (mem_relax source hin hr).2.2.2.2
  · intro r hr
    cases List.mem_append.1 hr with
    | inl hr => exact I.inside r (hsub r hr)
    | inr hr => exact (g.mem_adjListOut.1 (mem_relax source hin hr).1.2).1

/-- The rounds that are still needed; `rounds` bounds it at the start. -/
def pending (g : DirGraph N E) (settled : Settled N E C) (queue : List (RouteEdge N E C)) : ℕ :=
  queue.length + unpaid g settled

theorem pending_settle (costFunc : CostFunc N E C) (heurFunc : HeurFunc E C) (tos : List E)
    (hin : cur.e ∈ g.edges) (hpop : pq.pop queue = some (cur, rest))
    (hnew : (settled.find cur.e).isSome = false) :
    pending g (cur :: settled) (rest ++ relax g costFunc heurFunc tos cur) <
      pending g settled queue := by
  have hlen := pq.length_pop hpop
  have hpushed := relax_length g costFunc heurFunc tos cur
  have hpaid := unpaid_settle g hin hnew
  simp only [pending, List.length_append]
  omega

omit [DecidableEq N] [DecidableEq E] in
theorem loopInvariant_initial (froms : List E) (hin : ∀ e ∈ froms, e ∈ g.edges)
    (hlt : ∀ e ∈ froms, (costFunc.start e : WithTop C) < costFunc.inf) :
    LoopInvariant g costFunc heurFunc tos (· ∈ froms) []
      (froms.map (initial costFunc heurFunc tos)) := by
  have hstart : Invariant (network g costFunc (· ∈ froms)) costFunc.inf (fun _ _ => False) _ :=
    invariant_start _ fun s hs => hlt s hs.2
  have hempty : dist ([] : Settled N E C) = fun _ _ => False := by
    funext e d
    simp [dist]
  refine ⟨?_, trivial, ?_, ?_, ?_⟩
  · rw [hempty]
    have hfront : dist (froms.map (initial costFunc heurFunc tos) : List (RouteEdge N E C)) =
        fun e d => (network g costFunc (· ∈ froms)).source e ∧
          d = (network g costFunc (· ∈ froms)).start e := by
      funext e d
      apply propext
      simp only [dist, List.mem_map, initial, network]
      constructor
      · intro h
        obtain ⟨_, ⟨a, ha, rfl⟩, rfl, rfl⟩ := h
        exact ⟨⟨hin a ha, ha⟩, rfl⟩
      · intro h
        exact ⟨_, ⟨e, h.1.2, rfl⟩, rfl, h.2.symm⟩
    rw [hfront]
    exact hstart
  · intro r hr
    obtain ⟨a, ha, rfl⟩ := List.mem_map.1 hr
    exact .inl ⟨rfl, ⟨hin a ha, ha⟩, rfl⟩
  · intro r hr
    obtain ⟨a, _, rfl⟩ := List.mem_map.1 hr
    rfl
  · intro r hr
    obtain ⟨a, ha, rfl⟩ := List.mem_map.1 hr
    exact hin a ha

end

end Pfaedle.EDijkstra

import Pfaedle.EDijkstraOneToAll

set_option autoImplicit false

/-!
# Start edges of the one-to-all search

A start entry has the key `C()`, so only what costs nothing is settled before it. A start edge
keeps its own cost unless it is reached for nothing.
-/
namespace Pfaedle.EDijkstra
open LabelSetting

section model
variable {N E C : Type*} [DecidableEq N] [DecidableEq E] [AddCommGroup C] [LinearOrder C]
variable (g : DirGraph N E) (costFunc : CostFunc N E C) (froms : List E)

def Free (e : E) : Prop :=
  e ∉ froms ∨ ∃ p, Walk (network g costFunc (· ∈ froms)) e p 0

def freeNetwork : Network E C :=
  (network g costFunc (· ∈ froms)).into costFunc.inf (Free g costFunc froms)

/-- A relaxed entry of another start edge waits behind that edge's own one. -/
def Live (r : RouteEdge N E C) : Prop :=
  (r.d : WithTop C) < costFunc.inf ∧ (r.parent = none ∨ Free g costFunc froms r.e)

structure ForwardLoop (settled : Settled N E C) (queue : List (RouteEdge N E C))
    (costs : E → Option C) : Prop where
  labels : Invariant (freeNetwork g costFunc froms) costFunc.inf
    (liveDist (Live g costFunc froms) settled) (liveDist (Live g costFunc froms) queue)
  inside : ∀ r ∈ queue, r.e ∈ g.edges
  walks : ∀ r ∈ queue, ∃ p, Walk (network g costFunc (· ∈ froms)) r.e p r.d
  kinds : ∀ r ∈ queue, (r.e ∈ froms ∧ r = startEntry costFunc r.e) ∨
    (r.parent ≠ none ∧ (r.d : WithTop C) < costFunc.inf ∧ r.h = r.d)
  waiting : ∀ s ∈ froms, (settled.find s).isSome ∨ startEntry costFunc s ∈ queue
  dead : ∀ r ∈ settled, Live g costFunc froms r ∨
    (¬ Free g costFunc froms r.e ∧ r.d = costFunc.start r.e ∧ costFunc.inf ≤ (r.d : WithTop C))
  written : ∀ r ∈ settled, costs r.e = some r.d

end model

section step
variable {N E C : Type*} [AddCommGroup C] [LinearOrder C]
  {pq : PriorityQueue (RouteEdge N E C) RouteEdge.less} {g : DirGraph N E}
  {costFunc : CostFunc N E C} {froms : List E} {settled : Settled N E C}
  {queue rest : List (RouteEdge N E C)} {costs : E → Option C} {cur r : RouteEdge N E C}

theorem network_nonNeg (hnonneg : ∀ e n e', 0 ≤ costFunc.cost e n e')
    (hstart : ∀ e, 0 ≤ costFunc.start e) (source : E → Prop) :
    (network g costFunc source).NonNeg :=
  ⟨hstart, fun _ _ => hnonneg _ _ _⟩

variable (hcost : (network g costFunc (· ∈ froms)).NonNeg)
  (hinf : ((0 : C) : WithTop C) < costFunc.inf)
variable [DecidableEq E] [IsOrderedAddMonoid C]

include hcost hinf in
/-- The entries without cost are settled first. -/
theorem ForwardLoop.free_start (I : ForwardLoop g costFunc froms settled queue costs)
    (hpop : pq.pop queue = some (cur, rest)) (hnew : (settled.find cur.e).isSome = false)
    (hmem : cur.e ∈ froms) (hstart : cur = startEntry costFunc cur.e)
    (hfree : Free g costFunc froms cur.e) : cur.d = 0 := by
  obtain ⟨p, hw⟩ := hfree.resolve_left (not_not.2 hmem)
  have hpart : Walk (freeNetwork g costFunc froms) cur.e p 0 :=
    hw.into_free hcost hinf (fun v p hv => .inr ⟨p, hv⟩) rfl
  obtain ⟨u, d, ⟨r, hr, -, rfl, rfl⟩, -, hle⟩ :=
    I.labels.frontier (consistent_into hcost) hpart hinf (not_liveDist hnew)
  rw [add_zero, add_zero] at hle
  obtain ⟨hkey, htie⟩ := pop_le hpop hr
  have hcurh : cur.h = 0 := congrArg RouteEdge.h hstart
  have hrh : r.h ≤ 0 := by
    rcases I.kinds r hr with ⟨-, hs⟩ | ⟨-, -, hs⟩
    · exact (congrArg RouteEdge.h hs).le
    · exact hs.le.trans hle
  have heq : cur.h = r.h := le_antisymm hkey (hrh.trans_eq hcurh.symm)
  apply le_antisymm ((htie heq).trans hle)
  exact (hcost.start cur.e).trans_eq (congrArg RouteEdge.d hstart).symm

include hcost in
/-- The entry of a start edge is settled before a relaxed one of the same edge that costs
something. -/
theorem ForwardLoop.relaxed_free (I : ForwardLoop g costFunc froms settled queue costs)
    (hpop : pq.pop queue = some (cur, rest)) (hnew : (settled.find cur.e).isSome = false)
    (hparent : cur.parent ≠ none) : Free g costFunc froms cur.e := by
  have hcur : cur ∈ queue := (pq.mem_iff hpop cur).2 (.inl rfl)
  by_contra hclosed
  rw [Free, not_or, not_not] at hclosed
  rcases I.kinds cur hcur with ⟨-, hs⟩ | ⟨-, -, hkey⟩
  · exact hparent (congrArg RouteEdge.parent hs)
  · have hwait := (I.waiting cur.e hclosed.1).resolve_left (by simp [hnew])
    have hle : cur.h ≤ 0 := (pop_le hpop hwait).1
    obtain ⟨p, hw⟩ := I.walks cur hcur
    have hzero : cur.d = 0 := le_antisymm (hkey ▸ hle) (hcost.walk hw)
    exact hclosed.2 ⟨p, hzero ▸ hw⟩

include hcost hinf in
theorem ForwardLoop.best (I : ForwardLoop g costFunc froms settled queue costs)
    (hpop : pq.pop queue = some (cur, rest)) (hnew : (settled.find cur.e).isSome = false)
    (hlive : Live g costFunc froms cur) (p : List E) (c : C)
    (hw : Walk (freeNetwork g costFunc froms) cur.e p c) : cur.d ≤ c := by
  have hcur : cur ∈ queue := (pq.mem_iff hpop cur).2 (.inl rfl)
  rcases I.kinds cur hcur with ⟨hmem, hs⟩ | ⟨-, -, hkey⟩
  · by_cases hfree : Free g costFunc froms cur.e
    · rw [I.free_start hcost hinf hpop hnew hmem hs hfree]
      exact hcost.walk hw.of_into
    · -- No step enters the edge.
      generalize he : cur.e = e at hw hfree
      cases hw with
      | source _ => rw [hs, he]; exact le_refl _
      | snoc _ hstep => exact absurd hstep.2 hfree
  · refine I.labels.least_optimal (consistent_into hcost) ⟨cur, hcur, hlive, rfl, rfl⟩
      (not_liveDist hnew) ?_ p c hw
    intro u e hopen
    obtain ⟨r, hr, -, rfl, rfl⟩ := hopen
    rw [add_zero, add_zero, ← hkey]
    apply (pop_le hpop hr).1.trans
    rcases I.kinds r hr with ⟨-, hsr⟩ | ⟨-, -, hkr⟩
    · rw [hsr]
      exact hcost.start r.e
    · exact hkr.le

omit [IsOrderedAddMonoid C] in
theorem ForwardLoop.stale (I : ForwardLoop g costFunc froms settled queue costs)
    (hpop : pq.pop queue = some (cur, rest)) (hold : (settled.find cur.e).isSome) :
    ForwardLoop g costFunc froms settled rest costs := by
  have hcur : cur ∈ queue := (pq.mem_iff hpop cur).2 (.inl rfl)
  have hsub : ∀ r ∈ rest, r ∈ queue := fun r hr => (pq.mem_iff hpop r).2 (.inr hr)
  refine ⟨labels_stale I.labels hpop ?_, fun r hr => I.inside r (hsub r hr),
    fun r hr => I.walks r (hsub r hr), fun r hr => I.kinds r (hsub r hr), ?_, I.dead, I.written⟩
  · intro hlive
    obtain ⟨q, hq, he⟩ := Settled.find_isSome.1 hold
    rcases I.dead q hq with hq' | ⟨hclosed, hd, hge⟩
    · exact ⟨q.d, q, hq, hq', he, rfl⟩
    · rw [he] at hclosed hd
      rcases I.kinds cur hcur with ⟨-, hs⟩ | ⟨hparent, -, -⟩
      · have hsame : cur.d = q.d := (congrArg RouteEdge.d hs).trans hd.symm
        exact absurd (hsame ▸ hlive.1) (not_lt.2 hge)
      · exact absurd (hlive.2.resolve_left hparent) hclosed
  · intro s hs
    rcases I.waiting s hs with hset | hwait
    · exact .inl hset
    · rcases (pq.mem_iff hpop _).1 hwait with rfl | hin
      · exact .inl hold
      · exact .inr hin

variable [DecidableEq N]

omit [IsOrderedAddMonoid C] in
theorem pushes_relax (hin : cur.e ∈ g.edges) :
    Pushes (freeNetwork g costFunc froms) costFunc.inf (Live g costFunc froms) cur
      (relax g costFunc zeroHeurFunc [] cur) := by
  refine ⟨fun r hr hlive => ?_, fun e hne hstep hlt => ?_⟩
  · obtain ⟨hstep, hparent, hd, hlt, -⟩ := mem_relax (· ∈ froms) hin hr
    refine ⟨⟨hstep, hlive.2.resolve_left ?_⟩, hd, hlt⟩
    rw [hparent]
    exact Option.some_ne_none _
  · obtain ⟨r, hr, rfl, hd⟩ := relax_complete zeroHeurFunc [] (· ∈ froms) hne hstep.1 hlt
    refine ⟨r, hr, ⟨?_, .inr hstep.2⟩, rfl, hd⟩
    rw [hd]
    exact hlt

include hcost hinf in
theorem ForwardLoop.settle (I : ForwardLoop g costFunc froms settled queue costs)
    (hpop : pq.pop queue = some (cur, rest)) (hnew : (settled.find cur.e).isSome = false) :
    ForwardLoop g costFunc froms (cur :: settled)
      (rest ++ relax g costFunc zeroHeurFunc [] cur)
      (Function.update costs cur.e (some cur.d)) := by
  have hcur : cur ∈ queue := (pq.mem_iff hpop cur).2 (.inl rfl)
  have hsub : ∀ r ∈ rest, r ∈ queue := fun r hr => (pq.mem_iff hpop r).2 (.inr hr)
  have hin := I.inside cur hcur
  have hspec := fun r (hr : r ∈ relax g costFunc zeroHeurFunc [] cur) =>
    mem_relax (· ∈ froms) hin hr
  have hcase : Live g costFunc froms cur ∨ (¬ Free g costFunc froms cur.e ∧
      cur.d = costFunc.start cur.e ∧ costFunc.inf ≤ (cur.d : WithTop C)) := by
    rcases I.kinds cur hcur with ⟨hmem, hs⟩ | ⟨hparent, hlt, -⟩
    · by_cases hlt : (cur.d : WithTop C) < costFunc.inf
      · exact .inl ⟨hlt, .inl (congrArg RouteEdge.parent hs)⟩
      · refine .inr ⟨fun hfree => hlt ?_, congrArg RouteEdge.d hs, not_lt.1 hlt⟩
        rw [I.free_start hcost hinf hpop hnew hmem hs hfree]
        exact hinf
    · exact .inl ⟨hlt, .inr (I.relaxed_free hcost hpop hnew hparent)⟩
  refine ⟨?_, ?_, ?_, ?_, ?_, ?_, ?_⟩
  · by_cases hlive : Live g costFunc froms cur
    · exact labels_settle I.labels hpop hlive (I.best hcost hinf hpop hnew hlive)
        (pushes_relax hin)
    · -- From a cost of `inf` on nothing is pushed.
      have hge := (hcase.resolve_left hlive).2.2
      refine labels_dead I.labels hpop hlive fun r hr => ?_
      obtain ⟨-, -, hd, hlt, -⟩ := hspec r hr
      refine absurd hlt (not_lt.2 (hge.trans (WithTop.coe_le_coe.2 ?_)))
      rw [hd]
      exact le_add_of_nonneg_right (hcost.weight _ _)
  · intro r hr
    rcases List.mem_append.1 hr with hr | hr
    · exact I.inside r (hsub r hr)
    · exact (g.mem_adjListOut.1 (hspec r hr).1.2).1
  · intro r hr
    rcases List.mem_append.1 hr with hr | hr
    · exact I.walks r (hsub r hr)
    · obtain ⟨hstep, -, hd, -, -⟩ := hspec r hr
      obtain ⟨p, hw⟩ := I.walks cur hcur
      exact ⟨r.e :: p, hd ▸ hw.snoc hstep⟩
  · intro r hr
    rcases List.mem_append.1 hr with hr | hr
    · exact I.kinds r (hsub r hr)
    · obtain ⟨-, hparent, -, hlt, hkey⟩ := hspec r hr
      refine .inr ⟨?_, hlt, hkey.trans (add_zero _)⟩
      rw [hparent]
      exact Option.some_ne_none _
  · intro s hs
    rcases I.waiting s hs with hset | hwait
    · rw [Settled.find_isSome] at hset ⊢
      exact .inl (hset.imp fun r hr => ⟨List.mem_cons_of_mem _ hr.1, hr.2⟩)
    · rcases (pq.mem_iff hpop _).1 hwait with rfl | hrest
      · exact .inl (Settled.find_isSome.2 ⟨_, List.mem_cons_self, rfl⟩)
      · exact .inr (List.mem_append_left _ hrest)
  · intro r hr
    rcases List.mem_cons.1 hr with rfl | hr
    · exact hcase
    · exact I.dead r hr
  · intro r hr
    rcases List.mem_cons.1 hr with rfl | hr
    · exact Function.update_self _ _ _
    · have hne : r.e ≠ cur.e := by
        intro he
        rw [Settled.find_isSome.2 ⟨r, hr, he⟩] at hnew
        cases hnew
      rw [Function.update_of_ne hne]
      exact I.written r hr

omit [DecidableEq N] [IsOrderedAddMonoid C] in
theorem forwardLoop_initial (hin : ∀ e ∈ froms, e ∈ g.edges) :
    ForwardLoop g costFunc froms [] (froms.map (startEntry costFunc)) fun _ => none := by
  refine ⟨?_, ?_, ?_, ?_, fun s hs => .inr (List.mem_map_of_mem hs), by simp, by simp⟩
  · exact labels_initial hin (fun _ => rfl) (fun _ => rfl)
      fun e => ⟨fun h => h.1, fun h => ⟨h, .inl rfl⟩⟩
  · intro r hr
    obtain ⟨s, hs, rfl⟩ := List.mem_map.1 hr
    exact hin s hs
  · intro r hr
    obtain ⟨s, hs, rfl⟩ := List.mem_map.1 hr
    exact ⟨[s], Walk.source ⟨hin s hs, hs⟩⟩
  · intro r hr
    obtain ⟨s, hs, rfl⟩ := List.mem_map.1 hr
    exact .inl ⟨hs, rfl⟩

end step

section outcome
variable {N E C : Type*} [DecidableEq E] [AddCommGroup C] [LinearOrder C]
  {pq : PriorityQueue (RouteEdge N E C) RouteEdge.less} {costFunc : CostFunc N E C} {froms : List E}
  {settled : Settled N E C} {costs : E → Option C}

variable (pq) in
theorem shortestPathCosts_forward [DecidableEq N] [IsOrderedAddMonoid C] (g : InOutGraph N E)
    (hcost : (network g.toDirGraph costFunc (· ∈ froms)).NonNeg)
    (hinf : ((0 : C) : WithTop C) < costFunc.inf) (hin : ∀ e ∈ froms, e ∈ g.edges) :
    ∃ settled, ForwardLoop g.toDirGraph costFunc froms settled []
      (shortestPathCosts pq g costFunc false froms) := by
  refine searchCosts_run g.toDirGraph (ForwardLoop g.toDirGraph costFunc froms)
    (fun I => I.inside) (relax_length g.toDirGraph costFunc zeroHeurFunc [])
    (fun I hpop hold => I.stale hpop hold) (fun I hpop hnew => I.settle hcost hinf hpop hnew)
    _ (forwardLoop_initial hin) ?_
  simp only [pending, rounds, unpaid_nil, List.length_map, Bool.false_eq_true, if_false]
  omega

variable {g : DirGraph N E} (I : ForwardLoop g costFunc froms settled [] costs)

include I in
/-- What can be reached over no other start edge has its least cost. -/
theorem ForwardLoop.reached [IsOrderedAddMonoid C] (hcost : (network g costFunc (· ∈ froms)).NonNeg)
    {v : E}
    {p : List E} {c : C} (hw : Walk (freeNetwork g costFunc froms) v p c)
    (hlt : (c : WithTop C) < costFunc.inf) :
    ∃ d, costs v = some d ∧ (d : WithTop C) < costFunc.inf ∧
      Least (freeNetwork g costFunc froms) v d := by
  have hnone : ∀ v d, liveDist (Live g costFunc froms) [] v d →
      ∃ e, liveDist (Live g costFunc froms) settled v e := by
    simp [liveDist]
  obtain ⟨d, r, hr, hlive, rfl, rfl⟩ := I.labels.exhausted (consistent_into hcost) hnone hw hlt
  have hdist : liveDist (Live g costFunc froms) settled r.e r.d := ⟨r, hr, hlive, rfl, rfl⟩
  exact ⟨r.d, I.written r hr, hlive.1, I.labels.dist_walk _ _ hdist,
    fun {q c} hq => I.labels.optimal _ _ hdist q c hq⟩

include I in
theorem ForwardLoop.start_kept {s : E} (hs : s ∈ froms) (hclosed : ¬ Free g costFunc froms s) :
    costs s = some (costFunc.start s) := by
  obtain ⟨r, hr, rfl⟩ := Settled.find_isSome.1 ((I.waiting s hs).resolve_right List.not_mem_nil)
  rw [I.written r hr]
  rcases I.dead r hr with hlive | ⟨-, hd, -⟩
  · obtain ⟨p, hw⟩ := I.labels.dist_walk r.e r.d ⟨r, hr, hlive, rfl, rfl⟩
    generalize r.e = e, r.d = d at hw hclosed ⊢
    cases hw with
    | source _ => rfl
    | snoc _ hstep => exact absurd hstep.2 hclosed
  · rw [hd]

end outcome

end Pfaedle.EDijkstra

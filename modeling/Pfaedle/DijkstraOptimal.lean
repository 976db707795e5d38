import Pfaedle.Dijkstra
import Mathlib.Tactic.Linarith

set_option autoImplicit false

/-!
# What the node-based search finds

The start nodes wait with key zero. The search is right when at most one of them has a heuristic
below zero and the targets have none.
-/
namespace Pfaedle.Dijkstra
open EDijkstra (DirGraph)

section reached
variable {N E C : Type*} [DecidableEq N] [AddCommGroup C] [LinearOrder C]

theorem getOtherNd_out {g : DirGraph N E} {n : N} {e : E} (he : e ∈ g.adjListOut n) :
    getOtherNd g e n = g.getTo e := by
  unfold getOtherNd
  split_ifs with hloop
  · rw [(g.mem_adjListOut.1 he).2, hloop]
  · rfl

variable (g : DirGraph N E) (costFunc : CostFunc N E C) (heurFunc : HeurFunc N C)
  (tos froms : List N)

/-- The entry that is pushed for an edge out of `cur`. -/
def entry (cur : RouteNode N E C) (e : E) : RouteNode N E C :=
  ⟨g.getTo e, some cur.n, cur.d + edgeCost g costFunc e,
    cur.d + edgeCost g costFunc e + heurFunc (g.getTo e) tos, some e⟩

def Parented (settled : Settled N E C) (r : RouteNode N E C) : Prop :=
  (∃ s ∈ froms, r = initial s) ∨
    ∃ q ∈ settled, ∃ e ∈ g.adjListOut q.n, r = entry g costFunc heurFunc tos q e

/-- Every settled node is settled once and its parent was settled before it. -/
def Linked : Settled N E C → Prop
  | [] => True
  | r :: rest => (∀ q ∈ rest, q.n ≠ r.n) ∧
      Parented g costFunc heurFunc tos froms rest r ∧ Linked rest

structure Reached (settled : Settled N E C) (queue : List (RouteNode N E C)) : Prop where
  linked : Linked g costFunc heurFunc tos froms settled
  parented : ∀ r ∈ queue, Parented g costFunc heurFunc tos froms settled r
  covered : ∀ s ∈ froms, (∃ r ∈ settled, r.n = s) ∨ initial s ∈ queue
  relaxed : ∀ u ∈ settled, ∀ e ∈ g.adjListOut u.n,
    (∃ r ∈ settled, r.n = g.getTo e) ∨ entry g costFunc heurFunc tos u e ∈ queue
  fresh : ∀ r ∈ settled, r.n ∉ tos

variable {g costFunc heurFunc tos froms} {settled : Settled N E C}
  {queue rest : List (RouteNode N E C)} {cur : RouteNode N E C}

theorem mem_relax (hinf : costFunc.inf = ⊤) {r : RouteNode N E C} :
    r ∈ relax g costFunc heurFunc tos cur ↔
      ∃ e ∈ g.adjListOut cur.n, r = entry g costFunc heurFunc tos cur e := by
  have hedge : ∀ e ∈ g.adjListOut cur.n, relaxEdge g costFunc heurFunc tos cur e =
      some (entry g costFunc heurFunc tos cur e) := by
    intro e he
    obtain ⟨-, hfrom⟩ := g.mem_adjListOut.1 he
    unfold relaxEdge entry edgeCost
    rw [getOtherNd_out he, hfrom, hinf]
    exact if_neg (not_le.2 (WithTop.coe_lt_top _))
  unfold relax
  rw [List.mem_filterMap]
  constructor
  · rintro ⟨e, he, hr⟩
    rw [hedge e he] at hr
    exact ⟨e, he, (Option.some.inj hr).symm⟩
  · rintro ⟨e, he, rfl⟩
    exact ⟨e, he, hedge e he⟩

omit [DecidableEq N] [LinearOrder C] in
theorem Parented.mono {settled' : Settled N E C} {r : RouteNode N E C}
    (h : Parented g costFunc heurFunc tos froms settled r) (hsub : settled ⊆ settled') :
    Parented g costFunc heurFunc tos froms settled' r :=
  h.imp_right fun ⟨q, hq, he⟩ => ⟨q, hsub hq, he⟩

omit [LinearOrder C] in
theorem Linked.find_of_mem (h : Linked g costFunc heurFunc tos froms settled)
    {r : RouteNode N E C} (hr : r ∈ settled) : settled.find r.n = some r := by
  induction settled with
  | nil => cases hr
  | cons q rest ih =>
    cases List.mem_cons.1 hr with
    | inl heq =>
      subst heq
      simp [Settled.find]
    | inr hmem =>
      have hne : q.n ≠ r.n := fun heq => h.1 r hmem heq.symm
      have hrest := ih h.2.2 hmem
      unfold Settled.find at hrest ⊢
      rw [List.find?_cons_of_neg (by simpa using hne), hrest]

omit [LinearOrder C] in
theorem Linked.unique (h : Linked g costFunc heurFunc tos froms settled) {q r : RouteNode N E C}
    (hq : q ∈ settled) (hr : r ∈ settled) (hn : q.n = r.n) : q = r := by
  have hfind := h.find_of_mem hq
  rw [hn, h.find_of_mem hr] at hfind
  exact (Option.some.inj hfind).symm

/-- A path that `buildPath` wrote from the settled node `r`. -/
structure Written (g : DirGraph N E) (costFunc : CostFunc N E C) (froms : List N)
    (r : RouteNode N E C) (path : List N × List E) : Prop where
  leads : ∃ s ∈ froms, path.1.getLast? = some s ∧ Leads g s path.2 r.n
  cost : r.d = pathCost g costFunc path.2
  head : path.1.head? = some r.n
  length : path.1.length = path.2.length + 1

omit [LinearOrder C] in
theorem buildPath_written (h : Linked g costFunc heurFunc tos froms settled)
    {all : Settled N E C} (hall : Linked g costFunc heurFunc tos froms all) (hsub : settled ⊆ all)
    {k : ℕ} (hk : settled.length ≤ k) {r : RouteNode N E C} (hr : r ∈ settled) :
    Written g costFunc froms r (buildPath all k r.n) := by
  induction settled generalizing k r with
  | nil => cases hr
  | cons q rest ih =>
    rw [List.cons_subset] at hsub
    rw [List.length_cons] at hk
    cases List.mem_cons.1 hr with
    | inr hmem => exact ih h.2.2 hsub.2 (by omega) hmem
    | inl heq =>
      subst heq
      cases k with
      | zero => omega
      | succ k =>
        rw [buildPath, hall.find_of_mem hsub.1]
        rcases h.2.1 with ⟨s, hs, rfl⟩ | ⟨p, hp, e, he, rfl⟩
        · exact ⟨⟨s, hs, rfl, rfl⟩, rfl, rfl, rfl⟩
        · obtain ⟨hedge, hfrom⟩ := g.mem_adjListOut.1 he
          obtain ⟨⟨s, hs, hlast, hleads⟩, hcost, hhead, hlength⟩ :=
            ih h.2.2 hsub.2 (by omega : rest.length ≤ k) hp
          refine ⟨⟨s, hs, ?_, hedge, rfl, ?_⟩, ?_, rfl, ?_⟩
          · change (g.getTo e :: (buildPath all k p.n).1).getLast? = some s
            rw [List.getLast?_cons, hlast, Option.getD_some]
          · rw [hfrom]
            exact hleads
          · change p.d + edgeCost g costFunc e = _
            rw [hcost]
            exact (pathCost_cons g costFunc e _).symm
          · change (buildPath all k p.n).1.length + 1 = ([e] ++ (buildPath all k p.n).2).length + 1
            rw [hlength, List.singleton_append, List.length_cons]

omit [DecidableEq N] [LinearOrder C] in
theorem reached_start : Reached g costFunc heurFunc tos froms [] (froms.map initial) := by
  refine ⟨trivial, fun r hr => ?_, fun s hs => ?_, fun u hu => ?_, fun r hr => ?_⟩
  · obtain ⟨s, hs, rfl⟩ := List.mem_map.1 hr
    exact Or.inl ⟨s, hs, rfl⟩
  · exact Or.inr (List.mem_map_of_mem hs)
  · cases hu
  · cases hr

omit [DecidableEq N] in
theorem Reached.stale {pq : PriorityQueue (RouteNode N E C) RouteNode.less}
    (h : Reached g costFunc heurFunc tos froms settled queue)
    (hpop : pq.pop queue = some (cur, rest)) (hold : ∃ r ∈ settled, r.n = cur.n) :
    Reached g costFunc heurFunc tos froms settled rest := by
  have hless : ∀ {n : N} {r : RouteNode N E C}, r.n = n → ((∃ r ∈ settled, r.n = n) ∨ r ∈ queue) →
      (∃ r ∈ settled, r.n = n) ∨ r ∈ rest := by
    rintro n r rfl (hsettled | hqueue)
    · exact Or.inl hsettled
    · rcases (pq.mem_iff hpop r).1 hqueue with rfl | hrest
      · exact Or.inl hold
      · exact Or.inr hrest
  exact ⟨h.linked, fun r hr => h.parented r ((pq.mem_iff hpop r).2 (Or.inr hr)),
    fun s hs => hless rfl (h.covered s hs), fun u hu e he => hless rfl (h.relaxed u hu e he),
    h.fresh⟩

theorem Reached.settle {pq : PriorityQueue (RouteNode N E C) RouteNode.less}
    (h : Reached g costFunc heurFunc tos froms settled queue) (hinf : costFunc.inf = ⊤)
    (hpop : pq.pop queue = some (cur, rest)) (hnew : ∀ r ∈ settled, r.n ≠ cur.n)
    (htarget : cur.n ∉ tos) :
    Reached g costFunc heurFunc tos froms (cur :: settled)
      (rest ++ relax g costFunc heurFunc tos cur) := by
  have hparented := h.parented cur ((pq.mem_iff hpop cur).2 (Or.inl rfl))
  have hsub := List.subset_cons_self cur settled
  have hmore : ∀ {n : N} {r : RouteNode N E C}, r.n = n → ((∃ r ∈ settled, r.n = n) ∨ r ∈ queue) →
      (∃ r ∈ cur :: settled, r.n = n) ∨ r ∈ rest ++ relax g costFunc heurFunc tos cur := by
    rintro n r rfl (⟨q, hq, hqn⟩ | hqueue)
    · exact Or.inl ⟨q, hsub hq, hqn⟩
    · rcases (pq.mem_iff hpop r).1 hqueue with rfl | hrest
      · exact Or.inl ⟨r, List.mem_cons_self, rfl⟩
      · exact Or.inr (List.mem_append_left _ hrest)
  refine ⟨⟨hnew, hparented, h.linked⟩, fun r hr => ?_, fun s hs => hmore rfl (h.covered s hs),
    fun u hu e he => ?_, fun r hr => ?_⟩
  · rcases List.mem_append.1 hr with hold | hpushed
    · exact (h.parented r ((pq.mem_iff hpop r).2 (Or.inr hold))).mono hsub
    · obtain ⟨e, he, rfl⟩ := (mem_relax hinf).1 hpushed
      exact Or.inr ⟨cur, List.mem_cons_self, e, he, rfl⟩
  · rcases List.mem_cons.1 hu with rfl | hold
    · exact Or.inr (List.mem_append_right _ ((mem_relax hinf).2 ⟨e, he, rfl⟩))
    · exact hmore rfl (h.relaxed u hold e he)
  · rcases List.mem_cons.1 hr with rfl | hold
    · exact htarget
    · exact h.fresh r hold

theorem reached_kept (pq : PriorityQueue (RouteNode N E C) RouteNode.less)
    (hinf : costFunc.inf = ⊤) :
    Kept pq g costFunc heurFunc tos (Reached g costFunc heurFunc tos froms) where
  stale h hpop hold := h.stale hpop hold
  settle h hpop hnew htarget := h.settle hinf hpop hnew htarget

omit [DecidableEq N] [LinearOrder C] in
/-- An empty queue means that everything that the start nodes lead to is settled. -/
theorem Reached.exhausted (h : Reached g costFunc heurFunc tos froms settled []) {s t : N}
    (hs : s ∈ froms) {es : List E} (hleads : Leads g s es t) : ∃ r ∈ settled, r.n = t := by
  induction es generalizing t with
  | nil =>
    obtain rfl : s = t := hleads
    exact (h.covered s hs).resolve_right List.not_mem_nil
  | cons e es ih =>
    obtain ⟨he, rfl, hrest⟩ := hleads
    obtain ⟨u, hu, hn⟩ := ih hrest
    exact (h.relaxed u hu e (g.mem_adjListOut.2 ⟨he, hn.symm⟩)).resolve_right List.not_mem_nil

/-- The search ends in a state that keeps the invariant, with the path of the target that it has
taken off the queue. -/
structure Found (pq : PriorityQueue (RouteNode N E C) RouteNode.less) (g : DirGraph N E)
    (costFunc : CostFunc N E C) (froms tos : List N)
    (inv : Settled N E C → List (RouteNode N E C) → Prop) (path : List N × List E)
    (settled : Settled N E C) (queue : List (RouteNode N E C)) (cur : RouteNode N E C) : Prop where
  inv : inv settled queue
  popped : ∃ rest, pq.pop queue = some (cur, rest)
  new : ∀ r ∈ settled, r.n ≠ cur.n
  target : cur.n ∈ tos
  written : Written g costFunc froms cur path

theorem shortestPath_found (pq : PriorityQueue (RouteNode N E C) RouteNode.less)
    {inv : Settled N E C → List (RouteNode N E C) → Prop}
    (hkept : Kept pq g costFunc heurFunc tos inv) (hstart : inv [] (froms.map initial))
    (hreached : ∀ {settled queue}, inv settled queue →
      Reached g costFunc heurFunc tos froms settled queue) :
    let ret := shortestPath pq g costFunc heurFunc tos froms
    (∃ settled queue cur,
        Found pq g costFunc froms tos inv (ret.2.2, ret.2.1) settled queue cur) ∨
      ret.2 = ([], []) ∧ ∀ s ∈ froms, ∀ t ∈ tos, ∀ es, ¬ Leads g s es t := by
  unfold shortestPath
  cases hrun : search pq g costFunc heurFunc tos (rounds g froms.length) []
      (froms.map initial) with
  | none =>
    right
    refine ⟨rfl, fun s hs t ht es hleads => ?_⟩
    have hrounds : (froms.map (initial : N → RouteNode N E C)).length +
        unpaid g ([] : Settled N E C) < rounds g froms.length := by
      rw [List.length_map, unpaid_nil]
      exact Nat.lt_succ_self _
    obtain ⟨settled, hinv⟩ := search_exhausted hkept _ hstart hrounds hrun
    obtain ⟨r, hr, rfl⟩ := (hreached hinv).exhausted hs hleads
    exact (hreached hinv).fresh r hr ht
  | some out =>
    left
    obtain ⟨cur, final⟩ := out
    obtain ⟨settled, queue, rest, hinv, hpop, hnew, htarget, hfinal⟩ :=
      search_found hkept _ hstart hrun
    obtain rfl : final = cur :: settled := hfinal
    have hparented := (hreached hinv).parented cur ((pq.mem_iff hpop cur).2 (Or.inl rfl))
    have hlinked : Linked g costFunc heurFunc tos froms (cur :: settled) :=
      ⟨hnew, hparented, (hreached hinv).linked⟩
    exact ⟨settled, queue, cur, hinv, ⟨rest, hpop⟩, hnew, htarget,
      buildPath_written hlinked hlinked (List.Subset.refl _) le_rfl List.mem_cons_self⟩

theorem shortestPath_of_subset (pq : PriorityQueue (RouteNode N E C) RouteNode.less)
    (hne : froms ≠ []) (hsub : froms ⊆ tos) :
    ∃ s ∈ froms, (shortestPath pq g costFunc heurFunc tos froms).2 = ([], [s]) := by
  obtain ⟨first, others, rfl⟩ := List.exists_cons_of_ne_nil hne
  obtain ⟨cur, rest, hpop⟩ := pq.pop_cons (initial first) (others.map initial)
  have hcur := (pq.mem_iff hpop cur).2 (Or.inl rfl)
  rw [← List.map_cons] at hcur hpop
  obtain ⟨s, hs, rfl⟩ := List.mem_map.1 hcur
  refine ⟨s, hs, ?_⟩
  have hfind : Settled.find ([] : Settled N E C) (initial s : RouteNode N E C).n = none := rfl
  have htarget : (initial s : RouteNode N E C).n ∈ tos := hsub hs
  have hbuild : buildPath [(initial s : RouteNode N E C)] 1 s = ([s], []) := by
    simp [buildPath, Settled.find, initial]
  unfold shortestPath rounds
  rw [search, hpop]
  dsimp only
  rw [hfind, if_neg (by simp), if_pos htarget]
  change ((buildPath [(initial s : RouteNode N E C)] 1 s).2,
    (buildPath [(initial s : RouteNode N E C)] 1 s).1) = _
  rw [hbuild]

end reached

section optimal
variable {N E C : Type*} [CommRing C] [LinearOrder C] [IsStrictOrderedRing C] {g : DirGraph N E}
  {costFunc : CostFunc N E C} {heurFunc : HeurFunc N C} {tos froms : List N}
  {settled : Settled N E C} {queue rest : List (RouteNode N E C)} {cur : RouteNode N E C}

/-- No edge has negative costs or lowers the heuristic by more than it costs. -/
structure Consistent (g : DirGraph N E) (costFunc : CostFunc N E C) (heur : N → C) : Prop where
  nonneg : ∀ e ∈ g.edges, 0 ≤ edgeCost g costFunc e
  drop : ∀ e ∈ g.edges, heur (g.getFrom e) ≤ edgeCost g costFunc e + heur (g.getTo e)

theorem Consistent.pathCost_nonneg {heur : N → C} (h : Consistent g costFunc heur) {s : N}
    {es : List E} {t : N} (hleads : Leads g s es t) : 0 ≤ pathCost g costFunc es := by
  induction es generalizing t with
  | nil => exact le_refl _
  | cons e es ih =>
    rw [pathCost_cons]
    exact add_nonneg (ih hleads.2.2) (h.nonneg e hleads.1)

/-- The costs are final, and as long as a start node with a heuristic below zero waits, all other
nodes come from start nodes without one. -/
structure Optimal (g : DirGraph N E) (costFunc : CostFunc N E C) (heurFunc : HeurFunc N C)
    (tos froms : List N) (settled : Settled N E C) (queue : List (RouteNode N E C)) : Prop where
  reached : Reached g costFunc heurFunc tos froms settled queue
  optimal : ∀ r ∈ settled, ∀ s ∈ froms, ∀ es, Leads g s es r.n → r.d ≤ pathCost g costFunc es
  late : ∀ s ∈ froms, heurFunc s tos < 0 → (∃ r ∈ settled, r.n = s) ∨
    ∀ r, r ∈ settled ∨ r ∈ queue → r ≠ initial s → 0 ≤ r.d + heurFunc r.n tos

variable [DecidableEq N]

/-- Every path to a node that is not settled is undercut by the queue. -/
theorem Optimal.frontier (h : Optimal g costFunc heurFunc tos froms settled queue)
    (hc : Consistent g costFunc fun n => heurFunc n tos) {s : N} (hs : s ∈ froms) {es : List E}
    {v : N} (hleads : Leads g s es v) (hv : ∀ r ∈ settled, r.n ≠ v) :
    ∃ r ∈ queue, (∀ q ∈ settled, q.n ≠ r.n) ∧
      r.d + heurFunc r.n tos ≤ pathCost g costFunc es + heurFunc v tos := by
  induction es generalizing v with
  | nil =>
    obtain rfl : s = v := hleads
    have hqueue := (h.reached.covered s hs).resolve_left fun ⟨r, hr, hn⟩ => hv r hr hn
    exact ⟨initial s, hqueue, hv, le_refl _⟩
  | cons e es ih =>
    obtain ⟨he, rfl, hrest⟩ := hleads
    rw [pathCost_cons]
    by_cases hu : ∀ r ∈ settled, r.n ≠ g.getFrom e
    · obtain ⟨r, hr, hnew, hle⟩ := ih hrest hu
      have hdrop := hc.drop e he
      exact ⟨r, hr, hnew, by linarith⟩
    · simp only [not_forall, not_not] at hu
      obtain ⟨u, hu, hn⟩ := hu
      have hqueue := (h.reached.relaxed u hu e (g.mem_adjListOut.2 ⟨he, hn.symm⟩)).resolve_left
        fun ⟨r, hr, hn⟩ => hv r hr hn
      have hle := h.optimal u hu s hs es (hn ▸ hrest)
      refine ⟨_, hqueue, hv, ?_⟩
      change u.d + edgeCost g costFunc e + heurFunc (g.getTo e) tos ≤ _
      linarith

omit [DecidableEq N] in
theorem Optimal.popped_le {pq : PriorityQueue (RouteNode N E C) RouteNode.less}
    (h : Optimal g costFunc heurFunc tos froms settled queue)
    (hpop : pq.pop queue = some (cur, rest)) {c : C} (hc : 0 ≤ c)
    (hle : ∃ r ∈ queue, (∀ q ∈ settled, q.n ≠ r.n) ∧
      r.d + heurFunc r.n tos ≤ c + heurFunc cur.n tos) : cur.d ≤ c := by
  obtain ⟨r, hr, hnew, hle⟩ := hle
  have hcur : cur ∈ queue := (pq.mem_iff hpop cur).2 (Or.inl rfl)
  have htop := pq.pop_top hpop r hr
  unfold RouteNode.less at htop
  rw [not_or, not_and, not_lt, not_lt] at htop
  by_contra hlt
  rw [not_le] at hlt
  rcases h.reached.parented cur hcur with ⟨s, -, rfl⟩ | ⟨q, -, e, -, rfl⟩
  · exact absurd hlt (not_lt.2 hc)
  · have hkey : (entry g costFunc heurFunc tos q e).h = (entry g costFunc heurFunc tos q e).d +
        heurFunc (entry g costFunc heurFunc tos q e).n tos := rfl
    have hnot : ∀ s, entry g costFunc heurFunc tos q e ≠ initial s := fun s heq => by cases heq
    generalize entry g costFunc heurFunc tos q e = cur at *
    rcases h.reached.parented r hr with ⟨s, hs, rfl⟩ | ⟨q', -, e', -, rfl⟩
    · -- a start node waits with key zero, and its heuristic may be below that
      change 0 + heurFunc s tos ≤ _ at hle
      change cur.h ≤ 0 ∧ (cur.h = 0 → cur.d ≤ 0) at htop
      have hneg : heurFunc s tos < 0 := by linarith [htop.1]
      have hlate := (h.late s hs hneg).resolve_left fun ⟨r, hr, hn⟩ => hnew r hr hn
      have hzero := hlate cur (Or.inr hcur) (hnot s)
      have hfirst := htop.2 (by linarith [htop.1])
      linarith
    · change _ + heurFunc _ tos ≤ _ at hle
      have hkey' := htop.1
      change cur.h ≤ q'.d + edgeCost g costFunc e' + heurFunc (g.getTo e') tos at hkey'
      change q'.d + edgeCost g costFunc e' + heurFunc (g.getTo e') tos ≤ _ at hle
      linarith

def OneBelow (heur : N → C) (froms : List N) : Prop :=
  ∀ s ∈ froms, ∀ s' ∈ froms, heur s < 0 → heur s' < 0 → s = s'

omit [DecidableEq N] [IsStrictOrderedRing C] in
theorem optimal_start (hone : OneBelow (fun n => heurFunc n tos) froms) :
    Optimal g costFunc heurFunc tos froms [] (froms.map initial) := by
  refine ⟨reached_start, fun r hr => (by cases hr), fun s hs hneg => Or.inr fun r hr hne => ?_⟩
  obtain ⟨s', hs', rfl⟩ := List.mem_map.1 (hr.resolve_left List.not_mem_nil)
  change 0 ≤ 0 + heurFunc s' tos
  rw [zero_add]
  by_contra hneg'
  exact hne (congrArg initial (hone s' hs' s hs (not_le.1 hneg') hneg))

theorem optimal_kept (pq : PriorityQueue (RouteNode N E C) RouteNode.less)
    (hinf : costFunc.inf = ⊤) (hc : Consistent g costFunc fun n => heurFunc n tos) :
    Kept pq g costFunc heurFunc tos (Optimal g costFunc heurFunc tos froms) where
  stale h hpop hold := by
    refine ⟨h.reached.stale hpop hold, h.optimal, fun s hs hneg => ?_⟩
    refine (h.late s hs hneg).imp_right fun hlate r hr hne => hlate r (hr.imp_right fun hrest => ?_) hne
    exact (pq.mem_iff hpop r).2 (Or.inr hrest)
  settle {settled queue cur rest} h hpop hnew htarget := by
    have hcur : cur ∈ queue := (pq.mem_iff hpop cur).2 (Or.inl rfl)
    refine ⟨h.reached.settle hinf hpop hnew htarget, fun r hr s hs es hleads => ?_,
      fun s hs hneg => ?_⟩
    · rcases List.mem_cons.1 hr with rfl | hold
      · exact h.popped_le hpop (hc.pathCost_nonneg hleads) (h.frontier hc hs hleads hnew)
      · exact h.optimal r hold s hs es hleads
    · by_cases hself : cur.n = s
      · exact Or.inl ⟨cur, List.mem_cons_self, hself⟩
      · rcases h.late s hs hneg with ⟨r, hr, hn⟩ | hlate
        · exact Or.inl ⟨r, List.mem_cons_of_mem _ hr, hn⟩
        · have hfrom := hlate cur (Or.inr hcur) fun heq => hself (congrArg RouteNode.n heq)
          refine Or.inr fun r hr hne => ?_
          rcases hr with hsettled | hqueue
          · rcases List.mem_cons.1 hsettled with rfl | hold
            · exact hfrom
            · exact hlate r (Or.inl hold) hne
          · rcases List.mem_append.1 hqueue with hrest | hpushed
            · exact hlate r (Or.inr ((pq.mem_iff hpop r).2 (Or.inr hrest))) hne
            · obtain ⟨e, he, rfl⟩ := (mem_relax hinf).1 hpushed
              obtain ⟨hedge, hn⟩ := g.mem_adjListOut.1 he
              have hdrop := hc.drop e hedge
              rw [hn] at hdrop
              change 0 ≤ cur.d + edgeCost g costFunc e + heurFunc (g.getTo e) tos
              linarith

/-- The path of the search is cheapest among all paths from a start node to a target. -/
theorem shortestPath_cheapest (pq : PriorityQueue (RouteNode N E C) RouteNode.less)
    (hinf : costFunc.inf = ⊤) (hc : Consistent g costFunc fun n => heurFunc n tos)
    (hone : OneBelow (fun n => heurFunc n tos) froms) (htos : ∀ t ∈ tos, heurFunc t tos = 0)
    (hconnected : ∃ s ∈ froms, ∃ t ∈ tos, ∃ es, Leads g s es t) :
    let ret := shortestPath pq g costFunc heurFunc tos froms
    ∃ cur : RouteNode N E C, Written g costFunc froms cur (ret.2.2, ret.2.1) ∧ cur.n ∈ tos ∧
      ∀ s ∈ froms, ∀ t ∈ tos, ∀ es, Leads g s es t → cur.d ≤ pathCost g costFunc es := by
  have hspec := shortestPath_found pq (optimal_kept pq hinf hc) (optimal_start hone)
    fun h => h.reached
  obtain ⟨s, hs, t, ht, es, hleads⟩ := hconnected
  rcases hspec with ⟨settled, queue, cur, hfound⟩ | ⟨-, hnone⟩
  · obtain ⟨rest, hpop⟩ := hfound.popped
    refine ⟨cur, hfound.written, hfound.target, fun s' hs' t' ht' es' hleads' => ?_⟩
    have hfresh : ∀ r ∈ settled, r.n ≠ t' :=
      fun r hr hn => hfound.inv.reached.fresh r hr (hn ▸ ht')
    have hfrontier := hfound.inv.frontier hc hs' hleads' hfresh
    rw [htos t' ht', ← htos cur.n hfound.target] at hfrontier
    exact hfound.inv.popped_le hpop (hc.pathCost_nonneg hleads') hfrontier
  · exact absurd hleads (hnone s hs t ht es)

end optimal

end Pfaedle.Dijkstra

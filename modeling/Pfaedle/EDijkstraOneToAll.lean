import Pfaedle.EDijkstraOptimal
import Pfaedle.NetworkWalks

set_option autoImplicit false

/-!
# One-to-all search of `util::graph::EDijkstra`

Start entries are pushed with the key `C()`, relaxed ones with their cost, and those of `relaxInv`
with `C()` again.
-/
namespace Pfaedle.EDijkstra
open LabelSetting

/-- A graph with the lists that `relaxInv` reads. -/
structure InOutGraph (N E : Type*) extends DirGraph N E where
  adjListIn : N → List E
  mem_adjListIn : ∀ {n e}, e ∈ adjListIn n ↔ e ∈ edges ∧ getTo e = n

def InOutGraph.ofEdges {N E : Type*} [DecidableEq N] (edges : List E) (getFrom getTo : E → N) :
    InOutGraph N E where
  toDirGraph := .ofEdges edges getFrom getTo
  adjListIn n := edges.filter fun e => getTo e = n
  mem_adjListIn := List.mem_filter.trans (and_congr_right fun _ => decide_eq_true_iff)

def InOutGraph.reverse {N E : Type*} (g : InOutGraph N E) : DirGraph N E where
  edges := g.edges
  getFrom := g.getTo
  getTo := g.getFrom
  adjListOut := g.adjListIn
  mem_adjListOut := g.mem_adjListIn

def CostFunc.reverse {N E C : Type*} (costFunc : CostFunc N E C) : CostFunc N E C :=
  { costFunc with cost := fun e n e' => costFunc.cost e' n e }

section model
variable {N E C : Type*} [DecidableEq N] [DecidableEq E] [AddCommGroup C] [LinearOrder C]

def zeroHeurFunc : HeurFunc E C := fun _ _ => 0

def relaxInv (g : InOutGraph N E) (costFunc : CostFunc N E C) (cur : RouteEdge N E C) :
    List (RouteEdge N E C) :=
  (g.adjListIn (g.getFrom cur.e)).filterMap fun edge =>
    if edge = cur.e then none
    else
      let newC := cur.d + costFunc.cost edge (g.getFrom cur.e) cur.e
      if costFunc.inf ≤ (newC : WithTop C) then none
      else some ⟨edge, some cur.e, some (g.getFrom cur.e), newC, 0⟩

def startEntry (costFunc : CostFunc N E C) (e : E) : RouteEdge N E C :=
  ⟨e, none, none, costFunc.start e, 0⟩

variable (pq : PriorityQueue (RouteEdge N E C) RouteEdge.less)

/-- The loop; `buildPath` writes nothing without its lists. -/
def searchCosts (push : RouteEdge N E C → List (RouteEdge N E C)) :
    ℕ → Settled N E C → List (RouteEdge N E C) → (E → Option C) → E → Option C
  | 0, _, _, costs => costs
  | k + 1, settled, queue, costs =>
    match pq.pop queue with
    | none => costs
    | some (cur, queue) =>
      if (settled.find cur.e).isSome then searchCosts push k settled queue costs
      else searchCosts push k (cur :: settled) (queue ++ push cur)
        (Function.update costs cur.e (some cur.d))

/-- `shortestPathImpl(set from, costFunc, rev)`; an edge without a value has no entry. -/
def shortestPathCosts (g : InOutGraph N E) (costFunc : CostFunc N E C) (rev : Bool)
    (froms : List E) : E → Option C :=
  searchCosts pq (if rev then relaxInv g costFunc else relax g.toDirGraph costFunc zeroHeurFunc [])
    (rounds (if rev then g.reverse else g.toDirGraph) froms.length) []
    (froms.map (startEntry costFunc)) fun _ => none

end model

section loop
variable {N E C : Type*} [DecidableEq N] [DecidableEq E] [LinearOrder C]
  {pq : PriorityQueue (RouteEdge N E C) RouteEdge.less}
  {push : RouteEdge N E C → List (RouteEdge N E C)}

/-- What every round preserves holds when the queue is empty, and `rounds` are enough for that. -/
theorem searchCosts_run (g : DirGraph N E)
    (inv : Settled N E C → List (RouteEdge N E C) → (E → Option C) → Prop)
    (hinside : ∀ {settled queue costs}, inv settled queue costs → ∀ r ∈ queue, r.e ∈ g.edges)
    (hfan : ∀ cur, (push cur).length ≤ fan g cur.e)
    (hstale : ∀ {settled queue costs cur rest}, inv settled queue costs →
      pq.pop queue = some (cur, rest) → (settled.find cur.e).isSome → inv settled rest costs)
    (hsettle : ∀ {settled queue costs cur rest}, inv settled queue costs →
      pq.pop queue = some (cur, rest) → (settled.find cur.e).isSome = false →
      inv (cur :: settled) (rest ++ push cur) (Function.update costs cur.e (some cur.d)))
    (k : ℕ) {settled : Settled N E C} {queue : List (RouteEdge N E C)} {costs : E → Option C}
    (h : inv settled queue costs) (hk : pending g settled queue < k) :
    ∃ settled', inv settled' [] (searchCosts pq push k settled queue costs) := by
  induction k generalizing settled queue costs with
  | zero => omega
  | succ k ih =>
    rw [searchCosts]
    cases hpop : pq.pop queue with
    | none =>
      have hempty := pq.eq_nil_of_pop hpop
      subst hempty
      exact ⟨settled, h⟩
    | some popped =>
      obtain ⟨cur, rest⟩ := popped
      dsimp only
      have hlen := pq.length_pop hpop
      split
      · rename_i hold
        apply ih (hstale h hpop hold)
        simp only [pending] at hk ⊢
        omega
      · rename_i hnot
        have hnew : (settled.find cur.e).isSome = false := Bool.eq_false_iff.2 hnot
        apply ih (hsettle h hpop hnew)
        have hcur : cur ∈ queue := (pq.mem_iff hpop cur).2 (.inl rfl)
        have hpaid := unpaid_settle g (hinside h cur hcur) hnew
        have hpushed := hfan cur
        simp only [pending, List.length_append] at hk ⊢
        omega

end loop

section labels
variable {N E C : Type*} [AddCommGroup C] [LinearOrder C]
  {pq : PriorityQueue (RouteEdge N E C) RouteEdge.less} {P : Network E C} {inf : WithTop C}
  {live : RouteEdge N E C → Prop} {settled : Settled N E C}
  {queue rest new : List (RouteEdge N E C)} {cur : RouteEdge N E C}

def liveDist (live : RouteEdge N E C → Prop) (entries : List (RouteEdge N E C)) (e : E) (d : C) :
    Prop :=
  ∃ r ∈ entries, live r ∧ r.e = e ∧ r.d = d

omit [AddCommGroup C] [LinearOrder C] in
theorem not_liveDist [DecidableEq E] {e : E} (hnew : (settled.find e).isSome = false) :
    ¬ ∃ d, liveDist live settled e d := by
  intro h
  obtain ⟨d, r, hr, -, he, -⟩ := h
  rw [Settled.find_isSome.2 ⟨r, hr, he⟩] at hnew
  cases hnew

theorem labels_stale (I : Invariant P inf (liveDist live settled) (liveDist live queue))
    (hpop : pq.pop queue = some (cur, rest)) (hold : live cur → ∃ d, liveDist live settled cur.e d) :
    Invariant P inf (liveDist live settled) (liveDist live rest) := by
  refine I.discard ?_ ?_
  · intro v d h
    exact h.imp fun r hr => ⟨(pq.mem_iff hpop r).2 (.inr hr.1), hr.2⟩
  · intro v d h
    obtain ⟨r, hr, hlive, he, hd⟩ := h
    rcases (pq.mem_iff hpop r).1 hr with rfl | hrest
    · exact .inr (he ▸ hold hlive)
    · exact .inl ⟨r, hrest, hlive, he, hd⟩

/-- The entries that are pushed are the steps out of `cur` that stay below `inf`. -/
structure Pushes (P : Network E C) (inf : WithTop C) (live : RouteEdge N E C → Prop)
    (cur : RouteEdge N E C) (new : List (RouteEdge N E C)) : Prop where
  sound : ∀ r ∈ new, live r → P.step cur.e r.e ∧ r.d = cur.d + P.weight cur.e r.e ∧
    (r.d : WithTop C) < inf
  complete : ∀ e, e ≠ cur.e → P.step cur.e e →
    ((cur.d + P.weight cur.e e : C) : WithTop C) < inf →
      ∃ r ∈ new, live r ∧ r.e = e ∧ r.d = cur.d + P.weight cur.e e

theorem labels_settle (I : Invariant P inf (liveDist live settled) (liveDist live queue))
    (hpop : pq.pop queue = some (cur, rest)) (hlive : live cur)
    (hbest : ∀ p c, Walk P cur.e p c → cur.d ≤ c) (hpush : Pushes P inf live cur new) :
    Invariant P inf (liveDist live (cur :: settled)) (liveDist live (rest ++ new)) := by
  have hcur : cur ∈ queue := (pq.mem_iff hpop cur).2 (.inl rfl)
  have hdist : liveDist live (cur :: settled) =
      fun e d => liveDist live settled e d ∨ e = cur.e ∧ d = cur.d := by
    funext e d
    simp only [liveDist, List.mem_cons, exists_eq_or_imp, hlive, true_and, eq_iff_iff]
    rw [or_comm, eq_comm (a := e), eq_comm (a := d)]
  rw [hdist]
  refine I.settle_final ⟨cur, hcur, hlive, rfl, rfl⟩ hbest ?_ ?_ ?_
  · intro u d h
    obtain ⟨r, hr, hliver, rfl, rfl⟩ := h
    rcases List.mem_append.1 hr with hr | hr
    · exact .inl ⟨r, (pq.mem_iff hpop r).2 (.inr hr), hliver, rfl, rfl⟩
    · exact .inr (hpush.sound r hr hliver)
  · intro u d hne h
    obtain ⟨r, hr, hliver, he, hd⟩ := h
    rcases (pq.mem_iff hpop r).1 hr with rfl | hr
    · exact absurd he.symm hne
    · exact ⟨r, List.mem_append_left _ hr, hliver, he, hd⟩
  · intro u hne hstep hlt
    obtain ⟨r, hr, hspec⟩ := hpush.complete u hne hstep hlt
    exact ⟨r, List.mem_append_right _ hr, hspec⟩

theorem labels_dead (I : Invariant P inf (liveDist live settled) (liveDist live queue))
    (hpop : pq.pop queue = some (cur, rest)) (hdead : ¬ live cur) (hnew : ∀ r ∈ new, ¬ live r) :
    Invariant P inf (liveDist live (cur :: settled)) (liveDist live (rest ++ new)) := by
  have hdist : liveDist live (cur :: settled) = liveDist live settled := by
    funext e d
    simp [liveDist, hdead]
  have hfront : liveDist live (rest ++ new) = liveDist live rest := by
    funext e d
    apply propext
    constructor
    · intro h
      obtain ⟨r, hr, hlive, hspec⟩ := h
      exact ⟨r, (List.mem_append.1 hr).resolve_right fun hr => hnew r hr hlive, hlive, hspec⟩
    · exact fun h => h.imp fun r hr => ⟨List.mem_append_left _ hr.1, hr.2⟩
  rw [hdist, hfront]
  exact labels_stale I hpop fun hlive => absurd hlive hdead

theorem labels_initial {g : DirGraph N E} {costFunc : CostFunc N E C} {froms : List E}
    {isOpen : E → Prop} {entry : E → RouteEdge N E C} (hin : ∀ e ∈ froms, e ∈ g.edges)
    (he : ∀ e, (entry e).e = e) (hd : ∀ e, (entry e).d = costFunc.start e)
    (hlive : ∀ e, live (entry e) ↔ (costFunc.start e : WithTop C) < costFunc.inf) :
    Invariant ((network g costFunc (· ∈ froms)).into costFunc.inf isOpen) costFunc.inf
      (liveDist live []) (liveDist live (froms.map entry)) := by
  have hempty : liveDist live ([] : Settled N E C) = fun _ _ => False := by
    funext e d
    simp [liveDist]
  have hfront : liveDist live (froms.map entry) = fun e d =>
      ((network g costFunc (· ∈ froms)).into costFunc.inf isOpen).source e ∧
        d = costFunc.start e := by
    funext e d
    apply propext
    constructor
    · rintro ⟨r, hr, hcounts, rfl, rfl⟩
      obtain ⟨s, hs, rfl⟩ := List.mem_map.1 hr
      rw [he, hd]
      exact ⟨⟨⟨hin s hs, hs⟩, (hlive s).1 hcounts⟩, rfl⟩
    · rintro ⟨⟨⟨-, hs⟩, hlt⟩, rfl⟩
      exact ⟨_, List.mem_map_of_mem hs, (hlive e).2 hlt, he e, hd e⟩
  rw [hempty, hfront]
  exact invariant_start _ fun s hs => hs.2

end labels

end Pfaedle.EDijkstra

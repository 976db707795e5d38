import Pfaedle.EDijkstraOptimal
import Pfaedle.RouteLayers
import Mathlib.Algebra.Field.Rat
import Mathlib.Algebra.Order.Ring.Rat
import Mathlib.Data.List.Forall2

set_option autoImplicit false

/-!
# The solution of `route`

Paths from the source to the sink of the candidate graph are the choices of one candidate per
group, and the search returns one of least cost.
-/
namespace Pfaedle.Router
open DirGraphs NamedGraph LabelSetting

section choice
variable {N E C : Type*}

/-- One candidate of every group. -/
def Choice (cs : List (EdgeCandidate E C)) (groups : EdgeCandidateRoute E C) : Prop :=
  List.Forall₂ (fun c b => c ∈ b) cs groups

/-- The arcs behind the first candidate, which belongs to group `i`. -/
def choiceArcs : ℕ → List (EdgeCandidate E C) → List (Arc E)
  | i, x :: y :: cs => hopArc i x.e y.e :: choiceArcs (i + 1) (y :: cs)
  | i, [x] => [sinkArc i x.e]
  | _, [] => []

def solutionArcs (cs : List (EdgeCandidate E C)) : List (Arc E) :=
  (cs.head?.toList.map fun c => sourceArc c.e) ++ choiceArcs 0 cs

variable [Field C]

/-- The costs of the hops of a choice from group `i` on, as `hops` delivered them. -/
def hopsCost (delivered : ℕ → E → HopResults E C) : ℕ → List (EdgeCandidate E C) → C
  | i, x :: y :: cs => y.pen + (delivered i x.e).costs y.e + hopsCost delivered (i + 1) (y :: cs)
  | _, _ => 0

def choiceCost (delivered : ℕ → E → HopResults E C) (cs : List (EdgeCandidate E C)) : C :=
  (cs.head?.elim 0 EdgeCandidate.pen) + hopsCost delivered 0 cs

end choice

section paths
variable {N E C : Type*} [Field C] [LinearOrder C] {S : Setting N E C} {thread : ℕ}
  {rAttrs : RoutingAttributes} {route : EdgeCandidateRoute E C} {ν : ℕ → CandName E}
  {pay : Arc E → CandPayload N E C} {st : RouteState N E C}

def choiceHops (S : Setting N E C) (delivered : ℕ → E → HopResults E C) :
    ℕ → List (EdgeCandidate E C) → List (EdgeListHop N E C)
  | i, x :: y :: cs => edgeListHop (hopPayload S x.e y (delivered i x.e)) ::
      choiceHops S delivered (i + 1) (y :: cs)
  | _, _ => []

def candNetwork (S : Setting N E C) (g : CandGraph N E C) : Network Edge C :=
  EDijkstra.network (searchGraph g) (combCostFunc g) (· ∈ S.candSet.toList (g.getAdjListOut source))

omit [Field C] in
theorem candNetwork_step {g : CandGraph N E C} {e e' : Edge} :
    (candNetwork S g).step e e' ↔ e ∈ g.edges ∧ e' ∈ g.edges ∧ e'.getFrom = e.getTo := by
  change e ∈ g.edges ∧ e' ∈ g.getAdjListOut e.getTo ↔ _
  rw [DirGraph.mem_getAdjListOut]

omit [Field C] in
theorem candNetwork_source {g : CandGraph N E C} {e : Edge} :
    (candNetwork S g).source e ↔ e ∈ g.edges ∧ e.getFrom = source := by
  change e ∈ g.edges ∧ e ∈ S.candSet.toList (g.getAdjListOut source) ↔ _
  rw [S.candSet.mem, DirGraph.mem_getAdjListOut]
  tauto

theorem candNetwork_pathCost (g : CandGraph N E C) (p : List Edge) :
    pathCost (candNetwork S g) p = (p.map fun e => (g.pl e).cost).sum := by
  have hlegs : ∀ (q : List Edge) (e : Edge),
      legs (candNetwork S g) e q = (q.map fun e => (g.pl e).cost).sum := by
    intro q
    induction q with
    | nil => intro e; rfl
    | cons e' q ih =>
      intro e
      rw [legs, ih, List.map_cons, List.sum_cons]
      rfl
  cases p with
  | nil => rfl
  | cons e q =>
    rw [pathCost, hlegs, List.map_cons, List.sum_cons]
    rfl

omit [Field C] in
theorem candNetwork_path_edges {g : CandGraph N E C} {p : List Edge} {t : Edge}
    (hp : IsPath (candNetwork S g) p t) : ∀ e ∈ p, e ∈ g.edges := by
  obtain ⟨s, hhead, hs⟩ := hp.head
  intro e he
  cases p with
  | nil => cases he
  | cons a q =>
    obtain rfl : a = s := by simpa using hhead
    rw [candNetwork_source] at hs
    have hall := hp.chain.induction (· ∈ g.edges) (a :: q)
      (fun _ _ hstep _ => (candNetwork_step.1 hstep).2.1) (fun _ => hs.1)
    exact hall e he

variable (h : Layered S route (route.length - 1) ν pay st)
include h

theorem Layered.arc_cases {e : Edge} (he : e ∈ st.cgraph.edges) :
    (∃ x ∈ group route 0, arcOf ν e = sourceArc x.e) ∨
    (∃ j < route.length - 1, ∃ x ∈ group route j, ∃ y ∈ group route (j + 1),
      arcOf ν e = hopArc j x.e y.e) ∨
    ∃ y ∈ group route (route.length - 1), arcOf ν e = sinkArc (route.length - 1) y.e := by
  rcases h.building.drawn.arc e he with hp | ⟨j, hj, x, hx, y, hy, hp⟩ | ⟨-, y, hy, hp⟩
  · exact Or.inl hp
  · exact Or.inr (Or.inl ⟨j, hj, x, hx, y, hy, hp⟩)
  · exact Or.inr (Or.inr ⟨y, hy, hp⟩)

/-- Behind a candidate of group `i` a path to the sink makes a choice for the groups that follow. -/
theorem Layered.choice_of_chain (q : List Edge) {e t : Edge} {i : ℕ} {x : EdgeCandidate E C}
    (hi : i < route.length) (hx : (arcOf ν e).2 = .cand i x.e)
    (hchain : (e :: q).IsChain (candNetwork S st.cgraph).step)
    (hlast : (e :: q).getLast? = some t) (ht : (arcOf ν t).2 = .sink) :
    ∃ ys, Choice ys (route.drop (i + 1)) ∧ q.map (arcOf ν) = choiceArcs i (x :: ys) := by
  induction q generalizing e i x with
  | nil =>
    rw [List.getLast?_singleton] at hlast
    rw [← Option.some.inj hlast, hx] at ht
    cases ht
  | cons e' q ih =>
    rw [List.isChain_cons_cons, candNetwork_step] at hchain
    obtain ⟨⟨-, he', hfrom⟩, hchain⟩ := hchain
    have hstart : (arcOf ν e').1 = .cand i x.e := by
      rw [← hx]
      exact congrArg ν hfrom
    rw [List.getLast?_cons_cons] at hlast
    rcases h.arc_cases he' with ⟨y, -, harc⟩ | ⟨j, hj, x', -, y, hy, harc⟩ | ⟨y, -, harc⟩
    · rw [harc] at hstart
      cases hstart
    · rw [harc] at hstart
      obtain ⟨rfl, hxe⟩ := CandName.cand.inj hstart
      have hj' : j + 1 < route.length := by omega
      obtain ⟨ys, hys, hmap⟩ := ih hj' (by rw [harc]; rfl) hchain hlast
      refine ⟨y :: ys, ?_, ?_⟩
      · rw [List.drop_eq_getElem_cons hj']
        rw [group, List.getD_eq_getElem?_getD, List.getElem?_eq_getElem hj'] at hy
        exact List.Forall₂.cons hy hys
      · rw [List.map_cons, hmap, harc, choiceArcs, hxe]
    · rw [harc] at hstart
      obtain ⟨rfl, hxe⟩ := CandName.cand.inj hstart
      cases q with
      | nil =>
        refine ⟨[], ?_, ?_⟩
        · rw [List.drop_eq_nil_of_le (by omega)]
          exact List.Forall₂.nil
        · rw [List.map_singleton, harc, choiceArcs, hxe]
      | cons e'' q =>
        rw [List.isChain_cons_cons, candNetwork_step] at hchain
        have hsink : (arcOf ν e'').1 = .sink := by
          have hto : (arcOf ν e').2 = .sink := by rw [harc]; rfl
          rw [← hto]
          exact congrArg ν hchain.1.2.2
        rcases h.arc_cases hchain.1.2.1 with ⟨y', -, harc'⟩ | ⟨j, -, x', -, y', -, harc'⟩ |
          ⟨y', -, harc'⟩
        · rw [harc'] at hsink
          cases hsink
        · rw [harc'] at hsink
          cases hsink
        · rw [harc'] at hsink
          cases hsink

theorem Layered.choice_of_path (hlen : 2 ≤ route.length)
    {p : List Edge} {t : Edge} (hp : IsPath (candNetwork S st.cgraph) p t)
    (ht : t.getTo = sink) : ∃ cs, Choice cs route ∧ p.map (arcOf ν) = solutionArcs cs := by
  obtain ⟨s, hhead, hs⟩ := hp.head
  rw [candNetwork_source] at hs
  cases p with
  | nil => simp at hhead
  | cons e q =>
    obtain rfl : e = s := by simpa using hhead
    have hfrom : (arcOf ν e).1 = .source := by
      rw [← h.building.source.2]
      exact congrArg ν hs.2
    have hsink : (arcOf ν t).2 = .sink := by
      rw [← h.building.sink.2]
      exact congrArg ν ht
    rcases h.arc_cases hs.1 with ⟨x, hx, harc⟩ | ⟨j, -, x, -, y, -, harc⟩ | ⟨y, -, harc⟩
    · have hzero : 0 < route.length := by omega
      have hcand : (arcOf ν e).2 = .cand 0 x.e := by rw [harc]; rfl
      obtain ⟨ys, hys, hmap⟩ := h.choice_of_chain q hzero hcand hp.chain hp.last hsink
      refine ⟨x :: ys, ?_, ?_⟩
      · rw [group, List.getD_eq_getElem?_getD, List.getElem?_eq_getElem hzero] at hx
        have hroute := List.drop_eq_getElem_cons hzero
        rw [List.drop_zero] at hroute
        rw [hroute]
        exact List.Forall₂.cons hx hys
      · rw [List.map_cons, harc, hmap]
        rfl
    · rw [harc] at hfrom
      cases hfrom
    · rw [harc] at hfrom
      cases hfrom

omit h [Field C] [LinearOrder C] in
theorem Choice.drop_cons {i : ℕ} {x : EdgeCandidate E C} {cs : List (EdgeCandidate E C)}
    (hcs : Choice (x :: cs) (route.drop i)) :
    i < route.length ∧ x ∈ group route i ∧ Choice cs (route.drop (i + 1)) := by
  have hi : i < route.length := by
    by_contra hle
    rw [List.drop_eq_nil_of_le (by omega)] at hcs
    cases hcs
  rw [List.drop_eq_getElem_cons hi] at hcs
  obtain ⟨hx, hcs⟩ := List.forall₂_cons.1 hcs
  refine ⟨hi, ?_, hcs⟩
  rw [group, List.getD_eq_getElem?_getD, List.getElem?_eq_getElem hi]
  exact hx

omit h [Field C] [LinearOrder C] in
theorem Choice.choiceArcs {i : ℕ} {x : EdgeCandidate E C} {cs : List (EdgeCandidate E C)}
    (hlen : 2 ≤ route.length) (hcs : Choice (x :: cs) (route.drop i)) :
    (∀ p ∈ choiceArcs i (x :: cs), p ∈ arcsTo route (route.length - 1)) ∧
    (∀ a : Arc E, a.2 = .cand i x.e → (a :: Router.choiceArcs i (x :: cs)).IsChain fun a b => a.2 = b.1) ∧
    ∃ y, (Router.choiceArcs i (x :: cs)).getLast? = some (sinkArc (route.length - 1) y) := by
  induction cs generalizing i x with
  | nil =>
    obtain ⟨hi, hx, hcs⟩ := hcs.drop_cons
    have hlast : i = route.length - 1 := by
      have hle := List.drop_eq_nil_iff.1 (List.forall₂_nil_left_iff.1 hcs)
      omega
    have hmem : sinkArc i x.e ∈ arcsTo route (route.length - 1) := by
      right
      right
      rw [← hlast]
      refine ⟨?_, x, hx, rfl⟩
      rw [decide_eq_true_eq]
      omega
    refine ⟨?_, ?_, ⟨x.e, by rw [← hlast]; rfl⟩⟩
    · intro p hp
      rw [List.mem_singleton.1 hp]
      exact hmem
    · intro a ha
      exact List.isChain_pair.2 ha
  | cons y cs ih =>
    obtain ⟨hi, hx, hcs⟩ := hcs.drop_cons
    obtain ⟨hi', hy, -⟩ := hcs.drop_cons
    obtain ⟨hmem, hchain, z, hz⟩ := ih hcs
    refine ⟨?_, ?_, ⟨z, ?_⟩⟩
    · intro p hp
      cases List.mem_cons.1 hp with
      | inl hp => exact Or.inr (Or.inl ⟨i, by omega, x, hx, y, hy, hp⟩)
      | inr hp => exact hmem p hp
    · intro a ha
      exact List.isChain_cons_cons.2 ⟨ha, hchain _ rfl⟩
    · rw [Router.choiceArcs, List.getLast?_cons, hz]
      rfl

theorem Layered.lift (l : List (Arc E)) (hl : ∀ a ∈ l, a ∈ arcsTo route (route.length - 1)) :
    ∃ p : List Edge, p.map (arcOf ν) = l ∧ ∀ e ∈ p, e ∈ st.cgraph.edges := by
  induction l with
  | nil => exact ⟨[], rfl, by simp⟩
  | cons a l ih =>
    obtain ⟨e, he, harc⟩ := h.building.drawn.edge a (hl a List.mem_cons_self)
    obtain ⟨p, hp, hmem⟩ := ih fun b hb => hl b (List.mem_cons_of_mem _ hb)
    exact ⟨e :: p, by rw [List.map_cons, harc, hp], List.forall_mem_cons.2 ⟨he, hmem⟩⟩

theorem Layered.path_of_choice (hlen : 2 ≤ route.length)
    {cs : List (EdgeCandidate E C)} (hcs : Choice cs route) :
    ∃ p t, IsPath (candNetwork S st.cgraph) p t ∧ t ∈ st.cgraph.edges ∧ t.getTo = sink ∧
      p.map (arcOf ν) = solutionArcs cs := by
  cases cs with
  | nil =>
    have hnil := List.forall₂_nil_left_iff.1 hcs
    rw [hnil] at hlen
    simp at hlen
  | cons x cs =>
    rw [← List.drop_zero (l := route)] at hcs
    obtain ⟨hmem, hchain, y, hlast⟩ := Choice.choiceArcs hlen hcs
    have hfirst : sourceArc x.e ∈ arcsTo route (route.length - 1) :=
      Or.inl ⟨x, hcs.drop_cons.2.1, rfl⟩
    obtain ⟨p, hp, hedges⟩ := h.lift (solutionArcs (x :: cs)) (List.forall_mem_cons.2 ⟨hfirst, hmem⟩)
    have hpchain : p.IsChain fun e e' => (arcOf ν e).2 = (arcOf ν e').1 := by
      have hmap : (p.map (arcOf ν)).IsChain fun a b => a.2 = b.1 := by
        rw [hp]
        exact hchain _ rfl
      exact (List.isChain_map (arcOf ν)).1 hmap
    have hplast : (p.map (arcOf ν)).getLast? = some (sinkArc (route.length - 1) y) := by
      rw [hp]
      change (sourceArc x.e :: choiceArcs 0 (x :: cs)).getLast? = _
      rw [List.getLast?_cons, hlast]
      rfl
    rw [List.getLast?_map] at hplast
    obtain ⟨t, ht, htarc⟩ := Option.map_eq_some_iff.1 hplast
    have htmem := hedges t (List.mem_of_getLast? ht)
    have hinj := h.building.drawn.inj
    have hends := h.building.drawn.ends
    have htsink : t.getTo = sink := by
      apply hinj _ (hends t htmem).2 _ h.building.sink.1
      rw [h.building.sink.2]
      exact (Prod.mk.inj htarc).2
    refine ⟨p, t, ⟨?_, ?_, ht⟩, htmem, htsink, hp⟩
    · apply hpchain.imp_of_mem_imp
      intro e e' he he' harc
      rw [candNetwork_step]
      have he := hedges e he
      have he' := hedges e' he'
      exact ⟨he, he', (hinj _ (hends e he).2 _ (hends e' he').1 harc).symm⟩
    · cases p with
      | nil => simp at ht
      | cons e q =>
        refine ⟨e, rfl, ?_⟩
        rw [candNetwork_source]
        have he := hedges e List.mem_cons_self
        refine ⟨he, hinj _ (hends e he).1 _ h.building.source.1 ?_⟩
        have harc : arcOf ν e = sourceArc x.e := by
          rw [List.map_cons] at hp
          exact (List.cons.inj hp).1
        rw [h.building.source.2]
        exact (Prod.mk.inj harc).1

theorem Layered.choiceArcs_cost {i : ℕ} {x : EdgeCandidate E C} {cs : List (EdgeCandidate E C)}
    (hcs : Choice (x :: cs) (route.drop i)) :
    ((choiceArcs i (x :: cs)).map fun a => (pay a).cost).sum = hopsCost st.delivered i (x :: cs) := by
  induction cs generalizing i x with
  | nil =>
    rw [choiceArcs, List.map_singleton, List.sum_singleton, h.sinkPay]
    rfl
  | cons y cs ih =>
    obtain ⟨hi, hx, hcs⟩ := hcs.drop_cons
    obtain ⟨hi', hy, -⟩ := hcs.drop_cons
    rw [choiceArcs, List.map_cons, List.sum_cons, ih hcs, h.hopPay i (by omega) x hx y hy, hopsCost]
    rfl

theorem Layered.choiceArcs_hops [DecidableEq E] {i : ℕ} {x : EdgeCandidate E C}
    {cs : List (EdgeCandidate E C)}
    (hcs : Choice (x :: cs) (route.drop i)) :
    ((choiceArcs i (x :: cs)).filter fun a => a.1 ≠ .source ∧ a.2 ≠ .sink).map
      (fun a => edgeListHop (pay a)) = choiceHops S st.delivered i (x :: cs) := by
  induction cs generalizing i x with
  | nil => rfl
  | cons y cs ih =>
    obtain ⟨hi, hx, hcs⟩ := hcs.drop_cons
    obtain ⟨hi', hy, -⟩ := hcs.drop_cons
    have hkeep : ∀ l : List (Arc E), (hopArc i x.e y.e :: l).filter
        (fun a => a.1 ≠ .source ∧ a.2 ≠ .sink) =
          hopArc i x.e y.e :: l.filter fun a => a.1 ≠ .source ∧ a.2 ≠ .sink := by
      intro l
      apply List.filter_cons_of_pos
      simp [hopArc]
    rw [choiceArcs, hkeep, List.map_cons, ih hcs, h.hopPay i (by omega) x hx y hy, choiceHops]

theorem Layered.solution [DecidableEq E] {cs : List (EdgeCandidate E C)} (hlen : 2 ≤ route.length)
    (hcs : Choice cs route) :
    ((solutionArcs cs).map fun a => (pay a).cost).sum = choiceCost st.delivered cs ∧
    ((solutionArcs cs).filter fun a => a.1 ≠ .source ∧ a.2 ≠ .sink).map
      (fun a => edgeListHop (pay a)) = choiceHops S st.delivered 0 cs := by
  cases cs with
  | nil =>
    rw [List.forall₂_nil_left_iff.1 hcs] at hlen
    simp at hlen
  | cons x cs =>
    rw [← List.drop_zero (l := route)] at hcs
    have harcs : solutionArcs (x :: cs) = sourceArc x.e :: choiceArcs 0 (x :: cs) := rfl
    have hskip : (sourceArc x.e :: choiceArcs 0 (x :: cs)).filter
        (fun a => a.1 ≠ .source ∧ a.2 ≠ .sink) =
          (choiceArcs 0 (x :: cs)).filter fun a => a.1 ≠ .source ∧ a.2 ≠ .sink := by
      apply List.filter_cons_of_neg
      simp [sourceArc]
    constructor
    · rw [harcs, List.map_cons, List.sum_cons, h.choiceArcs_cost hcs,
        h.sourcePay x hcs.drop_cons.2.1]
      rfl
    · rw [harcs, hskip, h.choiceArcs_hops hcs]

theorem Layered.path_cost {p : List Edge} (hp : ∀ e ∈ p, e ∈ st.cgraph.edges) :
    pathCost (candNetwork S st.cgraph) p = ((p.map (arcOf ν)).map fun a => (pay a).cost).sum := by
  rw [candNetwork_pathCost, List.map_map]
  congr 1
  apply List.map_congr_left
  intro e he
  rw [h.building.drawn.pay e (hp e he)]
  rfl

theorem Layered.readHops [DecidableEq E] {res : List Edge}
    (hres : ∀ e ∈ res.reverse, e ∈ st.cgraph.edges) :
    readHops st.cgraph res = (((res.reverse.map (arcOf ν)).filter fun a =>
      a.1 ≠ .source ∧ a.2 ≠ .sink).map fun a => edgeListHop (pay a)) := by
  have hinj := h.building.drawn.inj
  have hends := h.building.drawn.ends
  rw [Router.readHops, List.filter_map, List.map_map]
  have hfilter : (res.reverse.filter fun e => decide (e.getFrom ≠ source ∧ e.getTo ≠ sink)) =
      res.reverse.filter ((fun a : Arc E => decide (a.1 ≠ .source ∧ a.2 ≠ .sink)) ∘ arcOf ν) := by
    apply List.filter_congr
    intro e he
    have he := hres e he
    apply decide_eq_decide.2
    have hfrom : e.getFrom = source ↔ (arcOf ν e).1 = .source := by
      rw [← h.building.source.2]
      exact ⟨congrArg ν, hinj _ (hends e he).1 _ h.building.source.1⟩
    have hto : e.getTo = sink ↔ (arcOf ν e).2 = .sink := by
      rw [← h.building.sink.2]
      exact ⟨congrArg ν, hinj _ (hends e he).2 _ h.building.sink.1⟩
    rw [ne_eq, ne_eq, hfrom, hto]
  rw [hfilter]
  apply List.map_congr_left
  intro e he
  have he := hres e (List.mem_of_mem_filter he)
  rw [h.building.drawn.pay e he]
  rfl

omit h in
theorem choiceHops_length (delivered : ℕ → E → HopResults E C) (i : ℕ)
    (cs : List (EdgeCandidate E C)) : (choiceHops S delivered i cs).length = cs.length - 1 := by
  induction cs generalizing i with
  | nil => rfl
  | cons x cs ih =>
    cases cs with
    | nil => rfl
    | cons y cs =>
      rw [choiceHops, List.length_cons, ih]
      rfl

omit h in
theorem choiceHops_getElem? (delivered : ℕ → E → HopResults E C) (i k : ℕ)
    {cs : List (EdgeCandidate E C)} {x y : EdgeCandidate E C} (hx : cs[k]? = some x)
    (hy : cs[k + 1]? = some y) :
    (choiceHops S delivered i cs)[k]? =
      some (edgeListHop (hopPayload S x.e y (delivered (i + k) x.e))) := by
  induction k generalizing i cs with
  | zero =>
    cases cs with
    | nil => simp at hx
    | cons x' cs =>
      cases cs with
      | nil => simp at hy
      | cons y' cs =>
        obtain rfl : x' = x := by simpa using hx
        obtain rfl : y' = y := by simpa using hy
        rfl
  | succ k ih =>
    cases cs with
    | nil => simp at hx
    | cons x' cs =>
      cases cs with
      | nil => simp at hx
      | cons y' cs =>
        rw [List.getElem?_cons_succ] at hx hy
        rw [choiceHops, List.getElem?_cons_succ, ih (i + 1) hx hy]
        have hi : i + 1 + k = i + (k + 1) := by omega
        rw [hi]

omit h in
theorem choiceHops_chain (delivered : ℕ → E → HopResults E C) (i : ℕ)
    (cs : List (EdgeCandidate E C)) :
    (choiceHops S delivered i cs).IsChain fun h h' => h.end_ = h'.start := by
  induction cs generalizing i with
  | nil => exact List.isChain_nil
  | cons x cs ih =>
    cases cs with
    | nil => exact List.isChain_nil
    | cons y cs =>
      cases cs with
      | nil => exact List.isChain_singleton _
      | cons z cs => exact List.isChain_cons_cons.2 ⟨rfl, ih (i + 1)⟩

omit h [Field C] [LinearOrder C] in
theorem exists_choice (hwf : WellFormed route) : ∃ cs, Choice cs route := by
  induction route with
  | nil => exact ⟨[], List.Forall₂.nil⟩
  | cons b route ih =>
    obtain ⟨cs, hcs⟩ := ih fun b' hb' => hwf b' (List.mem_cons_of_mem _ hb')
    obtain ⟨c, hc⟩ := List.exists_mem_of_ne_nil b (hwf b List.mem_cons_self).1
    exact ⟨c :: cs, List.Forall₂.cons hc hcs⟩

end paths

section optimal
variable {N E C : Type*} [Field C] [LinearOrder C] [IsStrictOrderedRing C] {S : Setting N E C}
  {thread : ℕ} {rAttrs : RoutingAttributes} {route : EdgeCandidateRoute E C} {ν : ℕ → CandName E}
  {pay : Arc E → CandPayload N E C} {st : RouteState N E C}

/-- No penalty and no hop that was delivered costs less than nothing. -/
structure NonnegCosts (route : EdgeCandidateRoute E C)
    (delivered : ℕ → E → HopResults E C) : Prop where
  pen : ∀ b ∈ route, ∀ c ∈ b, 0 ≤ c.pen
  hop : ∀ i < route.length - 1, ∀ x ∈ group route i, ∀ y ∈ group route (i + 1),
    0 ≤ (delivered i x.e).costs y.e

omit [Field C] [LinearOrder C] [IsStrictOrderedRing C] in
theorem mem_route_of_group {i : ℕ} {x : EdgeCandidate E C} (hx : x ∈ group route i) :
    group route i ∈ route := by
  refine group_mem (Nat.lt_of_not_le fun hle => ?_)
  rw [group, List.getD_eq_getElem?_getD, List.getElem?_eq_none hle] at hx
  cases hx

theorem Layered.consistent (h : Layered S route (route.length - 1) ν pay st)
    (hnonneg : NonnegCosts route st.delivered) (source : Edge → Prop) :
    Consistent (EDijkstra.network (searchGraph st.cgraph) (combCostFunc st.cgraph) source)
      fun _ => 0 := by
  have hcost : ∀ e ∈ st.cgraph.edges, 0 ≤ (st.cgraph.pl e).cost := by
    intro e he
    rw [h.building.drawn.pay e he]
    rcases h.arc_cases he with ⟨x, hx, harc⟩ | ⟨j, hj, x, hx, y, hy, harc⟩ | ⟨y, hy, harc⟩
    · rw [harc, h.sourcePay x hx]
      exact hnonneg.pen _ (mem_route_of_group hx) x hx
    · rw [harc, h.hopPay j hj x hx y hy]
      exact add_nonneg (hnonneg.pen _ (mem_route_of_group hy) y hy) (hnonneg.hop j hj x hx y hy)
    · rw [harc, h.sinkPay]
      exact le_refl _
  have hstep : ∀ e e', (EDijkstra.network (searchGraph st.cgraph) (combCostFunc st.cgraph)
      source).step e e' → 0 ≤ (st.cgraph.pl e').cost := by
    intro e e' hs
    exact hcost e' (DirGraph.mem_getAdjListOut.1 hs.2).1
  refine ⟨fun _ => hstep _ _, ?_⟩
  intro e e' _ _ _ hs
  rw [add_zero]
  exact hstep e e' hs

variable [DecidableEq E]

theorem Layered.solve_spec (h : Layered S route (route.length - 1) ν pay st)
    (hwf : WellFormed route) (hlen : 2 ≤ route.length)
    (hnonneg : NonnegCosts route st.delivered) :
    ∃ cs, Choice cs route ∧
      Router.readHops st.cgraph (solve S st.cgraph) = choiceHops S st.delivered 0 cs ∧
      ∀ cs', Choice cs' route → choiceCost st.delivered cs ≤ choiceCost st.delivered cs' := by
  have hin : ∀ e ∈ S.candSet.toList (st.cgraph.getAdjListOut source),
      e ∈ (searchGraph st.cgraph).edges := by
    intro e he
    exact (DirGraph.mem_getAdjListOut.1 (S.candSet.mem.1 he)).1
  have hlt : ∀ e ∈ S.candSet.toList (st.cgraph.getAdjListOut source),
      ((combCostFunc st.cgraph).start e : WithTop C) < (combCostFunc st.cgraph).inf := by
    intro e _
    exact WithTop.coe_lt_top _
  have hto : ∀ {t : Edge}, t ∈ S.candSet.toList (st.cgraph.getAdjListIn sink) ↔
      t ∈ st.cgraph.edges ∧ t.getTo = sink := by
    intro t
    rw [S.candSet.mem, DirGraph.mem_getAdjListIn]
  obtain ⟨cs₀, hcs₀⟩ := exists_choice hwf
  obtain ⟨p₀, t₀, hp₀, ht₀, hsink₀, -⟩ := h.path_of_choice hlen hcs₀
  obtain ⟨res, hres⟩ : ∃ res, res = EDijkstra.shortestPathSet S.candPq (searchGraph st.cgraph)
      (combCostFunc st.cgraph) (fun _ _ => 0) (S.candSet.toList (st.cgraph.getAdjListIn sink))
      (S.candSet.toList (st.cgraph.getAdjListOut source)) := ⟨_, rfl⟩
  have hsolve : solve S st.cgraph = res.2 := by rw [hres, solve]
  rw [hsolve]
  cases EDijkstra.shortestPathSet_spec S.candPq (by exact h.consistent hnonneg _) hin hlt
    (candNetwork S st.cgraph) rfl res hres with
  | inr hnone =>
    have htop := hnone.2 t₀ (hto.2 ⟨ht₀, hsink₀⟩) _ _ hp₀.walk
    exact absurd htop (not_le_of_gt (WithTop.coe_lt_top _))
  | inl hfound =>
    obtain ⟨t, ht, d, -, -, hwalk, hbest⟩ := hfound
    obtain ⟨htmem, htsink⟩ := hto.1 ht
    obtain ⟨hpath, hcost⟩ := hwalk.isPath
    obtain ⟨cs, hcs, harcs⟩ := h.choice_of_path hlen hpath htsink
    have hedges := candNetwork_path_edges hpath
    have hsol := h.solution hlen hcs
    refine ⟨cs, hcs, ?_, ?_⟩
    · rw [h.readHops hedges, ← hsol.2, ← harcs]
    · intro cs' hcs'
      obtain ⟨p', t', hp', ht', hsink', harcs'⟩ := h.path_of_choice hlen hcs'
      have hle := hbest t' (hto.2 ⟨ht', hsink'⟩) rfl _ _ hp'.walk
      rw [← hcost, h.path_cost hedges, h.path_cost (candNetwork_path_edges hp'), harcs, harcs', hsol.1,
        (h.solution hlen hcs').1] at hle
      exact hle

variable [DecidableEq N]

/-- `route` takes the cheapest choice of one candidate per group. -/
theorem route_optimal (S : Setting N E C) (thread : ℕ) (rAttrs : RoutingAttributes)
    (cands : EdgeCandidateRoute E C) (caches : Caches E C) (hlen : 2 ≤ cands.length)
    (hwf : WellFormed cands)
    (hnonneg : NonnegCosts cands (routeGraph S thread rAttrs cands caches).delivered) :
    let delivered := (routeGraph S thread rAttrs cands caches).delivered
    let ret := (Router.route S thread rAttrs cands caches).1
    ret.length = cands.length - 1 ∧ ret.IsChain (fun h h' => h.end_ = h'.start) ∧
    ∃ cs, Choice cs cands ∧
      (∀ k x y, cs[k]? = some x → cs[k + 1]? = some y →
        ret[k]? = some
          { edges := if S.rOpts.popReachEdge then ((delivered k x.e).edges y.e).tail
              else (delivered k x.e).edges y.e
            cost := y.pen + (delivered k x.e).costs y.e
            start := some (S.g.getFrom x.e)
            end_ := some (S.g.getFrom y.e) }) ∧
      ∀ cs', Choice cs' cands → choiceCost delivered cs ≤ choiceCost delivered cs' := by
  intro delivered ret
  obtain ⟨ν, pay, h⟩ := routeGraph_layered S thread rAttrs hwf hlen caches
  obtain ⟨cs, hcs, hhops, hbest⟩ := h.solve_spec hwf hlen hnonneg
  have hcount : (choiceHops S delivered 0 cs).length = cands.length - 1 := by
    rw [choiceHops_length, hcs.length_eq]
  have hret : ret = choiceHops S delivered 0 cs := by
    change (Router.route S thread rAttrs cands caches).1 = _
    rw [Router.route, if_neg (by omega)]
    dsimp only
    rw [hhops, hcount, Nat.sub_self, List.replicate_zero, List.append_nil]
  rw [hret]
  refine ⟨hcount, choiceHops_chain delivered 0 cs, cs, hcs, ?_, hbest⟩
  intro k x y hx hy
  rw [choiceHops_getElem? delivered 0 k hx hy, Nat.zero_add]
  rfl

end optimal

/-- An edge there, the edge back, an edge that goes on from the same node and one behind it. -/
def fork : TransitGraph (Fin 4) (Fin 4) ℚ where
  toDirGraph := .ofEdges [0, 1, 2, 3] ![0, 1, 0, 2] ![1, 0, 2, 3]
  geom n := (((n : ℕ) : ℚ), 0)
  si _ := none
  component _ := 0
  minEdgeLvl _ := 0
  level _ := 0
  length _ := 2
  oneWay _ := 0
  is_restricted _ := false
  lines _ := []

def forkSetting (noSelfHops caching : Bool) : Setting (Fin 4) (Fin 4) ℚ where
  g := fork
  rOpts := ⟨0, 0, 0, 0, 0, 0, 0, 0, fun _ => 1, true, noSelfHops⟩
  may _ _ _ := true
  simi _ _ := 0
  webMercMeterDist a b := |a.1 - b.1|
  innerProd _ _ _ := 0
  caching := caching
  pq := EDijkstra.routeQueue
  edgeSet := .dedup
  candPq := EDijkstra.routeQueue
  candSet := .dedup

def forkCands : EdgeCandidateRoute (Fin 4) ℚ := [[⟨0, 2⟩, ⟨1, 1⟩], [⟨2, 0⟩]]

def forkBehind : EdgeCandidateRoute (Fin 4) ℚ := [[⟨0, 0⟩, ⟨3, 0⟩], [⟨2, 0⟩]]

theorem route_optimal_fork :
    let S := forkSetting true true
    let noTrip : RoutingAttributes := ⟨"", "", ""⟩
    let delivered := (routeGraph S 0 noTrip forkCands fun _ _ _ _ => none).delivered
    let ret := (route S 0 noTrip forkCands fun _ _ _ _ => none).1
    ret.length = forkCands.length - 1 ∧ ret.IsChain (fun h h' => h.end_ = h'.start) ∧
    ∃ cs, Choice cs forkCands ∧
      (∀ k x y, cs[k]? = some x → cs[k + 1]? = some y →
        ret[k]? = some
          { edges := if S.rOpts.popReachEdge then ((delivered k x.e).edges y.e).tail
              else (delivered k x.e).edges y.e
            cost := y.pen + (delivered k x.e).costs y.e
            start := some (S.g.getFrom x.e)
            end_ := some (S.g.getFrom y.e) }) ∧
      ∀ cs', Choice cs' forkCands → choiceCost delivered cs ≤ choiceCost delivered cs' :=
  route_optimal (forkSetting true true) 0 ⟨"", "", ""⟩ forkCands _ (by decide)
    (by unfold WellFormed; decide) ⟨by decide +kernel, by decide +kernel⟩

end Pfaedle.Router

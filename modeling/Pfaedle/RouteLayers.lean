import Pfaedle.RouteGraph

set_option autoImplicit false

/-!
# The layers of a candidate graph

One round of the outer loop of `route` draws the arcs between two groups. After the last one the
graph holds an arc for every choice that a solution makes.
-/
namespace Pfaedle.Router
open DirGraphs NamedGraph

section layers
variable {E C : Type*}

def group (route : EdgeCandidateRoute E C) (i : ℕ) : EdgeCandidateGroup E C := route.getD i []

def sourceArc (x : E) : Arc E := (.source, .cand 0 x)

def sourceArcs (b : EdgeCandidateGroup E C) : Set (Arc E) := {p | ∃ x ∈ b, p = sourceArc x.e}

def namesTo (route : EdgeCandidateRoute E C) (i : ℕ) : Set (CandName E) :=
  {l | l = .source ∨ l = .sink ∨ ∃ j ≤ i, l ∈ groupNames j (group route j)}

def arcsTo (route : EdgeCandidateRoute E C) (i : ℕ) : Set (Arc E) :=
  {p | p ∈ sourceArcs (group route 0) ∨
    (∃ j < i, ∃ x ∈ group route j, p ∈ fromArcs j x.e (group route (j + 1))) ∨
    p ∈ sinkArcs (decide (i + 1 = route.length ∧ 0 < i)) i (group route i)}

theorem group_of_drop {route : EdgeCandidateRoute E C} {i : ℕ} {a : EdgeCandidateGroup E C}
    {rest : EdgeCandidateRoute E C} (h : route.drop i = a :: rest) :
    group route i = a ∧ route.drop (i + 1) = rest ∧ i < route.length := by
  have hlt : i < route.length := by
    by_contra hle
    rw [List.drop_eq_nil_of_le (by omega)] at h
    simp at h
  rw [List.drop_eq_getElem_cons hlt] at h
  obtain ⟨ha, hrest⟩ := List.cons.inj h
  refine ⟨?_, hrest, hlt⟩
  rw [group, List.getD_eq_getElem?_getD, List.getElem?_eq_getElem hlt]
  exact ha

theorem group_mem {route : EdgeCandidateRoute E C} {i : ℕ} (hi : i < route.length) :
    group route i ∈ route := by
  rw [group, List.getD_eq_getElem?_getD, List.getElem?_eq_getElem hi]
  exact List.getElem_mem hi

/-- No group is empty, and no edge occurs twice in a group. -/
def WellFormed (route : EdgeCandidateRoute E C) : Prop :=
  ∀ b ∈ route, b ≠ [] ∧ (b.map EdgeCandidate.e).Nodup

end layers

section build
variable {N E C : Type*} [DecidableEq E] [Field C] [LinearOrder C] {S : Setting N E C} {thread : ℕ}
  {rAttrs : RoutingAttributes} {route : EdgeCandidateRoute E C} {ν : ℕ → CandName E}
  {names : Set (CandName E)} {arcs : Set (Arc E)} {pay : Arc E → CandPayload N E C}
  {st : RouteState N E C}

structure Layered (S : Setting N E C) (route : EdgeCandidateRoute E C) (i : ℕ)
    (ν : ℕ → CandName E) (pay : Arc E → CandPayload N E C) (st : RouteState N E C) : Prop where
  building : Building ν (namesTo route i) (arcsTo route i) pay st.cgraph
  nodes : Indexed ν i st.nodes st.cgraph
  sourcePay : ∀ x ∈ group route 0,
    pay (sourceArc x.e) = { (defaultPayload : CandPayload N E C) with cost := x.pen }
  hopPay : ∀ j < i, ∀ x ∈ group route j, ∀ y ∈ group route (j + 1),
    pay (hopArc j x.e y.e) = hopPayload S x.e y (st.delivered j x.e)
  sinkPay : ∀ j e, pay (sinkArc j e) = defaultPayload

theorem addSourceEdge_spec (h : Building ν names arcs pay st.cgraph)
    (hidx : Indexed ν 0 st.nodes st.cgraph)
    {c : EdgeCandidate E C} (hnone : st.nodes c.e = none) :
    ∃ ν', Building ν' (insert (.cand 0 c.e) names) (insert (sourceArc c.e) arcs)
        (Function.update pay (sourceArc c.e) { pay (sourceArc c.e) with cost := c.pen })
        (addSourceEdge S source st c).cgraph ∧
      Indexed ν' 0 (addSourceEdge S source st c).nodes (addSourceEdge S source st c).cgraph ∧
      (addSourceEdge S source st c).nodes =
        Function.update st.nodes c.e (some st.cgraph.nextNd) := by
  obtain ⟨ν', hext, hb, hidx', hname⟩ := h.addNd hidx hnone (some (S.g.getFrom c.e))
  obtain ⟨hb', hmem, harc⟩ := hb.addEdg hb.source.1 (Nat.lt_succ_self _)
  rw [hb.source.2, hname] at hb' harc
  have hnext := DirGraph.addEdg_nextNd (st.cgraph.addNd (some (S.g.getFrom c.e))).2 source
    st.cgraph.nextNd (defaultPayload : CandPayload N E C)
  have hstep : addSourceEdge S source st c =
      let eg := (st.cgraph.addNd (some (S.g.getFrom c.e))).2.addEdg source st.cgraph.nextNd
        defaultPayload
      { st with
        cgraph := eg.2.setPl eg.1 { eg.2.pl eg.1 with cost := c.pen }
        nodes := Function.update st.nodes c.e (some st.cgraph.nextNd) } := rfl
  generalize (st.cgraph.addNd (some (S.g.getFrom c.e))).2.addEdg source st.cgraph.nextNd
    (defaultPayload : CandPayload N E C) = eg at hb' hmem harc hnext hstep
  obtain ⟨e, g₂⟩ := eg
  dsimp only at hb' hmem harc hnext hstep
  have hset := hb'.setPl hmem { g₂.pl e with cost := c.pen }
  rw [harc, hb'.drawn.pay e hmem, harc] at hset
  rw [hstep]
  refine ⟨ν', ?_, ?_, rfl⟩
  · rw [hb'.drawn.pay e hmem, harc]
    exact hset
  · intro e' n
    change Function.update st.nodes c.e (some st.cgraph.nextNd) e' = some n ↔ n < g₂.nextNd ∧ _
    rw [hidx' e' n, hnext]

theorem addSourceEdges_spec (b : EdgeCandidateGroup E C) (hnodup : (b.map EdgeCandidate.e).Nodup)
    (h : Building ν names arcs pay st.cgraph) (hidx : Indexed ν 0 st.nodes st.cgraph) (hnone : ∀ c ∈ b, st.nodes c.e = none) :
    ∃ ν' pay', Building ν' (names ∪ groupNames 0 b) (arcs ∪ sourceArcs b) pay'
        (b.foldl (addSourceEdge S source) st).cgraph ∧
      Indexed ν' 0 (b.foldl (addSourceEdge S source) st).nodes
        (b.foldl (addSourceEdge S source) st).cgraph ∧
      (∀ p ∉ sourceArcs b, pay' p = pay p) ∧
      ∀ x ∈ b, pay' (sourceArc x.e) = { pay (sourceArc x.e) with cost := x.pen } := by
  induction b generalizing ν names arcs pay st with
  | nil =>
    refine ⟨ν, pay, ?_, hidx, fun _ _ => rfl, by simp⟩
    have hnames : names ∪ groupNames 0 ([] : EdgeCandidateGroup E C) = names := by
      ext l
      simp [groupNames]
    have harcs : arcs ∪ sourceArcs ([] : EdgeCandidateGroup E C) = arcs := by
      ext p
      simp [sourceArcs]
    rw [hnames, harcs]
    exact h
  | cons c b ih =>
    rw [List.map_cons, List.nodup_cons] at hnodup
    obtain ⟨ν₁, hb₁, hidx₁, hnodes₁⟩ :=
      addSourceEdge_spec (S := S) h hidx (hnone c List.mem_cons_self)
    have hnone' : ∀ c' ∈ b, (addSourceEdge S source st c).nodes c'.e = none := by
      intro c' hc'
      have hne : c'.e ≠ c.e := fun he => hnodup.1 (he ▸ List.mem_map_of_mem hc')
      rw [hnodes₁, Function.update_of_ne hne]
      exact hnone c' (List.mem_cons_of_mem _ hc')
    obtain ⟨ν', pay', hb', hidx', hframe, hpay⟩ := ih hnodup.2 hb₁ hidx₁ hnone'
    have hsets : sourceArcs (c :: b) = insert (sourceArc c.e) (sourceArcs b) := by
      ext p
      simp [sourceArcs]
    have hother : ∀ x ∈ b, sourceArc x.e ≠ sourceArc c.e := by
      intro x hx he
      have he := (CandName.cand.inj (Prod.mk.inj he).2).2
      exact hnodup.1 (he ▸ List.mem_map_of_mem hx)
    rw [List.foldl_cons]
    refine ⟨ν', pay', ?_, hidx', ?_, ?_⟩
    · rw [groupNames_cons, hsets, Set.union_insert, Set.union_insert, ← Set.insert_union,
        ← Set.insert_union]
      exact hb'
    · intro p hp
      rw [hsets, Set.mem_insert_iff, not_or] at hp
      rw [hframe p hp.2, Function.update_of_ne hp.1]
    · intro x hx
      cases List.mem_cons.1 hx with
      | inl hx =>
        have hnot : sourceArc x.e ∉ sourceArcs b := by
          rintro ⟨y, hy, he⟩
          rw [hx] at he
          exact hother y hy he.symm
        rw [hframe _ hnot, hx, Function.update_self]
      | inr hx => rw [hpay x hx, Function.update_of_ne (hother x hx)]

section
omit [DecidableEq E] [Field C] [LinearOrder C]

theorem namesTo_succ (route : EdgeCandidateRoute E C) (i : ℕ) :
    namesTo route (i + 1) = namesTo route i ∪ groupNames (i + 1) (group route (i + 1)) := by
  ext l
  simp only [namesTo, Set.mem_union, Set.mem_ofPred_eq]
  constructor
  · rintro (hl | hl | ⟨j, hj, hl⟩)
    · exact Or.inl (Or.inl hl)
    · exact Or.inl (Or.inr (Or.inl hl))
    · by_cases hji : j = i + 1
      · rw [hji] at hl
        exact Or.inr hl
      · exact Or.inl (Or.inr (Or.inr ⟨j, by omega, hl⟩))
  · rintro ((hl | hl | ⟨j, hj, hl⟩) | hl)
    · exact Or.inl hl
    · exact Or.inr (Or.inl hl)
    · exact Or.inr (Or.inr ⟨j, by omega, hl⟩)
    · exact Or.inr (Or.inr ⟨i + 1, Nat.le_refl _, hl⟩)

theorem mem_arcsTo_succ {i : ℕ} (hi : i + 1 < route.length) (p : Arc E) :
    p ∈ arcsTo route (i + 1) ↔ p ∈ arcsTo route i ∨
      (∃ x ∈ group route i, p ∈ fromArcs i x.e (group route (i + 1))) ∨
      p ∈ sinkArcs (decide (i + 2 = route.length)) (i + 1) (group route (i + 1)) := by
  have hlast : decide (i + 1 + 1 = route.length ∧ 0 < i + 1) = decide (i + 2 = route.length) := by
    rw [decide_eq_decide]
    omega
  have hnot : p ∉ sinkArcs (decide (i + 1 = route.length ∧ 0 < i)) i (group route i) := by
    rintro ⟨hc, -⟩
    rw [decide_eq_true_eq] at hc
    omega
  simp only [arcsTo, Set.mem_ofPred_eq, hlast]
  constructor
  · rintro (hp | ⟨j, hj, hp⟩ | hp)
    · exact Or.inl (Or.inl hp)
    · by_cases hji : j = i
      · rw [hji] at hp
        exact Or.inr (Or.inl hp)
      · exact Or.inl (Or.inr (Or.inl ⟨j, by omega, hp⟩))
    · exact Or.inr (Or.inr hp)
  · rintro ((hp | ⟨j, hj, hp⟩ | hp) | hp | hp)
    · exact Or.inl hp
    · exact Or.inr (Or.inl ⟨j, by omega, hp⟩)
    · exact absurd hp hnot
    · exact Or.inr (Or.inl ⟨i, by omega, hp⟩)
    · exact Or.inr (Or.inr hp)

theorem cand_not_mem_namesTo {i j : ℕ} (hij : i < j) (e : E) :
    CandName.cand j e ∉ namesTo route i := by
  rintro (hl | hl | ⟨k, hk, y, -, hl⟩)
  · cases hl
  · cases hl
  · have := (CandName.cand.inj hl).1
    omega

end

omit [DecidableEq E] in
theorem Layered.hopState {i : ℕ} (h : Layered S route i ν pay st) (caches : Caches E C) :
    HopState i ν (namesTo route i) (arcsTo route i) pay
      { st with
        caches
        nextNodes := fun _ => none } where
  building := h.building
  nodes := h.nodes
  next e n := by
    constructor
    · intro hc
      simp at hc
    · intro hc
      have hmem := h.building.drawn.named n hc.1
      rw [hc.2] at hmem
      exact absurd hmem (cand_not_mem_namesTo (Nat.lt_succ_self i) e)

omit [DecidableEq E] in
/-- A round writes to none of the arcs that do not start in its group, or lead to the sink. -/
theorem HopsWritten.frame_arc {i : ℕ} {xs : List E} {b : EdgeCandidateGroup E C}
    {pay' : Arc E → CandPayload N E C} {st' : RouteState N E C}
    (h : HopsWritten S i xs b pay pay' st st') {p : Arc E}
    (hp : p.1 = .source ∨ p.2 = .sink ∨ ∃ j x, j ≠ i ∧ p.1 = .cand j x) : pay' p = pay p := by
  apply h.frame
  rintro x - ⟨y, -, he⟩
  rw [he] at hp
  rcases hp with hp | hp | ⟨j, x', hj, hp⟩
  · cases hp
  · cases hp
  · exact hj (CandName.cand.inj hp).1.symm

omit [DecidableEq E] [Field C] in
theorem exists_edgeSet_group {q : E → Prop} {i : ℕ} :
    (∃ x ∈ S.edgeSet.toList ((group route i).map EdgeCandidate.e), q x) ↔
      ∃ x ∈ group route i, q x.e := by
  simp only [S.edgeSet.mem, List.mem_map]
  constructor
  · rintro ⟨-, ⟨x, hx, rfl⟩, hq⟩
    exact ⟨x, hx, hq⟩
  · rintro ⟨x, hx, hq⟩
    exact ⟨x.e, ⟨x, hx, rfl⟩, hq⟩

variable [DecidableEq N]

theorem Layered.hop (thread : ℕ) (rAttrs : RoutingAttributes) {i : ℕ}
    (h : Layered S route i ν pay st) (hwf : WellFormed route)
    (hi : i + 1 < route.length) (caches : Caches E C) (maxD : C) :
    let st' := (S.edgeSet.toList ((group route i).map EdgeCandidate.e)).foldl
      (routeFrom S thread rAttrs i (decide (i + 2 = route.length)) sink (group route i)
        (group route (i + 1)) maxD)
      { st with
        caches
        nextNodes := fun _ => none }
    ∃ ν' pay', Layered S route (i + 1) ν' pay'
      { st' with
        nodes := st'.nextNodes
        nextNodes := st'.nodes } := by
  intro st'
  obtain ⟨hne, -⟩ := hwf _ (group_mem (Nat.lt_of_succ_lt hi))
  obtain ⟨-, hnodup⟩ := hwf _ (group_mem hi)
  have hmem : ∀ x ∈ S.edgeSet.toList ((group route i).map EdgeCandidate.e),
      CandName.cand i x ∈ namesTo route i := by
    intro x hx
    obtain ⟨y, hy, he⟩ := List.mem_map.1 (S.edgeSet.mem.1 hx)
    exact Or.inr (Or.inr ⟨i, Nat.le_refl i, y, hy, by rw [he]⟩)
  obtain ⟨ν', names', arcs', pay', hst', hwritten, hnames, harcs⟩ :
      ∃ ν' names' arcs' pay', HopState i ν' names' arcs' pay' st' ∧
        HopsWritten S i _ (group route (i + 1)) pay pay' _ st' ∧ _ ∧ _ :=
    routeFroms_spec _ (S.edgeSet.nodup _) (h.hopState caches) hmem hnodup _
  have hfroms : S.edgeSet.toList ((group route i).map EdgeCandidate.e) ≠ [] := by
    obtain ⟨x, hx⟩ := List.exists_mem_of_ne_nil _ hne
    exact List.ne_nil_of_mem (S.edgeSet.mem.2 (List.mem_map_of_mem hx))
  have hnames' : names' = namesTo route (i + 1) := by
    ext l
    rw [hnames, namesTo_succ, Set.mem_union]
    simp [hfroms]
  have harcs' : arcs' = arcsTo route (i + 1) := by
    ext p
    rw [harcs, mem_arcsTo_succ hi,
      exists_edgeSet_group (q := fun x => p ∈ fromArcs i x (group route (i + 1)))]
    simp [hfroms]
  subst hnames' harcs'
  refine ⟨ν', pay', hst'.building, hst'.next, ?_, ?_, ?_⟩
  · intro x hx
    rw [hwritten.frame_arc (Or.inl rfl)]
    exact h.sourcePay x hx
  · intro j hj x hx y hy
    change _ = hopPayload S x.e y (st'.delivered j x.e)
    by_cases hji : j = i
    · subst hji
      exact hwritten.hop x.e (S.edgeSet.mem.2 (List.mem_map_of_mem hx)) y hy
    · rw [hwritten.frame_arc (Or.inr (Or.inr ⟨j, x.e, hji, rfl⟩)), hwritten.delivered j x.e (Or.inl hji)]
      exact h.hopPay j (by omega) x hx y hy
  · intro j e
    rw [hwritten.frame_arc (Or.inr (Or.inl rfl))]
    exact h.sinkPay j e

theorem routeHops_layered (hwf : WellFormed route) (rest : EdgeCandidateRoute E C) {i : ℕ}
    {a : EdgeCandidateGroup E C} (hdrop : route.drop i = a :: rest)
    (h : Layered S route i ν pay st) :
    ∃ ν' pay', Layered S route (route.length - 1) ν' pay'
      (routeHops S thread rAttrs sink i a rest st) := by
  induction rest generalizing i a ν pay st with
  | nil =>
    have hlen := congrArg List.length hdrop
    rw [List.length_drop, List.length_singleton] at hlen
    have hi : route.length - 1 = i := by omega
    rw [hi]
    exact ⟨ν, pay, h⟩
  | cons b rest ih =>
    obtain ⟨ha, hdrop', -⟩ := group_of_drop hdrop
    obtain ⟨hb, -, hi⟩ := group_of_drop hdrop'
    have hlast : rest.isEmpty = decide (i + 2 = route.length) := by
      have hlen := congrArg List.length hdrop
      rw [List.length_drop, List.length_cons, List.length_cons] at hlen
      cases rest with
      | nil => rw [List.length_nil] at hlen; simp; omega
      | cons c rest => rw [List.length_cons] at hlen; simp; omega
    rw [routeHops, routeLayer]
    dsimp only
    rw [hlast, ← ha, ← hb]
    obtain ⟨ν', pay', h'⟩ := h.hop thread rAttrs hwf hi
      (getHopBand S thread rAttrs (group route i) (group route (i + 1)) st.caches).2
      (getHopBand S thread rAttrs (group route i) (group route (i + 1)) st.caches).1.maxD
    rw [hb] at h' ⊢
    exact ih hdrop' h'

omit [DecidableEq N] [DecidableEq E] [LinearOrder C] in
theorem drawn_empty (ν : ℕ → CandName E) :
    Drawn ν ∅ ∅ (fun _ => defaultPayload) (.empty none defaultPayload : CandGraph N E C) where
  inj n hn := absurd hn (Nat.not_lt_zero n)
  named n hn := absurd hn (Nat.not_lt_zero n)
  node _ hl := absurd hl (Set.notMem_empty _)
  ends _ he := absurd he List.not_mem_nil
  arc _ he := absurd he List.not_mem_nil
  edge _ hp := absurd hp (Set.notMem_empty _)
  pay _ he := absurd he List.not_mem_nil

omit [DecidableEq N] [DecidableEq E] [LinearOrder C] in
theorem building_start : ∃ ν : ℕ → CandName E,
    Building ν {.sink, .source} ∅ (fun _ => defaultPayload)
      (((.empty none defaultPayload : CandGraph N E C).addNd none).2.addNd none).2 := by
  have hsource := (drawn_empty (N := N) (C := C) fun _ => (.source : CandName E)).addNd
    (Set.notMem_empty .source) none
  have hsink := hsource.addNd (l := .sink) (by simp) none
  rw [insert_empty_eq] at hsink
  exact ⟨_, hsink, ⟨Nat.zero_lt_succ 1, rfl⟩, ⟨Nat.lt_succ_self 1, rfl⟩, fun _ _ => rfl⟩

variable (S) in
omit [DecidableEq N] in
theorem sourceEdges_layered (hwf : WellFormed route) {a : EdgeCandidateGroup E C}
    {rest : EdgeCandidateRoute E C} (hroute : route = a :: rest) (caches : Caches E C) :
    ∃ ν pay, Layered S route 0 ν pay (a.foldl (addSourceEdge S source) (emptyState caches)) := by
  subst hroute
  obtain ⟨ν, hb⟩ := building_start (N := N) (E := E) (C := C)
  have hgroup : group (a :: rest) 0 = a := rfl
  obtain ⟨-, hnodup⟩ := hwf a List.mem_cons_self
  generalize hst : (emptyState caches : RouteState N E C) = st
  have hg : st.cgraph = (((.empty none defaultPayload : CandGraph N E C).addNd none).2.addNd none).2 := by
    rw [← hst]
    rfl
  have hnodes : st.nodes = fun _ => none := by
    rw [← hst]
    rfl
  rw [← hg] at hb
  have hidx : Indexed ν 0 st.nodes st.cgraph := by
    intro e n
    rw [hnodes]
    constructor
    · intro hc
      simp at hc
    · intro hc
      have hmem := hb.drawn.named n hc.1
      rw [hc.2] at hmem
      simp at hmem
  obtain ⟨ν', pay', hb', hidx', hframe, hpay⟩ :=
    addSourceEdges_spec (S := S) a hnodup hb hidx (fun c _ => by rw [hnodes])
  have hnames : ({.sink, .source} ∪ groupNames 0 a : Set (CandName E)) = namesTo (a :: rest) 0 := by
    ext l
    simp only [namesTo, Set.mem_union, Set.mem_insert_iff, Set.mem_singleton_iff,
      Set.mem_ofPred_eq, Nat.le_zero, exists_eq_left, hgroup]
    tauto
  have harcs : (∅ ∪ sourceArcs a : Set (Arc E)) = arcsTo (a :: rest) 0 := by
    ext p
    simp [arcsTo, hgroup, sinkArcs]
  rw [hnames, harcs] at hb'
  refine ⟨ν', pay', hb', hidx', ?_, ?_, ?_⟩
  · intro x hx
    rw [hgroup] at hx
    exact hpay x hx
  · intro j hj
    omega
  · intro j e
    apply hframe
    rintro ⟨x, -, he⟩
    cases (Prod.mk.inj he).1

variable (S thread rAttrs) in
theorem routeGraph_layered (hwf : WellFormed route) (hlen : 2 ≤ route.length)
    (caches : Caches E C) :
    ∃ ν pay, Layered S route (route.length - 1) ν pay (routeGraph S thread rAttrs route caches) := by
  cases route with
  | nil => simp at hlen
  | cons a rest =>
    obtain ⟨ν, pay, h⟩ := sourceEdges_layered S hwf rfl caches
    exact routeHops_layered hwf rest rfl h

end build

end Pfaedle.Router

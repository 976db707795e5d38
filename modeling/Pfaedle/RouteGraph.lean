import Pfaedle.NamedGraph
import Pfaedle.Router
import Mathlib.Data.Set.Lattice

set_option autoImplicit false

/-!
# The candidate graph of a route

A node of the candidate graph is the source, the sink or an edge candidate of one group. The
graph has an arc for every two candidates of consecutive groups.
-/
namespace Pfaedle.Router
open DirGraphs NamedGraph

inductive CandName (E : Type*)
  | source
  | sink
  | cand (i : ℕ) (e : E)
deriving DecidableEq

abbrev Arc (E : Type*) := CandName E × CandName E

section sets
variable {E C : Type*}

def groupNames (i : ℕ) (b : EdgeCandidateGroup E C) : Set (CandName E) :=
  {l | ∃ y ∈ b, l = .cand i y.e}

def hopArc (i : ℕ) (x y : E) : Arc E := (.cand i x, .cand (i + 1) y)

def sinkArc (i : ℕ) (y : E) : Arc E := (.cand i y, .sink)

def fromArcs (i : ℕ) (x : E) (b : EdgeCandidateGroup E C) : Set (Arc E) :=
  {p | ∃ y ∈ b, p = hopArc i x y.e}

def sinkArcs (last : Bool) (i : ℕ) (b : EdgeCandidateGroup E C) : Set (Arc E) :=
  {p | last = true ∧ ∃ y ∈ b, p = sinkArc i y.e}

theorem groupNames_cons (i : ℕ) (c : EdgeCandidate E C) (b : EdgeCandidateGroup E C) :
    groupNames i (c :: b) = insert (.cand i c.e) (groupNames i b) := by
  ext l
  simp [groupNames]

theorem fromArcs_cons (i : ℕ) (x : E) (c : EdgeCandidate E C) (b : EdgeCandidateGroup E C) :
    fromArcs i x (c :: b) = insert (hopArc i x c.e) (fromArcs i x b) := by
  ext p
  simp [fromArcs]

theorem sinkArcs_cons (last : Bool) (i : ℕ) (c : EdgeCandidate E C)
    (b : EdgeCandidateGroup E C) : sinkArcs last i (c :: b) =
      {p | last = true ∧ p = sinkArc i c.e} ∪ sinkArcs last i b := by
  ext p
  simp [sinkArcs, and_or_left]

@[simp] theorem groupNames_nil (i : ℕ) : groupNames i ([] : EdgeCandidateGroup E C) = ∅ := by
  ext l
  simp [groupNames]

@[simp] theorem fromArcs_nil (i : ℕ) (x : E) : fromArcs i x ([] : EdgeCandidateGroup E C) = ∅ := by
  ext p
  simp [fromArcs]

@[simp] theorem sinkArcs_nil (last : Bool) (i : ℕ) :
    sinkArcs last i ([] : EdgeCandidateGroup E C) = ∅ := by
  ext p
  simp [sinkArcs]

theorem union_arcs_cons (arcs : Set (Arc E)) (last : Bool) (i : ℕ) (x : E) (c : EdgeCandidate E C)
    (b : EdgeCandidateGroup E C) :
    arcs ∪ (fromArcs i x (c :: b) ∪ sinkArcs last (i + 1) (c :: b)) =
      insert (hopArc i x c.e) (arcs ∪ {p | last = true ∧ p = sinkArc (i + 1) c.e}) ∪
        (fromArcs i x b ∪ sinkArcs last (i + 1) b) := by
  rw [fromArcs_cons, sinkArcs_cons]
  ext p
  simp only [Set.mem_union, Set.mem_insert_iff]
  tauto

theorem hopArc_inj {i j : ℕ} {x y x' y' : E} (h : hopArc i x y = hopArc j x' y') :
    i = j ∧ x = x' ∧ y = y' := by
  obtain ⟨hfrom, hto⟩ := Prod.mk.inj h
  obtain ⟨hi, hx⟩ := CandName.cand.inj hfrom
  exact ⟨hi, hx, (CandName.cand.inj hto).2⟩

end sets

section build
variable {N E C : Type*} [DecidableEq E] [Field C] [LinearOrder C] (S : Setting N E C)

def Indexed (ν : ℕ → CandName E) (i : ℕ) (nodes : E → Option ℕ) (g : CandGraph N E C) : Prop :=
  ∀ e n, nodes e = some n ↔ n < g.nextNd ∧ ν n = .cand i e

/-- The graph is drawn with source and sink, and what is not drawn has the default payload. -/
structure Building (ν : ℕ → CandName E) (names : Set (CandName E)) (arcs : Set (Arc E))
    (pay : Arc E → CandPayload N E C) (g : CandGraph N E C) : Prop where
  drawn : Drawn ν names arcs pay g
  source : source < g.nextNd ∧ ν source = .source
  sink : sink < g.nextNd ∧ ν sink = .sink
  undrawn : ∀ p ∉ arcs, pay p = defaultPayload

def withEnds (x y : E) (p : CandPayload N E C) : CandPayload N E C :=
  { p with start := some (S.g.getFrom x), end_ := some (S.g.getFrom y) }

def withHop (res : HopResults E C) (pen : C) (y : E) (p : CandPayload N E C) :
    CandPayload N E C :=
  { p with
    cost := pen + res.costs y
    edges := if S.rOpts.popReachEdge then (res.edges y).tail else res.edges y }

/-- What the candidate graph says about the hop from `x` to candidate `y`. -/
def hopPayload (x : E) (y : EdgeCandidate E C) (res : HopResults E C) : CandPayload N E C where
  cost := y.pen + res.costs y.e
  edges := if S.rOpts.popReachEdge then (res.edges y.e).tail else res.edges y.e
  start := some (S.g.getFrom x)
  end_ := some (S.g.getFrom y.e)

variable {S} {ν : ℕ → CandName E} {names : Set (CandName E)} {arcs : Set (Arc E)}
  {pay : Arc E → CandPayload N E C} {g : CandGraph N E C}

omit [DecidableEq E] [Field C] [LinearOrder C] in
theorem Indexed.frame {ν' : ℕ → CandName E} {i : ℕ} {nodes : E → Option ℕ}
    {g' : CandGraph N E C} (h : Indexed ν i nodes g) (hext : Extends g ν ν')
    (hle : g.nextNd ≤ g'.nextNd)
    (hnew : ∀ n, g.nextNd ≤ n → n < g'.nextNd → ∀ e, ν' n ≠ .cand i e) :
    Indexed ν' i nodes g' := by
  intro e n
  rw [h e n]
  constructor
  · intro hn
    exact ⟨Nat.lt_of_lt_of_le hn.1 hle, by rw [hext n hn.1]; exact hn.2⟩
  · intro hn
    by_cases hlt : n < g.nextNd
    · exact ⟨hlt, by rw [← hext n hlt]; exact hn.2⟩
    · exact absurd hn.2 (hnew n (Nat.le_of_not_lt hlt) hn.1 e)

omit [LinearOrder C] in
theorem Building.addNd (h : Building ν names arcs pay g) {i : ℕ} {nodes : E → Option ℕ}
    (hidx : Indexed ν i nodes g) {e : E} (he : nodes e = none) (p : Option N) :
    ∃ ν', Extends g ν ν' ∧
      Building ν' (insert (.cand i e) names) arcs pay (g.addNd p).2 ∧
      Indexed ν' i (Function.update nodes e (some g.nextNd)) (g.addNd p).2 ∧
      ν' g.nextNd = .cand i e := by
  have hfresh : CandName.cand i e ∉ names := by
    intro hmem
    obtain ⟨n, hn, hname⟩ := h.drawn.node _ hmem
    rw [(hidx e n).2 ⟨hn, hname⟩] at he
    simp at he
  have hext := extends_update g ν (.cand i e)
  have hnew : Function.update ν g.nextNd (.cand i e) g.nextNd = .cand i e :=
    Function.update_self _ _ _
  refine ⟨_, hext, ⟨h.drawn.addNd hfresh p, ?_, ?_, h.undrawn⟩, ?_, hnew⟩
  · exact ⟨Nat.lt_succ_of_lt h.source.1, by rw [hext _ h.source.1]; exact h.source.2⟩
  · exact ⟨Nat.lt_succ_of_lt h.sink.1, by rw [hext _ h.sink.1]; exact h.sink.2⟩
  · intro e' n
    change _ ↔ n < g.nextNd + 1 ∧ _
    by_cases hn : n = g.nextNd
    · subst hn
      rw [hnew]
      by_cases hee : e' = e
      · simp [hee]
      · have hnone : nodes e' ≠ some g.nextNd := fun hc => Nat.lt_irrefl _ ((hidx e' _).1 hc).1
        simp [Function.update_of_ne hee, hnone, Ne.symm hee]
    · rw [Function.update_of_ne hn]
      by_cases hee : e' = e
      · subst hee
        rw [Function.update_self]
        constructor
        · intro hc
          exact absurd (Option.some.inj hc).symm hn
        · intro hc
          rw [(hidx e' n).2 ⟨by omega, hc.2⟩] at he
          simp at he
      · rw [Function.update_of_ne hee, hidx e' n]
        constructor
        · exact fun hc => ⟨Nat.lt_succ_of_lt hc.1, hc.2⟩
        · exact fun hc => ⟨by omega, hc.2⟩

omit [DecidableEq E] [LinearOrder C] in
theorem Building.addEdg (h : Building ν names arcs pay g) {u v : ℕ} (hu : u < g.nextNd)
    (hv : v < g.nextNd) :
    Building ν names (insert (ν u, ν v) arcs) pay (g.addEdg u v defaultPayload).2 ∧
      (g.addEdg u v defaultPayload).1 ∈ (g.addEdg u v defaultPayload).2.edges ∧
      arcOf ν (g.addEdg u v defaultPayload).1 = (ν u, ν v) := by
  obtain ⟨hdrawn, harc⟩ := h.drawn.addEdg hu hv (h.undrawn (ν u, ν v))
  refine ⟨⟨hdrawn, ?_, ?_, ?_⟩, (DirGraph.addEdg_ends g u v defaultPayload).2.2, harc⟩
  · rw [DirGraph.addEdg_nextNd]
    exact h.source
  · rw [DirGraph.addEdg_nextNd]
    exact h.sink
  · intro p hp
    exact h.undrawn p fun hc => hp (Set.mem_insert_of_mem _ hc)

omit [LinearOrder C] in
theorem Building.setPl (h : Building ν names arcs pay g) {e : Edge} (he : e ∈ g.edges)
    (q : CandPayload N E C) :
    Building ν names arcs (Function.update pay (arcOf ν e) q) (g.setPl e q) where
  drawn := h.drawn.setPl he q
  source := h.source
  sink := h.sink
  undrawn p hp := by
    have hne : p ≠ arcOf ν e := fun hc => hp (hc ▸ h.drawn.arc e he)
    rw [Function.update_of_ne hne]
    exact h.undrawn p hp

/-- Names only grow, and the new nodes are candidates of group `i`. -/
structure Grown (i : ℕ) (ν ν' : ℕ → CandName E) (g g' : CandGraph N E C) : Prop where
  old : Extends g ν ν'
  le : g.nextNd ≤ g'.nextNd
  new : ∀ n, g.nextNd ≤ n → n < g'.nextNd → ∃ e, ν' n = .cand i e
  edges : ∀ e ∈ g.edges, e ∈ g'.edges

omit [DecidableEq E] [Field C] [LinearOrder C] in
theorem Grown.refl (i : ℕ) (ν : ℕ → CandName E) (g : CandGraph N E C) : Grown i ν ν g g :=
  ⟨fun _ _ => rfl, Nat.le_refl _, fun _ hle hlt => absurd hlt (Nat.not_lt.2 hle), fun _ he => he⟩

omit [DecidableEq E] [Field C] [LinearOrder C] in
theorem Grown.trans {i : ℕ} {ν ν' ν'' : ℕ → CandName E} {g g' g'' : CandGraph N E C}
    (h : Grown i ν ν' g g') (h' : Grown i ν' ν'' g' g'') : Grown i ν ν'' g g'' where
  old n hn := (h'.old n (Nat.lt_of_lt_of_le hn h.le)).trans (h.old n hn)
  le := h.le.trans h'.le
  new n hle hlt := by
    by_cases hn : n < g'.nextNd
    · rw [h'.old n hn]
      exact h.new n hle hn
    · exact h'.new n (Nat.le_of_not_lt hn) hlt
  edges e he := h'.edges e (h.edges e he)

omit [DecidableEq E] [LinearOrder C] in
theorem Grown.arcOf {i : ℕ} {ν' : ℕ → CandName E} {g' : CandGraph N E C} (h : Grown i ν ν' g g')
    (hb : Building ν names arcs pay g) {e : Edge} (he : e ∈ g.edges) :
    arcOf ν' e = NamedGraph.arcOf ν e := by
  rw [NamedGraph.arcOf, NamedGraph.arcOf, h.old _ (hb.drawn.ends e he).1,
    h.old _ (hb.drawn.ends e he).2]

omit [DecidableEq E] [Field C] [LinearOrder C] in
theorem Grown.node {i : ℕ} {ν' : ℕ → CandName E} {g' : CandGraph N E C} (h : Grown i ν ν' g g')
    {n : ℕ} {l : CandName E} (hn : n < g.nextNd ∧ ν n = l) : n < g'.nextNd ∧ ν' n = l :=
  ⟨Nat.lt_of_lt_of_le hn.1 h.le, by rw [h.old n hn.1]; exact hn.2⟩

omit [DecidableEq E] [Field C] [LinearOrder C] in
theorem Grown.indexed {i j : ℕ} {ν' : ℕ → CandName E} {g' : CandGraph N E C}
    (h : Grown i ν ν' g g') {nodes : E → Option ℕ} (hidx : Indexed ν j nodes g) (hij : i ≠ j) :
    Indexed ν' j nodes g' := by
  apply hidx.frame h.old h.le
  intro n hle hlt e hname
  obtain ⟨e', he'⟩ := h.new n hle hlt
  rw [he'] at hname
  exact hij (CandName.cand.inj hname).1

theorem targetNode_spec (h : Building ν names arcs pay g) {i : ℕ} {nextNodes : E → Option ℕ}
    (hidx : Indexed ν i nextNodes g) (c : EdgeCandidate E C) :
    ∃ ν', Grown i ν ν' g (targetNode S nextNodes g c).2 ∧
      Building ν' (insert (.cand i c.e) names) arcs pay (targetNode S nextNodes g c).2 ∧
      Indexed ν' i (Function.update nextNodes c.e (some (targetNode S nextNodes g c).1))
        (targetNode S nextNodes g c).2 ∧
      (targetNode S nextNodes g c).1 < (targetNode S nextNodes g c).2.nextNd ∧
      ν' (targetNode S nextNodes g c).1 = .cand i c.e := by
  rw [targetNode]
  cases hnext : nextNodes c.e with
  | some n =>
    obtain ⟨hn, hname⟩ := (hidx c.e n).1 hnext
    have hmem : CandName.cand i c.e ∈ names := by
      rw [← hname]
      exact h.drawn.named n hn
    refine ⟨ν, .refl i ν g, ?_, ?_, hn, hname⟩
    · rw [Set.insert_eq_of_mem hmem]
      exact h
    · dsimp only
      rw [← hnext, Function.update_eq_self]
      exact hidx
  | none =>
    obtain ⟨ν', hext, hb, hidx', hname⟩ := h.addNd hidx hnext (some (S.g.getFrom c.e))
    refine ⟨ν', ⟨hext, Nat.le_succ _, ?_, fun _ he => he⟩, hb, hidx', Nat.lt_succ_self _, hname⟩
    intro n hle hlt
    have hn : n = g.nextNd := Nat.le_antisymm (Nat.le_of_lt_succ hlt) hle
    exact ⟨c.e, by rw [hn, hname]⟩

omit [DecidableEq E] [LinearOrder C] in
theorem addSinkEdge_spec (h : Building ν names arcs pay g) (last : Bool) {i n : ℕ} {e : E}
    (hn : n < g.nextNd ∧ ν n = .cand i e) :
    Building ν names (arcs ∪ {p | last = true ∧ p = sinkArc i e}) pay
      (addSinkEdge last sink n g) ∧
    (addSinkEdge last sink n g).nextNd = g.nextNd ∧
    ∀ e ∈ g.edges, e ∈ (addSinkEdge last sink n g).edges := by
  rw [addSinkEdge]
  cases last with
  | true =>
    have hset : arcs ∪ {p | true = true ∧ p = sinkArc i e} = insert (ν n, ν sink) arcs := by
      ext p
      simp [hn.2, h.sink.2, sinkArc, or_comm]
    rw [hset]
    exact ⟨(h.addEdg hn.1 h.sink.1).1, DirGraph.addEdg_nextNd _ _ _ _,
      fun e he => DirGraph.mem_addEdg.2 (Or.inl he)⟩
  | false =>
    have hset : arcs ∪ {p | false = true ∧ p = sinkArc i e} = arcs := by
      ext p
      simp
    rw [hset]
    exact ⟨h, rfl, fun _ he => he⟩

/-- The maps `edges` and `pens` hold what was entered for the given candidates. -/
structure TargetsOf (ν : ℕ → CandName E) (i : ℕ) (x : E) (b : EdgeCandidateGroup E C)
    (tg : Targets E C) (g : CandGraph N E C) : Prop where
  edges : ∀ y ∈ b, ∃ a ∈ g.edges, tg.edges y.e = some a ∧ arcOf ν a = hopArc i x y.e
  pens : ∀ y ∈ b, tg.pens y.e = y.pen

theorem addTarget_spec (h : Building ν names arcs pay g) {i : ℕ} {nextNodes : E → Option ℕ}
    (hidx : Indexed ν (i + 1) nextNodes g) {x : E} {cNodeFr : ℕ}
    (hfr : cNodeFr < g.nextNd ∧ ν cNodeFr = .cand i x) (last : Bool) (tg : Targets E C)
    (c : EdgeCandidate E C) :
    ∃ ν' g' nextNodes' a,
      addTarget S last sink x cNodeFr (g, nextNodes, tg) c =
        (g', nextNodes', ⟨Function.update tg.edges c.e (some a),
          Function.update tg.pens c.e c.pen⟩) ∧
      Grown (i + 1) ν ν' g g' ∧
      Building ν' (insert (.cand (i + 1) c.e) names)
        (insert (hopArc i x c.e) (arcs ∪ {p | last = true ∧ p = sinkArc (i + 1) c.e}))
        (Function.update pay (hopArc i x c.e) (withEnds S x c.e (pay (hopArc i x c.e)))) g' ∧
      Indexed ν' (i + 1) nextNodes' g' ∧ a ∈ g'.edges ∧ arcOf ν' a = hopArc i x c.e := by
  obtain ⟨ν', hgrown, hb, hidx', hn⟩ := targetNode_spec (S := S) h hidx c
  rw [addTarget]
  dsimp only
  generalize targetNode S nextNodes g c = ng at hgrown hb hidx' hn ⊢
  obtain ⟨n, g₁⟩ := ng
  dsimp only at hgrown hb hidx' hn ⊢
  obtain ⟨hb₂, hnext₂, hedges₂⟩ := addSinkEdge_spec hb last hn
  generalize addSinkEdge last sink n g₁ = g₂ at hb₂ hnext₂ hedges₂ ⊢
  have hfr' := hgrown.node hfr
  rw [← hnext₂] at hfr' hn
  obtain ⟨hb₃, hmem, harc⟩ := hb₂.addEdg hfr'.1 hn.1
  have hnext₃ := DirGraph.addEdg_nextNd g₂ cNodeFr n defaultPayload
  have hpl := hb₃.drawn.pay _ hmem
  have hold : ∀ e ∈ g₂.edges, e ∈ (g₂.addEdg cNodeFr n defaultPayload).2.edges :=
    fun e he => DirGraph.mem_addEdg.2 (Or.inl he)
  generalize g₂.addEdg cNodeFr n defaultPayload = eg at hb₃ hmem harc hnext₃ hpl hold ⊢
  obtain ⟨a, g₃⟩ := eg
  dsimp only at hb₃ hmem harc hnext₃ hpl hold ⊢
  have harc' : arcOf ν' a = hopArc i x c.e := by rw [harc, hfr'.2, hn.2]; rfl
  have hset := hb₃.setPl hmem (withEnds S x c.e (g₃.pl a))
  rw [harc', hpl, harc', hfr'.2, hn.2] at hset
  refine ⟨ν', _, _, a, rfl, ?_, ?_, ?_, hmem, harc'⟩
  · refine ⟨hgrown.old, ?_, ?_, ?_⟩
    · change g.nextNd ≤ g₃.nextNd
      rw [hnext₃, hnext₂]
      exact hgrown.le
    · intro m hle hlt
      apply hgrown.new m hle
      rw [← hnext₂, ← hnext₃]
      exact hlt
    · intro e he
      exact hold e (hedges₂ e (hgrown.edges e he))
  · rw [hpl, harc']
    exact hset
  · intro e m
    rw [hidx' e m]
    change _ ↔ m < g₃.nextNd ∧ _
    rw [hnext₃, hnext₂]

/-- The payload has the ends of the hop from `x` to `y`. -/
def HasEnds (S : Setting N E C) (x y : E) (p : CandPayload N E C) : Prop :=
  p.start = some (S.g.getFrom x) ∧ p.end_ = some (S.g.getFrom y)

omit [LinearOrder C] in
theorem TargetsOf.concat {ν' : ℕ → CandName E} {g' : CandGraph N E C} {i : ℕ} {x : E}
    {done : EdgeCandidateGroup E C} {tg : Targets E C} (htg : TargetsOf ν i x done tg g)
    (hgrown : Grown (i + 1) ν ν' g g') (hb : Building ν names arcs pay g)
    {c : EdgeCandidate E C} (hc : ∀ y ∈ done, y.e ≠ c.e) {a : Edge} (ha : a ∈ g'.edges)
    (harc : arcOf ν' a = hopArc i x c.e) :
    TargetsOf ν' i x (done ++ [c])
      ⟨Function.update tg.edges c.e (some a), Function.update tg.pens c.e c.pen⟩ g' := by
  constructor
  · intro y hy
    cases List.mem_append.1 hy with
    | inl hy =>
      obtain ⟨a', ha', hedge, harc'⟩ := htg.edges y hy
      refine ⟨a', hgrown.edges a' ha', ?_, by rw [hgrown.arcOf hb ha', harc']⟩
      exact (Function.update_of_ne (hc y hy) _ _).trans hedge
    | inr hy =>
      rw [List.mem_singleton.1 hy]
      exact ⟨a, ha, Function.update_self _ _ _, harc⟩
  · intro y hy
    cases List.mem_append.1 hy with
    | inl hy => exact (Function.update_of_ne (hc y hy) _ _).trans (htg.pens y hy)
    | inr hy =>
      rw [List.mem_singleton.1 hy]
      exact Function.update_self _ _ _

omit [Field C] in
theorem HasEnds.concat {i : ℕ} {x : E} {done : EdgeCandidateGroup E C} {c : EdgeCandidate E C}
    (hends : ∀ y ∈ done, HasEnds S x y.e (pay (hopArc i x y.e))) (hc : ∀ y ∈ done, y.e ≠ c.e) :
    ∀ y ∈ done ++ [c], HasEnds S x y.e (Function.update pay (hopArc i x c.e)
      (withEnds S x c.e (pay (hopArc i x c.e))) (hopArc i x y.e)) := by
  intro y hy
  cases List.mem_append.1 hy with
  | inl hy =>
    rw [Function.update_of_ne fun harcs => hc y hy (hopArc_inj harcs).2.2]
    exact hends y hy
  | inr hy =>
    rw [List.mem_singleton.1 hy, Function.update_self]
    exact ⟨rfl, rfl⟩

theorem addTargets_spec {i : ℕ} {x : E} {cNodeFr : ℕ} (last : Bool)
    (b done : EdgeCandidateGroup E C) (hnodup : ((done ++ b).map EdgeCandidate.e).Nodup)
    (h : Building ν names arcs pay g) {nextNodes : E → Option ℕ}
    (hidx : Indexed ν (i + 1) nextNodes g) (hfr : cNodeFr < g.nextNd ∧ ν cNodeFr = .cand i x)
    {tg : Targets E C} (htg : TargetsOf ν i x done tg g)
    (hends : ∀ y ∈ done, HasEnds S x y.e (pay (hopArc i x y.e))) :
    ∃ ν' g' nextNodes' tg' pay',
      b.foldl (addTarget S last sink x cNodeFr) (g, nextNodes, tg) = (g', nextNodes', tg') ∧
      Grown (i + 1) ν ν' g g' ∧
      Building ν' (names ∪ groupNames (i + 1) b)
        (arcs ∪ (fromArcs i x b ∪ sinkArcs last (i + 1) b)) pay' g' ∧
      Indexed ν' (i + 1) nextNodes' g' ∧ TargetsOf ν' i x (done ++ b) tg' g' ∧
      (∀ p ∉ fromArcs i x b, pay' p = pay p) ∧
      ∀ y ∈ done ++ b, HasEnds S x y.e (pay' (hopArc i x y.e)) := by
  induction b generalizing done ν names arcs pay g nextNodes tg with
  | nil =>
    refine ⟨ν, g, nextNodes, tg, pay, rfl, .refl _ _ _, ?_, hidx, ?_, fun _ _ => rfl, ?_⟩
    · simpa using h
    · rw [List.append_nil]
      exact htg
    · rw [List.append_nil]
      exact hends
  | cons c b ih =>
    have hnodup' : (((done ++ [c]) ++ b).map EdgeCandidate.e).Nodup := by
      rw [List.append_assoc]
      exact hnodup
    have hne : ∀ y ∈ done, y.e ≠ c.e := by
      intro y hy he
      rw [List.map_append, List.nodup_append] at hnodup
      exact hnodup.2.2 y.e (List.mem_map_of_mem hy) c.e (by simp) he
    obtain ⟨ν₁, g₁, nextNodes₁, a, hadd, hgrown, hb, hidx₁, ha, harc⟩ :=
      addTarget_spec (S := S) h hidx hfr last tg c
    obtain ⟨ν', g', nextNodes', tg', pay', hfold, hgrown', hb', hidx', htg', hframe, hends'⟩ :=
      ih (done ++ [c]) hnodup' hb hidx₁ (hgrown.node hfr) (htg.concat hgrown h hne ha harc)
        (HasEnds.concat hends hne)
    refine ⟨ν', g', nextNodes', tg', pay', ?_, hgrown.trans hgrown', ?_, hidx', ?_, ?_, ?_⟩
    · rw [List.foldl_cons, hadd, hfold]
    · have hnames : names ∪ groupNames (i + 1) (c :: b) =
          insert (.cand (i + 1) c.e) names ∪ groupNames (i + 1) b := by
        rw [groupNames_cons, Set.union_insert, Set.insert_union]
      rw [hnames, union_arcs_cons]
      exact hb'
    · rw [List.append_assoc] at htg'
      exact htg'
    · intro p hp
      rw [fromArcs_cons, Set.mem_insert_iff, not_or] at hp
      rw [hframe p hp.2, Function.update_of_ne hp.1]
    · intro y hy
      apply hends'
      rw [List.append_assoc]
      exact hy

theorem writeHops_spec {i : ℕ} {x : E} {b : EdgeCandidateGroup E C} {tg : Targets E C}
    (res : HopResults E C) (ts : List E) (hnodup : ts.Nodup) (hsub : ∀ t ∈ ts, ∃ y ∈ b, y.e = t)
    (h : Building ν names arcs pay g) (htg : TargetsOf ν i x b tg g) :
    ∃ pay', Building ν names arcs pay' (ts.foldl (writeHop S res tg) g) ∧
      (ts.foldl (writeHop S res tg) g).nextNd = g.nextNd ∧
      (∀ p, (∀ t ∈ ts, p ≠ hopArc i x t) → pay' p = pay p) ∧
      ∀ t ∈ ts, pay' (hopArc i x t) = withHop S res (tg.pens t) t (pay (hopArc i x t)) := by
  induction ts generalizing pay g with
  | nil => exact ⟨pay, h, rfl, fun _ _ => rfl, by simp⟩
  | cons t ts ih =>
    rw [List.nodup_cons] at hnodup
    obtain ⟨y, hy, hyt⟩ := hsub t List.mem_cons_self
    obtain ⟨a, ha, hedge, harc⟩ := htg.edges y hy
    rw [hyt] at hedge harc
    have hwrite : writeHop S res tg g t = g.setPl a (withHop S res (tg.pens t) t (g.pl a)) := by
      rw [writeHop, hedge]
      rfl
    have hset := h.setPl ha (withHop S res (tg.pens t) t (g.pl a))
    rw [harc, h.drawn.pay a ha, harc] at hset
    have htg' : TargetsOf ν i x b tg (g.setPl a (withHop S res (tg.pens t) t (pay (hopArc i x t)))) :=
      ⟨htg.edges, htg.pens⟩
    obtain ⟨pay', hb, hnext, hframe, hwritten⟩ :=
      ih hnodup.2 (fun t' ht' => hsub t' (List.mem_cons_of_mem _ ht')) hset htg'
    have hne : ∀ t' ∈ ts, hopArc i x t ≠ hopArc i x t' := by
      intro t' ht' harcs
      rw [(hopArc_inj harcs).2.2] at hnodup
      exact hnodup.1 ht'
    rw [List.foldl_cons, hwrite, h.drawn.pay a ha, harc]
    refine ⟨pay', hb, hnext, ?_, ?_⟩
    · intro p hp
      rw [hframe p fun t' ht' => hp t' (List.mem_cons_of_mem _ ht'),
        Function.update_of_ne (hp t List.mem_cons_self)]
    · intro t' ht'
      cases List.mem_cons.1 ht' with
      | inl ht' => rw [ht', hframe _ hne, Function.update_self]
      | inr ht' => rw [hwritten t' ht', Function.update_of_ne (hne t' ht').symm]

structure HopState (i : ℕ) (ν : ℕ → CandName E) (names : Set (CandName E)) (arcs : Set (Arc E))
    (pay : Arc E → CandPayload N E C) (st : RouteState N E C) : Prop where
  building : Building ν names arcs pay st.cgraph
  nodes : Indexed ν i st.nodes st.cgraph
  next : Indexed ν (i + 1) st.nextNodes st.cgraph

variable {thread : ℕ} {rAttrs : RoutingAttributes} {st : RouteState N E C} {maxD : C}
  {a b : EdgeCandidateGroup E C} {i : ℕ}

/-- The payload of every hop out of `x` is written from what `hops` delivered for `x`. -/
structure HopsWritten (S : Setting N E C) (i : ℕ) (xs : List E) (b : EdgeCandidateGroup E C)
    (pay pay' : Arc E → CandPayload N E C) (st st' : RouteState N E C) : Prop where
  frame : ∀ p, (∀ x ∈ xs, p ∉ fromArcs i x b) → pay' p = pay p
  hop : ∀ x ∈ xs, ∀ y ∈ b, pay' (hopArc i x y.e) = hopPayload S x y (st'.delivered i x)
  delivered : ∀ j x, j ≠ i ∨ x ∉ xs → st'.delivered j x = st.delivered j x

variable [DecidableEq N]

theorem routeFrom_spec (h : HopState i ν names arcs pay st) {x : E} (hx : .cand i x ∈ names)
    (hnodup : (b.map EdgeCandidate.e).Nodup) (last : Bool) :
    ∃ ν' pay', HopState i ν' (names ∪ groupNames (i + 1) b)
        (arcs ∪ (fromArcs i x b ∪ sinkArcs last (i + 1) b)) pay'
        (routeFrom S thread rAttrs i last sink a b maxD st x) ∧
      HopsWritten S i [x] b pay pay' st (routeFrom S thread rAttrs i last sink a b maxD st x) := by
  obtain ⟨cNodeFr, hfr⟩ := h.building.drawn.node _ hx
  have hnode : st.nodes x = some cNodeFr := (h.nodes x cNodeFr).2 hfr
  have hstart : TargetsOf ν i x ([] : EdgeCandidateGroup E C) ⟨fun _ => none, fun _ => 0⟩ st.cgraph :=
    ⟨by simp, by simp⟩
  obtain ⟨ν', g', nextNodes', tg, pay₁, hfold, hgrown, hb, hidx, htg, hframe, hends⟩ :=
    addTargets_spec (S := S) last b [] hnodup h.building h.next hfr hstart (by simp)
  rw [List.nil_append] at htg hends
  rw [routeFrom, hnode]
  dsimp only
  rw [hfold]
  dsimp only
  generalize hhops : hops S thread rAttrs x (S.edgeSet.toList (a.map EdgeCandidate.e))
    (S.edgeSet.toList (b.map EdgeCandidate.e)) (targetGroup S b) maxD st.caches = rc
  obtain ⟨res, caches⟩ := rc
  dsimp only
  have hsub : ∀ t ∈ S.edgeSet.toList (b.map EdgeCandidate.e), ∃ y ∈ b, y.e = t :=
    fun t ht => List.mem_map.1 (S.edgeSet.mem.1 ht)
  obtain ⟨pay', hb', hnext, hframe', hwritten⟩ :=
    writeHops_spec (S := S) res _ (S.edgeSet.nodup _) hsub hb htg
  refine ⟨ν', pay', ⟨hb', ?_, ?_⟩, ?_, ?_, ?_⟩
  · have hnodes := hgrown.indexed h.nodes (by omega)
    intro e n
    rw [hnodes e n, hnext]
  · intro e n
    rw [hidx e n, hnext]
  · intro p hp
    have hp := hp x (by simp)
    rw [hframe' p, hframe p hp]
    intro t ht harc
    obtain ⟨y, hy, hyt⟩ := hsub t ht
    exact hp ⟨y, hy, by rw [harc, hyt]⟩
  · intro x' hx' y hy
    rw [List.mem_singleton.1 hx']
    have ht : y.e ∈ S.edgeSet.toList (b.map EdgeCandidate.e) :=
      S.edgeSet.mem.2 (List.mem_map_of_mem hy)
    have hdelivered : Function.update st.delivered i (Function.update (st.delivered i) x res) i x =
        res := by rw [Function.update_self, Function.update_self]
    change _ = hopPayload S x y (Function.update st.delivered i _ i x)
    rw [hwritten _ ht, hdelivered, htg.pens y hy]
    obtain ⟨hs, he⟩ := hends y hy
    rw [withHop, hopPayload, hs, he]
  · intro j x' hjx
    change Function.update st.delivered i (Function.update (st.delivered i) x res) j x' = _
    by_cases hj : j = i
    · subst hj
      have hx' : x' ≠ x := by simpa using hjx
      rw [Function.update_self, Function.update_of_ne hx']
    · rw [Function.update_of_ne hj]

omit [DecidableEq N] [DecidableEq E] in
theorem HopsWritten.cons {x : E} {xs : List E} {pay₁ pay₂ : Arc E → CandPayload N E C}
    {st₁ st₂ : RouteState N E C} (h₁ : HopsWritten S i [x] b pay pay₁ st st₁)
    (h₂ : HopsWritten S i xs b pay₁ pay₂ st₁ st₂) (hx : x ∉ xs) :
    HopsWritten S i (x :: xs) b pay pay₂ st st₂ where
  frame p hp := by
    rw [h₂.frame p fun x' hx' => hp x' (List.mem_cons_of_mem _ hx'),
      h₁.frame p fun x' hx' => hp x' (by simp [List.mem_singleton.1 hx'])]
  hop x' hx' y hy := by
    cases List.mem_cons.1 hx' with
    | inl hx' =>
      subst hx'
      have hother : ∀ x'' ∈ xs, hopArc i x' y.e ∉ fromArcs i x'' b := by
        intro x'' hx'' hmem
        obtain ⟨y', -, harc⟩ := hmem
        rw [(hopArc_inj harc).2.1] at hx
        exact hx hx''
      rw [h₂.frame _ hother, h₁.hop x' (by simp) y hy, h₂.delivered i x' (Or.inr hx)]
    | inr hx' => exact h₂.hop x' hx' y hy
  delivered j x' hjx := by
    simp only [List.mem_cons, not_or] at hjx
    rw [h₂.delivered j x' (hjx.imp_right And.right),
      h₁.delivered j x' (hjx.imp_right fun hc => by simpa using hc.1)]

theorem routeFroms_spec (xs : List E) (hxs : xs.Nodup) (h : HopState i ν names arcs pay st)
    (hmem : ∀ x ∈ xs, .cand i x ∈ names) (hnodup : (b.map EdgeCandidate.e).Nodup) (last : Bool) :
    ∃ ν' names' arcs' pay', HopState i ν' names' arcs' pay'
        (xs.foldl (routeFrom S thread rAttrs i last sink a b maxD) st) ∧
      HopsWritten S i xs b pay pay' st
        (xs.foldl (routeFrom S thread rAttrs i last sink a b maxD) st) ∧
      (∀ l, l ∈ names' ↔ l ∈ names ∨ (xs ≠ [] ∧ l ∈ groupNames (i + 1) b)) ∧
      ∀ p, p ∈ arcs' ↔ p ∈ arcs ∨ (∃ x ∈ xs, p ∈ fromArcs i x b) ∨
        (xs ≠ [] ∧ p ∈ sinkArcs last (i + 1) b) := by
  induction xs generalizing ν names arcs pay st with
  | nil => exact ⟨ν, names, arcs, pay, h, ⟨fun _ _ => rfl, by simp, fun _ _ _ => rfl⟩, by simp, by simp⟩
  | cons x xs ih =>
    rw [List.nodup_cons] at hxs
    obtain ⟨ν₁, pay₁, h₁, hw₁⟩ : ∃ ν' pay', HopState i ν' _ _ pay'
          (routeFrom S thread rAttrs i last sink a b maxD st x) ∧
        HopsWritten S i [x] b pay pay' st (routeFrom S thread rAttrs i last sink a b maxD st x) :=
      routeFrom_spec h (hmem x List.mem_cons_self) hnodup last
    obtain ⟨ν', names', arcs', pay', h', hw', hnames, harcs⟩ := ih hxs.2 h₁
      fun x' hx' => Set.mem_union_left _ (hmem x' (List.mem_cons_of_mem _ hx'))
    refine ⟨ν', names', arcs', pay', h', hw₁.cons hw' hxs.1, ?_, ?_⟩
    · intro l
      rw [hnames, Set.mem_union]
      constructor
      · rintro ((hl | hl) | ⟨-, hl⟩)
        · exact Or.inl hl
        · exact Or.inr ⟨by simp, hl⟩
        · exact Or.inr ⟨by simp, hl⟩
      · rintro (hl | ⟨-, hl⟩)
        · exact Or.inl (Or.inl hl)
        · exact Or.inl (Or.inr hl)
    · intro p
      rw [harcs, Set.mem_union, Set.mem_union]
      constructor
      · rintro ((hp | hp | hp) | ⟨x', hx', hp⟩ | ⟨-, hp⟩)
        · exact Or.inl hp
        · exact Or.inr (Or.inl ⟨x, by simp, hp⟩)
        · exact Or.inr (Or.inr ⟨by simp, hp⟩)
        · exact Or.inr (Or.inl ⟨x', by simp [hx'], hp⟩)
        · exact Or.inr (Or.inr ⟨by simp, hp⟩)
      · rintro (hp | ⟨x', hx', hp⟩ | ⟨-, hp⟩)
        · exact Or.inl (Or.inl hp)
        · cases List.mem_cons.1 hx' with
          | inl hx' => rw [hx'] at hp; exact Or.inl (Or.inr (Or.inl hp))
          | inr hx' => exact Or.inr (Or.inl ⟨x', hx', hp⟩)
        · exact Or.inl (Or.inr (Or.inr hp))

end build

end Pfaedle.Router

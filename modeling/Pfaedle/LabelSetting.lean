import Mathlib.Algebra.Order.Group.Defs
import Mathlib.Algebra.Order.Monoid.WithTop
import Mathlib.Data.List.Chain
import Mathlib.Tactic.Abel

set_option autoImplicit false

/-!
# Label setting over a weighted relation

The invariant behind every best-first search, over arbitrary vertices and any ordered group of
costs. `dist` holds the settled labels and `front` the tentative ones, both as relations, so
that a search may keep stale or repeated entries. Costs from `inf` on count as unreachable.
-/
namespace Pfaedle.LabelSetting

structure Network (V C : Type*) where
  source : V → Prop
  start : V → C
  step : V → V → Prop
  weight : V → V → C

section walks
variable {V C : Type*} [AddCommMonoid C]

/-- A walk out of a source with its cost. The vertex entered last comes first, as a search
    that follows parent links lists it. -/
inductive Walk (P : Network V C) : V → List V → C → Prop
  | source {s : V} : P.source s → Walk P s [s] (P.start s)
  | snoc {u v : V} {p : List V} {d : C} :
      Walk P u p d → P.step u v → Walk P v (v :: p) (d + P.weight u v)

def legs (P : Network V C) : V → List V → C
  | _, [] => 0
  | u, v :: rest => P.weight u v + legs P v rest

def pathCost (P : Network V C) : List V → C
  | [] => 0
  | s :: rest => P.start s + legs P s rest

structure IsPath (P : Network V C) (p : List V) (t : V) : Prop where
  chain : p.IsChain P.step
  head : ∃ s, p.head? = some s ∧ P.source s
  last : p.getLast? = some t

theorem legs_concat (P : Network V C) (u v t : V) (rest : List V)
    (h : (u :: rest).getLast? = some t) :
    legs P u (rest ++ [v]) = legs P u rest + P.weight t v := by
  induction rest generalizing u with
  | nil =>
    have ht : u = t := by simpa using h
    subst ht
    simp [legs]
  | cons a rest ih =>
    have hl : (a :: rest).getLast? = some t := by simpa using h
    have hs : legs P u (a :: rest ++ [v]) = P.weight u a + legs P a (rest ++ [v]) := rfl
    rw [hs, ih a hl, legs, add_assoc]

theorem pathCost_concat (P : Network V C) (p : List V) (t v : V) (h : p.getLast? = some t) :
    pathCost P (p ++ [v]) = pathCost P p + P.weight t v := by
  cases p with
  | nil => simp at h
  | cons s rest =>
    change P.start s + legs P s (rest ++ [v]) = P.start s + legs P s rest + P.weight t v
    rw [legs_concat P s v t rest h, add_assoc]

omit [AddCommMonoid C] in
theorem IsPath.concat {P : Network V C} {p : List V} {t v : V} (h : IsPath P p t)
    (hs : P.step t v) : IsPath P (p ++ [v]) v := by
  obtain ⟨s, hhead, hsource⟩ := h.head
  refine ⟨?_, ⟨s, ?_, hsource⟩, by simp⟩
  · apply h.chain.append (List.isChain_singleton v)
    intro x hx y hy
    rw [h.last] at hx
    simp only [List.head?_cons, Option.mem_def, Option.some.injEq] at hx hy
    subst hx hy
    exact hs
  · rw [List.head?_append, hhead, Option.some_or]

theorem Walk.isPath {P : Network V C} {v : V} {p : List V} {d : C} (h : Walk P v p d) :
    IsPath P p.reverse v ∧ pathCost P p.reverse = d := by
  induction h with
  | @source s hs => exact ⟨⟨List.isChain_singleton s, ⟨s, rfl, hs⟩, rfl⟩, add_zero _⟩
  | @snoc u v p d _ hs ih =>
    rw [List.reverse_cons]
    exact ⟨ih.1.concat hs, by rw [pathCost_concat P _ u v ih.1.last, ih.2]⟩

theorem Walk.extend {P : Network V C} (rest : List V) {u t : V} {p : List V} {d : C}
    (h : Walk P u p d) (hc : (u :: rest).IsChain P.step) (ht : (u :: rest).getLast? = some t) :
    Walk P t (rest.reverse ++ p) (d + legs P u rest) := by
  induction rest generalizing u p d with
  | nil =>
    have hut : u = t := by simpa using ht
    subst hut
    simpa [legs] using h
  | cons a rest ih =>
    rw [List.isChain_cons_cons] at hc
    have hnext := ih (h.snoc hc.1) hc.2 (by simpa using ht)
    simpa [legs, add_assoc] using hnext

theorem IsPath.walk {P : Network V C} {p : List V} {t : V} (h : IsPath P p t) :
    Walk P t p.reverse (pathCost P p) := by
  obtain ⟨s, hhead, hsource⟩ := h.head
  cases p with
  | nil => simp at hhead
  | cons a rest =>
    have ha : a = s := by simpa using hhead
    subst ha
    have hw := Walk.extend rest (Walk.source hsource) h.chain h.last
    simpa [pathCost] using hw

end walks

section invariant
variable {V C : Type*} [AddCommGroup C] [LinearOrder C] [IsOrderedAddMonoid C]

/-- Where walks lead, no step shortens a walk, and the estimate `h` never drops by more than the
    step costs. -/
structure Consistent (P : Network V C) (h : V → C) : Prop where
  nonneg : ∀ {u v p d}, Walk P u p d → P.step u v → 0 ≤ P.weight u v
  drop : ∀ {u v p d}, Walk P u p d → P.step u v → h u ≤ P.weight u v + h v

structure Invariant (P : Network V C) (inf : WithTop C) (dist front : V → C → Prop) : Prop where
  dist_walk : ∀ v d, dist v d → ∃ p, Walk P v p d
  front_walk : ∀ v d, front v d → ∃ p, Walk P v p d
  dist_lt : ∀ v d, dist v d → (d : WithTop C) < inf
  front_lt : ∀ v d, front v d → (d : WithTop C) < inf
  covered : ∀ s, P.source s → (∃ d, dist s d) ∨ front s (P.start s)
  relaxed : ∀ u v d, dist u d → P.step u v → ((d + P.weight u v : C) : WithTop C) < inf →
    (∃ c, dist v c) ∨ ∃ c, c ≤ d + P.weight u v ∧ front v c
  optimal : ∀ v d, dist v d → ∀ p c, Walk P v p c → d ≤ c

variable {P : Network V C} {inf : WithTop C} {dist front : V → C → Prop} {h : V → C}

omit [IsOrderedAddMonoid C] in
theorem invariant_start (P : Network V C) (hlt : ∀ s, P.source s → (P.start s : WithTop C) < inf) :
    Invariant P inf (fun _ _ => False) (fun v d => P.source v ∧ d = P.start v) := by
  refine ⟨fun _ _ hd => hd.elim, ?_, fun _ _ hd => hd.elim, ?_, fun s hs => .inr ⟨hs, rfl⟩,
    fun _ _ _ hd => hd.elim, fun _ _ hd => hd.elim⟩
  · intro v d hf
    exact ⟨[v], hf.2 ▸ Walk.source hf.1⟩
  · intro v d hf
    rw [hf.2]
    exact hlt v hf.1

/-- Every walk below `inf` to an unsettled vertex is undercut by an open label. -/
theorem Invariant.frontier (I : Invariant P inf dist front) (hc : Consistent P h)
    {v : V} {p : List V} {c : C} (hw : Walk P v p c) (hlt : (c : WithTop C) < inf)
    (hv : ¬ ∃ d, dist v d) : ∃ u d, front u d ∧ (¬ ∃ e, dist u e) ∧ d + h u ≤ c + h v := by
  induction hw with
  | @source s hs =>
    cases I.covered s hs with
    | inl hd => exact absurd hd hv
    | inr hf => exact ⟨s, P.start s, hf, hv, le_refl _⟩
  | @snoc u v p d hw hs ih =>
    have hnonneg := hc.nonneg hw hs
    have hd : (d : WithTop C) < inf :=
      lt_of_le_of_lt (WithTop.coe_le_coe.2 (le_add_of_nonneg_right hnonneg)) hlt
    by_cases hu : ∃ e, dist u e
    · obtain ⟨e, he⟩ := hu
      have hle : e ≤ d := I.optimal u e he p d hw
      have hstep : e + P.weight u v ≤ d + P.weight u v := add_le_add_left hle _
      have hin : ((e + P.weight u v : C) : WithTop C) < inf :=
        lt_of_le_of_lt (WithTop.coe_le_coe.2 hstep) hlt
      cases I.relaxed u v e he hs hin with
      | inl hset => exact absurd hset hv
      | inr hf =>
        obtain ⟨c, hcle, hfront⟩ := hf
        exact ⟨v, c, hfront, hv, add_le_add_left (hcle.trans hstep) _⟩
    · obtain ⟨x, e, hfront, hx, hle⟩ := ih hd hu
      have hdrop := hc.drop hw hs
      refine ⟨x, e, hfront, hx, hle.trans ?_⟩
      calc
        d + h u ≤ d + (P.weight u v + h v) := add_le_add_right hdrop d
        _ = d + P.weight u v + h v := (add_assoc _ _ _).symm

/-- The open label with the least estimate is final. -/
theorem Invariant.least_optimal (I : Invariant P inf dist front) (hc : Consistent P h)
    {v : V} {d : C} (hf : front v d) (hv : ¬ ∃ e, dist v e)
    (hmin : ∀ u e, front u e → d + h v ≤ e + h u) (p : List V) (c : C) (hw : Walk P v p c) :
    d ≤ c := by
  by_cases hlt : (c : WithTop C) < inf
  · obtain ⟨u, e, hue, _, hle⟩ := I.frontier hc hw hlt hv
    exact le_of_add_le_add_right ((hmin u e hue).trans hle)
  · have hd := I.front_lt v d hf
    exact le_of_lt (WithTop.coe_lt_coe.1 (lt_of_lt_of_le hd (not_lt.1 hlt)))

omit [IsOrderedAddMonoid C] in
theorem Invariant.discard (I : Invariant P inf dist front) {front' : V → C → Prop}
    (hsub : ∀ v d, front' v d → front v d)
    (hkeep : ∀ v d, front v d → front' v d ∨ ∃ e, dist v e) :
    Invariant P inf dist front' := by
  refine ⟨I.dist_walk, fun v d hf => I.front_walk v d (hsub v d hf), I.dist_lt,
    fun v d hf => I.front_lt v d (hsub v d hf), ?_, ?_, I.optimal⟩
  · intro s hs
    cases I.covered s hs with
    | inl hd => exact .inl hd
    | inr hf => exact (hkeep s _ hf).symm
  · intro u v d hd hs hlt
    cases I.relaxed u v d hd hs hlt with
    | inl hd => exact .inl hd
    | inr hf =>
      obtain ⟨c, hle, hc⟩ := hf
      cases hkeep v c hc with
      | inl hk => exact .inr ⟨c, hle, hk⟩
      | inr hk => exact .inl hk

omit [IsOrderedAddMonoid C] in
theorem Invariant.settle_final (I : Invariant P inf dist front) {v : V} {d : C} (hf : front v d)
    (hbest : ∀ p c, Walk P v p c → d ≤ c) {front' : V → C → Prop}
    (hsub : ∀ u e, front' u e → front u e ∨
      P.step v u ∧ e = d + P.weight v u ∧ (e : WithTop C) < inf)
    (hkeep : ∀ u e, u ≠ v → front u e → front' u e)
    (hrelax : ∀ u, u ≠ v → P.step v u → ((d + P.weight v u : C) : WithTop C) < inf →
      front' u (d + P.weight v u)) :
    Invariant P inf (fun u e => dist u e ∨ u = v ∧ e = d) front' := by
  obtain ⟨p, hp⟩ := I.front_walk v d hf
  refine ⟨?_, ?_, ?_, ?_, ?_, ?_, ?_⟩
  · intro u e hd
    cases hd with
    | inl hd => exact I.dist_walk u e hd
    | inr he => exact ⟨p, by rw [he.1, he.2]; exact hp⟩
  · intro u e hu
    cases hsub u e hu with
    | inl hold => exact I.front_walk u e hold
    | inr hnew => exact ⟨u :: p, hnew.2.1 ▸ hp.snoc hnew.1⟩
  · intro u e hd
    cases hd with
    | inl hd => exact I.dist_lt u e hd
    | inr he => rw [he.2]; exact I.front_lt v d hf
  · intro u e hu
    cases hsub u e hu with
    | inl hold => exact I.front_lt u e hold
    | inr hnew => exact hnew.2.2
  · intro s hs
    by_cases hsv : s = v
    · exact .inl ⟨d, .inr ⟨hsv, rfl⟩⟩
    · cases I.covered s hs with
      | inl hd => exact .inl (hd.imp fun _ hd => .inl hd)
      | inr hfs => exact .inr (hkeep s _ hsv hfs)
  · intro u x e hd hs hlt
    by_cases hxv : x = v
    · exact .inl ⟨d, .inr ⟨hxv, rfl⟩⟩
    · cases hd with
      | inl hd =>
        cases I.relaxed u x e hd hs hlt with
        | inl hset => exact .inl (hset.imp fun _ hset => .inl hset)
        | inr hopen => exact .inr (hopen.imp fun c hc => ⟨hc.1, hkeep x c hxv hc.2⟩)
      | inr he =>
        rw [he.1] at hs hlt ⊢
        rw [he.2] at hlt ⊢
        exact .inr ⟨_, le_refl _, hrelax x hxv hs hlt⟩
  · intro u e hd q c hw
    cases hd with
    | inl hd => exact I.optimal u e hd q c hw
    | inr he =>
      rw [he.1] at hw
      rw [he.2]
      exact hbest q c hw

/-- The open label with the least estimate may be settled. -/
theorem Invariant.settle (I : Invariant P inf dist front) (hc : Consistent P h)
    {v : V} {d : C} (hf : front v d) (hv : ¬ ∃ e, dist v e)
    (hmin : ∀ u e, front u e → d + h v ≤ e + h u) {front' : V → C → Prop}
    (hsub : ∀ u e, front' u e → front u e ∨
      P.step v u ∧ e = d + P.weight v u ∧ (e : WithTop C) < inf)
    (hkeep : ∀ u e, u ≠ v → front u e → front' u e)
    (hrelax : ∀ u, u ≠ v → P.step v u → ((d + P.weight v u : C) : WithTop C) < inf →
      front' u (d + P.weight v u)) :
    Invariant P inf (fun u e => dist u e ∨ u = v ∧ e = d) front' :=
  I.settle_final hf (I.least_optimal hc hf hv hmin) hsub hkeep hrelax

/-- Once no label is open, every vertex that a walk reaches below `inf` is settled. -/
theorem Invariant.exhausted (I : Invariant P inf dist front) (hc : Consistent P h)
    (hnone : ∀ v d, front v d → ∃ e, dist v e) {v : V} {p : List V} {c : C}
    (hw : Walk P v p c) (hlt : (c : WithTop C) < inf) : ∃ d, dist v d := by
  by_contra hv
  obtain ⟨u, d, hf, hu, _⟩ := I.frontier hc hw hlt hv
  exact hu (hnone u d hf)

end invariant

end Pfaedle.LabelSetting

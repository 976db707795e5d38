import Mathlib.Algebra.Order.Monoid.Canonical.Defs
import Mathlib.Algebra.Order.Monoid.WithTop
import Mathlib.Order.Bounds.Basic

set_option autoImplicit false

/-!
# Minimal lengths and contraction

Steps between places have lengths that are never negative. A place may be contracted when every
way through it is replaced by a step that is as long.
-/
namespace Pfaedle.MinLengths

section steps
variable {V L : Type*} [AddCommMonoid L]

/-- There is a walk of this length from the first to the last place. -/
inductive Walk (step : V → L → V → Prop) : V → V → L → Prop
  | nil (u : V) : Walk step u u 0
  | cons {u v w : V} {a d : L} (h : step u a v) (rest : Walk step v w d) : Walk step u w (a + d)

theorem Walk.single {step : V → L → V → Prop} {u v : V} {a : L} (h : step u a v) :
    Walk step u v a := by
  have hwalk := Walk.cons h (Walk.nil v)
  rw [add_zero] at hwalk
  exact hwalk

theorem Walk.append {step : V → L → V → Prop} {u v w : V} {a b : L} (h : Walk step u v a)
    (h' : Walk step v w b) : Walk step u w (a + b) := by
  induction h with
  | nil u =>
    rw [zero_add]
    exact h'
  | cons hstep _ ih =>
    rw [add_assoc]
    exact Walk.cons hstep (ih h')

variable [LinearOrder L]

/-- `d` is the minimal length of a walk, which is infinite when there is none. -/
def IsMinLength (step : V → L → V → Prop) (p q : V) (d : WithTop L) : Prop :=
  IsLeast (insert ⊤ ((fun c : L => (c : WithTop L)) '' {c | Walk step p q c})) d

def Within (step : V → L → V → Prop) (p q : V) (d : L) : Prop := ∃ c ≤ d, Walk step p q c

theorem isMinLength_iff {step : V → L → V → Prop} {p q : V} {d : WithTop L} :
    IsMinLength step p q d ↔
      (∀ c : L, d = c → Within step p q c) ∧ ∀ c, Within step p q c → d ≤ c := by
  rw [IsMinLength]
  constructor
  · rintro ⟨hmem, hle⟩
    have hmin : ∀ c, Within step p q c → d ≤ c := by
      rintro c ⟨c', hc', hwalk⟩
      have hd := hle (Set.mem_insert_of_mem _ (Set.mem_image_of_mem _ hwalk))
      exact hd.trans (WithTop.coe_le_coe.2 hc')
    refine ⟨?_, hmin⟩
    rintro c rfl
    cases hmem with
    | inl htop => exact absurd htop WithTop.coe_ne_top
    | inr hmem =>
      obtain ⟨c', hwalk, hc'⟩ := hmem
      exact ⟨c', le_of_eq (WithTop.coe_injective hc'), hwalk⟩
  · rintro ⟨hwithin, hmin⟩
    constructor
    · cases d with
      | top => exact Set.mem_insert _ _
      | coe c =>
        obtain ⟨c', hc', hwalk⟩ := hwithin c rfl
        have hle := WithTop.coe_le_coe.1 (hmin c' ⟨c', le_refl _, hwalk⟩)
        rw [le_antisymm hle hc']
        exact Set.mem_insert_of_mem _ (Set.mem_image_of_mem _ hwalk)
    · intro x hx
      cases hx with
      | inl htop =>
        rw [htop]
        exact le_top
      | inr hx =>
        obtain ⟨c, hwalk, rfl⟩ := hx
        exact hmin c ⟨c, le_refl _, hwalk⟩

theorem isMinLength_congr {step step' : V → L → V → Prop} {p q : V}
    (h : ∀ c, Within step p q c ↔ Within step' p q c) (d : WithTop L) :
    IsMinLength step p q d ↔ IsMinLength step' p q d := by
  rw [isMinLength_iff, isMinLength_iff]
  simp only [h]

end steps

section contraction
variable {V L : Type*} [AddCommMonoid L] [LinearOrder L] [IsOrderedAddMonoid L]
  {step step' : V → L → V → Prop} {n : V}

omit [IsOrderedAddMonoid L] in
theorem Within.mono {p q : V} {c d : L} (h : Within step p q c) (hcd : c ≤ d) :
    Within step p q d := by
  obtain ⟨c', hc', hwalk⟩ := h
  exact ⟨c', hc'.trans hcd, hwalk⟩

theorem Within.append {p q r : V} {c d : L} (h : Within step p q c) (h' : Within step q r d) :
    Within step p r (c + d) := by
  obtain ⟨c', hc', hwalk⟩ := h
  obtain ⟨d', hd', hwalk'⟩ := h'
  exact ⟨c' + d', add_le_add hc' hd', hwalk.append hwalk'⟩

/-- The steps after the contraction of `n`, and what they stand for. -/
structure Contracted (step : V → L → V → Prop) (n : V) (step' : V → L → V → Prop) : Prop where
  loop : ∀ a, ¬ step n a n
  past : ∀ u a v, u ≠ n → v ≠ n → step u a v → Within step' u v a
  through : ∀ u a b v, u ≠ n → v ≠ n → step u a n → step n b v → Within step' u v (a + b)
  stands : ∀ u a v, step' u a v → Within step u v a

theorem Contracted.of_walk' (h : Contracted step n step') {p q : V} {c : L}
    (hwalk : Walk step' p q c) : Within step p q c := by
  induction hwalk with
  | nil u => exact ⟨0, le_refl _, Walk.nil u⟩
  | cons hstep _ ih => exact (h.stands _ _ _ hstep).append ih

/-- A walk that starts at `n` is looked at together with the step into `n`. -/
theorem Contracted.of_walk (h : Contracted step n step') {s q : V} {d : L} (hq : q ≠ n)
    (hwalk : Walk step s q d) : (s ≠ n → Within step' s q d) ∧
      (s = n → ∀ u a, u ≠ n → step u a n → Within step' u q (a + d)) := by
  induction hwalk with
  | nil u => exact ⟨fun _ => ⟨0, le_refl _, Walk.nil u⟩, fun hu => absurd hu hq⟩
  | @cons s v q a d hstep _ ih =>
    obtain ⟨past, via⟩ := ih hq
    constructor
    · intro hs
      by_cases hv : v = n
      · exact via hv s a hs (hv ▸ hstep)
      · exact (h.past s a v hs hv hstep).append (past hv)
    · rintro rfl u b hu hinto
      have hv : v ≠ s := by
        rintro rfl
        exact h.loop a hstep
      rw [← add_assoc]
      exact (h.through u b a v hu hv hinto hstep).append (past hv)

theorem Contracted.within_iff (h : Contracted step n step') {p q : V} (hp : p ≠ n) (hq : q ≠ n)
    (c : L) : Within step p q c ↔ Within step' p q c := by
  constructor
  · rintro ⟨c', hc', hwalk⟩
    exact ((h.of_walk hq hwalk).1 hp).mono hc'
  · rintro ⟨c', hc', hwalk⟩
    exact (h.of_walk' hwalk).mono hc'

end contraction

end Pfaedle.MinLengths

import Mathlib.Algebra.Order.Field.Basic
import Mathlib.Tactic.Linarith
import Mathlib.Tactic.Ring

set_option autoImplicit false

/-!
# Segments in a plane

Points have coordinates in an ordered field. The nearest point of a segment is the foot of the
perpendicular, moved to the nearer end when it lies outside.
-/
namespace PlaneSegment

section plane
variable {C : Type*} [Field C]

def sqDist (p q : C × C) : C := (q.1 - p.1) * (q.1 - p.1) + (q.2 - p.2) * (q.2 - p.2)

/-- How far `p` lies in the direction of `b`, seen from `a`. -/
def dot (a b p : C × C) : C := (p.1 - a.1) * (b.1 - a.1) + (p.2 - a.2) * (b.2 - a.2)

def pointAt (a b : C × C) (t : C) : C × C := (a.1 + t * (b.1 - a.1), a.2 + t * (b.2 - a.2))

@[simp]
theorem pointAt_zero (a b : C × C) : pointAt a b 0 = a := by
  simp [pointAt]

@[simp]
theorem pointAt_one (a b : C × C) : pointAt a b 1 = b := by
  simp [pointAt]

@[simp]
theorem pointAt_self (a : C × C) (t : C) : pointAt a a t = a := by
  simp [pointAt]

@[simp]
theorem sqDist_self (a : C × C) : sqDist a a = 0 := by
  simp [sqDist]

theorem sqDist_pointAt (a b : C × C) (s t : C) :
    sqDist (pointAt a b s) (pointAt a b t) = (t - s) * (t - s) * sqDist a b := by
  unfold sqDist pointAt
  ring

theorem sqDist_left_pointAt (a b : C × C) (t : C) :
    sqDist a (pointAt a b t) = t * t * sqDist a b := by
  have hline := sqDist_pointAt a b 0 t
  rwa [pointAt_zero, sub_zero] at hline

theorem sqDist_right_pointAt (a b : C × C) (t : C) :
    sqDist b (pointAt a b t) = (t - 1) * (t - 1) * sqDist a b := by
  have hline := sqDist_pointAt a b 1 t
  rwa [pointAt_one] at hline

theorem sqDist_to_pointAt (a b p : C × C) (t : C) :
    sqDist p (pointAt a b t) = sqDist p a - t * dot a b p - t * dot a b p + t * t * sqDist a b := by
  unfold sqDist pointAt dot
  ring

end plane

section nearest
variable {C : Type*} [Field C] [LinearOrder C] [IsStrictOrderedRing C]

theorem sqDist_nonneg (p q : C × C) : 0 ≤ sqDist p q :=
  add_nonneg (mul_self_nonneg _) (mul_self_nonneg _)

theorem sqDist_eq_zero_iff {p q : C × C} : sqDist p q = 0 ↔ p = q := by
  constructor
  · intro h
    have hx : q.1 - p.1 = 0 := by
      apply mul_self_eq_zero.1
      apply le_antisymm _ (mul_self_nonneg _)
      have := mul_self_nonneg (q.2 - p.2)
      unfold sqDist at h
      linarith
    have hy : q.2 - p.2 = 0 := by
      apply mul_self_eq_zero.1
      apply le_antisymm _ (mul_self_nonneg _)
      have := mul_self_nonneg (q.1 - p.1)
      unfold sqDist at h
      linarith
    exact Prod.ext (sub_eq_zero.1 hx).symm (sub_eq_zero.1 hy).symm
  · rintro rfl
    exact sqDist_self p

def param (a b p : C × C) : C := max 0 (min 1 (dot a b p / sqDist a b))

def nearest (a b p : C × C) : C × C := pointAt a b (param a b p)

omit [IsStrictOrderedRing C] in
theorem param_nonneg (a b p : C × C) : 0 ≤ param a b p := le_max_left _ _

theorem param_le_one (a b p : C × C) : param a b p ≤ 1 :=
  max_le zero_le_one (min_le_left _ _)

theorem param_of_nonpos {a b p : C × C} (h : dot a b p / sqDist a b ≤ 0) : param a b p = 0 := by
  rw [param, min_eq_right (h.trans zero_le_one), max_eq_left h]

theorem param_of_one_le {a b p : C × C} (h : 1 ≤ dot a b p / sqDist a b) : param a b p = 1 := by
  rw [param, min_eq_left h, max_eq_right zero_le_one]

omit [IsStrictOrderedRing C] in
theorem param_of_between {a b p : C × C} (h₀ : 0 ≤ dot a b p / sqDist a b)
    (h₁ : dot a b p / sqDist a b ≤ 1) : param a b p = dot a b p / sqDist a b := by
  rw [param, min_eq_right h₁, max_eq_right h₀]

/-- Moving the foot into `[0, 1]` turns no direction that leads to a place inside. -/
theorem param_turns {a b p : C × C} {t : C} (h₀ : 0 ≤ t) (h₁ : t ≤ 1) :
    0 ≤ (t - param a b p) * (param a b p - dot a b p / sqDist a b) := by
  rcases le_total (dot a b p / sqDist a b) 0 with hlow | hlow
  · rw [param_of_nonpos hlow]
    exact mul_nonneg (by linarith) (by linarith)
  rcases le_total (dot a b p / sqDist a b) 1 with hup | hup
  · rw [param_of_between hlow hup, sub_self, mul_zero]
  · rw [param_of_one_le hup]
    exact mul_nonneg_of_nonpos_of_nonpos (by linarith) (by linarith)

/-- Every point of the segment is farther away than the nearest one by at least what lies between
them. -/
theorem sqDist_nearest_add_le (a b p : C × C) {t : C} (h₀ : 0 ≤ t) (h₁ : t ≤ 1) :
    sqDist p (nearest a b p) + sqDist (nearest a b p) (pointAt a b t) ≤
      sqDist p (pointAt a b t) := by
  rcases (sqDist_nonneg a b).eq_or_lt with hzero | hpos
  · have hab : a = b := sqDist_eq_zero_iff.1 hzero.symm
    subst hab
    simp [nearest]
  · have hfoot : dot a b p = dot a b p / sqDist a b * sqDist a b :=
      (div_mul_cancel₀ _ hpos.ne').symm
    have hturn := mul_nonneg (param_turns (a := a) (b := b) (p := p) h₀ h₁) hpos.le
    rw [nearest, sqDist_pointAt, sqDist_to_pointAt, sqDist_to_pointAt, hfoot]
    generalize dot a b p / sqDist a b = foot at *
    nlinarith [hturn]

theorem sqDist_nearest_le (a b p : C × C) {t : C} (h₀ : 0 ≤ t) (h₁ : t ≤ 1) :
    sqDist p (nearest a b p) ≤ sqDist p (pointAt a b t) := by
  have hsum := sqDist_nearest_add_le a b p h₀ h₁
  have hrest := sqDist_nonneg (nearest a b p) (pointAt a b t)
  linarith

theorem eq_nearest {a b p : C × C} {t : C} (h₀ : 0 ≤ t) (h₁ : t ≤ 1)
    (h : sqDist p (pointAt a b t) ≤ sqDist p (nearest a b p)) :
    pointAt a b t = nearest a b p := by
  have hsum := sqDist_nearest_add_le a b p h₀ h₁
  apply (sqDist_eq_zero_iff.1 _).symm
  exact le_antisymm (by linarith) (sqDist_nonneg _ _)

theorem nearest_eq_left_iff {a b p : C × C} : nearest a b p = a ↔ dot a b p ≤ 0 := by
  rcases (sqDist_nonneg a b).eq_or_lt with hzero | hpos
  · have hab : a = b := sqDist_eq_zero_iff.1 hzero.symm
    subst hab
    simp [nearest, dot]
  · constructor
    · intro h
      by_contra hdot
      have hfoot : 0 < dot a b p / sqDist a b := div_pos (not_le.1 hdot) hpos
      have hzero : sqDist a (nearest a b p) = 0 := by rw [h, sqDist_self]
      rw [nearest, sqDist_left_pointAt] at hzero
      have hparam : 0 < param a b p := lt_max_of_lt_right (lt_min one_pos hfoot)
      exact (mul_pos (mul_pos hparam hparam) hpos).ne' hzero
    · intro h
      rw [nearest, param_of_nonpos (div_nonpos_of_nonpos_of_nonneg h hpos.le), pointAt_zero]

end nearest

structure ExactRoot (C : Type*) [Field C] [LinearOrder C] where
  sqrt : C → C
  sqrt_nonneg : ∀ x, 0 ≤ sqrt x
  mul_self_sqrt : ∀ x, 0 ≤ x → sqrt x * sqrt x = x

section root
variable {C : Type*} [Field C] [LinearOrder C] [IsStrictOrderedRing C] (R : ExactRoot C)

theorem sqrt_le_sqrt_iff {x y : C} (hx : 0 ≤ x) (hy : 0 ≤ y) :
    R.sqrt x ≤ R.sqrt y ↔ x ≤ y := by
  rw [mul_self_le_mul_self_iff (R.sqrt_nonneg x) (R.sqrt_nonneg y), R.mul_self_sqrt x hx,
    R.mul_self_sqrt y hy]

theorem sqrt_lt_sqrt_iff {x y : C} (hx : 0 ≤ x) (hy : 0 ≤ y) :
    R.sqrt x < R.sqrt y ↔ x < y := by
  rw [← not_le, ← not_le, sqrt_le_sqrt_iff R hy hx]

theorem sqrt_eq_zero_iff {x : C} (hx : 0 ≤ x) : R.sqrt x = 0 ↔ x = 0 := by
  constructor
  · intro h
    rw [← R.mul_self_sqrt x hx, h, mul_zero]
  · rintro rfl
    exact mul_self_eq_zero.1 (R.mul_self_sqrt 0 le_rfl)

end root

end PlaneSegment

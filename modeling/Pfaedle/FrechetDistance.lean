import Pfaedle.BottleneckPath
import Mathlib.Algebra.Order.Ring.Defs
import Mathlib.Algebra.Order.Ring.Int

set_option autoImplicit false

/-!
# `frechetDistC`

The table is handed from call to call; an entry of `-1` is not computed yet. Arguments of
`std::min` and `std::max` are evaluated from left to right.
-/
namespace Pfaedle.Geo
open BottleneckPath

section model
variable {P C : Type*} [Ring C] [LinearOrder C] (dist : P → P → C)

def store (ca : ℕ × ℕ → C) (c : ℕ × ℕ) (v : C) : C × (ℕ × ℕ → C) := (v, Function.update ca c v)

def frechetDistC (p q : List P) (i j : ℕ) (hi : i < p.length) (hj : j < q.length)
    (ca : ℕ × ℕ → C) : C × (ℕ × ℕ → C) :=
  if -1 < ca (i, j) then (ca (i, j), ca)
  else
    match i, j with
    | 0, 0 => store ca (0, 0) (dist p[0] q[0])
    | i + 1, 0 =>
      let (v, ca) := frechetDistC p q i 0 (by omega) hj ca
      store ca (i + 1, 0) (max v (dist p[i + 1] q[0]))
    | 0, j + 1 =>
      let (v, ca) := frechetDistC p q 0 j hi (by omega) ca
      store ca (0, j + 1) (max v (dist p[0] q[j + 1]))
    | i + 1, j + 1 =>
      let (v₁, ca) := frechetDistC p q i (j + 1) (by omega) hj ca
      let (v₂, ca) := frechetDistC p q i j (by omega) (by omega) ca
      let (v₃, ca) := frechetDistC p q (i + 1) j hi (by omega) ca
      store ca (i + 1, j + 1) (max (min (min v₁ v₂) v₃) (dist p[i + 1] q[j + 1]))
termination_by i + j

/-- The greatest distance of a coupled pair of points. -/
def IsWidth (p q : List P) (pairs : List (ℕ × ℕ)) (w : C) : Prop :=
  IsGreatest {x | ∃ c ∈ pairs, ∃ a b, p[c.1]? = some a ∧ q[c.2]? = some b ∧ x = dist a b} w

def placeDist (p q : List P) (c : ℕ × ℕ) : C :=
  if h : c.1 < p.length ∧ c.2 < q.length then dist p[c.1] q[c.2] else 0

def TableValid (p q : List P) (ca : ℕ × ℕ → C) : Prop :=
  ∀ c : ℕ × ℕ, ca c = -1 ∨ ca c = bottleneck (placeDist dist p q) c.1 c.2

end model

section table
variable {P C : Type*} [Ring C] {dist : P → P → C} {p q : List P}

theorem placeDist_eq {i j : ℕ} (hi : i < p.length) (hj : j < q.length) :
    placeDist dist p q (i, j) = dist p[i] q[j] := dif_pos ⟨hi, hj⟩

variable [LinearOrder C]

theorem TableValid.store {ca : ℕ × ℕ → C} {i j : ℕ} {v : C} (h : TableValid dist p q ca)
    (hv : v = bottleneck (placeDist dist p q) i j) :
    (store ca (i, j) v).1 = bottleneck (placeDist dist p q) i j ∧
      TableValid dist p q (store ca (i, j) v).2 := by
  refine ⟨hv, fun c => ?_⟩
  by_cases hc : c = (i, j)
  · subst hc
    exact .inr (by simp [Geo.store, hv])
  · rcases h c with hopen | hdone
    · exact .inl (by simp [Geo.store, hc, hopen])
    · exact .inr (by simp [Geo.store, hc, hdone])

/-- Whatever was computed before, a call returns its entry and leaves a valid table. -/
theorem frechetDistC_valid {i j : ℕ} (hi : i < p.length) (hj : j < q.length) {ca : ℕ × ℕ → C}
    (h : TableValid dist p q ca) :
    (frechetDistC dist p q i j hi hj ca).1 = bottleneck (placeDist dist p q) i j ∧
      TableValid dist p q (frechetDistC dist p q i j hi hj ca).2 := by
  fun_induction frechetDistC dist p q i j hi hj ca with
  | case1 i j hi hj ca hdone =>
    refine ⟨?_, h⟩
    rcases h (i, j) with hopen | hvalue
    · rw [hopen] at hdone
      exact absurd hdone (lt_irrefl _)
    · exact hvalue
  | case2 ca hi hj hi' hj' hopen =>
    apply h.store
    rw [bottleneck, placeDist_eq hi hj]
  | case3 ca i hi hj v ca' hcall hi' hj' hopen ih =>
    rw [hcall] at ih
    obtain ⟨hv, hca'⟩ := ih h
    apply hca'.store
    rw [bottleneck, placeDist_eq hi hj, ← hv]
  | case4 ca j hi hj v ca' hcall hi' hj' hopen ih =>
    rw [hcall] at ih
    obtain ⟨hv, hca'⟩ := ih h
    apply hca'.store
    rw [bottleneck, placeDist_eq hi hj, ← hv]
  | case5 ca i j hi hj v₁ ca₁ hcall₁ v₂ ca₂ hcall₂ v₃ ca₃ hcall₃ hi' hj' hopen ih₃ ih₂ ih₁ =>
    -- Each call meets the entries that the calls before it left.
    rw [hcall₁] at ih₃
    rw [hcall₂] at ih₂
    rw [hcall₃] at ih₁
    obtain ⟨hv₁, hca₁⟩ := ih₃ h
    obtain ⟨hv₂, hca₂⟩ := ih₂ hca₁
    obtain ⟨hv₃, hca₃⟩ := ih₁ hca₂
    apply hca₃.store
    rw [bottleneck, placeDist_eq hi hj, ← hv₁, ← hv₂, ← hv₃]

theorem isWidth_iff {pairs : List (ℕ × ℕ)} {i j : ℕ} (hi : i < p.length) (hj : j < q.length)
    (h : Couples pairs (i, j)) (w : C) :
    IsWidth dist p q pairs w ↔ IsGreatest {x | ∃ c ∈ pairs, x = placeDist dist p q c} w := by
  have hsame : {x | ∃ c ∈ pairs, ∃ a b, p[c.1]? = some a ∧ q[c.2]? = some b ∧ x = dist a b} =
      {x | ∃ c ∈ pairs, x = placeDist dist p q c} := by
    ext x
    constructor
    · rintro ⟨c, hc, a, b, ha, hb, rfl⟩
      obtain ⟨hc₁, rfl⟩ := List.getElem?_eq_some_iff.1 ha
      obtain ⟨hc₂, rfl⟩ := List.getElem?_eq_some_iff.1 hb
      exact ⟨c, hc, (placeDist_eq hc₁ hc₂).symm⟩
    · rintro ⟨c, hc, rfl⟩
      obtain ⟨hc₁, hc₂⟩ := h.le c hc
      have hi' : c.1 < p.length := Nat.lt_of_le_of_lt hc₁ hi
      have hj' : c.2 < q.length := Nat.lt_of_le_of_lt hc₂ hj
      exact ⟨c, hc, _, _, List.getElem?_eq_getElem hi', List.getElem?_eq_getElem hj',
        placeDist_eq hi' hj'⟩
  rw [IsWidth, hsame]

/-- On a table of `-1` the recursion returns the minimum over the couplings of the maximum
distance of a coupled pair. -/
theorem frechetDistC_isLeast (dist : P → P → C) (p q : List P) (hp : 0 < p.length)
    (hq : 0 < q.length) :
    IsLeast {w | ∃ pairs, Couples pairs (p.length - 1, q.length - 1) ∧ IsWidth dist p q pairs w}
      (frechetDistC dist p q (p.length - 1) (q.length - 1) (by omega) (by omega)
        (fun _ => -1)).1 := by
  have hi : p.length - 1 < p.length := by omega
  have hj : q.length - 1 < q.length := by omega
  have hopen : TableValid dist p q fun _ => -1 := fun _ => .inl rfl
  have hwidths : {w | ∃ pairs, Couples pairs (p.length - 1, q.length - 1) ∧
      IsWidth dist p q pairs w} = {w | ∃ pairs, Couples pairs (p.length - 1, q.length - 1) ∧
        IsGreatest {x | ∃ c ∈ pairs, x = placeDist dist p q c} w} :=
    Set.ext fun w => exists_congr fun pairs => and_congr_right fun h => isWidth_iff hi hj h w
  rw [(frechetDistC_valid hi hj hopen).1, hwidths]
  exact bottleneck_isLeast _ _ _

/-- Two lines of two numbers each, walked side by side. -/
theorem frechetDistC_isLeast_numbers :
    IsLeast {w | ∃ pairs, Couples pairs (1, 1) ∧
        IsWidth (fun a b : ℤ => |a - b|) [0, 5] [1, 7] pairs w}
      (frechetDistC (fun a b : ℤ => |a - b|) [0, 5] [1, 7] 1 1 (by decide) (by decide)
        (fun _ => -1)).1 :=
  frechetDistC_isLeast (fun a b : ℤ => |a - b|) [0, 5] [1, 7] (by decide) (by decide)

end table

end Pfaedle.Geo

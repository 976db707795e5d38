import Mathlib.Algebra.Order.Monoid.WithTop
import Mathlib.Algebra.BigOperators.Group.List.Basic
import Pfaedle.BottleneckPath

set_option autoImplicit false

/-!
# Cheapest couplings

A monotone path leaves the first row and the first column of the table with its first step, and
pays for every place but `(0, 0)`. The recurrence over the three predecessors gives the least price
of such a path, and `⊤` where there is none.
-/
namespace Pfaedle.CheapestCoupling
open BottleneckPath

def Inner (pairs : List (ℕ × ℕ)) : Prop := ∀ c ∈ pairs.tail, 0 < c.1 ∧ 0 < c.2

theorem Couples.ne_nil {pairs : List (ℕ × ℕ)} {b : ℕ × ℕ} (h : Couples pairs b) : pairs ≠ [] := by
  cases h <;> simp

theorem inner_append {pairs : List (ℕ × ℕ)} {b : ℕ × ℕ} (h : pairs ≠ []) :
    Inner (pairs ++ [b]) ↔ Inner pairs ∧ 0 < b.1 ∧ 0 < b.2 := by
  rw [Inner, List.tail_append_of_ne_nil h, List.forall_mem_append, List.forall_mem_singleton]
  rfl

section price
variable {C : Type*} [AddCommMonoid C] [LinearOrder C] [IsOrderedAddMonoid C] (cost : ℕ × ℕ → C)

def cheapest : ℕ → ℕ → WithTop C
  | 0, 0 => 0
  | _ + 1, 0 => ⊤
  | 0, _ + 1 => ⊤
  | i + 1, j + 1 =>
    cost (i + 1, j + 1) + min (cheapest i (j + 1)) (min (cheapest (i + 1) j) (cheapest i j))
termination_by i j => i + j

def price (pairs : List (ℕ × ℕ)) : C := (pairs.tail.map cost).sum

omit [LinearOrder C] [IsOrderedAddMonoid C] in
theorem price_append {pairs : List (ℕ × ℕ)} (h : pairs ≠ []) (b : ℕ × ℕ) :
    price cost (pairs ++ [b]) = cost b + price cost pairs := by
  rw [price, List.tail_append_of_ne_nil h, List.map_append, List.sum_append, add_comm]
  simp [price]

theorem cheapest_step {a b : ℕ × ℕ} (h : Advance a b) (hb : 0 < b.1 ∧ 0 < b.2) :
    cheapest cost b.1 b.2 ≤ cost b + cheapest cost a.1 a.2 := by
  cases h with
  | first i j =>
    obtain ⟨j, rfl⟩ := Nat.exists_eq_succ_of_ne_zero hb.2.ne'
    rw [cheapest]
    exact add_le_add_right (min_le_left _ _) _
  | both i j =>
    rw [cheapest]
    exact add_le_add_right ((min_le_right _ _).trans (min_le_right _ _)) _
  | second i j =>
    obtain ⟨i, rfl⟩ := Nat.exists_eq_succ_of_ne_zero hb.1.ne'
    rw [cheapest]
    exact add_le_add_right ((min_le_right _ _).trans (min_le_left _ _)) _

theorem cheapest_le {pairs : List (ℕ × ℕ)} {b : ℕ × ℕ} (h : Couples pairs b)
    (hin : Inner pairs) : cheapest cost b.1 b.2 ≤ price cost pairs := by
  induction h with
  | start =>
    rw [cheapest]
    exact le_refl _
  | @advance pairs a b h hstep ih =>
    obtain ⟨hin, hb⟩ := (inner_append (Couples.ne_nil h)).1 hin
    rw [price_append cost (Couples.ne_nil h), WithTop.coe_add]
    exact (cheapest_step cost hstep hb).trans (add_le_add_right (ih hin) _)

def Attained (i j : ℕ) : Prop :=
  ∃ pairs, Couples pairs (i, j) ∧ Inner pairs ∧ cheapest cost i j = price cost pairs

section
omit [IsOrderedAddMonoid C]

theorem Attained.extend {a b : ℕ × ℕ} (h : Attained cost a.1 a.2) (hstep : Advance a b)
    (hb : 0 < b.1 ∧ 0 < b.2) (heq : cheapest cost b.1 b.2 = cost b + cheapest cost a.1 a.2) :
    Attained cost b.1 b.2 := by
  obtain ⟨pairs, hpairs, hin, hprice⟩ := h
  have hne := Couples.ne_nil hpairs
  refine ⟨pairs ++ [b], hpairs.advance hstep, (inner_append hne).2 ⟨hin, hb⟩, ?_⟩
  rw [heq, hprice, price_append cost hne, WithTop.coe_add]

theorem cheapest_attained (i j : ℕ) (h : cheapest cost i j ≠ ⊤) : Attained cost i j := by
  fun_induction cheapest cost i j with
  | case1 => exact ⟨_, .start, by simp [Inner], by simp [cheapest, price]⟩
  | case2 i => exact absurd rfl h
  | case3 j => exact absurd rfl h
  | case4 i j ih₁ ih₂ ih₃ =>
    have hpos : 0 < i + 1 ∧ 0 < j + 1 := ⟨Nat.succ_pos i, Nat.succ_pos j⟩
    have hmin : min (cheapest cost i (j + 1)) (min (cheapest cost (i + 1) j) (cheapest cost i j)) ≠
        ⊤ := fun htop => h (by rw [htop, WithTop.add_top])
    have heq : cheapest cost (i + 1) (j + 1) = cost (i + 1, j + 1) +
        min (cheapest cost i (j + 1)) (min (cheapest cost (i + 1) j) (cheapest cost i j)) := by
      rw [cheapest]
    rcases min_choice (cheapest cost i (j + 1)) (min (cheapest cost (i + 1) j) (cheapest cost i j))
      with hfirst | hrest
    · rw [hfirst] at hmin heq
      exact (ih₁ hmin).extend cost (a := (i, j + 1)) (.first i (j + 1)) hpos heq
    · rw [hrest] at hmin heq
      rcases min_choice (cheapest cost (i + 1) j) (cheapest cost i j) with hsecond | hboth
      · rw [hsecond] at hmin heq
        exact (ih₂ hmin).extend cost (a := (i + 1, j)) (.second (i + 1) j) hpos heq
      · rw [hboth] at hmin heq
        exact (ih₃ hmin).extend cost (a := (i, j)) (.both i j) hpos heq

theorem cheapest_succ_eq_top {i j : ℕ} (h : cheapest cost (i + 1) (j + 1) = ⊤) :
    cheapest cost i (j + 1) = ⊤ ∧ cheapest cost (i + 1) j = ⊤ ∧ cheapest cost i j = ⊤ := by
  rw [cheapest, WithTop.add_eq_top, or_iff_right WithTop.coe_ne_top, min_eq_top, min_eq_top] at h
  exact h

theorem cheapest_ne_top (i j : ℕ) : cheapest cost (i + 1) (j + 1) ≠ ⊤ := by
  intro htop
  induction i with
  | zero =>
    induction j with
    | zero =>
      have hstart := (cheapest_succ_eq_top cost htop).2.2
      rw [cheapest] at hstart
      exact WithTop.zero_ne_top hstart
    | succ j ih => exact ih (cheapest_succ_eq_top cost htop).2.1
  | succ i ih => exact ih (cheapest_succ_eq_top cost htop).1

theorem cheapest_eq_top_iff (i j : ℕ) :
    cheapest cost i j = ⊤ ↔ (i = 0 ∧ j ≠ 0) ∨ (i ≠ 0 ∧ j = 0) := by
  cases i with
  | zero => cases j <;> simp [cheapest]
  | succ i =>
    cases j with
    | zero => simp [cheapest]
    | succ j => simp [cheapest_ne_top]

end

/-- The least price of a path, where there is one. -/
theorem cheapest_isLeast (i j : ℕ) (w : C) (h : cheapest cost i j = w) :
    IsLeast {x | ∃ pairs, Couples pairs (i, j) ∧ Inner pairs ∧ x = price cost pairs} w := by
  constructor
  · obtain ⟨pairs, hpairs, hin, hprice⟩ := cheapest_attained cost i j (by simp [h])
    exact ⟨pairs, hpairs, hin, WithTop.coe_injective (h.symm.trans hprice)⟩
  · rintro x ⟨pairs, hpairs, hin, rfl⟩
    have hle := cheapest_le cost hpairs hin
    rw [h] at hle
    exact WithTop.coe_le_coe.1 hle

end price

end Pfaedle.CheapestCoupling

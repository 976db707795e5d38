import Mathlib.Order.Bounds.Basic
import Mathlib.Order.MinMax

set_option autoImplicit false

/-!
# Monotone paths through a table

A path starts at `(0, 0)` and goes up by one in one coordinate or in both. The recurrence over
the three predecessors gives the least width of the paths to a place, where the width of a path is
the greatest entry on it.
-/
namespace Pfaedle.BottleneckPath

inductive Advance : ℕ × ℕ → ℕ × ℕ → Prop
  | first (i j : ℕ) : Advance (i, j) (i + 1, j)
  | both (i j : ℕ) : Advance (i, j) (i + 1, j + 1)
  | second (i j : ℕ) : Advance (i, j) (i, j + 1)

/-- The list is a monotone path from `(0, 0)` to its last place. -/
inductive Couples : List (ℕ × ℕ) → ℕ × ℕ → Prop
  | start : Couples [(0, 0)] (0, 0)
  | advance {pairs : List (ℕ × ℕ)} {a b : ℕ × ℕ} :
      Couples pairs a → Advance a b → Couples (pairs ++ [b]) b

theorem Couples.le {pairs : List (ℕ × ℕ)} {b : ℕ × ℕ} (h : Couples pairs b) :
    ∀ c ∈ pairs, c.1 ≤ b.1 ∧ c.2 ≤ b.2 := by
  induction h with
  | start => simp
  | advance h hstep ih =>
    intro c hc
    rcases List.mem_append.1 hc with hc | hc
    · have hle := ih c hc
      cases hstep <;> simp at hle ⊢ <;> omega
    · rw [List.mem_singleton.1 hc]
      exact ⟨Nat.le_refl _, Nat.le_refl _⟩

section width
variable {C : Type*} [LinearOrder C] (cost : ℕ × ℕ → C)

def bottleneck : ℕ → ℕ → C
  | 0, 0 => cost (0, 0)
  | i + 1, 0 => max (bottleneck i 0) (cost (i + 1, 0))
  | 0, j + 1 => max (bottleneck 0 j) (cost (0, j + 1))
  | i + 1, j + 1 =>
    max (min (min (bottleneck i (j + 1)) (bottleneck i j)) (bottleneck (i + 1) j))
      (cost (i + 1, j + 1))
termination_by i j => i + j

/-- With one step more the width grows to the entry of the new place at most. -/
theorem bottleneck_step {a b : ℕ × ℕ} (h : Advance a b) :
    bottleneck cost b.1 b.2 ≤ max (bottleneck cost a.1 a.2) (cost b) := by
  cases h with
  | first i j =>
    cases j with
    | zero => rw [bottleneck]
    | succ j =>
      rw [bottleneck]
      exact max_le_max ((min_le_left _ _).trans (min_le_left _ _)) (le_refl _)
  | both i j =>
    rw [bottleneck]
    exact max_le_max ((min_le_left _ _).trans (min_le_right _ _)) (le_refl _)
  | second i j =>
    cases i with
    | zero => rw [bottleneck]
    | succ i =>
      rw [bottleneck]
      exact max_le_max (min_le_right _ _) (le_refl _)

theorem bottleneck_le {pairs : List (ℕ × ℕ)} {b : ℕ × ℕ} (h : Couples pairs b) :
    ∃ c ∈ pairs, bottleneck cost b.1 b.2 ≤ cost c := by
  induction h with
  | start =>
    rw [bottleneck]
    exact ⟨(0, 0), List.mem_singleton_self _, le_refl _⟩
  | @advance pairs a b h hstep ih =>
    rcases le_max_iff.1 (bottleneck_step cost hstep) with hle | hle
    · obtain ⟨c, hc, hcost⟩ := ih
      exact ⟨c, List.mem_append_left _ hc, hle.trans hcost⟩
    · exact ⟨b, by simp, hle⟩

theorem Couples.extend {pairs : List (ℕ × ℕ)} {a b : ℕ × ℕ} {w : C} (h : Couples pairs a)
    (hstep : Advance a b) (hle : ∀ c ∈ pairs, cost c ≤ w) :
    ∃ pairs', Couples pairs' b ∧ ∀ c ∈ pairs', cost c ≤ max w (cost b) := by
  refine ⟨pairs ++ [b], h.advance hstep, fun c hc => ?_⟩
  rcases List.mem_append.1 hc with hc | hc
  · exact (hle c hc).trans (le_max_left _ _)
  · rw [List.mem_singleton.1 hc]
    exact le_max_right _ _

theorem bottleneck_path (i j : ℕ) :
    ∃ pairs, Couples pairs (i, j) ∧ ∀ c ∈ pairs, cost c ≤ bottleneck cost i j := by
  fun_induction bottleneck cost i j with
  | case1 => exact ⟨_, .start, by simp⟩
  | case2 i ih =>
    obtain ⟨pairs, hpairs, hle⟩ := ih
    exact hpairs.extend cost (.first i 0) hle
  | case3 j ih =>
    obtain ⟨pairs, hpairs, hle⟩ := ih
    exact hpairs.extend cost (.second 0 j) hle
  | case4 i j ih₁ ih₂ ih₃ =>
    rcases min_choice (min (bottleneck cost i (j + 1)) (bottleneck cost i j))
      (bottleneck cost (i + 1) j) with hmin | hmin
    · rw [hmin]
      rcases min_choice (bottleneck cost i (j + 1)) (bottleneck cost i j) with hmin' | hmin'
      · obtain ⟨pairs, hpairs, hle⟩ := ih₁
        rw [hmin']
        exact hpairs.extend cost (.first i (j + 1)) hle
      · obtain ⟨pairs, hpairs, hle⟩ := ih₂
        rw [hmin']
        exact hpairs.extend cost (.both i j) hle
    · obtain ⟨pairs, hpairs, hle⟩ := ih₃
      rw [hmin]
      exact hpairs.extend cost (.second (i + 1) j) hle

/-- The recurrence is the minimum over the paths of the maximum on the path. -/
theorem bottleneck_isLeast (i j : ℕ) :
    IsLeast {w | ∃ pairs, Couples pairs (i, j) ∧ IsGreatest {x | ∃ c ∈ pairs, x = cost c} w}
      (bottleneck cost i j) := by
  constructor
  · obtain ⟨pairs, hpairs, hle⟩ := bottleneck_path cost i j
    obtain ⟨c, hc, hge⟩ := bottleneck_le cost hpairs
    refine ⟨pairs, hpairs, ⟨c, hc, le_antisymm hge (hle c hc)⟩, ?_⟩
    rintro x ⟨c', hc', rfl⟩
    exact hle c' hc'
  · rintro w ⟨pairs, hpairs, hw⟩
    obtain ⟨c, hc, hge⟩ := bottleneck_le cost hpairs
    exact hge.trans (hw.2 ⟨c, hc, rfl⟩)

end width

end Pfaedle.BottleneckPath

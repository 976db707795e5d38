import Mathlib.Data.List.Perm.Basic
import Mathlib.Logic.Function.Basic
import Mathlib.Order.Lattice

set_option autoImplicit false

/-!
# Merging sorted runs

`k` sorted runs are merged by taking away a least head again and again.
-/
namespace Pfaedle.MultiwayMerge

section perm
variable {α : Type*} {runs : ℕ → List α} {k p : ℕ} {x : α} {rest : List α}

theorem flatMap_update_of_le (h : k ≤ p) :
    (List.range k).flatMap (Function.update runs p rest) = (List.range k).flatMap runs := by
  apply List.flatMap_congr
  intro j hj
  have hne : j ≠ p := by
    have hlt := List.mem_range.1 hj
    omega
  rw [Function.update_of_ne hne]

theorem flatMap_update_perm (hp : p < k) (hrun : runs p = x :: rest) :
    ((List.range k).flatMap runs).Perm
      (x :: (List.range k).flatMap (Function.update runs p rest)) := by
  induction k with
  | zero => omega
  | succ k ih =>
    simp only [List.range_succ, List.flatMap_append, List.flatMap_singleton]
    by_cases hpk : p = k
    · subst hpk
      rw [flatMap_update_of_le (Nat.le_refl p), Function.update_self, hrun]
      exact List.perm_middle
    · rw [Function.update_of_ne (Ne.symm hpk)]
      exact (ih (by omega)).append_right _

end perm

section merge
variable {α : Type*} [LinearOrder α] {xs : List α} {k : ℕ} {runs : ℕ → List α} {out : List α}

/-- `out` has been merged so far out of the entries of `xs`, and the runs hold the others. -/
structure Merging (xs : List α) (k : ℕ) (runs : ℕ → List α) (out : List α) : Prop where
  perm : xs.Perm (out ++ (List.range k).flatMap runs)
  runs_sorted : ∀ j, j < k → (runs j).Pairwise (· ≤ ·)
  out_sorted : out.Pairwise (· ≤ ·)
  out_le : ∀ x ∈ out, ∀ j, j < k → ∀ y ∈ runs j, x ≤ y

theorem merging_nil (hperm : xs.Perm ((List.range k).flatMap runs))
    (hsorted : ∀ j, j < k → (runs j).Pairwise (· ≤ ·)) : Merging xs k runs [] :=
  ⟨by simpa using hperm, hsorted, List.Pairwise.nil, by simp⟩

theorem Merging.exists_run (h : Merging xs k runs out) (hlen : out.length < xs.length) :
    ∃ p, p < k ∧ runs p ≠ [] := by
  by_contra hnone
  push Not at hnone
  have hnil : (List.range k).flatMap runs = [] := by
    rw [List.flatMap_eq_nil_iff]
    exact fun j hj => hnone j (List.mem_range.1 hj)
  have hperm := h.perm.length_eq
  rw [hnil, List.append_nil] at hperm
  omega

theorem Merging.sorted_of_length (h : Merging xs k runs out) (hlen : out.length = xs.length) :
    xs.Perm out ∧ out.Pairwise (· ≤ ·) := by
  have hperm := h.perm
  have hnil : (List.range k).flatMap runs = [] := by
    have hl := hperm.length_eq
    rw [List.length_append] at hl
    exact List.eq_nil_of_length_eq_zero (by omega)
  rw [hnil, List.append_nil] at hperm
  exact ⟨hperm, h.out_sorted⟩

theorem Merging.head_le (h : Merging xs k runs out) {x : α}
    (hleast : ∀ j, j < k → ∀ y, (runs j).head? = some y → x ≤ y) :
    ∀ j, j < k → ∀ y ∈ runs j, x ≤ y := by
  intro j hj y hy
  cases hrun : runs j with
  | nil => simp [hrun] at hy
  | cons z zs =>
    have hz : x ≤ z := hleast j hj z (by rw [hrun]; rfl)
    have hsorted := h.runs_sorted j hj
    rw [hrun] at hsorted hy
    cases List.mem_cons.1 hy with
    | inl he => rw [he]; exact hz
    | inr hin => exact le_trans hz (List.rel_of_pairwise_cons hsorted hin)

theorem Merging.take (h : Merging xs k runs out) {p : ℕ} (hp : p < k) {x : α} {rest : List α}
    (hrun : runs p = x :: rest)
    (hleast : ∀ j, j < k → ∀ y, (runs j).head? = some y → x ≤ y) :
    Merging xs k (Function.update runs p rest) (out ++ [x]) := by
  have hsub : ∀ j, ∀ y ∈ Function.update runs p rest j, y ∈ runs j := by
    intro j y hy
    by_cases hjp : j = p
    · subst hjp
      rw [Function.update_self] at hy
      rw [hrun]
      exact List.mem_cons_of_mem x hy
    · rwa [Function.update_of_ne hjp] at hy
  have hmem : x ∈ runs p := by simp [hrun]
  constructor
  · refine h.perm.trans ?_
    rw [List.append_assoc]
    exact (flatMap_update_perm hp hrun).append_left out
  · intro j hj
    by_cases hjp : j = p
    · subst hjp
      have hsorted := h.runs_sorted j hj
      rw [hrun] at hsorted
      rw [Function.update_self]
      exact hsorted.of_cons
    · rw [Function.update_of_ne hjp]
      exact h.runs_sorted j hj
  · rw [List.pairwise_append]
    refine ⟨h.out_sorted, List.pairwise_singleton _ _, ?_⟩
    intro a ha b hb
    rw [List.mem_singleton.1 hb]
    exact h.out_le a ha p hp x hmem
  · intro a ha j hj y hy
    cases List.mem_append.1 ha with
    | inl ha => exact h.out_le a ha j hj y (hsub j y hy)
    | inr ha =>
      rw [List.mem_singleton.1 ha]
      exact h.head_le hleast j hj y (hsub j y hy)

end merge

end Pfaedle.MultiwayMerge

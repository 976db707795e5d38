import Mathlib.Data.List.Basic
import Mathlib.Order.Lattice

set_option autoImplicit false

/-!
# Sorted lists cut into blocks

A list is cut into blocks of `w` entries and the last entry of every full block is kept apart.
In a sorted list these block ends lead to the only block that can hold a given value.
-/
namespace Pfaedle.SortedBlocks
variable {α : Type*} {w : ℕ} {xs ends extra : List α}

def block (w : ℕ) (xs : List α) (j : ℕ) : List α := (xs.drop (j * w)).take w

theorem block_getElem? (j i : ℕ) (hi : i < w) : (block w xs j)[i]? = xs[j * w + i]? := by
  rw [block, List.getElem?_take_of_lt hi, List.getElem?_drop]

theorem length_block (j : ℕ) : (block w xs j).length = min w (xs.length - j * w) := by
  rw [block, List.length_take, List.length_drop]

theorem flatMap_block (k : ℕ) : (List.range k).flatMap (block w xs) = xs.take (k * w) := by
  induction k with
  | zero => simp
  | succ k ih =>
    rw [List.range_succ, List.flatMap_append, ih, List.flatMap_singleton, Nat.succ_mul,
      List.take_add, block]

theorem splice_getElem? (p : ℕ) (ys : List α) (hp : p ≤ xs.length) (n : ℕ) :
    (xs.take p ++ ys ++ xs.drop (p + ys.length))[n]? =
      if n < p then xs[n]? else if n < p + ys.length then ys[n - p]? else xs[n]? := by
  rw [List.append_assoc, List.getElem?_append, List.length_take, Nat.min_eq_left hp]
  split
  · rename_i hn
    rw [List.getElem?_take_of_lt hn]
  · rw [List.getElem?_append]
    split
    · rw [if_pos (by omega)]
    · rw [if_neg (by omega), List.getElem?_drop]
      congr 1
      omega

theorem block_splice (ys : List α) {i : ℕ} (hi : i * w ≤ xs.length)
    (hlen : ys.length = (block w xs i).length) (j : ℕ) :
    block w (xs.take (i * w) ++ ys ++ xs.drop (i * w + ys.length)) j =
      if j = i then ys else block w xs j := by
  have hys : ys.length = min w (xs.length - i * w) := by rw [hlen, length_block]
  apply List.ext_getElem?
  intro n
  by_cases hn : n < w
  · rw [block_getElem? _ _ hn, splice_getElem? _ _ hi]
    by_cases hji : j = i
    · subst hji
      rw [if_pos rfl, if_neg (by omega)]
      split
      · rw [Nat.add_sub_cancel_left]
      · rw [List.getElem?_eq_none (by omega), List.getElem?_eq_none (by omega)]
    · rw [if_neg hji, block_getElem? _ _ hn]
      have hcases : (j + 1) * w ≤ i * w ∨ (i + 1) * w ≤ j * w := by
        cases Nat.lt_or_gt_of_ne hji with
        | inl hlt => exact Or.inl (Nat.mul_le_mul_right w hlt)
        | inr hgt => exact Or.inr (Nat.mul_le_mul_right w hgt)
      rw [Nat.succ_mul, Nat.succ_mul] at hcases
      split
      · rfl
      · rw [if_neg (by omega)]
  · rw [List.getElem?_eq_none, List.getElem?_eq_none]
    · split
      · omega
      · rw [length_block]
        omega
    · rw [length_block]
      omega

theorem mem_of_mem_block {x : α} {j : ℕ} (hx : x ∈ block w xs j) : x ∈ xs :=
  List.mem_of_mem_drop (List.mem_of_mem_take hx)

theorem mem_block_div {x : α} {i : ℕ} (hw : 0 < w) (hx : xs[i]? = some x) :
    x ∈ block w xs (i / w) := by
  have hat : (block w xs (i / w))[i % w]? = some x := by
    rw [block_getElem? _ _ (Nat.mod_lt i hw), Nat.div_add_mod']
    exact hx
  exact List.mem_of_getElem? hat

/-- `ends` lists the last entries of the full blocks of `xs`. -/
structure BlockEnds (w : ℕ) (xs ends : List α) : Prop where
  length : ends.length = xs.length / w
  get : ∀ j, j < ends.length → ends[j]? = xs[(j + 1) * w - 1]?

theorem blockEnds_nil (w : ℕ) : BlockEnds w ([] : List α) [] := ⟨by simp, by simp⟩

theorem BlockEnds.end_le_length (h : BlockEnds w xs ends) {j : ℕ} (hj : j < ends.length) :
    (j + 1) * w ≤ xs.length := by
  rw [h.length] at hj
  calc (j + 1) * w ≤ xs.length / w * w := Nat.mul_le_mul_right w hj
    _ ≤ xs.length := Nat.div_mul_le_self _ _

theorem BlockEnds.append_end (h : BlockEnds w xs ends) (hw : 0 < w) (x : α)
    (hdvd : (xs.length + 1) % w = 0) : BlockEnds w (xs ++ [x]) (ends ++ [x]) := by
  have hquot : (xs.length + 1) / w = xs.length / w + 1 := by
    rw [Nat.succ_div, if_pos (Nat.dvd_of_mod_eq_zero hdvd)]
  have hlast : (ends.length + 1) * w - 1 = xs.length := by
    have hmul := Nat.div_mul_cancel (Nat.dvd_of_mod_eq_zero hdvd)
    rw [hquot] at hmul
    rw [h.length, hmul]
    rfl
  constructor
  · simp [hquot, h.length]
  · intro j hj
    have hj : j < ends.length ∨ j = ends.length := by simp at hj; omega
    cases hj with
    | inl hj =>
      have hbound := h.end_le_length hj
      have hpos : 0 < (j + 1) * w := Nat.mul_pos (Nat.succ_pos j) hw
      rw [List.getElem?_append_left hj, List.getElem?_append_left (by omega)]
      exact h.get j hj
    | inr hj =>
      subst hj
      rw [hlast, List.getElem?_concat_length, List.getElem?_concat_length]

theorem BlockEnds.append_inner (h : BlockEnds w xs ends) (hw : 0 < w) (x : α)
    (hdvd : (xs.length + 1) % w ≠ 0) : BlockEnds w (xs ++ [x]) ends := by
  constructor
  · rw [List.length_append, List.length_singleton, Nat.succ_div, if_neg, h.length]
    · rfl
    · exact fun hd => hdvd (Nat.mod_eq_zero_of_dvd hd)
  · intro j hj
    have hbound := h.end_le_length hj
    have hpos : 0 < (j + 1) * w := Nat.mul_pos (Nat.succ_pos j) hw
    rw [List.getElem?_append_left (by omega)]
    exact h.get j hj

theorem BlockEnds.mem (h : BlockEnds w xs ends) {x : α} (hx : x ∈ ends) : x ∈ xs := by
  obtain ⟨j, hj, rfl⟩ := List.getElem_of_mem hx
  have hat : xs[(j + 1) * w - 1]? = some ends[j] := by
    rw [← h.get j hj, List.getElem?_eq_getElem hj]
  exact List.mem_of_getElem? hat

theorem findIdx_eq_of_split (p : α → Bool) (ys : List α) (k : ℕ) (hk : k ≤ ys.length)
    (hbelow : ∀ j, j < k → ∀ y, ys[j]? = some y → p y = false)
    (hat : ∀ y, ys[k]? = some y → p y = true) : List.findIdx p ys = k := by
  by_cases hlt : k < ys.length
  · rw [List.findIdx_eq hlt]
    refine ⟨hat _ (List.getElem?_eq_getElem hlt), ?_⟩
    intro j hj
    exact hbelow j hj _ (List.getElem?_eq_getElem (by omega))
  · have hlen : k = ys.length := by omega
    rw [hlen, List.findIdx_eq_length]
    intro y hy
    obtain ⟨j, hj, rfl⟩ := List.getElem_of_mem hy
    exact hbelow j (by omega) _ (List.getElem?_eq_getElem hj)

section search
variable [LinearOrder α]

theorem getElem?_le (hsorted : xs.Pairwise (· ≤ ·)) {i j : ℕ} {x y : α} (hij : i ≤ j)
    (hi : xs[i]? = some x) (hj : xs[j]? = some y) : x ≤ y := by
  obtain ⟨hil, rfl⟩ := List.getElem?_eq_some_iff.1 hi
  obtain ⟨hjl, rfl⟩ := List.getElem?_eq_some_iff.1 hj
  cases Nat.lt_or_eq_of_le hij with
  | inl hlt => exact List.pairwise_iff_getElem.1 hsorted i j hil hjl hlt
  | inr heq => subst heq; exact le_refl _

/-- The upper bound of a value among the block ends is the block it lies in. Further values
    after the block ends do no harm as long as nothing exceeds them. -/
theorem findIdx_blockEnds (hw : 0 < w) (hsorted : xs.Pairwise (· ≤ ·))
    (hends : BlockEnds w xs ends) (hextra : ∀ e ∈ extra, ∀ x ∈ xs, x ≤ e) {x : α} {i : ℕ}
    (hi : xs[i]? = some x) (hx : x ∉ ends ++ extra) :
    List.findIdx (fun e => decide (x < e)) (ends ++ extra) = i / w := by
  have hlen : i < xs.length := (List.getElem?_eq_some_iff.1 hi).1
  have hquot : i / w ≤ ends.length := by
    rw [hends.length]
    exact Nat.div_le_div_right (Nat.le_of_lt hlen)
  apply findIdx_eq_of_split
  · rw [List.length_append]
    omega
  · intro j hj y hy
    have hjl : j < ends.length := by omega
    rw [List.getElem?_append_left hjl, hends.get j hjl] at hy
    have hbefore : (j + 1) * w ≤ i := by
      calc (j + 1) * w ≤ i / w * w := Nat.mul_le_mul_right w hj
        _ ≤ i := Nat.div_mul_le_self _ _
    have hle : y ≤ x := getElem?_le hsorted (by omega) hy hi
    simpa using hle
  · intro y hy
    have hne : x ≠ y := fun he => hx (he ▸ List.mem_of_getElem? hy)
    have hle : x ≤ y := by
      by_cases hfull : i / w < ends.length
      · rw [List.getElem?_append_left hfull, hends.get _ hfull] at hy
        have hafter : i < (i / w + 1) * w := by
          rw [Nat.mul_comm]
          exact Nat.lt_mul_div_succ i hw
        exact getElem?_le hsorted (by omega) hi hy
      · rw [List.getElem?_append_right (by omega)] at hy
        exact hextra y (List.mem_of_getElem? hy) x (List.mem_of_getElem? hi)
    simpa using lt_of_le_of_ne hle hne

theorem mem_iff_mem_block (hw : 0 < w) (hsorted : xs.Pairwise (· ≤ ·))
    (hends : BlockEnds w xs ends) (hextra : ∀ e ∈ extra, ∀ x ∈ xs, x ≤ e) {x : α}
    (hx : x ∉ ends ++ extra) :
    x ∈ xs ↔ x ∈ block w xs (List.findIdx (fun e => decide (x < e)) (ends ++ extra)) := by
  constructor
  · intro hmem
    obtain ⟨i, hi⟩ := List.getElem?_of_mem hmem
    rw [findIdx_blockEnds hw hsorted hends hextra hi hx]
    exact mem_block_div hw hi
  · exact mem_of_mem_block

end search

end Pfaedle.SortedBlocks

import Pfaedle.EditScripts
import Pfaedle.StationSimi

set_option autoImplicit false

/-!
# What `editDist` computes

The loops of `editDist` with their two buffers. A row is written over what an earlier row left in
`cur`, and every entry that is read has been written before.
-/
namespace Pfaedle.ShapeBuilder
open Gtfs EditScripts

section buffers

structure EditBuffers where
  cur : List ℕ
  prev : List ℕ

variable (s1 s2 : Text)

def EditBuffers.fillCell (i : ℕ) (b : EditBuffers) (j : ℕ) : EditBuffers :=
  let entry := min (b.prev.getD (1 + j) 0 + 1)
    (min (b.cur.getD j 0 + 1) (b.prev.getD j 0 + if s1[i]? = s2[j]? then 0 else 1))
  { b with cur := b.cur.set (j + 1) entry }

/-- The body of the outer loop; `std::swap` is the exchange at its end. -/
def EditBuffers.fillRow (b : EditBuffers) (i : ℕ) : EditBuffers :=
  let filled := (List.range s2.length).foldl (EditBuffers.fillCell s1 s2 i)
    { b with cur := b.cur.set 0 (i + 1) }
  { cur := filled.prev, prev := filled.cur }

/-- Both vectors have `len2 + 1` entries; only `prev` is given values before the loops. -/
def EditBuffers.start : EditBuffers where
  cur := List.replicate (s2.length + 1) 0
  prev := List.range (s2.length + 1)

def bufferedEditDist : ℕ :=
  ((List.range s1.length).foldl (EditBuffers.fillRow s1 s2) (EditBuffers.start s2)).prev.getD
    s2.length 0

/-- The entry for the first `i` and the first `j` characters. -/
def tableEntry (i j : ℕ) : ℕ := prefixDist (s1.take i).reverse (s2.take j).reverse

/-- The buffers in row `i + 1`, before its column `j + 1`; what follows in `cur` is stale. -/
structure RowReached (i j : ℕ) (b : EditBuffers) : Prop where
  cur_length : b.cur.length = s2.length + 1
  prev_length : b.prev.length = s2.length + 1
  prev_entry : ∀ k ≤ s2.length, b.prev.getD k 0 = tableEntry s1 s2 i k
  cur_entry : ∀ k ≤ j, b.cur.getD k 0 = tableEntry s1 s2 (i + 1) k

structure RowsDone (i : ℕ) (b : EditBuffers) : Prop where
  cur_length : b.cur.length = s2.length + 1
  prev_length : b.prev.length = s2.length + 1
  prev_entry : ∀ k ≤ s2.length, b.prev.getD k 0 = tableEntry s1 s2 i k

variable {s1 s2}

theorem tableEntry_zero_left {j : ℕ} (hj : j ≤ s2.length) : tableEntry s1 s2 0 j = j := by
  rw [tableEntry, List.take_zero, List.reverse_nil, prefixDist, List.length_reverse,
    List.length_take]
  omega

theorem tableEntry_zero_right {i : ℕ} (hi : i ≤ s1.length) : tableEntry s1 s2 i 0 = i := by
  rw [tableEntry, List.take_zero, List.reverse_nil, prefixDist_comm, prefixDist,
    List.length_reverse, List.length_take]
  omega

theorem tableEntry_succ {i j : ℕ} (hi : i < s1.length) (hj : j < s2.length) :
    tableEntry s1 s2 (i + 1) (j + 1) = min (tableEntry s1 s2 i (j + 1) + 1)
      (min (tableEntry s1 s2 (i + 1) j + 1)
        (tableEntry s1 s2 i j + if s1[i]? = s2[j]? then 0 else 1)) := by
  have hleft : (s1.take (i + 1)).reverse = s1[i] :: (s1.take i).reverse := by
    rw [List.take_add_one, List.getElem?_eq_getElem hi]
    simp
  have hright : (s2.take (j + 1)).reverse = s2[j] :: (s2.take j).reverse := by
    rw [List.take_add_one, List.getElem?_eq_getElem hj]
    simp
  simp only [tableEntry, hleft, hright, List.getElem?_eq_getElem hi, List.getElem?_eq_getElem hj,
    Option.some.injEq]
  rw [prefixDist]

theorem start_rowsDone : RowsDone s1 s2 0 (EditBuffers.start s2) where
  cur_length := by simp [EditBuffers.start]
  prev_length := by simp [EditBuffers.start]
  prev_entry := by
    intro k hk
    rw [tableEntry_zero_left hk]
    simp [EditBuffers.start, Nat.lt_succ_of_le hk]

theorem RowsDone.begin {i : ℕ} {b : EditBuffers} (h : RowsDone s1 s2 i b) (hi : i < s1.length) :
    RowReached s1 s2 i 0 { b with cur := b.cur.set 0 (i + 1) } where
  cur_length := by simp [h.cur_length]
  prev_length := h.prev_length
  prev_entry := h.prev_entry
  cur_entry := by
    intro k hk
    have hzero : k = 0 := by omega
    subst hzero
    rw [tableEntry_zero_right hi]
    simp [h.cur_length]

theorem RowReached.fillCell {i j : ℕ} {b : EditBuffers} (h : RowReached s1 s2 i j b)
    (hi : i < s1.length) (hj : j < s2.length) :
    RowReached s1 s2 i (j + 1) (b.fillCell s1 s2 i j) where
  cur_length := by simp [EditBuffers.fillCell, h.cur_length]
  prev_length := h.prev_length
  prev_entry := h.prev_entry
  cur_entry := by
    intro k hk
    have hlast : j + 1 < b.cur.length := by
      rw [h.cur_length]
      omega
    have hup : b.prev.getD (1 + j) 0 = tableEntry s1 s2 i (j + 1) := by
      rw [Nat.add_comm 1 j]
      exact h.prev_entry (j + 1) hj
    have hdiag := h.prev_entry j hj.le
    have hold := h.cur_entry
    simp only [EditBuffers.fillCell]
    by_cases hkj : k = j + 1
    · subst hkj
      rw [hup, hdiag, hold j le_rfl, ← tableEntry_succ hi hj]
      simp [hlast]
    · have hne : ¬ j + 1 = k := fun heq => hkj heq.symm
      rw [← hold k (by omega), List.getD_eq_getElem?_getD, List.getElem?_set, if_neg hne,
        ← List.getD_eq_getElem?_getD]

theorem RowReached.fillCells {i : ℕ} {b : EditBuffers} (h : RowReached s1 s2 i 0 b)
    (hi : i < s1.length) {n : ℕ} (hn : n ≤ s2.length) :
    RowReached s1 s2 i n ((List.range n).foldl (EditBuffers.fillCell s1 s2 i) b) := by
  induction n with
  | zero => exact h
  | succ n ih =>
    rw [List.range_succ, List.foldl_append]
    exact (ih (by omega)).fillCell hi hn

theorem RowsDone.fillRow {i : ℕ} {b : EditBuffers} (h : RowsDone s1 s2 i b) (hi : i < s1.length) :
    RowsDone s1 s2 (i + 1) (b.fillRow s1 s2 i) := by
  have hfilled := (h.begin hi).fillCells hi le_rfl
  exact ⟨hfilled.prev_length, hfilled.cur_length, hfilled.cur_entry⟩

theorem RowsDone.fillRows {n : ℕ} (hn : n ≤ s1.length) :
    RowsDone s1 s2 n
      ((List.range n).foldl (EditBuffers.fillRow s1 s2) (EditBuffers.start s2)) := by
  induction n with
  | zero => exact start_rowsDone
  | succ n ih =>
    rw [List.range_succ, List.foldl_append]
    exact (ih (by omega)).fillRow hn

theorem bufferedEditDist_eq (s1 s2 : Text) :
    bufferedEditDist s1 s2 = prefixDist s1.reverse s2.reverse := by
  have hrows : RowsDone s1 s2 s1.length _ := RowsDone.fillRows le_rfl
  rw [bufferedEditDist, hrows.prev_entry s2.length le_rfl, tableEntry, List.take_length,
    List.take_length]

/-- Two buffers are as good as a new row each time. -/
theorem editDist_eq_buffered (s1 s2 : Text) : editDist s1 s2 = bufferedEditDist s1 s2 := by
  rw [editDist_eq, bufferedEditDist_eq]

end buffers

section scripts

theorem prefixDist_eq_levenshtein (p q : Text) : prefixDist p q = levenshtein p q := by
  fun_induction prefixDist p q with
  | case1 q => simp
  | case2 c p => simp
  | case3 c p d q ihUp ihLeft ihDiag => rw [levenshtein_cons_cons, ihUp, ihLeft, ihDiag]

/-- Both spellings of `editDist` give the length of a shortest edit script. -/
theorem editDist_isLeast (s1 s2 : Text) :
    editDist s1 s2 = bufferedEditDist s1 s2 ∧
      IsLeast {n | Script n s1 s2} (bufferedEditDist s1 s2) := by
  refine ⟨editDist_eq_buffered s1 s2, ?_⟩
  have hleast := isLeast_levenshtein s1.reverse s2.reverse
  rw [bufferedEditDist_eq, prefixDist_eq_levenshtein]
  simpa only [script_reverse_iff] using hleast

end scripts

end Pfaedle.ShapeBuilder

import Mathlib.Order.Bounds.Basic
import Mathlib.Order.MinMax
import Mathlib.Tactic.Common

set_option autoImplicit false

/-!
# Edit scripts

What it takes to turn one list into another by insertions, deletions and substitutions of single
entries. `levenshtein` is the recurrence on the heads; it is the length of a shortest script.
-/
namespace Pfaedle.EditScripts
variable {α : Type*}

inductive Edit : List α → List α → Prop
  | insert (l r : List α) (c : α) : Edit (l ++ r) (l ++ c :: r)
  | delete (l r : List α) (c : α) : Edit (l ++ c :: r) (l ++ r)
  | substitute (l r : List α) (c d : α) : Edit (l ++ c :: r) (l ++ d :: r)

inductive Script : ℕ → List α → List α → Prop
  | done (s : List α) : Script 0 s s
  | step {n : ℕ} {s t u : List α} : Edit s t → Script n t u → Script (n + 1) s u

theorem Edit.cons {s t : List α} (a : α) (h : Edit s t) : Edit (a :: s) (a :: t) := by
  cases h with
  | insert l r c => exact Edit.insert (a :: l) r c
  | delete l r c => exact Edit.delete (a :: l) r c
  | substitute l r c d => exact Edit.substitute (a :: l) r c d

theorem Script.cons {n : ℕ} {s t : List α} (a : α) (h : Script n s t) :
    Script n (a :: s) (a :: t) := by
  induction h with
  | done s => exact Script.done (a :: s)
  | step e _ ih => exact Script.step (e.cons a) ih

theorem Script.insert_all (t : List α) : Script t.length [] t := by
  induction t with
  | nil => exact Script.done []
  | cons c t ih => exact Script.step (Edit.insert [] [] c) (ih.cons c)

theorem Script.delete_all (s : List α) : Script s.length s [] := by
  induction s with
  | nil => exact Script.done []
  | cons c s ih => exact Script.step (Edit.delete [] s c) ih

section levenshtein
variable [DecidableEq α]

def levenshtein : List α → List α → ℕ
  | [], t => t.length
  | c :: s, [] => (c :: s).length
  | c :: s, d :: t =>
    min (levenshtein s (d :: t) + 1)
      (min (levenshtein (c :: s) t + 1) (levenshtein s t + if c = d then 0 else 1))

@[simp] theorem levenshtein_nil_left (t : List α) : levenshtein [] t = t.length := by
  rw [levenshtein]

@[simp] theorem levenshtein_nil_right (s : List α) : levenshtein s [] = s.length := by
  cases s <;> simp [levenshtein]

theorem levenshtein_cons_cons (c d : α) (s t : List α) :
    levenshtein (c :: s) (d :: t) = min (levenshtein s (d :: t) + 1)
      (min (levenshtein (c :: s) t + 1) (levenshtein s t + if c = d then 0 else 1)) := by
  rw [levenshtein]

theorem levenshtein_self (s : List α) : levenshtein s s = 0 := by
  induction s with
  | nil => simp
  | cons c s ih => simp [levenshtein_cons_cons, ih]

theorem script_levenshtein (s t : List α) : Script (levenshtein s t) s t := by
  fun_induction levenshtein s t with
  | case1 t => exact Script.insert_all t
  | case2 c s => exact Script.delete_all (c :: s)
  | case3 c s d t ihDelete ihInsert ihBoth =>
    have hdelete : Script (levenshtein s (d :: t) + 1) (c :: s) (d :: t) :=
      Script.step (Edit.delete [] s c) ihDelete
    have hinsert : Script (levenshtein (c :: s) t + 1) (c :: s) (d :: t) :=
      Script.step (Edit.insert [] (c :: s) d) (ihInsert.cons d)
    have hboth : Script (levenshtein s t + if c = d then 0 else 1) (c :: s) (d :: t) := by
      split_ifs with hcd
      · subst hcd
        exact ihBoth.cons c
      · exact Script.step (Edit.substitute [] s c d) (ihBoth.cons d)
    rcases min_choice (levenshtein s (d :: t) + 1) (min (levenshtein (c :: s) t + 1)
      (levenshtein s t + if c = d then 0 else 1)) with h | h
    · rw [h]
      exact hdelete
    · rw [h]
      rcases min_choice (levenshtein (c :: s) t + 1)
        (levenshtein s t + if c = d then 0 else 1) with h' | h' <;> rw [h'] <;> assumption

theorem levenshtein_cons_left_le (c : α) (s u : List α) :
    levenshtein (c :: s) u ≤ levenshtein s u + 1 := by
  cases u with
  | nil => simp
  | cons d u =>
    rw [levenshtein_cons_cons]
    omega

theorem levenshtein_cons_right_le (s : List α) (d : α) (u : List α) :
    levenshtein s (d :: u) ≤ levenshtein s u + 1 := by
  cases s with
  | nil => simp
  | cons c s =>
    rw [levenshtein_cons_cons]
    omega

theorem levenshtein_le_cons_left (c : α) (s u : List α) :
    levenshtein s u ≤ levenshtein (c :: s) u + 1 := by
  induction u with
  | nil =>
    simp only [levenshtein_nil_right, List.length_cons]
    omega
  | cons d u ih =>
    have hright := levenshtein_cons_right_le s d u
    rw [levenshtein_cons_cons]
    omega

theorem levenshtein_substitute_le (c d : α) (s u : List α) :
    levenshtein (c :: s) u ≤ levenshtein (d :: s) u + 1 := by
  induction u with
  | nil => simp
  | cons e u ih =>
    rw [levenshtein_cons_cons, levenshtein_cons_cons]
    have hcost : (if c = e then 0 else 1) ≤ 1 := by split_ifs <;> omega
    omega

theorem levenshtein_cons_le {s t : List α} (h : ∀ u, levenshtein s u ≤ levenshtein t u + 1)
    (a : α) (u : List α) : levenshtein (a :: s) u ≤ levenshtein (a :: t) u + 1 := by
  induction u with
  | nil =>
    have hnil := h []
    simp only [levenshtein_nil_right, List.length_cons] at hnil ⊢
    omega
  | cons d u ih =>
    have hwhole := h (d :: u)
    have hrest := h u
    rw [levenshtein_cons_cons, levenshtein_cons_cons]
    omega

theorem levenshtein_append_le {s t : List α} (h : ∀ u, levenshtein s u ≤ levenshtein t u + 1)
    (l u : List α) : levenshtein (l ++ s) u ≤ levenshtein (l ++ t) u + 1 := by
  induction l generalizing u with
  | nil => exact h u
  | cons a l ih => exact levenshtein_cons_le ih a u

theorem Edit.levenshtein_le {s t : List α} (h : Edit s t) (u : List α) :
    levenshtein s u ≤ levenshtein t u + 1 := by
  cases h with
  | insert l r c => exact levenshtein_append_le (levenshtein_le_cons_left c r) l u
  | delete l r c => exact levenshtein_append_le (levenshtein_cons_left_le c r) l u
  | substitute l r c d => exact levenshtein_append_le (levenshtein_substitute_le c d r) l u

theorem Script.levenshtein_le {n : ℕ} {s t : List α} (h : Script n s t) :
    levenshtein s t ≤ n := by
  induction h with
  | done s => rw [levenshtein_self]
  | step e _ ih =>
    have hedit := e.levenshtein_le
    exact (hedit _).trans (Nat.add_le_add_right ih 1)

theorem isLeast_levenshtein (s t : List α) :
    IsLeast {n | Script n s t} (levenshtein s t) :=
  ⟨script_levenshtein s t, fun _ h => h.levenshtein_le⟩

end levenshtein

section reverse

theorem Edit.reverse {s t : List α} (h : Edit s t) : Edit s.reverse t.reverse := by
  cases h with
  | insert l r c => simpa using Edit.insert r.reverse l.reverse c
  | delete l r c => simpa using Edit.delete r.reverse l.reverse c
  | substitute l r c d => simpa using Edit.substitute r.reverse l.reverse c d

theorem Script.reverse {n : ℕ} {s t : List α} (h : Script n s t) :
    Script n s.reverse t.reverse := by
  induction h with
  | done s => exact Script.done s.reverse
  | step e _ ih => exact Script.step e.reverse ih

theorem script_reverse_iff (n : ℕ) (s t : List α) :
    Script n s.reverse t.reverse ↔ Script n s t :=
  ⟨fun h => by simpa using h.reverse, Script.reverse⟩

end reverse

end Pfaedle.EditScripts

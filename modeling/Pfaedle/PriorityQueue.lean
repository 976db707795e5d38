import Mathlib.Data.List.Perm.Basic
import Mathlib.Order.Lattice

set_option autoImplicit false

/-!
# A priority queue whose ties are left open

`pop` takes away some greatest element under `less`. A program that fixes no order among equal
elements is verified for every `PriorityQueue`; `leastFirst` is one that can be run.
-/
namespace Pfaedle

structure PriorityQueue (α : Type*) (less : α → α → Prop) where
  pop : List α → Option (α × List α)
  pop_nil : pop [] = none
  pop_cons : ∀ a q, ∃ b r, pop (a :: q) = some (b, r)
  pop_perm : ∀ {q a r}, pop q = some (a, r) → q.Perm (a :: r)
  pop_top : ∀ {q a r}, pop q = some (a, r) → ∀ b ∈ q, ¬ less a b

namespace PriorityQueue

section generic
variable {α : Type*} {less : α → α → Prop} (pq : PriorityQueue α less) {q r : List α} {a : α}

theorem mem_iff (hpop : pq.pop q = some (a, r)) (b : α) : b ∈ q ↔ b = a ∨ b ∈ r := by
  rw [(pq.pop_perm hpop).mem_iff, List.mem_cons]

theorem length_pop (hpop : pq.pop q = some (a, r)) : q.length = r.length + 1 := by
  simpa using (pq.pop_perm hpop).length_eq

theorem eq_nil_of_pop (hpop : pq.pop q = none) : q = [] := by
  cases q with
  | nil => rfl
  | cons a q =>
    obtain ⟨b, r, hb⟩ := pq.pop_cons a q
    simp [hpop] at hb

theorem pop_singleton (a : α) : pq.pop [a] = some (a, []) := by
  obtain ⟨b, rest, hpop⟩ := pq.pop_cons a []
  have hperm := pq.pop_perm hpop
  rw [List.singleton_perm] at hperm
  cases hperm
  exact hpop

/-- The elements in the order in which they are popped; `k` bounds the number of pops. -/
def popAll : ℕ → List α → List α
  | 0, _ => []
  | k + 1, q =>
    match pq.pop q with
    | some (a, r) => a :: popAll k r
    | none => []

theorem popAll_perm {k : ℕ} (h : q.length ≤ k) : (pq.popAll k q).Perm q := by
  induction k generalizing q with
  | zero => rw [List.length_eq_zero_iff.1 (Nat.le_zero.1 h), popAll]
  | succ k ih =>
    rw [popAll]
    cases hpop : pq.pop q with
    | none => rw [pq.eq_nil_of_pop hpop]
    | some br =>
      obtain ⟨b, r⟩ := br
      have hlen := pq.length_pop hpop
      exact ((ih (by omega)).cons b).trans (pq.pop_perm hpop).symm

end generic

section leastFirst
variable {α K : Type*} [LinearOrder K] (key : α → K)

def popLeast : List α → Option (α × List α)
  | [] => none
  | a :: q =>
    match popLeast q with
    | none => some (a, [])
    | some (b, r) => if key a ≤ key b then some (a, b :: r) else some (b, a :: r)

theorem popLeast_cons (a : α) (q : List α) : ∃ b r, popLeast key (a :: q) = some (b, r) := by
  rw [popLeast]
  cases popLeast key q with
  | none => exact ⟨a, [], rfl⟩
  | some br =>
    dsimp only
    split
    · exact ⟨_, _, rfl⟩
    · exact ⟨_, _, rfl⟩

theorem popLeast_spec (q : List α) (a : α) (r : List α) (h : popLeast key q = some (a, r)) :
    q.Perm (a :: r) ∧ ∀ b ∈ q, key a ≤ key b := by
  induction q generalizing a r with
  | nil => simp [popLeast] at h
  | cons x q ih =>
    rw [popLeast] at h
    cases hq : popLeast key q with
    | none =>
      have hnil : q = [] := by
        cases q with
        | nil => rfl
        | cons y q =>
          obtain ⟨b, s, hb⟩ := popLeast_cons key y q
          simp [hq] at hb
      subst hnil
      simp only [hq, Option.some.injEq, Prod.mk.injEq] at h
      simp [← h.1, ← h.2]
    | some br =>
      obtain ⟨b, s⟩ := br
      have hspec := ih b s hq
      simp only [hq] at h
      split at h
      · rename_i hle
        simp only [Option.some.injEq, Prod.mk.injEq] at h
        rw [← h.1, ← h.2]
        refine ⟨hspec.1.cons x, ?_⟩
        intro c hc
        cases List.mem_cons.1 hc with
        | inl he => rw [he]
        | inr hin => exact le_trans hle (hspec.2 c hin)
      · rename_i hlt
        simp only [Option.some.injEq, Prod.mk.injEq] at h
        rw [← h.1, ← h.2]
        refine ⟨(hspec.1.cons x).trans (List.Perm.swap b x s), ?_⟩
        intro c hc
        cases List.mem_cons.1 hc with
        | inl he => rw [he]; exact le_of_lt (not_le.1 hlt)
        | inr hin => exact hspec.2 c hin

def leastFirst (less : α → α → Prop) (hless : ∀ a b, less a b → key b < key a) :
    PriorityQueue α less where
  pop := popLeast key
  pop_nil := rfl
  pop_cons := popLeast_cons key
  pop_perm h := (popLeast_spec key _ _ _ h).1
  pop_top h b hb hlt := absurd (hless _ _ hlt) (not_lt.2 ((popLeast_spec key _ _ _ h).2 b hb))

end leastFirst

end PriorityQueue

end Pfaedle

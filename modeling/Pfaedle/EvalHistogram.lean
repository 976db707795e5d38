import Mathlib.Algebra.Order.Field.Basic
import Mathlib.Algebra.Order.Ring.Rat
import Mathlib.Algebra.BigOperators.Group.List.Basic
import Mathlib.Tactic.Linarith
import Mathlib.Tactic.NormNum
import Mathlib.Tactic.Ring

set_option autoImplicit false

/-!
# The histograms of the evaluation

Distances are exact numbers and a set of results is the list of its elements in their order. Of
what `print_histogram` and `print_csv` write only the rows are modelled.
-/
namespace Pfaedle.Eval

structure Result (C T : Type*) where
  dist : C
  trip : T

section model
variable {C T : Type*} [Field C] [LinearOrder C]

/-- `operator<`, where `addr` is the address of a trip. -/
def Result.Less (addr : T → ℕ) (a b : Result C T) : Prop :=
  a.dist < b.dist ∨ a.dist = b.dist ∧ addr a.trip < addr b.trip

def binsLoop (maxd bin : C) : ℕ → C → List C → Option (List C)
  | 0, _, _ => none
  | fuel + 1, curE, ret =>
    if curE ≤ maxd then binsLoop maxd bin fuel (curE + bin) (ret ++ [curE]) else some ret

def getBins (fuel : ℕ) (mind maxd : C) (steps : ℕ) : Option (List C) :=
  let bin := (maxd - mind) / steps
  binsLoop maxd bin fuel (mind + bin) []

/-- The inner loop of both printers: the results up to a bin, with the first of their trips. -/
def consume (bin : C) : List (Result C T) → ℕ → Option T → ℕ × Option T × List (Result C T)
  | [], c, trip => (c, trip, [])
  | r :: it, c, trip =>
    if r.dist ≤ bin + 0.001 then consume bin it (c + 1) (trip <|> some r.trip)
    else (c, trip, r :: it)

/-- The rows of `print_histogram`, the examples, and the greatest count. -/
def printHistogram : List C → List (Result C T) → ℕ → List (C × ℕ) × List (Option T) × ℕ
  | [], _, maxC => ([], [], maxC)
  | bin :: bins, it, maxC =>
    let (c, trip, it) := consume bin it 0 none
    let (res, examples, maxC) := printHistogram bins it (if maxC < c then c else maxC)
    ((bin, c) :: res, trip :: examples, maxC)

def printCsv : List C → List (Result C T) → List (C × ℕ)
  | [], _ => []
  | bin :: bins, it =>
    let (c, _, it) := consume bin it 0 none
    (bin, c) :: printCsv bins it

def counted (rows : List (C × ℕ)) : ℕ := (rows.map Prod.snd).sum

/-- The bins between the first and the last result are computed, and both printers assign every
result to one of them. -/
def CountsAll (results : List (Result C T)) (steps : ℕ) : Prop :=
  ∃ first ∈ results.head?, ∃ last ∈ results.getLast?, ∃ bins,
    (∃ fuel, getBins fuel first.dist last.dist steps = some bins) ∧
      counted (printHistogram bins results 0).1 = results.length ∧
      counted (printCsv bins results) = results.length

end model

section counting
variable {C T : Type*} [Field C] [LinearOrder C]

theorem consume_spec (bin : C) (it : List (Result C T)) (c : ℕ) (trip : Option T) :
    (consume bin it c trip).1 + (consume bin it c trip).2.2.length = c + it.length ∧
      (consume bin it c trip).2.2 <:+ it ∧
      ((∀ r ∈ it, r.dist ≤ bin + 0.001) → (consume bin it c trip).2.2 = []) := by
  induction it generalizing c trip with
  | nil => simp [consume]
  | cons r it ih =>
    rw [consume]
    split_ifs with hr
    · obtain ⟨hcount, hrest, hall⟩ := ih (c + 1) (trip <|> some r.trip)
      refine ⟨?_, hrest.trans (List.suffix_cons r it), fun h => hall fun x hx => h x (by simp [hx])⟩
      rw [List.length_cons]
      omega
    · refine ⟨by simp, List.suffix_rfl, fun h => absurd (h r (by simp)) hr⟩

theorem printHistogram_rows (bins : List C) (it : List (Result C T)) (maxC : ℕ) :
    (printHistogram bins it maxC).1 = printCsv bins it := by
  induction bins generalizing it maxC with
  | nil => rfl
  | cons bin bins ih => simp [printHistogram, printCsv, ih]

theorem counted_nil (bins : List C) : counted (printCsv bins ([] : List (Result C T))) = 0 := by
  induction bins with
  | nil => rfl
  | cons bin bins ih => simpa [printCsv, consume, counted] using ih

theorem counted_eq {bins : List C} {it : List (Result C T)}
    (h : ∃ bin ∈ bins, ∀ r ∈ it, r.dist ≤ bin + 0.001) :
    counted (printCsv bins it) = it.length := by
  induction bins generalizing it with
  | nil => simp at h
  | cons bin bins ih =>
    obtain ⟨hcount, hrest, hall⟩ := consume_spec bin it 0 none
    have hcons : counted (printCsv (bin :: bins) it) =
        (consume bin it 0 none).1 + counted (printCsv bins (consume bin it 0 none).2.2) := by
      simp [printCsv, counted]
    rw [hcons]
    obtain ⟨top, htop, hle⟩ := h
    rcases List.mem_cons.1 htop with rfl | htop
    · rw [hall hle] at hcount ⊢
      rw [counted_nil]
      simpa using hcount
    · rw [ih ⟨top, htop, fun r hr => hle r (hrest.subset hr)⟩]
      omega

end counting

section bins
variable {C T : Type*} [Field C] [LinearOrder C]

/-- A width of zero never gets past the end. -/
theorem binsLoop_zero (maxd : C) (fuel : ℕ) {curE : C} (h : curE ≤ maxd) (ret : List C) :
    binsLoop maxd 0 fuel curE ret = none := by
  induction fuel generalizing curE ret with
  | zero => rfl
  | succ fuel ih =>
    rw [binsLoop, if_pos h]
    exact ih (by rwa [add_zero]) _

variable [IsStrictOrderedRing C]

/-- With `left` bins to go the loop pushes the end of the range as the last one. -/
theorem binsLoop_pos {maxd bin : C} (hbin : 0 < bin) (left : ℕ) {curE : C}
    (hend : curE + left * bin = maxd) (ret : List C) :
    ∃ bins, binsLoop maxd bin (left + 2) curE ret = some bins ∧ maxd ∈ bins := by
  induction left generalizing curE ret with
  | zero =>
    have hcur : curE = maxd := by simpa using hend
    subst hcur
    refine ⟨ret ++ [curE], ?_, by simp⟩
    rw [binsLoop, if_pos (le_refl _), binsLoop, if_neg]
    linarith
  | succ left ih =>
    have hle : curE ≤ maxd := by
      have : 0 ≤ ((left + 1 : ℕ) : C) * bin := mul_nonneg (Nat.cast_nonneg _) hbin.le
      linarith
    have hstep : curE + bin + left * bin = maxd := by
      rw [← hend]
      push_cast
      ring
    obtain ⟨bins, hbins, hmem⟩ := ih hstep (ret ++ [curE])
    refine ⟨bins, ?_, hmem⟩
    rw [binsLoop, if_pos hle]
    exact hbins

theorem getBins_pos {mind maxd : C} (h : mind < maxd) {steps : ℕ} (hsteps : 1 ≤ steps) :
    ∃ bins, getBins (steps + 1) mind maxd steps = some bins ∧ maxd ∈ bins := by
  obtain ⟨left, rfl⟩ : ∃ left, steps = left + 1 := ⟨steps - 1, by omega⟩
  have hpos : (0 : C) < (left + 1 : ℕ) := Nat.cast_pos.2 (by omega)
  apply binsLoop_pos (div_pos (sub_pos.2 h) hpos)
  have hdiv := div_mul_cancel₀ (maxd - mind) hpos.ne'
  push_cast at hdiv ⊢
  linarith

end bins

section main
variable {C T : Type*} [LinearOrder C]

theorem dist_le_last {addr : T → ℕ} {results : List (Result C T)} {last : Result C T}
    (hsorted : results.Pairwise (Result.Less addr)) (hlast : last ∈ results.getLast?) :
    ∀ r ∈ results, r.dist ≤ last.dist := by
  obtain ⟨before, rfl⟩ := List.getLast?_eq_some_iff.1 hlast
  intro r hr
  rcases List.mem_append.1 hr with hr | hr
  · exact ((List.pairwise_append.1 hsorted).2.2 r hr last (by simp)).elim le_of_lt
      fun heq => heq.1.le
  · rw [List.mem_singleton.1 hr]

theorem first_le_dist {addr : T → ℕ} {results : List (Result C T)} {first : Result C T}
    (hsorted : results.Pairwise (Result.Less addr)) (hfirst : first ∈ results.head?) :
    ∀ r ∈ results, first.dist ≤ r.dist := by
  obtain ⟨rest, rfl⟩ := List.head?_eq_some_iff.1 hfirst
  intro r hr
  rcases List.mem_cons.1 hr with rfl | hr
  · exact le_refl _
  · exact ((List.pairwise_cons.1 hsorted).1 r hr).elim le_of_lt fun heq => heq.1.le

variable [Field C] [IsStrictOrderedRing C]

/-- The histogram is computed, and then complete, unless all results have one distance. -/
theorem countsAll_iff {addr : T → ℕ} {results : List (Result C T)} (hne : results ≠ [])
    (hsorted : results.Pairwise (Result.Less addr)) {steps : ℕ} (hsteps : 1 ≤ steps) :
    CountsAll results steps ↔ ∃ a ∈ results, ∃ b ∈ results, a.dist ≠ b.dist := by
  constructor
  · rintro ⟨first, hfirst, last, hlast, bins, ⟨fuel, hbins⟩, -⟩
    refine ⟨first, List.mem_of_head? hfirst, last, List.mem_of_getLast? hlast, fun heq => ?_⟩
    rw [getBins, heq, sub_self, zero_div, add_zero, binsLoop_zero _ _ (le_refl _)] at hbins
    cases hbins
  · rintro ⟨a, ha, b, hb, hab⟩
    obtain ⟨first, hfirst⟩ : ∃ first, first ∈ results.head? := ⟨_, List.head?_eq_some_head hne⟩
    obtain ⟨last, hlast⟩ : ∃ last, last ∈ results.getLast? :=
      ⟨_, List.getLast?_eq_some_getLast hne⟩
    have hle := dist_le_last hsorted hlast
    have hge := first_le_dist hsorted hfirst
    have hlt : first.dist < last.dist := by
      by_contra hnot
      have hle' := not_lt.1 hnot
      exact hab (le_antisymm (((hle a ha).trans hle').trans (hge b hb))
        (((hle b hb).trans hle').trans (hge a ha)))
    obtain ⟨bins, hbins, hmem⟩ := getBins_pos hlt hsteps
    have hcount : counted (printCsv bins results) = results.length := by
      apply counted_eq
      refine ⟨last.dist, hmem, fun r hr => (hle r hr).trans ?_⟩
      norm_num
    refine ⟨first, hfirst, last, hlast, bins, ⟨_, hbins⟩, ?_, hcount⟩
    rw [printHistogram_rows, hcount]

/-- Two results, and the ten steps of `print_stats`. -/
theorem countsAll_two : CountsAll [(⟨1, 0⟩ : Result ℚ ℕ), ⟨3, 1⟩] 10 := by
  have hsorted : [(⟨1, 0⟩ : Result ℚ ℕ), ⟨3, 1⟩].Pairwise (Result.Less id) := by
    simp [Result.Less]
  refine (countsAll_iff (by simp) hsorted (by omega)).2 ?_
  simp

/-- One result, for which the loop of `get_bins` never ends. -/
theorem one_result_hangs :
    [(⟨1, 0⟩ : Result ℚ ℕ)].Pairwise (Result.Less id) ∧
      (∀ fuel, getBins fuel (1 : ℚ) 1 10 = none) ∧
      ¬ CountsAll [(⟨1, 0⟩ : Result ℚ ℕ)] 10 := by
  have hnone : ∀ fuel, getBins fuel (1 : ℚ) 1 10 = none := by
    intro fuel
    rw [getBins, sub_self, zero_div, add_zero, binsLoop_zero _ _ (le_refl _)]
  refine ⟨by simp, hnone, ?_⟩
  rintro ⟨first, hfirst, last, hlast, bins, ⟨fuel, hbins⟩, -⟩
  cases hfirst
  cases hlast
  change getBins fuel (1 : ℚ) 1 10 = some bins at hbins
  rw [hnone] at hbins
  cases hbins

end main

end Pfaedle.Eval

import Mathlib.Algebra.Order.Archimedean.Basic
import Mathlib.Algebra.Order.Field.Basic
import Mathlib.Analysis.Real.Sqrt
import Mathlib.Data.List.Chain
import Mathlib.Tactic.LinearCombination
import Mathlib.Tactic.Linarith
import Pfaedle.CheapestCoupling

set_option autoImplicit false

/-!
# `accFrechetDistC` and `densify`

The points of a line are pairs of numbers, and `dist` is their distance. A loop that has not ended
when the fuel is used up returns `none`.
-/
namespace Pfaedle.Geo
open BottleneckPath CheapestCoupling

section model
variable {C : Type*} [Field C] [LinearOrder C] (dist : C × C → C × C → C)

/-- The points that are added between `a` and `b`, from `curd` on. -/
def densifySegment (d : C) (a b : C × C) : ℕ → C → Option (List (C × C))
  | 0, _ => none
  | fuel + 1, curd =>
    let segd := dist a b
    let dx := (b.1 - a.1) / segd
    let dy := (b.2 - a.2) / segd
    if curd < segd then
      (densifySegment d a b fuel (curd + d)).map ((a.1 + dx * curd, a.2 + dy * curd) :: ·)
    else some []

def densifyRest (fuel : ℕ) (d : C) : C × C → List (C × C) → Option (List (C × C))
  | _, [] => some []
  | a, b :: l =>
    (densifySegment dist d a b fuel d).bind fun between =>
      (densifyRest fuel d b l).map fun rest => between ++ b :: rest

def densify (fuel : ℕ) (d : C) : List (C × C) → Option (List (C × C))
  | [] => some []
  | a :: l => (densifyRest dist fuel d a l).map (a :: ·)

def stepCost (p q : List (C × C)) (c : ℕ × ℕ) : C :=
  if h : c.1 < p.length ∧ c.2 < q.length then dist p[c.1] q[c.2] * dist p[c.1] p[c.1 - 1] else 0

def accStart (m n : ℕ) : ℕ × ℕ → WithTop C :=
  let ca := (List.range m).foldl (fun ca i => Function.update ca (i, 0) ⊤)
    (fun _ => (0 : WithTop C))
  let ca := (List.range n).foldl (fun ca j => Function.update ca (0, j) ⊤) ca
  Function.update ca (0, 0) 0

def accEntry (p q : List (C × C)) (i : ℕ) (ca : ℕ × ℕ → WithTop C) (j : ℕ) :
    ℕ × ℕ → WithTop C :=
  Function.update ca (i, j)
    (stepCost dist p q (i, j) + min (ca (i - 1, j)) (min (ca (i, j - 1)) (ca (i - 1, j - 1))))

def accTable (p q : List (C × C)) : ℕ × ℕ → WithTop C :=
  (List.range' 1 (p.length - 1)).foldl
    (fun ca i => (List.range' 1 (q.length - 1)).foldl (accEntry dist p q i) ca)
    (accStart p.length q.length)

def accFrechetDistC (fuel : ℕ) (a b : List (C × C)) (d : C) : Option (WithTop C) :=
  (densify dist fuel d a).bind fun p =>
    (densify dist fuel d b).bind fun q =>
      if p = [] ∨ q = [] then none else some (accTable dist p q (p.length - 1, q.length - 1))

end model

section table
variable {C : Type*} [Field C] {dist : C × C → C × C → C} {p q : List (C × C)}

theorem foldl_update_const {I K V : Type*} [DecidableEq K] (f : I → K) (v : V) (is : List I)
    (ca : K → V) (c : K) :
    is.foldl (fun ca i => Function.update ca (f i) v) ca c =
      if c ∈ is.map f then v else ca c := by
  induction is generalizing ca with
  | nil => rfl
  | cons i is ih =>
    rw [List.foldl_cons, ih]
    by_cases hc : c = f i <;> simp [hc]

theorem accStart_eq (m n : ℕ) (c : ℕ × ℕ) :
    (accStart m n : ℕ × ℕ → WithTop C) c =
      if c = (0, 0) then 0 else if c.2 = 0 ∧ c.1 < m ∨ c.1 = 0 ∧ c.2 < n then ⊤ else 0 := by
  obtain ⟨i, j⟩ := c
  rw [accStart, Function.update_apply, foldl_update_const (fun j => (0, j)),
    foldl_update_const (fun i => (i, 0))]
  by_cases hi : i = 0 <;> by_cases hj : j = 0 <;> simp [hi, hj, eq_comm]

variable [LinearOrder C]

/-- The entries are right in the rows before `i`, and in row `i` before column `j`. -/
def FilledTo (dist : C × C → C × C → C) (p q : List (C × C)) (i j : ℕ)
    (ca : ℕ × ℕ → WithTop C) : Prop :=
  ∀ c : ℕ × ℕ, c.1 < p.length → c.2 < q.length →
    (c.1 = 0 ∨ c.2 = 0 ∨ c.1 < i ∨ c.1 = i ∧ c.2 < j) →
      ca c = cheapest (stepCost dist p q) c.1 c.2

theorem filledTo_start : FilledTo dist p q 1 1 (accStart p.length q.length) := by
  rintro ⟨i, j⟩ hp hq hc
  have hedge : i = 0 ∨ j = 0 := by
    simp only at hc
    omega
  rw [accStart_eq]
  cases i with
  | zero => cases j <;> simp_all [cheapest]
  | succ i =>
    cases j with
    | zero => simp_all [cheapest]
    | succ j => omega

theorem FilledTo.entry {i j : ℕ} {ca : ℕ × ℕ → WithTop C}
    (h : FilledTo dist p q (i + 1) (j + 1) ca) (hi : i + 1 < p.length) (hj : j + 1 < q.length) :
    FilledTo dist p q (i + 1) (j + 2) (accEntry dist p q (i + 1) ca (j + 1)) := by
  intro c hp hq hc
  rw [accEntry, Function.update_apply]
  split
  · rename_i heq
    have hup : ca (i, j + 1) = cheapest (stepCost dist p q) i (j + 1) :=
      h (i, j + 1) (by simp; omega) hj (by simp)
    have hleft : ca (i + 1, j) = cheapest (stepCost dist p q) (i + 1) j :=
      h (i + 1, j) hi (by simp; omega) (by simp)
    have hboth : ca (i, j) = cheapest (stepCost dist p q) i j :=
      h (i, j) (by simp; omega) (by simp; omega) (by simp)
    rw [heq, Nat.add_sub_cancel, Nat.add_sub_cancel, hup, hleft, hboth, cheapest]
  · rename_i hne
    have hcol : ¬(c.1 = i + 1 ∧ c.2 = j + 1) := fun hboth => hne (Prod.ext hboth.1 hboth.2)
    exact h c hp hq (by omega)

theorem FilledTo.row {i : ℕ} {ca : ℕ × ℕ → WithTop C} (h : FilledTo dist p q (i + 1) 1 ca)
    (hi : i + 1 < p.length) :
    FilledTo dist p q (i + 2) 1
      ((List.range' 1 (q.length - 1)).foldl (accEntry dist p q (i + 1)) ca) := by
  have hcols : ∀ n, n + 1 ≤ q.length → FilledTo dist p q (i + 1) (n + 1)
      ((List.range' 1 n).foldl (accEntry dist p q (i + 1)) ca) := by
    intro n hn
    induction n with
    | zero => exact h
    | succ n ih =>
      rw [List.range'_1_concat, List.foldl_concat, Nat.add_comm 1 n]
      exact (ih (by omega)).entry hi (by omega)
  intro c hp hq hc
  exact hcols (q.length - 1) (by omega) c hp hq (by omega)

theorem accTable_eq {i j : ℕ} (hi : i < p.length) (hj : j < q.length) :
    accTable dist p q (i, j) = cheapest (stepCost dist p q) i j := by
  have hrows : ∀ n, n + 1 ≤ p.length → FilledTo dist p q (n + 1) 1
      ((List.range' 1 n).foldl
        (fun ca i => (List.range' 1 (q.length - 1)).foldl (accEntry dist p q i) ca)
        (accStart p.length q.length)) := by
    intro n hn
    induction n with
    | zero => exact filledTo_start
    | succ n ih =>
      rw [List.range'_1_concat, List.foldl_concat, Nat.add_comm 1 n]
      exact (ih (by omega)).row (by omega)
  exact hrows (p.length - 1) (by omega) (i, j) hi hj (by simp; omega)

end table

section dense
variable {C : Type*} [Field C] [LinearOrder C] [IsStrictOrderedRing C] {dist : C × C → C × C → C}
  {d : C} {a b : C × C}

def Euclidean (dist : C × C → C × C → C) : Prop :=
  ∀ x y, 0 ≤ dist x y ∧
    dist x y * dist x y = (y.1 - x.1) * (y.1 - x.1) + (y.2 - x.2) * (y.2 - x.2)

/-- The point at distance `t` from `a` on the way to `b`. -/
def walked (dist : C × C → C × C → C) (a b : C × C) (t : C) : C × C :=
  (a.1 + (b.1 - a.1) / dist a b * t, a.2 + (b.2 - a.2) / dist a b * t)

theorem Euclidean.le_of (h : Euclidean dist) (hd : 0 ≤ d) {x y : C × C}
    (hle : (y.1 - x.1) * (y.1 - x.1) + (y.2 - x.2) * (y.2 - x.2) ≤ d * d) : dist x y ≤ d := by
  rw [← (h x y).2] at hle
  exact (mul_self_le_mul_self_iff (h x y).1 hd).2 hle

omit [LinearOrder C] [IsStrictOrderedRing C] in
theorem walked_zero : walked dist a b 0 = a := by simp [walked]

omit [LinearOrder C] [IsStrictOrderedRing C] in
theorem walked_dist (h : dist a b ≠ 0) : walked dist a b (dist a b) = b := by
  simp [walked, div_mul_cancel₀ _ h]

theorem Euclidean.dist_walked (h : Euclidean dist) (hab : dist a b ≠ 0) (hd : 0 ≤ d) {s t : C}
    (hle : (t - s) * (t - s) ≤ d * d) : dist (walked dist a b s) (walked dist a b t) ≤ d := by
  have hunit : (b.1 - a.1) / dist a b * ((b.1 - a.1) / dist a b) +
      (b.2 - a.2) / dist a b * ((b.2 - a.2) / dist a b) = 1 := by
    rw [div_mul_div_comm, div_mul_div_comm, ← add_div, ← (h a b).2]
    exact div_self (mul_ne_zero hab hab)
  apply h.le_of hd
  refine le_trans (le_of_eq ?_) hle
  simp only [walked]
  linear_combination (t - s) * (t - s) * hunit

def Near (dist : C × C → C × C → C) (d : C) (x y : C × C) : Prop := dist x y ≤ d

theorem Euclidean.near_end (h : Euclidean dist) (hd : 0 < d) {curd : C} (hend : dist a b ≤ curd)
    (hprev : curd - d ≤ dist a b) : Near dist d (walked dist a b (curd - d)) b := by
  by_cases hab : dist a b = 0
  · have hstay : walked dist a b (curd - d) = a := by simp [walked, hab]
    rw [Near, hstay, hab]
    exact hd.le
  · have hle : (dist a b - (curd - d)) * (dist a b - (curd - d)) ≤ d * d :=
      mul_self_le_mul_self (by linarith) (by linarith)
    have hnear := h.dist_walked hab hd.le hle
    rwa [walked_dist hab] at hnear

omit [IsStrictOrderedRing C] in
theorem densifySegment_ended {curd : C} (hend : dist a b ≤ curd) {fuel : ℕ} (hfuel : 1 ≤ fuel) :
    densifySegment dist d a b fuel curd = some [] := by
  obtain ⟨fuel, rfl⟩ := Nat.exists_eq_succ_of_ne_zero (Nat.ne_of_gt hfuel)
  rw [densifySegment]
  exact if_neg (not_lt.2 hend)

/-- From `curd` on the loop ends, and leaves no gap. -/
theorem densifySegment_near (h : Euclidean dist) (hd : 0 < d) (n : ℕ) (curd : C)
    (hn : dist a b ≤ curd + n * d) (hlow : d ≤ curd) (hprev : curd - d ≤ dist a b) :
    ∃ between N, (∀ fuel ≥ N, densifySegment dist d a b fuel curd = some between) ∧
      (walked dist a b (curd - d) :: between ++ [b]).IsChain (Near dist d) := by
  have hended : dist a b ≤ curd → ∃ between N,
      (∀ fuel ≥ N, densifySegment dist d a b fuel curd = some between) ∧
        (walked dist a b (curd - d) :: between ++ [b]).IsChain (Near dist d) := fun hend =>
    ⟨[], 1, fun _ hfuel => densifySegment_ended hend hfuel,
      List.isChain_pair.2 (h.near_end hd hend hprev)⟩
  induction n generalizing curd with
  | zero => exact hended (by simpa using hn)
  | succ n ih =>
    by_cases hcurd : curd < dist a b
    · have hn' : dist a b ≤ curd + d + n * d := by
        rw [Nat.cast_succ] at hn
        linarith
      obtain ⟨between, N, hrun, hchain⟩ := ih (curd + d) hn' (by linarith) (by linarith)
        fun hend => ⟨[], 1, fun _ hfuel => densifySegment_ended hend hfuel,
          List.isChain_pair.2 (h.near_end hd hend (by linarith))⟩
      rw [add_sub_cancel_right] at hchain
      refine ⟨walked dist a b curd :: between, N + 1, fun fuel hfuel => ?_, ?_⟩
      · obtain ⟨fuel, rfl⟩ := Nat.exists_eq_succ_of_ne_zero (by omega : fuel ≠ 0)
        rw [densifySegment, hrun fuel (by omega)]
        exact if_pos hcurd
      · have hab : dist a b ≠ 0 := by linarith
        have hstep : Near dist d (walked dist a b (curd - d)) (walked dist a b curd) :=
          h.dist_walked hab hd.le (by rw [sub_sub_cancel])
        exact List.isChain_cons_cons.2 ⟨hstep, hchain⟩
    · exact hended (not_lt.1 hcurd)

/-- `r` has the points of `l` and others between them, so that there are no gaps. -/
structure Dense (dist : C × C → C × C → C) (d : C) (l r : List (C × C)) : Prop where
  sublist : l.Sublist r
  head : r.head? = l.head?
  last : r.getLast? = l.getLast?
  single : l.length = 1 → r = l
  near : r.IsChain (Near dist d)

variable [Archimedean C]

theorem densifyRest_near (h : Euclidean dist) (hd : 0 < d) (l : List (C × C)) (a : C × C) :
    ∃ rest N, (∀ fuel ≥ N, densifyRest dist fuel d a l = some rest) ∧ l.Sublist rest ∧
      (a :: rest).getLast? = (a :: l).getLast? ∧ (l = [] → rest = []) ∧
      (a :: rest).IsChain (Near dist d) := by
  induction l generalizing a with
  | nil => exact ⟨[], 0, fun _ _ => rfl, .refl _, rfl, fun _ => rfl, List.isChain_singleton _⟩
  | cons b l ih =>
    obtain ⟨n, hn⟩ := Archimedean.arch (dist a b) hd
    have hfar : dist a b ≤ d + n * d := by
      rw [nsmul_eq_mul] at hn
      linarith
    have hstart : d - d ≤ dist a b := by
      rw [sub_self]
      exact (h a b).1
    obtain ⟨between, N₁, hrun₁, hchain₁⟩ := densifySegment_near h hd n d hfar (le_refl d) hstart
    rw [sub_self, walked_zero] at hchain₁
    obtain ⟨rest, N₂, hrun₂, hsub, hlast, -, hchain₂⟩ := ih b
    refine ⟨between ++ b :: rest, max N₁ N₂, fun fuel hfuel => ?_, ?_, ?_, ?_, ?_⟩
    · rw [densifyRest, hrun₁ fuel (le_trans (le_max_left _ _) hfuel),
        hrun₂ fuel (le_trans (le_max_right _ _) hfuel)]
      rfl
    · exact (hsub.cons_cons b).trans (List.sublist_append_right between _)
    · rw [← List.cons_append, List.getLast?_append, hlast]
      simp [List.getLast?_cons]
    · exact fun hnil => nomatch hnil
    · exact List.isChain_split.2 ⟨hchain₁, hchain₂⟩

theorem densify_dense (h : Euclidean dist) (hd : 0 < d) (l : List (C × C)) :
    ∃ r N, Dense dist d l r ∧ ∀ fuel ≥ N, densify dist fuel d l = some r := by
  cases l with
  | nil => exact ⟨[], 0, ⟨.refl _, rfl, rfl, fun _ => rfl, List.isChain_nil⟩, fun _ _ => rfl⟩
  | cons a l =>
    obtain ⟨rest, N, hrun, hsub, hlast, hnil, hchain⟩ := densifyRest_near h hd l a
    refine ⟨a :: rest, N, ⟨hsub.cons_cons a, rfl, hlast, fun hone => ?_, hchain⟩,
      fun fuel hfuel => ?_⟩
    · rw [hnil (List.length_eq_zero_iff.1 (Nat.succ.inj hone)),
        List.length_eq_zero_iff.1 (Nat.succ.inj hone)]
    · rw [densify, hrun fuel hfuel]
      rfl

omit [Field C] [IsStrictOrderedRing C] [Archimedean C] in
theorem Dense.length_eq_one_iff {l r : List (C × C)} (h : Dense dist d l r) :
    r.length = 1 ↔ l.length = 1 := by
  refine ⟨fun hr => ?_, fun hl => by rw [h.single hl, hl]⟩
  have hle := h.sublist.length_le
  have hne : l ≠ [] := by
    rintro rfl
    have hhead := h.head
    rw [List.head?_nil, List.head?_eq_none_iff] at hhead
    rw [hhead] at hr
    cases hr
  have hpos := List.length_pos_iff.2 hne
  omega

/-- `accFrechetDistC` makes both lines dense, and returns the least price of a coupling of their
points that goes on in both lines first. Without such a coupling the result is infinite. -/
theorem accFrechetDistC_isLeast (h : Euclidean dist) (hd : 0 < d) {a b : List (C × C)}
    (ha : a ≠ []) (hb : b ≠ []) :
    ∃ p q v N, Dense dist d a p ∧ Dense dist d b q ∧
      (∀ fuel ≥ N, densify dist fuel d a = some p ∧ densify dist fuel d b = some q ∧
        accFrechetDistC dist fuel a b d = some v) ∧
      (∀ w : C, v = w → IsLeast {x | ∃ pairs, Couples pairs (p.length - 1, q.length - 1) ∧
        Inner pairs ∧ x = price (stepCost dist p q) pairs} w) ∧
      (v = ⊤ ↔ (a.length = 1 ∧ b.length ≠ 1) ∨ (a.length ≠ 1 ∧ b.length = 1)) := by
  obtain ⟨p, N₁, hp, hrun₁⟩ := densify_dense h hd a
  obtain ⟨q, N₂, hq, hrun₂⟩ := densify_dense h hd b
  have hpos : ∀ {l r : List (C × C)}, Dense dist d l r → l ≠ [] → 0 < r.length := fun hr hl =>
    Nat.lt_of_lt_of_le (List.length_pos_iff.2 hl) hr.sublist.length_le
  have hp₀ := hpos hp ha
  have hq₀ := hpos hq hb
  refine ⟨p, q, cheapest (stepCost dist p q) (p.length - 1) (q.length - 1), max N₁ N₂, hp, hq,
    fun fuel hfuel => ?_, fun w hw => cheapest_isLeast _ _ _ w hw, ?_⟩
  · have hp' := hrun₁ fuel (le_trans (le_max_left _ _) hfuel)
    have hq' := hrun₂ fuel (le_trans (le_max_right _ _) hfuel)
    have hboth : ¬(p = [] ∨ q = []) := by
      rw [← List.length_eq_zero_iff, ← List.length_eq_zero_iff]
      omega
    refine ⟨hp', hq', ?_⟩
    rw [accFrechetDistC, hp', hq', Option.bind_some, Option.bind_some, if_neg hboth,
      accTable_eq (by omega) (by omega)]
  · have hp₁ := hp.length_eq_one_iff
    have hq₁ := hq.length_eq_one_iff
    rw [cheapest_eq_top_iff]
    omega

/-- Two streets have a price, and a street and a line that is only a point have none. -/
theorem accFrechetDistC_isLeast_streets :
    let dist := fun x y : ℝ × ℝ =>
      √((y.1 - x.1) * (y.1 - x.1) + (y.2 - x.2) * (y.2 - x.2))
    (∃ p q, ∃ w : ℝ, ∃ N, (∀ fuel ≥ N,
        accFrechetDistC dist fuel [(0, 0), (3, 4)] [(0, 1), (5, 5)] 2 = some (w : WithTop ℝ)) ∧
      IsLeast {x | ∃ pairs, Couples pairs (p.length - 1, q.length - 1) ∧
        Inner pairs ∧ x = price (stepCost dist p q) pairs} w) ∧
      ∃ N, ∀ fuel ≥ N, accFrechetDistC dist fuel [(0, 0), (3, 4)] [(1, 1)] 2 = some ⊤ := by
  intro dist
  have hdist : Euclidean dist := fun x y =>
    ⟨Real.sqrt_nonneg _,
      Real.mul_self_sqrt (add_nonneg (mul_self_nonneg _) (mul_self_nonneg _))⟩
  constructor
  · obtain ⟨p, q, v, N, -, -, hrun, hleast, htop⟩ :=
      accFrechetDistC_isLeast (d := 2) hdist two_pos (a := [(0, 0), (3, 4)]) (b := [(0, 1), (5, 5)])
        (List.cons_ne_nil _ _) (List.cons_ne_nil _ _)
    have hv : v ≠ ⊤ := fun heq => by simpa using htop.1 heq
    obtain ⟨w, hw⟩ := WithTop.ne_top_iff_exists.1 hv
    exact ⟨p, q, w, N, fun fuel hfuel => hw ▸ (hrun fuel hfuel).2.2, hleast w hw.symm⟩
  · obtain ⟨p, q, v, N, -, -, hrun, -, htop⟩ :=
      accFrechetDistC_isLeast (d := 2) hdist two_pos (a := [(0, 0), (3, 4)]) (b := [(1, 1)])
        (List.cons_ne_nil _ _) (List.cons_ne_nil _ _)
    have hv : v = ⊤ := htop.2 (Or.inr ⟨by decide, rfl⟩)
    exact ⟨N, fun fuel hfuel => hv ▸ (hrun fuel hfuel).2.2⟩

end dense

end Pfaedle.Geo

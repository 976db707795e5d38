import Pfaedle.NameSimi
import Pfaedle.Snapping

set_option autoImplicit false

/-!
# Two names in either order

`editDist` fills a table row by row; an entry is the distance of two prefixes, and this one does
not depend on the order.
-/
namespace Pfaedle.ShapeBuilder
open Gtfs

section editDist

def prefixDist : Text → Text → ℕ
  | [], q => q.length
  | c :: p, [] => (c :: p).length
  | c :: p, d :: q =>
    min (prefixDist p (d :: q) + 1)
      (min (prefixDist (c :: p) q + 1) (prefixDist p q + if c = d then 0 else 1))

/-- The row for the prefix `p`, from the column of the prefix `q` on. -/
def distRow (p : Text) : Text → Text → List ℕ
  | q, [] => [prefixDist p q]
  | q, d :: s => prefixDist p q :: distRow p (d :: q) s

theorem distRow_eq_cons (p q s : Text) :
    ∃ rest, distRow p q s = prefixDist p q :: rest := by
  cases s with
  | nil => exact ⟨[], rfl⟩
  | cons d s => exact ⟨distRow p (d :: q) s, rfl⟩

theorem editRow_eq (c : Char) (p q s : Text) :
    prefixDist (c :: p) q :: editRow c (prefixDist (c :: p) q) (distRow p q s) s =
      distRow (c :: p) q s := by
  induction s generalizing q with
  | nil => rfl
  | cons d s ih =>
    obtain ⟨rest, hrest⟩ := distRow_eq_cons p (d :: q) s
    have hcell : prefixDist (c :: p) (d :: q) = min (prefixDist p (d :: q) + 1)
        (min (prefixDist (c :: p) q + 1) (prefixDist p q + if c = d then 0 else 1)) := by
      rw [prefixDist]
    rw [distRow, distRow, ← ih, hrest, editRow, ← hcell]

theorem foldl_editRow (s1 s2 p : Text) :
    (s1.zipIdx p.length).foldl
        (fun prev c => (c.2 + 1) :: editRow c.1 (c.2 + 1) prev s2) (distRow p [] s2) =
      distRow (s1.reverse ++ p) [] s2 := by
  induction s1 generalizing p with
  | nil => rfl
  | cons c s1 ih =>
    have hrow := editRow_eq c p [] s2
    have hstart : prefixDist (c :: p) [] = p.length + 1 := by
      rw [prefixDist, List.length_cons]
    rw [hstart] at hrow
    have hrest := ih (c :: p)
    rw [List.length_cons] at hrest
    rw [List.zipIdx_cons, List.foldl_cons, hrow, hrest]
    simp

theorem distRow_range (q s : Text) :
    distRow [] q s = List.range' q.length (s.length + 1) := by
  induction s generalizing q with
  | nil => simp [distRow, prefixDist]
  | cons d s ih =>
    have hstart : prefixDist [] q = q.length := by
      rw [prefixDist]
    rw [distRow, ih, hstart]
    exact List.range'_succ.symm

theorem distRow_last (p q s : Text) :
    (distRow p q s)[s.length]? = some (prefixDist p (s.reverse ++ q)) := by
  induction s generalizing q with
  | nil => rfl
  | cons d s ih =>
    rw [distRow, List.length_cons, List.getElem?_cons_succ, ih]
    simp

theorem editDist_eq (s1 s2 : Text) : editDist s1 s2 = prefixDist s1.reverse s2.reverse := by
  have hrows := foldl_editRow s1 s2 []
  have hfirst := distRow_range [] s2
  rw [List.length_nil, ← List.range_eq_range'] at hfirst
  rw [List.length_nil, hfirst] at hrows
  rw [editDist, hrows, distRow_last]
  simp

theorem prefixDist_comm (p q : Text) : prefixDist p q = prefixDist q p := by
  fun_induction prefixDist p q with
  | case1 q => cases q <;> simp [prefixDist]
  | case2 c p => simp [prefixDist]
  | case3 c p d q ih₁ ih₂ ih₃ =>
    rw [prefixDist, ih₁, ih₂, ih₃]
    simp only [eq_comm (a := c) (b := d)]
    omega

theorem editDist_comm (s1 s2 : Text) : editDist s1 s2 = editDist s2 s1 := by
  rw [editDist_eq, editDist_eq, prefixDist_comm]

end editDist

section simi
variable {C : Type*} [Field C]

theorem statSimi_comm [LinearOrder C] (a b : Text) : (statSimi a b : C) = statSimi b a := by
  simp only [statSimi, editDist_comm a b, max_comm a.length b.length, eq_comm (a := a) (b := b),
    or_comm (a := a = [])]
  by_cases hab : hasWord a b <;> by_cases hba : hasWord b a <;> simp [hab, hba]

theorem lineSimi_comm (a b : Text) : (lineSimi a b : C) = lineSimi b a := by
  simp only [lineSimi, eq_comm (a := a) (b := b), or_comm (a := a = [])]
  by_cases hab : hasWord a b <;> by_cases hba : hasWord b a <;> simp [hab, hba]

end simi

end Pfaedle.ShapeBuilder

namespace Pfaedle.Trgraph
open Gtfs ShapeBuilder

/-- What `station_info::simi` reads of a `station_info`. -/
structure StationNames where
  name : Text
  altNames : List Text

variable {C : Type*} [Field C] [LinearOrder C]

/-- `station_info::simi`; the other one may be null. -/
def StationNames.simi (station : StationNames) : Option StationNames → C
  | none => 0
  | some other =>
    if (0.5 : C) < statSimi station.name other.name then 1
    else if station.altNames.any fun a => decide ((0.5 : C) < statSimi a other.name) ||
        other.altNames.any fun b => (0.5 : C) < statSimi a b then 1
    else if other.altNames.any fun b => (0.5 : C) < statSimi station.name b then 1
    else 0

def StationNames.names (station : StationNames) : List Text := station.name :: station.altNames

theorem StationNames.simi_eq (station other : StationNames) :
    (station.simi (some other) : C) =
      if ∃ a ∈ station.names, ∃ b ∈ other.names, (0.5 : C) < statSimi a b then 1 else 0 := by
  have hpairs : (∃ a ∈ station.names, ∃ b ∈ other.names, (0.5 : C) < statSimi a b) ↔
      (0.5 : C) < statSimi station.name other.name ∨
        (∃ a ∈ station.altNames, (0.5 : C) < statSimi a other.name ∨
          ∃ b ∈ other.altNames, (0.5 : C) < statSimi a b) ∨
        ∃ b ∈ other.altNames, (0.5 : C) < statSimi station.name b := by
    simp only [names, List.mem_cons, exists_eq_or_imp]
    rw [or_assoc, or_comm (a := ∃ b ∈ other.altNames, (0.5 : C) < statSimi station.name b)]
  rw [if_congr hpairs rfl rfl]
  simp only [StationNames.simi, List.any_eq_true, decide_eq_true_eq, Bool.or_eq_true, ite_or]

theorem StationNames.simi_comm (x y : StationNames) :
    (x.simi (some y) : C) = y.simi (some x) := by
  rw [simi_eq, simi_eq]
  apply if_congr _ rfl rfl
  constructor
  · rintro ⟨a, ha, b, hb, h⟩
    exact ⟨b, hb, a, ha, statSimi_comm (C := C) a b ▸ h⟩
  · rintro ⟨a, ha, b, hb, h⟩
    exact ⟨b, hb, a, ha, statSimi_comm (C := C) a b ▸ h⟩

variable [IsStrictOrderedRing C]

theorem StationNames.simi_self (x : StationNames) : (x.simi (some x) : C) = 1 := by
  rw [simi_eq, if_pos ⟨x.name, List.mem_cons_self, x.name, List.mem_cons_self, statSimi_self _⟩]

def StationData.names (bytes : String → Text) (d : StationData) : StationNames :=
  ⟨bytes d.name, d.altNames.map bytes⟩

/-- The comparison that the snapping takes, when `statSimi` is the one of the router. -/
theorem snapper_simi_iff {P L : Type*} [AddCommMonoid L] [LinearOrder L] (S : Snapper P L)
    (bytes : String → Text)
    (h : ∀ a b, S.statSimi a b = decide ((0.5 : C) < statSimi (bytes a) (bytes b)))
    (a b : StationData) :
    simi S a b = true ↔ ((a.names bytes).simi (some (b.names bytes)) : C) = 1 := by
  have hone : ∀ p : Prop, [Decidable p] → ((if p then (1 : C) else 0) = 1 ↔ p) := by
    intro p _
    split_ifs with hp <;> simp [hp]
  rw [StationNames.simi_eq, hone]
  simp only [simi, h, StationData.names, StationNames.names, List.any_eq_true, List.mem_cons,
    List.mem_map, Bool.or_eq_true, decide_eq_true_eq, exists_eq_or_imp, exists_exists_and_eq_and,
    or_assoc]
  exact or_congr_right or_comm

variable (C) in
/-- It does not matter which side is the stop and which the station. -/
theorem simi_symmetric_reflexive (a b : Text) (x y : StationNames) :
    (statSimi a b : C) = statSimi b a ∧ (lineSimi a b : C) = lineSimi b a ∧
      (x.simi (some y) : C) = y.simi (some x) ∧ (x.simi (some x) : C) = 1 :=
  ⟨statSimi_comm a b, lineSimi_comm a b, x.simi_comm y, x.simi_self⟩

theorem simi_symmetric_reflexive_rational :
    (statSimi ['A', ' ', 'B'] ['B', ' ', 'A'] : ℚ) = statSimi ['B', ' ', 'A'] ['A', ' ', 'B'] ∧
      (lineSimi ['A', ' ', 'B'] ['B', ' ', 'A'] : ℚ) = lineSimi ['B', ' ', 'A'] ['A', ' ', 'B'] ∧
      (StationNames.simi ⟨['A'], [['B']]⟩ (some ⟨['B'], []⟩) : ℚ) =
        StationNames.simi ⟨['B'], []⟩ (some ⟨['A'], [['B']]⟩) ∧
      (StationNames.simi ⟨['A'], [['B']]⟩ (some ⟨['A'], [['B']]⟩) : ℚ) = 1 :=
  simi_symmetric_reflexive ℚ ['A', ' ', 'B'] ['B', ' ', 'A'] ⟨['A'], [['B']]⟩ ⟨['B'], []⟩

end Pfaedle.Trgraph

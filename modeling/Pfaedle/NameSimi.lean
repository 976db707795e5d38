import Mathlib.Algebra.Order.Field.Basic
import Mathlib.Tactic.NormNum
import Pfaedle.TripClusters

set_option autoImplicit false

/-!
# How similar a line of an edge is to a trip

`editDist`, `statSimi`, `lineSimi` and `routing_attributes::simi`. A character is one byte.
-/
namespace Pfaedle.ShapeBuilder
open Gtfs

structure TransitEdgeLine where
  fromStr : Text
  toStr : Text
  shortName : Text
  deriving DecidableEq

section editDist

/-- The inner loop of `editDist`; `left` is `cur[j]`, and the list holds `prev` from `j` on. -/
def editRow (c : Char) : ℕ → List ℕ → Text → List ℕ
  | left, diag :: up :: prev, d :: s =>
    let cur := min (up + 1) (min (left + 1) (diag + if c = d then 0 else 1))
    cur :: editRow c cur (up :: prev) s
  | _, _, _ => []

def editDist (s1 s2 : Text) : ℕ :=
  let prev := s1.zipIdx.foldl
    (fun prev c => (c.2 + 1) :: editRow c.1 (c.2 + 1) prev s2) (List.range (s2.length + 1))
  prev[s2.length]?.getD 0

example : editDist "xabcd".toList "abcde".toList = 2 := by decide

end editDist

section simi
variable {C : Type*} [Field C] [LinearOrder C]

def hasWord (a b : Text) : Bool :=
  b.length + 1 < a.length && (a.take (b.length + 1) = b ++ [' '] ||
    a.drop (a.length - (b.length + 1)) = ' ' :: b)

def statSimi (a b : Text) : C :=
  if a = b then 1
  else if a = [] ∨ b = [] then 0
  else if hasWord a b then 1
  else if hasWord b a then 1
  else if (editDist a b : C) / (max a.length b.length : ℕ) < 0.05 then 1
  else 0

def lineSimi (a b : Text) : C :=
  if a = b then 1
  else if a = [] ∨ b = [] then 0
  else if hasWord a b then 1
  else if hasWord b a then 1
  else 0

variable (attrs : RoutingAttributes) (line : TransitEdgeLine)

variable (C) in
def NameMatches : Prop :=
  attrs.shortName = [] ∨ (0.5 : C) < lineSimi line.shortName attrs.shortName

variable (C) in
/-- The other two conditions of `simi`: a name of the trip and one of the line. -/
def EndMatches (name lineName : Text) : Prop :=
  name = [] ∨ lineName = [] ∨ (0.5 : C) < statSimi lineName name

instance : Decidable (NameMatches C attrs line) := inferInstanceAs (Decidable (_ ∨ _))

instance (name lineName : Text) : Decidable (EndMatches C name lineName) :=
  inferInstanceAs (Decidable (_ ∨ _ ∨ _))

def simi : C :=
  let cur : C := 1
  let cur := if NameMatches C attrs line then cur - 0.333333333 else cur
  let cur := if EndMatches C attrs.to_ line.toStr then cur - 0.333333333 else cur
  if EndMatches C attrs.frm line.fromStr then cur - 0.333333333 else cur

variable (C) in
def fullMatch : C := 1 - 0.333333333 - 0.333333333 - 0.333333333

variable [IsStrictOrderedRing C]

theorem half_lt_one : (0.5 : C) < 1 := by norm_num

theorem statSimi_self (a : Text) : (0.5 : C) < statSimi a a := by
  rw [statSimi, if_pos rfl]
  exact half_lt_one

theorem lineSimi_self (a : Text) : (0.5 : C) < lineSimi a a := by
  rw [lineSimi, if_pos rfl]
  exact half_lt_one

theorem simi_full_iff : (simi attrs line : C) = fullMatch C ↔
    NameMatches C attrs line ∧ EndMatches C attrs.to_ line.toStr ∧
      EndMatches C attrs.frm line.fromStr := by
  unfold simi fullMatch
  dsimp only
  by_cases hname : NameMatches C attrs line
  · by_cases hto : EndMatches C attrs.to_ line.toStr
    · by_cases hfrom : EndMatches C attrs.frm line.fromStr
      · simp [hname, hto, hfrom]
      · rw [if_pos hname, if_pos hto, if_neg hfrom]
        exact ⟨fun h => by norm_num at h, fun h => absurd h.2.2 hfrom⟩
    · rw [if_neg hto]
      refine ⟨fun h => ?_, fun h => absurd h.2.1 hto⟩
      split_ifs at h <;> norm_num at h
  · rw [if_neg hname]
    refine ⟨fun h => ?_, fun h => absurd h.1 hname⟩
    split_ifs at h <;> norm_num at h

end simi

end Pfaedle.ShapeBuilder

import Pfaedle.CsvRows
import Mathlib.Data.List.Forall2
import Mathlib.Tactic.Linarith
import Mathlib.Tactic.NormNum
import Mathlib.Data.Int.Basic

set_option autoImplicit false

/-!
# Numbers in text

`std::stoi`, `std::to_string` and the conversions of `double` values that the tables need.
-/
namespace Pfaedle.Gtfs

/-- The exceptions that the readers catch, with their `what()`. -/
inductive StdException where
  | outOfRange (what : Text)
  | invalidArgument (what : Text)
  | invalidFieldFormat (what : Text)

def invalidFieldFormat {α : Type*} (msg : Text) : Except StdException α :=
  .error (.invalidFieldFormat ("Invalid GTFS field format. ".toList ++ msg))

def isSpace (c : Char) : Bool :=
  c == ' ' || c == '\t' || c == '\n' || c == '\x0b' || c == '\x0c' || c == '\r'

/-- The sign that `strtol` accepts before the digits. -/
def sign : Text → Bool × Text
  | '-' :: rest => (true, rest)
  | '+' :: rest => (false, rest)
  | rest => (false, rest)

/-- The whole number at the start of `str`, as `strtol` reads it. -/
def strtol (what str : Text) : Except StdException ℤ :=
  let (negative, rest) := sign (str.dropWhile isSpace)
  let digits := rest.takeWhile Char.isDigit
  if digits = [] then .error (.invalidArgument what)
  else .ok (if negative then -Nat.ofDigitChars 10 digits 0 else Nat.ofDigitChars 10 digits 0)

def toInt (z : ℤ) : Except StdException ℤ :=
  if -2 ^ 31 ≤ z ∧ z < 2 ^ 31 then .ok z else .error (.outOfRange "stoi".toList)

def stoi (str : Text) : Except StdException ℤ := strtol "stoi".toList str >>= toInt

def toStr (z : ℤ) : Text :=
  if z < 0 then '-' :: Nat.toDigits 10 z.natAbs else Nat.toDigits 10 z.natAbs

def sizeT (z : ℤ) : ℕ := (z % 2 ^ 64).toNat

def uint16T (z : ℤ) : ℕ := (z % 2 ^ 16).toNat

def intT (n : ℕ) : ℤ := Int.bmod n (2 ^ 32)

/-- `double` as far as the tables use it: `stod`, `std::fixed << std::setprecision(6)`, the
literals that are integers, and `<`. -/
structure Doubles (D : Type) where
  stod : Text → Except StdException D
  fixed : D → Text
  ofInt : ℤ → D
  lt : D → D → Bool

/-- A printed value can be read again, prints the same, and stays on its side of the small
integers. -/
structure Doubles.Reread {D : Type} (R : Doubles D) : Prop where
  plain : ∀ d, Plain (R.fixed d)
  ne_nil : ∀ d, R.fixed d ≠ []
  reread : ∀ d, ∃ d', R.stod (R.fixed d) = .ok d' ∧ R.fixed d' = R.fixed d ∧
    ∀ c : ℤ, |c| ≤ 180 →
      (R.lt d (R.ofInt c) = false → R.lt d' (R.ofInt c) = false) ∧
      (R.lt (R.ofInt c) d = false → R.lt (R.ofInt c) d' = false)

section exceptions
variable {E A B : Type}

theorem bind_ok {x : Except E A} {f : A → Except E B} {b : B} :
    x >>= f = .ok b ↔ ∃ a, x = .ok a ∧ f a = .ok b := by
  cases x with
  | error e => exact ⟨fun h => (by cases h), fun ⟨a, ha, _⟩ => (by cases ha)⟩
  | ok a => exact ⟨fun h => ⟨a, rfl, h⟩, fun ⟨a', ha, h⟩ => (by cases ha; exact h)⟩

theorem map_ok {x : Except E A} {f : A → B} {b : B} :
    f <$> x = .ok b ↔ ∃ a, x = .ok a ∧ f a = b := by
  cases x with
  | error e => exact ⟨fun h => (by cases h), fun ⟨a, ha, _⟩ => (by cases ha)⟩
  | ok a =>
    constructor
    · intro h
      exact ⟨a, rfl, Except.ok.inj h⟩
    · rintro ⟨a', ha, h⟩
      cases ha
      exact congrArg Except.ok h

theorem ok_bind {E A B : Type} (a : A) (f : A → Except E B) : .ok a >>= f = f a := rfl

theorem mapM_ok_iff {X Y : Type} {g : X → Except E Y} {xs : List X} {ys : List Y} :
    xs.mapM g = .ok ys ↔ List.Forall₂ (fun x y => g x = .ok y) xs ys := by
  induction xs generalizing ys with
  | nil =>
    rw [List.mapM_nil, List.forall₂_nil_left_iff]
    exact ⟨fun h => (Except.ok.inj h).symm, fun h => congrArg Except.ok h.symm⟩
  | cons x xs ih =>
    rw [List.mapM_cons, bind_ok, List.forall₂_cons_left_iff]
    constructor
    · rintro ⟨y, hy, h⟩
      obtain ⟨ys', hys', heq⟩ := bind_ok.1 h
      exact ⟨y, ys', hy, ih.1 hys', (Except.ok.inj heq).symm⟩
    · rintro ⟨y, ys', hy, hys', rfl⟩
      exact ⟨y, hy, bind_ok.2 ⟨ys', ih.2 hys', rfl⟩⟩

theorem invalidFieldFormat_ne_ok {msg : Text} {a : A} : invalidFieldFormat msg ≠ .ok a :=
  fun h => (by cases h)

end exceptions

section integers

theorem isDigit_of_mem_toDigits {c : Char} {n : ℕ} (h : c ∈ Nat.toDigits 10 n) :
    c.isDigit = true := Nat.isDigit_of_mem_toDigits (by omega) (by omega) h

theorem not_isSpace_of_isDigit {c : Char} (h : c.isDigit = true) : isSpace c = false := by
  by_contra hs
  rw [Bool.not_eq_false, isSpace] at hs
  simp only [Bool.or_eq_true, beq_iff_eq] at hs
  rcases hs with (((((rfl | rfl) | rfl) | rfl) | rfl) | rfl) <;> exact absurd h (by decide)

theorem plain_digit {c : Char} (h : c.isDigit = true) :
    c ≠ quote ∧ c ≠ csvSeparator ∧ isBlank c = false ∧ c ≠ '\r' ∧ c ≠ '\n' := by
  have hne : ∀ d : Char, d.isDigit = false → c ≠ d := by
    rintro d hd rfl
    rw [h] at hd
    cases hd
  refine ⟨hne _ (by decide), hne _ (by decide), ?_, hne _ (by decide), hne _ (by decide)⟩
  rw [isBlank, beq_eq_false_iff_ne.2 (hne ' ' (by decide)),
    beq_eq_false_iff_ne.2 (hne '\t' (by decide))]
  rfl

theorem plain_toStr (z : ℤ) : Plain (toStr z) := by
  rw [toStr]
  split_ifs
  · intro c hc
    cases List.mem_cons.1 hc with
    | inl heq =>
      rw [heq]
      decide
    | inr hmem => exact plain_digit (isDigit_of_mem_toDigits hmem)
  · exact fun c hc => plain_digit (isDigit_of_mem_toDigits hc)

theorem toStr_ne_nil (z : ℤ) : toStr z ≠ [] := by
  rw [toStr]
  split_ifs
  · exact List.cons_ne_nil _ _
  · exact Nat.toDigits_ne_nil

theorem sign_digits {c : Char} (h : c.isDigit = true) (rest : Text) :
    sign (c :: rest) = (false, c :: rest) := by
  rw [sign]
  · intro rest' heq
    cases heq
    exact absurd h (by decide)
  · intro rest' heq
    cases heq
    exact absurd h (by decide)

theorem sign_toStr (z : ℤ) (rest : Text) :
    sign ((toStr z ++ rest).dropWhile isSpace) =
      (decide (z < 0), Nat.toDigits 10 z.natAbs ++ rest) := by
  rw [toStr]
  split_ifs with hz
  · rw [decide_eq_true hz]
    rfl
  · rw [decide_eq_false hz]
    cases hdigits : Nat.toDigits 10 z.natAbs with
    | nil => exact absurd hdigits Nat.toDigits_ne_nil
    | cons c digits =>
      have hc : c.isDigit = true := isDigit_of_mem_toDigits (hdigits ▸ List.mem_cons_self)
      rw [List.cons_append, List.dropWhile_cons, not_isSpace_of_isDigit hc,
        if_neg Bool.false_ne_true, sign_digits hc]

theorem strtol_toStr (what : Text) (z : ℤ) {rest : Text} (hrest : rest.takeWhile Char.isDigit = []) :
    strtol what (toStr z ++ rest) = .ok z := by
  have htake : (Nat.toDigits 10 z.natAbs ++ rest).takeWhile Char.isDigit =
      Nat.toDigits 10 z.natAbs := by
    rw [List.takeWhile_append_of_pos fun c hc => isDigit_of_mem_toDigits hc, hrest,
      List.append_nil]
  rw [strtol, sign_toStr]
  dsimp only
  rw [htake, if_neg Nat.toDigits_ne_nil, Nat.ofDigitChars_ten_toDigits]
  split_ifs with hz
  · rw [decide_eq_true_eq] at hz
    rw [Int.ofNat_natAbs_of_nonpos hz.le, neg_neg]
  · rw [decide_eq_true_eq, not_lt] at hz
    rw [Int.natAbs_of_nonneg hz]

theorem stoi_toStr {z : ℤ} (hlow : -2 ^ 31 ≤ z) (hhigh : z < 2 ^ 31) : stoi (toStr z) = .ok z := by
  have hread : strtol "stoi".toList (toStr z ++ []) = .ok z := strtol_toStr _ z rfl
  rw [List.append_nil] at hread
  rw [stoi, hread]
  exact if_pos ⟨hlow, hhigh⟩

theorem stoi_range {str : Text} {z : ℤ} (h : stoi str = .ok z) : -2 ^ 31 ≤ z ∧ z < 2 ^ 31 := by
  obtain ⟨y, -, hy⟩ := bind_ok.1 h
  rw [toInt] at hy
  split_ifs at hy with hrange
  cases hy
  exact hrange

/-- Sizes that come from an `int` are written as this `int`. -/
theorem intT_sizeT {z : ℤ} (hlow : -2 ^ 31 ≤ z) (hhigh : z < 2 ^ 31) : intT (sizeT z) = z := by
  have hcast : ((sizeT z : ℕ) : ℤ) = z % 2 ^ 64 :=
    Int.toNat_of_nonneg (Int.emod_nonneg z (by norm_num))
  have hmod : z % 2 ^ 64 % ((2 ^ 32 : ℕ) : ℤ) = z % ((2 ^ 32 : ℕ) : ℤ) :=
    Int.emod_emod_of_dvd z (by norm_num)
  have hbmod : Int.bmod (sizeT z) (2 ^ 32) = Int.bmod z (2 ^ 32) := by
    rw [Int.bmod_def, Int.bmod_def, hcast, hmod]
  have hsmall : Int.bmod z (2 ^ 32) = z :=
    Int.bmod_eq_of_le (by norm_num; linarith) (by norm_num; linarith)
  exact hbmod.trans hsmall

end integers

section wholeNumbers

def wholeNumbers : Doubles ℤ where
  stod := strtol "stod".toList
  fixed z := toStr z ++ ".000000".toList
  ofInt := id
  lt a b := decide (a < b)

theorem wholeNumbers_reread : wholeNumbers.Reread where
  plain z := by
    intro c hc
    cases List.mem_append.1 hc with
    | inl hdigits => exact plain_toStr z c hdigits
    | inr hzeros =>
      have hcase : c = '.' ∨ c = '0' := by
        simpa using hzeros
      rcases hcase with rfl | rfl <;> decide
  ne_nil z := List.append_ne_nil_of_left_ne_nil (toStr_ne_nil z) _
  reread z := ⟨z, strtol_toStr _ z rfl, rfl, fun _ _ => ⟨id, id⟩⟩

end wholeNumbers

end Pfaedle.Gtfs

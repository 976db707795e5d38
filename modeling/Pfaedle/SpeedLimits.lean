import Pfaedle.StdText
import Mathlib.Data.List.DropRight
import Mathlib.Algebra.Order.Ring.Rat

set_option autoImplicit false

/-!
# `string_to_kmh`

The speed limit of a way from the value of its `maxspeed` tag.
-/
namespace Pfaedle.SpeedLimits

open Gtfs

section model

def trim (str : Text) : Text := (str.rdropWhile isSpace).dropWhile isSpace

def endsWith (value ending : Text) : Bool := decide (ending <:+ value)

/-- `str.substr(0, str.find(unit))` if `unit` is found. -/
def before (unit : Text) : Text → Option Text
  | [] => if unit = [] then some [] else none
  | c :: str => if unit <+: c :: str then some [] else (before unit str).map (c :: ·)

def mileFactor : ℚ := 3375039 / 2097152

def splitUnit (str : Text) : Text × ℚ :=
  match before "mp".toList str with
  | some number => (trim number, mileFactor)
  | none =>
    match before "knots".toList str with
    | some number => (trim number, 1.852)
    | none =>
      match before "km".toList str with
      | some number => (trim number, 1)
      | none =>
        match before "kph".toList str with
        | some number => (trim number, 1)
        | none => (str, 1)

def stringToKmh (str : Text) : Except StdException ℚ :=
  if str = [] ∨ trim str = [] then .ok 50
  else if str = "none".toList then .ok 150
  else if endsWith str ":rural".toList || endsWith str ":trunk".toList then .ok 80
  else if endsWith str ":urban".toList then .ok 50
  else if str = "walk".toList ∨ endsWith str ":living_street".toList then .ok 6
  else do
    let value := (← stoi (splitUnit str).1) * (splitUnit str).2
    if value ≤ 0 then .ok 50 else .ok value

end model

section condition

def Symbolic (str : Text) : Prop :=
  (∀ c ∈ str, isSpace c = true) ∨ str = "none".toList ∨ str = "walk".toList ∨
    ∃ ending ∈ [":rural", ":trunk", ":urban", ":living_street"], ending.toList <:+ str

def beforeUnit (str : Text) : Text :=
  (before "mp".toList str <|> before "knots".toList str <|> before "km".toList str <|>
    before "kph".toList str).getD str

/-- After blanks and a sign there are digits, and their number is an `int`. -/
def NumberFirst (str : Text) : Prop :=
  ∃ blanks sgn digits rest, str = blanks ++ (sgn ++ (digits ++ rest)) ∧
    (∀ c ∈ blanks, isSpace c = true) ∧ sgn ∈ [[], ['+'], ['-']] ∧
    digits ≠ [] ∧ (∀ c ∈ digits, c.isDigit = true) ∧ (∀ c ∈ rest.head?, c.isDigit = false) ∧
    Nat.ofDigitChars 10 digits 0 < 2 ^ 31 + if sgn = ['-'] then 1 else 0

end condition

section numbers

theorem takeWhile_eq_of_rest {p : Char → Bool} {l r : Text} (hl : ∀ c ∈ l, p c = true)
    (hr : ∀ c ∈ r.head?, p c = false) : (l ++ r).takeWhile p = l := by
  rw [List.takeWhile_append_of_pos hl]
  cases r with
  | nil => rw [List.takeWhile_nil, List.append_nil]
  | cons c r => rw [List.takeWhile_cons, hr c rfl, if_neg Bool.false_ne_true, List.append_nil]

theorem dropWhile_eq_of_rest {p : Char → Bool} {l r : Text} (hl : ∀ c ∈ l, p c = true)
    (hr : ∀ c ∈ r.head?, p c = false) : (l ++ r).dropWhile p = r := by
  rw [List.dropWhile_append_of_pos hl]
  cases r with
  | nil => rfl
  | cons c r => rw [List.dropWhile_cons, hr c rfl, if_neg Bool.false_ne_true]

theorem head?_dropWhile {p : Char → Bool} (l : Text) : ∀ c ∈ (l.dropWhile p).head?, p c = false := by
  induction l with
  | nil => exact fun c hc => (by cases hc)
  | cons x l ih =>
    rw [List.dropWhile_cons]
    split_ifs with hx
    · exact ih
    · intro c hc
      cases hc
      exact (Bool.not_eq_true _).mp hx

theorem sign_spec (str : Text) :
    ∃ sgn ∈ [[], ['+'], ['-']], str = sgn ++ (sign str).2 ∧ (sign str).1 = decide (sgn = ['-']) := by
  unfold sign
  split
  · exact ⟨['-'], by simp, rfl, rfl⟩
  · exact ⟨['+'], by simp, rfl, rfl⟩
  · exact ⟨[], by simp, rfl, rfl⟩

theorem sign_append {sgn digits rest : Text} (hsgn : sgn ∈ [[], ['+'], ['-']]) (hne : digits ≠ [])
    (hdigits : ∀ c ∈ digits, c.isDigit = true) :
    sign (sgn ++ (digits ++ rest)) = (decide (sgn = ['-']), digits ++ rest) := by
  obtain ⟨c, digits', rfl⟩ := List.exists_cons_of_ne_nil hne
  have hc := hdigits c List.mem_cons_self
  rcases List.mem_cons.1 hsgn with rfl | hsgn
  · exact sign_digits hc _
  · rcases List.mem_cons.1 hsgn with rfl | hsgn
    · rfl
    · rw [List.mem_singleton.1 hsgn]
      rfl

def signedNumber (negative : Bool) (digits : Text) : ℤ :=
  if negative then -Nat.ofDigitChars 10 digits 0 else Nat.ofDigitChars 10 digits 0

theorem stoi_eq (str : Text) :
    stoi str =
      if (sign (str.dropWhile isSpace)).2.takeWhile Char.isDigit = [] then
        .error (.invalidArgument "stoi".toList)
      else toInt (signedNumber (sign (str.dropWhile isSpace)).1
        ((sign (str.dropWhile isSpace)).2.takeWhile Char.isDigit)) := by
  rw [stoi, strtol]
  split
  next negative rest heq =>
    rw [heq]
    dsimp only
    by_cases hdigits : rest.takeWhile Char.isDigit = []
    · rw [if_pos hdigits, if_pos hdigits]
      rfl
    · rw [if_neg hdigits, if_neg hdigits, ok_bind]
      rfl

theorem toInt_ok (negative : Bool) (digits : Text) :
    (∃ z, toInt (signedNumber negative digits) = .ok z) ↔
      Nat.ofDigitChars 10 digits 0 < 2 ^ 31 + if negative = true then 1 else 0 := by
  have hrange : ∀ z, (∃ y, toInt z = .ok y) ↔ -2 ^ 31 ≤ z ∧ z < 2 ^ 31 := by
    intro z
    rw [toInt]
    split_ifs with h
    · exact ⟨fun _ => h, fun _ => ⟨z, rfl⟩⟩
    · refine ⟨?_, fun hz => absurd hz h⟩
      rintro ⟨y, hy⟩
      cases hy
  rw [hrange, signedNumber]
  cases negative with
  | false =>
    rw [if_neg Bool.false_ne_true, if_neg Bool.false_ne_true]
    omega
  | true =>
    rw [if_pos rfl, if_pos rfl]
    omega

/-- `std::stoi` throws nothing if there is a number in front. -/
theorem stoi_ok_iff {str : Text} : (∃ z, stoi str = .ok z) ↔ NumberFirst str := by
  rw [stoi_eq]
  constructor
  · intro h
    split_ifs at h with hdigits
    · obtain ⟨z, hz⟩ := h
      cases hz
    · rw [toInt_ok] at h
      obtain ⟨sgn, hsgn, hsplit, hnegative⟩ := sign_spec (str.dropWhile isSpace)
      simp only [hnegative, decide_eq_true_eq] at h
      refine ⟨str.takeWhile isSpace, sgn, _, (sign (str.dropWhile isSpace)).2.dropWhile Char.isDigit,
        ?_, fun c hc => List.mem_takeWhile_imp hc, hsgn, hdigits,
        fun c hc => List.mem_takeWhile_imp hc, head?_dropWhile _, h⟩
      rw [List.takeWhile_append_dropWhile, ← hsplit, List.takeWhile_append_dropWhile]
  · rintro ⟨blanks, sgn, digits, rest, rfl, hblanks, hsgn, hne, hdigits, hrest, hlt⟩
    have hstart : ∀ c ∈ (sgn ++ (digits ++ rest)).head?, isSpace c = false := by
      obtain ⟨d, digits', rfl⟩ := List.exists_cons_of_ne_nil hne
      have hd := not_isSpace_of_isDigit (hdigits d List.mem_cons_self)
      intro c hc
      rcases List.mem_cons.1 hsgn with rfl | hsgn
      · cases hc
        exact hd
      · rcases List.mem_cons.1 hsgn with rfl | hsgn
        · cases hc
          rfl
        · rw [List.mem_singleton.1 hsgn] at hc
          cases hc
          rfl
    rw [dropWhile_eq_of_rest hblanks hstart, sign_append hsgn hne hdigits]
    dsimp only
    rw [takeWhile_eq_of_rest hdigits hrest, if_neg hne, toInt_ok]
    simpa only [decide_eq_true_eq] using hlt

end numbers

section trimming

theorem trim_eq_nil_iff {str : Text} : trim str = [] ↔ ∀ c ∈ str, isSpace c = true := by
  rw [trim, List.dropWhile_eq_nil_iff]
  constructor
  · intro h c hc
    rw [← List.rdropWhile_append_rtakeWhile (p := isSpace) (l := str)] at hc
    cases List.mem_append.1 hc with
    | inl hmem => exact h c hmem
    | inr hmem => exact List.mem_rtakeWhile_imp hmem
  · exact fun h c hc => h c ((List.rdropWhile_prefix isSpace str).subset hc)

theorem numberFirst_dropWhile {str : Text} :
    NumberFirst (str.dropWhile isSpace) ↔ NumberFirst str := by
  rw [← stoi_ok_iff, ← stoi_ok_iff, stoi_eq, stoi_eq, List.dropWhile_idempotent]

theorem numberFirst_append {str after : Text} (hafter : ∀ c ∈ after, isSpace c = true) :
    NumberFirst (str ++ after) ↔ NumberFirst str := by
  have hdigit : ∀ c ∈ after, c.isDigit = false := fun c hc => by
    by_contra h
    rw [Bool.not_eq_false] at h
    exact absurd (hafter c hc) (Bool.eq_false_iff.1 (not_isSpace_of_isDigit h))
  constructor
  · rintro ⟨blanks, sgn, digits, rest, hsplit, hblanks, hsgn, hne, hdigits, hrest, hlt⟩
    rw [← List.append_assoc, ← List.append_assoc] at hsplit
    rcases List.append_eq_append_iff.1 hsplit with ⟨more, hnumber, hmore⟩ | ⟨more, rfl, rfl⟩
    · rcases List.eq_nil_or_concat more with rfl | ⟨more', x, rfl⟩
      · refine ⟨blanks, sgn, digits, [], ?_, hblanks, hsgn, hne, hdigits, fun c hc => ?_, hlt⟩
        · rw [List.append_nil] at hnumber
          rw [← hnumber, List.append_nil, List.append_assoc]
        · cases hc
      · -- the last character of the number would be a blank
        rcases List.eq_nil_or_concat digits with rfl | ⟨digits', d, rfl⟩
        · exact absurd rfl hne
        · rw [List.concat_eq_append, List.concat_eq_append, ← List.append_assoc,
            ← List.append_assoc] at hnumber
          have hlast : d = x := List.singleton_inj.1 (List.append_inj_right' hnumber rfl)
          have hx : x ∈ after := by
            rw [hmore]
            simp
          have hd := hdigits d (by simp)
          rw [hlast, hdigit x hx] at hd
          cases hd
    · refine ⟨blanks, sgn, digits, more, ?_, hblanks, hsgn, hne, hdigits, fun c hc => ?_, hlt⟩
      · simp only [List.append_assoc]
      · refine hrest c ?_
        rw [List.head?_append, Option.mem_def.1 hc]
        rfl
  · rintro ⟨blanks, sgn, digits, rest, rfl, hblanks, hsgn, hne, hdigits, hrest, hlt⟩
    refine ⟨blanks, sgn, digits, rest ++ after, ?_, hblanks, hsgn, hne, hdigits, ?_, hlt⟩
    · simp only [List.append_assoc]
    · cases rest with
      | nil => exact fun c hc => hdigit c (List.mem_of_mem_head? hc)
      | cons c rest => exact hrest

theorem numberFirst_trim {str : Text} : NumberFirst (trim str) ↔ NumberFirst str := by
  have hsplit : str.rdropWhile isSpace ++ str.rtakeWhile isSpace = str :=
    List.rdropWhile_append_rtakeWhile
  have hblank : ∀ c ∈ str.rtakeWhile isSpace, isSpace c = true :=
    fun c hc => List.mem_rtakeWhile_imp hc
  rw [trim, numberFirst_dropWhile, ← numberFirst_append hblank, hsplit]

end trimming

section speeds

theorem numberFirst_splitUnit {str : Text} :
    NumberFirst (splitUnit str).1 ↔ NumberFirst (beforeUnit str) := by
  unfold splitUnit beforeUnit
  cases before "mp".toList str with
  | some number => exact numberFirst_trim
  | none =>
    cases before "knots".toList str with
    | some number => exact numberFirst_trim
    | none =>
      cases before "km".toList str with
      | some number => exact numberFirst_trim
      | none =>
        cases before "kph".toList str with
        | some number => exact numberFirst_trim
        | none => exact Iff.rfl

def numberSpeed (number : Text × ℚ) : Except StdException ℚ := do
  let value := (← stoi number.1) * number.2
  if value ≤ 0 then .ok 50 else .ok value

theorem numberSpeed_positive {number : Text × ℚ} :
    (∃ v, numberSpeed number = .ok v ∧ 0 < v) ↔ ∃ z, stoi number.1 = .ok z := by
  unfold numberSpeed
  cases stoi number.1 with
  | error e =>
    constructor
    · rintro ⟨v, hv, -⟩
      cases hv
    · rintro ⟨z, hz⟩
      cases hz
  | ok z =>
    refine ⟨fun _ => ⟨z, rfl⟩, fun _ => ?_⟩
    rw [ok_bind]
    by_cases hvalue : (z : ℚ) * number.2 ≤ 0
    · exact ⟨50, if_pos hvalue, by decide⟩
    · exact ⟨_, if_neg hvalue, lt_of_not_ge hvalue⟩

theorem stringToKmh_symbolic {str : Text} (h : Symbolic str) :
    ∃ v, stringToKmh str = .ok v ∧ 0 < v := by
  unfold stringToKmh
  split_ifs with hblank hnone hfast hurban hslow
  · exact ⟨50, rfl, by decide⟩
  · exact ⟨150, rfl, by decide⟩
  · exact ⟨80, rfl, by decide⟩
  · exact ⟨50, rfl, by decide⟩
  · exact ⟨6, rfl, by decide⟩
  · exfalso
    simp only [endsWith, Bool.or_eq_true, decide_eq_true_eq, not_or] at hblank hfast hurban hslow
    rcases h with hspaces | heq | heq | ⟨ending, hmem, hends⟩
    · exact hblank.2 (trim_eq_nil_iff.2 hspaces)
    · exact hnone heq
    · exact hslow.1 heq
    · simp only [List.mem_cons, List.not_mem_nil, or_false] at hmem
      rcases hmem with rfl | rfl | rfl | rfl
      · exact hfast.1 hends
      · exact hfast.2 hends
      · exact hurban hends
      · exact hslow.2 hends

theorem stringToKmh_number {str : Text} (h : ¬ Symbolic str) :
    stringToKmh str = numberSpeed (splitUnit str) := by
  have hends : ∀ ending ∈ [":rural", ":trunk", ":urban", ":living_street"],
      ¬ ending.toList <:+ str := fun ending hmem hsuffix =>
    h (Or.inr (Or.inr (Or.inr ⟨ending, hmem, hsuffix⟩)))
  have hspaces : ¬ ∀ c ∈ str, isSpace c = true := fun hall => h (Or.inl hall)
  have hblank : ¬ (str = [] ∨ trim str = []) := by
    rintro (rfl | htrim)
    · exact hspaces fun c hc => absurd hc List.not_mem_nil
    · exact hspaces (trim_eq_nil_iff.1 htrim)
  have hnone : str ≠ "none".toList := fun heq => h (Or.inr (Or.inl heq))
  have hwalk : str ≠ "walk".toList := fun heq => h (Or.inr (Or.inr (Or.inl heq)))
  have hfast : ¬ (endsWith str ":rural".toList || endsWith str ":trunk".toList) = true := by
    simp only [endsWith, Bool.or_eq_true, decide_eq_true_eq, not_or]
    exact ⟨hends _ (by simp), hends _ (by simp)⟩
  have hurban : ¬ endsWith str ":urban".toList = true := by
    simp only [endsWith, decide_eq_true_eq]
    exact hends _ (by simp)
  have hslow : ¬ (str = "walk".toList ∨ endsWith str ":living_street".toList = true) := by
    simp only [endsWith, decide_eq_true_eq, not_or]
    exact ⟨hwalk, hends _ (by simp)⟩
  rw [stringToKmh, if_neg hblank, if_neg hnone, if_neg hfast, if_neg hurban, if_neg hslow]
  rfl

example : (stringToKmh "30 mph".toList).toOption = some (30 * mileFactor) := by decide +kernel

/-- The speed is positive and nothing is thrown, if the value is symbolic or starts with a number
as far as its unit. -/
theorem stringToKmh_positive_iff (str : Text) :
    (∃ v, stringToKmh str = .ok v ∧ 0 < v) ↔ Symbolic str ∨ NumberFirst (beforeUnit str) := by
  by_cases h : Symbolic str
  · exact ⟨fun _ => Or.inl h, fun _ => stringToKmh_symbolic h⟩
  · rw [stringToKmh_number h, numberSpeed_positive, stoi_ok_iff, numberFirst_splitUnit,
      or_iff_right h]

/-- A symbolic value, a unit without a number and a number that is no `int`. -/
theorem stringToKmh_throws :
    stringToKmh "signals".toList = .error (.invalidArgument "stoi".toList) ∧
      stringToKmh "mph".toList = .error (.invalidArgument "stoi".toList) ∧
      stringToKmh "99999999999".toList = .error (.outOfRange "stoi".toList) ∧
      ¬ ∀ str, ∃ v, stringToKmh str = .ok v ∧ 0 < v := by
  have hthrows : stringToKmh "signals".toList = .error (.invalidArgument "stoi".toList) := rfl
  refine ⟨hthrows, rfl, rfl, fun h => ?_⟩
  obtain ⟨v, hv, -⟩ := h "signals".toList
  rw [hthrows] at hv
  cases hv

end speeds

end Pfaedle.SpeedLimits

import Pfaedle.TimeArithmetic
import Pfaedle.SpeedLimits

set_option autoImplicit false

/-!
# The grammar of times

`time::time` takes the fields at fixed places counted from the end and reads them with `stoi`.
-/
namespace Pfaedle.Gtfs

namespace Time

open SpeedLimits

section grammar

def number (digits : Text) : ℕ := Nat.ofDigitChars 10 digits 0

/-- `raw` is `[H]H:MM:SS` with minutes and seconds below sixty, and denotes `total`. -/
def Denotes (raw : Text) (total : ℕ) : Prop :=
  ∃ hour minute second : Text, raw = hour ++ ':' :: minute ++ ':' :: second ∧
    (hour.length = 1 ∨ hour.length = 2) ∧ minute.length = 2 ∧ second.length = 2 ∧
    (∀ c ∈ hour ++ minute ++ second, c.isDigit = true) ∧
    number minute < 60 ∧ number second < 60 ∧
    total = number hour * 3600 + number minute * 60 + number second

/-- A text of the grammar gives its total, every other one an `invalid_field_format`. -/
def ParsesExactly (raw : Text) : Prop :=
  (∀ total, Denotes raw total → ∃ t, Time.parse raw = .ok t ∧ t.totalSeconds = total) ∧
    ((¬ ∃ total, Denotes raw total) → ∃ msg, Time.parse raw = invalidFieldFormat msg)

/-- Two characters in which `stoi` finds a number above sixty or below zero. -/
def Beyond (field : Text) : Prop :=
  ∃ a b : Char, field = [a, b] ∧ b.isDigit = true ∧
    (a = '-' ∧ b ≠ '0' ∨ a.isDigit = true ∧ 60 < number field)

/-- The texts that the tests refuse: a wrong length, no colon at both places, or three numbers
with a minute or a second out of range. -/
def Refused (raw : Text) : Prop :=
  (raw.length ≠ 7 ∧ raw.length ≠ 8) ∨
    ∃ (hour minute second : Text) (x y : Char), raw = hour ++ x :: minute ++ y :: second ∧
      minute.length = 2 ∧ second.length = 2 ∧
      (x ≠ ':' ∧ y ≠ ':' ∨
        NumberFirst hour ∧ NumberFirst minute ∧ NumberFirst second ∧
          (Beyond minute ∨ Beyond second))

end grammar

section pieces

theorem exists_pieces {raw : Text} (h : raw.length = 7 ∨ raw.length = 8) :
    ∃ (hour minute second : Text) (x y : Char), raw = hour ++ x :: minute ++ y :: second ∧
      (hour.length = 1 ∨ hour.length = 2) ∧ minute.length = 2 ∧ second.length = 2 := by
  have hsplit := (List.take_append_drop (raw.length - 6) raw).symm
  have hlength : (raw.drop (raw.length - 6)).length = 6 := by
    rw [List.length_drop]
    omega
  generalize raw.drop (raw.length - 6) = rest at hsplit hlength
  match rest, hlength with
  | [x, m₁, m₂, y, s₁, s₂], _ =>
    refine ⟨raw.take (raw.length - 6), [m₁, m₂], [s₁, s₂], x, y, ?_, ?_, rfl, rfl⟩
    · rw [List.append_assoc]
      exact hsplit
    · rw [List.length_take]
      omega

def readFields (raw hour minute second : Text) : Except StdException Time := do
  let hh ← uint16T <$> stoi hour
  let mm ← uint16T <$> stoi minute
  let ss ← uint16T <$> stoi second
  if 60 < mm ∨ 60 < ss then
    invalidFieldFormat ("time minutes/seconds wrong value: ".toList ++ toStr mm ++
      " minutes, ".toList ++ toStr ss ++ " seconds".toList)
  else .ok ⟨true, raw, hh * 60 * 60 + mm * 60 + ss, hh, mm, ss⟩

theorem parse_pieces {hour minute second : Text} (x y : Char)
    (hhour : hour.length = 1 ∨ hour.length = 2) (hminute : minute.length = 2)
    (hsecond : second.length = 2) :
    Time.parse (hour ++ x :: minute ++ y :: second) =
      if x ≠ ':' ∧ y ≠ ':' then
        invalidFieldFormat ("time is not in [H]H:MM:SS format: ".toList ++
          (hour ++ x :: minute ++ y :: second))
      else readFields (hour ++ x :: minute ++ y :: second) hour minute second := by
  match minute, hminute, second, hsecond with
  | [m₁, m₂], _, [s₁, s₂], _ =>
    match hour, hhour with
    | [h₁], _ =>
      rw [Time.parse, if_neg (List.append_ne_nil_of_right_ne_nil _ (List.cons_ne_nil _ _))]
      exact if_congr (by simp [and_comm]) rfl rfl
    | [h₁, h₂], _ =>
      rw [Time.parse, if_neg (List.append_ne_nil_of_right_ne_nil _ (List.cons_ne_nil _ _))]
      exact if_congr (by simp [and_comm]) rfl rfl

end pieces

section numbers

theorem toNat_digit {c : Char} (h : c.isDigit = true) : c.toNat - '0'.toNat < 10 := by
  have := Char.isDigit_iff_toNat.1 h
  have h0 : '0'.toNat = 48 := rfl
  have h9 : '9'.toNat = 57 := rfl
  omega

theorem number_one (c : Char) : number [c] = c.toNat - '0'.toNat := by
  simp [number, Nat.ofDigitChars_cons]

theorem number_two (a b : Char) :
    number [a, b] = 10 * (a.toNat - '0'.toNat) + (b.toNat - '0'.toNat) := by
  simp [number, Nat.ofDigitChars_cons]

theorem number_lt {field : Text} (hdigits : ∀ c ∈ field, c.isDigit = true)
    (h : field.length = 1 ∨ field.length = 2) : number field < 100 := by
  match field, h with
  | [a], _ =>
    have := toNat_digit (hdigits a (by simp))
    rw [number_one]
    omega
  | [a, b], _ =>
    have ha := toNat_digit (hdigits a (by simp))
    have hb := toNat_digit (hdigits b (by simp))
    rw [number_two]
    omega

theorem stoi_number {field : Text} (hdigits : ∀ c ∈ field, c.isDigit = true)
    (h : field.length = 1 ∨ field.length = 2) : stoi field = .ok (number field) := by
  have hlt := number_lt hdigits h
  have hne : field ≠ [] := by
    rintro rfl
    simp at h
  obtain ⟨c, rest, rfl⟩ := List.exists_cons_of_ne_nil hne
  have hc := hdigits c List.mem_cons_self
  rw [stoi_eq, List.dropWhile_cons, not_isSpace_of_isDigit hc, if_neg Bool.false_ne_true,
    sign_digits hc, List.takeWhile_eq_self_iff.2 hdigits, if_neg hne, signedNumber,
    if_neg Bool.false_ne_true, toInt]
  exact if_pos ⟨by omega, by change (number (c :: rest) : ℤ) < 2 ^ 31; omega⟩

theorem stoi_space {a : Char} (ha : isSpace a = true) (rest : Text) :
    stoi (a :: rest) = stoi rest := by
  rw [stoi_eq, stoi_eq, List.dropWhile_cons, if_pos ha]

theorem stoi_minus {b : Char} (hb : b.isDigit = true) : stoi ['-', b] = .ok (-(number [b])) := by
  have hlt := toNat_digit hb
  have htake : [b].takeWhile Char.isDigit = [b] := by
    simp [hb]
  rw [stoi_eq]
  change (if [b].takeWhile Char.isDigit = [] then _ else
    toInt (signedNumber true ([b].takeWhile Char.isDigit))) = _
  have hrange : -2 ^ 31 ≤ -(number [b] : ℤ) ∧ -(number [b] : ℤ) < 2 ^ 31 := by
    rw [number_one]
    omega
  rw [htake, if_neg (List.cons_ne_nil _ _), signedNumber, if_pos rfl, toInt]
  exact if_pos hrange

theorem stoi_plus (b : Char) (hb : b.isDigit = true) : stoi ['+', b] = .ok (number [b]) := by
  have htake : [b].takeWhile Char.isDigit = [b] := by
    simp [hb]
  have hone := stoi_number (show ∀ c ∈ [b], c.isDigit = true by simpa using hb) (.inl rfl)
  rw [stoi_eq] at hone ⊢
  rw [List.dropWhile_cons, not_isSpace_of_isDigit hb, if_neg Bool.false_ne_true,
    sign_digits hb] at hone
  exact hone

/-- Without a digit in front, with a digit behind, a number needs a blank or a sign. -/
theorem stoi_other {a b : Char} (ha : a.isDigit = false) (hspace : isSpace a = false)
    (hminus : a ≠ '-') (hplus : a ≠ '+') : stoi [a, b] = .error (.invalidArgument "stoi".toList) := by
  have hsign : sign [a, b] = (false, [a, b]) := by
    rw [sign]
    · rintro rest ⟨⟩
      exact hminus rfl
    · rintro rest ⟨⟩
      exact hplus rfl
  rw [stoi_eq, List.dropWhile_cons, hspace, if_neg Bool.false_ne_true, hsign,
    List.takeWhile_cons, ha, if_neg Bool.false_ne_true, if_pos rfl]

theorem not_stoi_ok {field : Text} (h : ∀ c ∈ field, c.isDigit = false) (z : ℤ) :
    stoi field ≠ .ok z := by
  intro hz
  obtain ⟨blanks, sgn, digits, rest, rfl, -, -, hne, hdigits, -⟩ := stoi_ok_iff.1 ⟨z, hz⟩
  obtain ⟨c, digits', rfl⟩ := List.exists_cons_of_ne_nil hne
  have hc := h c (by simp)
  rw [hdigits c List.mem_cons_self] at hc
  cases hc

theorem stoi_digit_first {a b : Char} (ha : a.isDigit = true) (hb : b.isDigit = false) :
    stoi [a, b] = .ok (number [a]) := by
  have hone := stoi_number (show ∀ c ∈ [a], c.isDigit = true by simpa using ha) (.inl rfl)
  rw [stoi_eq, List.dropWhile_cons, not_isSpace_of_isDigit ha, if_neg Bool.false_ne_true,
    sign_digits ha] at hone ⊢
  rw [List.takeWhile_cons, if_pos ha, List.takeWhile_cons, hb, if_neg Bool.false_ne_true]
  rw [List.takeWhile_cons, if_pos ha] at hone
  exact hone

theorem uint16T_digit_le {c : Char} (h : c.isDigit = true) : uint16T (number [c] : ℤ) ≤ 60 := by
  have := toNat_digit h
  rw [uint16T_of_lt, number_one]
  · omega
  · rw [number_one]
    omega

theorem sixty_lt_iff_beyond {field : Text} {z : ℤ} (hlength : field.length = 2)
    (h : stoi field = .ok z) : 60 < uint16T z ↔ Beyond field := by
  match field, hlength with
  | [a, b], _ =>
    have hbeyond : Beyond [a, b] ↔ b.isDigit = true ∧
        (a = '-' ∧ b ≠ '0' ∨ a.isDigit = true ∧ 60 < number [a, b]) := by
      constructor
      · rintro ⟨a', b', heq, hb⟩
        cases heq
        exact hb
      · exact fun hb => ⟨a, b, rfl, hb⟩
    rw [hbeyond]
    cases hb : b.isDigit with
    | false =>
      cases ha : a.isDigit with
      | false => exact absurd h (not_stoi_ok (by simp [ha, hb]) z)
      | true =>
        cases (stoi_digit_first ha hb).symm.trans h
        have := uint16T_digit_le ha
        simp
        omega
    | true =>
      cases ha : a.isDigit with
      | true =>
        have hdigits : ∀ c ∈ [a, b], c.isDigit = true := by
          simp [ha, hb]
        have hlt := number_lt hdigits (.inr rfl)
        have hminus : a ≠ '-' := by
          rintro rfl
          cases ha
        cases (stoi_number hdigits (.inr rfl)).symm.trans h
        rw [uint16T_of_lt (by omega)]
        simp [hminus]
      | false =>
        have hle := uint16T_digit_le hb
        by_cases hminus : a = '-'
        · cases hminus
          cases (stoi_minus hb).symm.trans h
          have hzero : b = '0' ↔ number [b] = 0 := by
            rw [number_one]
            have := Char.isDigit_iff_toNat.1 hb
            constructor
            · rintro rfl
              rfl
            · intro h0
              exact Char.toNat_inj.1 (by omega)
          have hlt := toNat_digit hb
          rw [← number_one] at hlt
          rw [uint16T]
          simp [hzero]
          omega
        · have hz : z = number [b] := by
            by_cases hspace : isSpace a = true
            · rw [stoi_space hspace, stoi_number (by simpa using hb) (.inl rfl)] at h
              cases h
              rfl
            · by_cases hplus : a = '+'
              · cases hplus
                cases (stoi_plus b hb).symm.trans h
                rfl
              · rw [stoi_other ha (Bool.eq_false_iff.2 hspace) hminus hplus] at h
                cases h
          subst hz
          simp [hminus]
          omega

end numbers

section grammar

theorem denotes_parse {raw : Text} {total : ℕ} (h : Denotes raw total) :
    ∃ t, Time.parse raw = .ok t ∧ t.totalSeconds = total := by
  obtain ⟨hour, minute, second, rfl, hhour, hminute, hsecond, hdigits, hmm, hss, rfl⟩ := h
  have hfield : ∀ field ⊆ hour ++ minute ++ second, ∀ c ∈ field, c.isDigit = true :=
    fun field hsub c hc => hdigits c (hsub hc)
  have hdh := hfield hour (by simp)
  have hdm := hfield minute (by simp)
  have hds := hfield second (by simp)
  have hlt := number_lt hdh hhour
  refine ⟨⟨true, hour ++ ':' :: minute ++ ':' :: second,
    number hour * 60 * 60 + number minute * 60 + number second, number hour, number minute,
    number second⟩, ?_, ?_⟩
  · rw [parse_pieces _ _ hhour hminute hsecond, if_neg (by simp), readFields,
      stoi_number hdh hhour, stoi_number hdm (.inr hminute), stoi_number hds (.inr hsecond)]
    change (if 60 < uint16T (number minute) ∨ 60 < uint16T (number second) then _ else
      Except.ok (Time.mk true _ (uint16T (number hour) * 60 * 60 + uint16T (number minute) * 60 +
        uint16T (number second)) (uint16T (number hour)) (uint16T (number minute))
        (uint16T (number second)))) = _
    rw [uint16T_of_lt (by omega), uint16T_of_lt (by omega), uint16T_of_lt (by omega),
      if_neg (by omega)]
  · change number hour * 60 * 60 + number minute * 60 + number second = _
    omega

theorem stoi_ne_invalidFieldFormat (field msg : Text) :
    stoi field ≠ .error (.invalidFieldFormat msg) := by
  rw [stoi_eq, toInt]
  split_ifs <;> exact fun h => by cases h

theorem readFields_eq {hour minute second : Text} {h m s : ℤ} (raw : Text)
    (hhour : stoi hour = .ok h) (hminute : stoi minute = .ok m) (hsecond : stoi second = .ok s) :
    readFields raw hour minute second =
      if 60 < uint16T m ∨ 60 < uint16T s then
        invalidFieldFormat ("time minutes/seconds wrong value: ".toList ++ toStr (uint16T m) ++
          " minutes, ".toList ++ toStr (uint16T s) ++ " seconds".toList)
      else .ok ⟨true, raw, uint16T h * 60 * 60 + uint16T m * 60 + uint16T s, uint16T h, uint16T m,
        uint16T s⟩ := by
  rw [readFields, hhour, hminute, hsecond]
  rfl

/-- An error other than the one of `stoi` comes from the last comparison. -/
theorem stoi_ok_of_readFields {raw hour minute second msg : Text}
    (h : readFields raw hour minute second = invalidFieldFormat msg) :
    (∃ z, stoi hour = .ok z) ∧ (∃ z, stoi minute = .ok z) ∧ ∃ z, stoi second = .ok z := by
  rw [readFields] at h
  cases hhour : stoi hour with
  | error e =>
    rw [hhour] at h
    cases h
    exact absurd hhour (stoi_ne_invalidFieldFormat _ _)
  | ok hh =>
    cases hminute : stoi minute with
    | error e =>
      rw [hhour, hminute] at h
      cases h
      exact absurd hminute (stoi_ne_invalidFieldFormat _ _)
    | ok mm =>
      cases hsecond : stoi second with
      | error e =>
        rw [hhour, hminute, hsecond] at h
        cases h
        exact absurd hsecond (stoi_ne_invalidFieldFormat _ _)
      | ok ss => exact ⟨⟨hh, rfl⟩, ⟨mm, rfl⟩, ⟨ss, rfl⟩⟩

theorem readFields_refused_iff (raw : Text) {hour minute second : Text}
    (hminute : minute.length = 2) (hsecond : second.length = 2) :
    (∃ msg, readFields raw hour minute second = invalidFieldFormat msg) ↔
      NumberFirst hour ∧ NumberFirst minute ∧ NumberFirst second ∧
        (Beyond minute ∨ Beyond second) := by
  simp only [← stoi_ok_iff]
  constructor
  · rintro ⟨msg, hmsg⟩
    obtain ⟨⟨h, hh⟩, ⟨m, hm⟩, ⟨s, hs⟩⟩ := stoi_ok_of_readFields hmsg
    refine ⟨⟨h, hh⟩, ⟨m, hm⟩, ⟨s, hs⟩, ?_⟩
    rw [readFields_eq raw hh hm hs] at hmsg
    rw [← sixty_lt_iff_beyond hminute hm, ← sixty_lt_iff_beyond hsecond hs]
    by_contra hin
    rw [if_neg hin] at hmsg
    cases hmsg
  · rintro ⟨⟨h, hh⟩, ⟨m, hm⟩, ⟨s, hs⟩, hbeyond⟩
    rw [← sixty_lt_iff_beyond hminute hm, ← sixty_lt_iff_beyond hsecond hs] at hbeyond
    rw [readFields_eq raw hh hm hs, if_pos hbeyond]
    exact ⟨_, rfl⟩

theorem parse_refused_iff {raw : Text} (hne : raw ≠ []) :
    (∃ msg, Time.parse raw = invalidFieldFormat msg) ↔ Refused raw := by
  by_cases hlength : raw.length = 7 ∨ raw.length = 8
  · obtain ⟨hour, minute, second, x, y, rfl, hhour, hminute, hsecond⟩ := exists_pieces hlength
    rw [parse_pieces x y hhour hminute hsecond]
    constructor
    · intro h
      refine .inr ⟨hour, minute, second, x, y, rfl, hminute, hsecond, ?_⟩
      split_ifs at h with hcolon
      · exact .inl hcolon
      · exact .inr ((readFields_refused_iff _ hminute hsecond).1 h)
    · rintro (hbad | ⟨hour', minute', second', x', y', heq, hminute', hsecond', h⟩)
      · omega
      · rw [List.append_assoc, List.append_assoc] at heq
        obtain ⟨rfl, htail⟩ := List.append_inj' heq
          (by simp [hminute, hminute', hsecond, hsecond'])
        obtain ⟨rfl, hfields⟩ := List.cons.inj htail
        obtain ⟨rfl, hlast⟩ := List.append_inj hfields (hminute.trans hminute'.symm)
        obtain ⟨rfl, rfl⟩ := List.cons.inj hlast
        split_ifs with hcolon
        · exact ⟨_, rfl⟩
        · exact (readFields_refused_iff _ hminute hsecond).2 (h.resolve_left hcolon)
  · rw [Time.parse, if_neg hne]
    constructor
    · exact fun _ => .inl (not_or.1 hlength)
    · intro _
      refine ⟨_, if_pos (.inl hlength)⟩

theorem parsesExactly_iff {raw : Text} (hne : raw ≠ []) :
    ParsesExactly raw ↔ (∃ total, Denotes raw total) ∨ Refused raw := by
  rw [← parse_refused_iff hne]
  constructor
  · intro h
    by_cases hdenotes : ∃ total, Denotes raw total
    · exact .inl hdenotes
    · exact .inr (h.2 hdenotes)
  · intro h
    exact ⟨fun total => denotes_parse, h.resolve_left⟩

theorem number_toStr (n : ℕ) : number (toStr n) = n := by
  rw [number, toStr, if_neg (by omega), Int.natAbs_natCast, Nat.ofDigitChars_ten_toDigits]

theorem isDigit_of_mem_toStr {n : ℕ} {c : Char} (h : c ∈ toStr (n : ℤ)) : c.isDigit = true := by
  rw [toStr, if_neg (by omega)] at h
  exact isDigit_of_mem_toDigits h

theorem twoDigits_spec {n : ℕ} (h : n < 100) :
    (twoDigits n).length = 2 ∧ (∀ c ∈ twoDigits n, c.isDigit = true) ∧
      number (twoDigits n) = n := by
  rw [twoDigits]
  split_ifs with hn
  · have hone : (toStr (n : ℤ)).length = 1 := by
      rw [toStr, if_neg (by omega), Int.natAbs_natCast, Nat.toDigits_of_lt_base hn]
      rfl
    have hvalue : number ('0' :: toStr n) = number (toStr n) := by
      simp [number, Nat.ofDigitChars_cons]
    refine ⟨by rw [List.length_cons, hone], fun c hc => ?_, by rw [hvalue, number_toStr]⟩
    rcases List.mem_cons.1 hc with rfl | hc
    · rfl
    · exact isDigit_of_mem_toStr hc
  · exact ⟨(length_toStr_two_iff h).2 (not_lt.1 hn), fun c => isDigit_of_mem_toStr,
      number_toStr n⟩

theorem denotes_hhmmss {n : ℕ} (h : n < 100 * 3600) : Denotes (hhmmss n) n := by
  obtain ⟨hh, hhdigits, hhvalue⟩ := twoDigits_spec (n := n / 3600) (by omega)
  obtain ⟨mm, mmdigits, mmvalue⟩ := twoDigits_spec (n := n / 60 % 60) (by omega)
  obtain ⟨ss, ssdigits, ssvalue⟩ := twoDigits_spec (n := n % 60) (by omega)
  refine ⟨_, _, _, by simp [hhmmss], .inr hh, mm, ss, ?_, ?_, ?_, ?_⟩
  · intro c hc
    rcases List.mem_append.1 hc with hc | hc
    · exact (List.mem_append.1 hc).elim (hhdigits c) (mmdigits c)
    · exact ssdigits c hc
  · omega
  · omega
  · omega

/-- The parser takes its grammar, and outside of it a text is reported unless the tests miss it;
what is printed below a hundred hours is read back. -/
theorem parse_grammar {raw : Text} (hne : raw ≠ []) :
    (ParsesExactly raw ↔ (∃ total, Denotes raw total) ∨ Refused raw) ∧
      ∀ n, n < 100 * 3600 → ∃ t, ofSeconds n = .ok t ∧ Denotes t.rawTime n ∧
        ∃ t', Time.parse t.rawTime = .ok t' ∧ t'.totalSeconds = n := by
  constructor
  · exact parsesExactly_iff hne
  · intro n hn
    obtain ⟨t, ht, hraw⟩ := ofSeconds_rawTime hn
    have hdenotes := denotes_hhmmss hn
    rw [← hraw] at hdenotes
    exact ⟨t, ht, hdenotes, denotes_parse hdenotes⟩

theorem parse_grammar_morning :
    ParsesExactly "7:05:09".toList ∧
      ∃ t, ofSeconds 359999 = .ok t ∧ Denotes t.rawTime 359999 ∧
        ∃ t', Time.parse t.rawTime = .ok t' ∧ t'.totalSeconds = 359999 := by
  constructor
  · apply (parse_grammar (by decide)).1.2
    exact .inl ⟨25509, ['7'], ['0', '5'], ['0', '9'], rfl, .inl rfl, rfl, rfl, by simp, by decide,
      by decide, rfl⟩
  · exact (parse_grammar (List.cons_ne_nil 'x' [])).2 359999 (by decide)

theorem Denotes.shape {raw : Text} {total : ℕ} (h : Denotes raw total) :
    (∀ c ∈ raw.head?, c.isDigit = true) ∧ raw[raw.length - 3]? = some ':' ∧
      number (raw.drop (raw.length - 2)) < 60 := by
  obtain ⟨hour, minute, second, rfl, hhour, hminute, hsecond, hdigits, hmm, hss, rfl⟩ := h
  match hour, hhour, minute, hminute, second, hsecond with
  | [a], _, [m₁, m₂], _, [s₁, s₂], _ =>
    exact ⟨fun c hc => hdigits c (by simp at hc; simp [hc]), rfl, hss⟩
  | [a, b], _, [m₁, m₂], _, [s₁, s₂], _ =>
    exact ⟨fun c hc => hdigits c (by simp at hc; simp [hc]), rfl, hss⟩

/-- Sixty seconds pass, one colon is enough, and a letter ends in the exception of `stoi`. -/
theorem parse_grammar_missed :
    (∃ t, Time.parse "12:10:60".toList = .ok t ∧ ¬ ∃ total, Denotes "12:10:60".toList total) ∧
      ¬ ParsesExactly "12:10:60".toList ∧ ¬ ParsesExactly "12:10/00".toList ∧
      ¬ ParsesExactly "x2:10:00".toList := by
  have hsixty : ¬ ∃ total, Denotes "12:10:60".toList total := by
    rintro ⟨total, h⟩
    exact absurd h.shape.2.2 (by decide)
  refine ⟨⟨_, rfl, hsixty⟩, fun h => ?_, fun h => ?_, fun h => ?_⟩
  · obtain ⟨msg, hmsg⟩ := h.2 hsixty
    cases hmsg
  · obtain ⟨msg, hmsg⟩ := h.2 fun ⟨total, hd⟩ => absurd hd.shape.2.1 (by decide)
    cases hmsg
  · obtain ⟨msg, hmsg⟩ := h.2 fun ⟨total, hd⟩ => absurd (hd.shape.1 'x' rfl) (by decide)
    cases hmsg

end grammar

end Time

end Pfaedle.Gtfs

import Pfaedle.GtfsTime

set_option autoImplicit false

/-!
# Adding seconds to a time

`time::add_seconds` carries by hand from the seconds to the minutes and from the minutes to the
hours, and writes the total and the text anew.
-/
namespace Pfaedle.Gtfs

namespace Time

section model

def ofFields (hours minutes seconds : ℕ) : Except StdException Time :=
  if 60 < minutes ∨ 60 < seconds then
    invalidFieldFormat ("time is out of range: ".toList ++ toStr minutes ++ "minutes ".toList ++
      toStr seconds ++ "seconds".toList)
  else do
    let t ← setRawTime (setTotalSeconds ⟨false, [], 0, hours, minutes, seconds⟩)
    .ok { t with timeIsProvided := true }

def limitHoursTo24max (t : Time) : Except StdException (Bool × Time) :=
  if t.hh < 24 then .ok (false, t)
  else do .ok (true, ← setRawTime (setTotalSeconds { t with hh := t.hh % 24 }))

/-- The values of the class: what its constructors and its members leave. -/
inductive Made : Time → Prop
  | default : Made Time.default
  | parse {raw : Text} {t : Time} : Time.parse raw = .ok t → Made t
  | ofSeconds {seconds : ℕ} {t : Time} : ofSeconds seconds = .ok t → Made t
  | ofFields {hours minutes seconds : ℕ} {t : Time} :
      hours < 2 ^ 16 → ofFields hours minutes seconds = .ok t → Made t
  | limitHoursTo24max {t t' : Time} {limited : Bool} :
      Made t → t.limitHoursTo24max = .ok (limited, t') → Made t'
  | addSeconds {t t' : Time} {seconds : ℕ} : Made t → t.addSeconds seconds = .ok t' → Made t'

def twoDigits (n : ℕ) : Text := if n < 10 then '0' :: toStr n else toStr n

/-- The rendering `HH:MM:SS` of a number of seconds. -/
def hhmmss (total : ℕ) : Text :=
  twoDigits (total / 3600) ++ [':'] ++ twoDigits (total / 60 % 60) ++ [':'] ++
    twoDigits (total % 60)

/-- The total is `total`, with minutes and seconds below sixty. -/
structure Canonical (t : Time) (total : ℕ) : Prop where
  totalSeconds : t.totalSeconds = total
  mm : t.mm < 60
  ss : t.ss < 60

/-- After the addition all of the time says the old total plus `seconds`. -/
def AddsExactly (t : Time) (seconds : ℕ) : Prop :=
  ∃ t', t.addSeconds seconds = .ok t' ∧ t'.Canonical (t.totalSeconds + seconds) ∧
    t'.rawTime = hhmmss (t.totalSeconds + seconds)

/-- Neither the seconds nor the minutes sum up to sixty. -/
def OffTheLimit (t : Time) (seconds : ℕ) : Prop :=
  t.ss + seconds % 60 ≠ 60 ∧ t.mm + (t.ss + seconds % 60) / 60 + seconds / 60 % 60 ≠ 60

end model

section fields

def lowCarry (t : Time) (seconds : ℕ) : ℕ × ℕ :=
  carry (uint16T (t.ss + seconds % 3600 % 60 : ℕ)) t.mm

def highCarry (t : Time) (seconds : ℕ) : ℕ × ℕ :=
  carry (uint16T ((t.lowCarry seconds).2 + seconds % 3600 / 60 : ℕ)) t.hh

/-- The fields that `add_seconds` leaves, before the total and the text are written. -/
def carried (t : Time) (seconds : ℕ) : Time :=
  { t with
    hh := uint16T ((t.highCarry seconds).2 + seconds / 3600 : ℕ)
    mm := (t.highCarry seconds).1
    ss := (t.lowCarry seconds).1 }

theorem addSeconds_eq (t : Time) (seconds : ℕ) :
    t.addSeconds seconds = (t.carried seconds).setTotalSeconds.setRawTime := rfl

theorem carry_eq {low high : ℕ} (h : 60 < low → high < 2 ^ 16 - 1) :
    carry low high = if 60 < low then (low % 60, high + 1) else (low, high) := by
  rw [carry]
  split_ifs with hlow
  · rw [uint16T_of_lt (by omega)]
  · rfl

def lowSum (t : Time) (seconds : ℕ) : ℕ := t.ss + seconds % 60

def highSum (t : Time) (seconds : ℕ) : ℕ :=
  t.mm + (if 60 < t.lowSum seconds then 1 else 0) + seconds / 60 % 60

variable {t : Time} {seconds : ℕ}

theorem lowCarry_eq (hmm : t.mm < 60) (hss : t.ss < 60) :
    t.lowCarry seconds = if 60 < t.lowSum seconds then (t.lowSum seconds - 60, t.mm + 1)
      else (t.lowSum seconds, t.mm) := by
  have hsum : t.ss + seconds % 3600 % 60 = t.lowSum seconds := by
    rw [lowSum]
    omega
  have hlt : t.lowSum seconds < 120 := by
    rw [lowSum]
    omega
  rw [lowCarry, hsum, uint16T_of_lt (by omega), carry_eq (by omega)]
  split_ifs
  · rw [show t.lowSum seconds % 60 = t.lowSum seconds - 60 by omega]
  · rfl

theorem highCarry_eq (hmm : t.mm < 60) (hss : t.ss < 60)
    (hhh : 60 < t.highSum seconds → t.hh < 2 ^ 16 - 1) :
    t.highCarry seconds = if 60 < t.highSum seconds then (t.highSum seconds - 60, t.hh + 1)
      else (t.highSum seconds, t.hh) := by
  have hsum : (t.lowCarry seconds).2 + seconds % 3600 / 60 = t.highSum seconds := by
    rw [lowCarry_eq hmm hss, highSum]
    split_ifs
    · change t.mm + 1 + seconds % 3600 / 60 = _
      omega
    · change t.mm + seconds % 3600 / 60 = _
      omega
  have hlt : t.highSum seconds < 120 := by
    rw [highSum]
    split_ifs <;> omega
  rw [highCarry, hsum, uint16T_of_lt (by omega), carry_eq hhh]
  split_ifs
  · rw [show t.highSum seconds % 60 = t.highSum seconds - 60 by omega]
  · rfl

end fields

section invariant

structure InStep (t : Time) : Prop where
  hh : t.hh < 2 ^ 16
  totalSeconds : t.totalSeconds = t.hh * 60 * 60 + t.mm * 60 + t.ss

theorem uint16T_lt (z : ℤ) : uint16T z < 2 ^ 16 := by
  rw [uint16T]
  omega

theorem setRawTime_fields {t t' : Time} (h : t.setRawTime = .ok t') :
    t'.hh = t.hh ∧ t'.mm = t.mm ∧ t'.ss = t.ss ∧ t'.totalSeconds = t.totalSeconds := by
  simp only [setRawTime, bind_ok] at h
  obtain ⟨hhStr, -, mmStr, -, ssStr, -, ht⟩ := h
  cases ht
  exact ⟨rfl, rfl, rfl, rfl⟩

theorem InStep.of_set {t t' : Time} (hhh : t.hh < 2 ^ 16)
    (h : t.setTotalSeconds.setRawTime = .ok t') : t'.InStep := by
  have hfields := setRawTime_fields h
  constructor
  · rw [hfields.1]
    exact hhh
  · rw [hfields.2.2.2, hfields.1, hfields.2.1, hfields.2.2.1]
    rfl

theorem inStep_parse {raw : Text} {t : Time} (h : Time.parse raw = .ok t) : t.InStep := by
  rw [Time.parse] at h
  dsimp only at h
  split_ifs at h with hempty hformat
  · cases h
    exact ⟨by decide, rfl⟩
  · exact absurd h invalidFieldFormat_ne_ok
  · simp only [bind_ok, map_ok] at h
    obtain ⟨hh, ⟨z, -, hz⟩, mm, -, ss, -, h⟩ := h
    split_ifs at h
    · exact absurd h invalidFieldFormat_ne_ok
    · cases h
      exact ⟨hz ▸ uint16T_lt z, rfl⟩

theorem InStep.of_provided {t s t' : Time} (hhh : t.hh < 2 ^ 16)
    (hs : t.setTotalSeconds.setRawTime = .ok s)
    (heq : (.ok { s with timeIsProvided := true } : Except StdException Time) = .ok t') :
    t'.InStep := by
  have hset := InStep.of_set hhh hs
  cases heq
  exact ⟨hset.hh, hset.totalSeconds⟩

/-- The total of a time is always the one of its fields. -/
theorem Made.inStep {t : Time} (h : t.Made) : t.InStep := by
  induction h with
  | default => exact ⟨by decide, rfl⟩
  | parse h => exact inStep_parse h
  | @ofSeconds seconds t h =>
    rw [Time.ofSeconds] at h
    split_ifs at h
    · exact absurd h invalidFieldFormat_ne_ok
    · obtain ⟨s, hs, heq⟩ := bind_ok.1 h
      exact InStep.of_provided (uint16T_lt (seconds / 3600 : ℕ)) hs heq
  | ofFields hhours h =>
    rw [Time.ofFields] at h
    split_ifs at h
    · exact absurd h invalidFieldFormat_ne_ok
    · obtain ⟨s, hs, heq⟩ := bind_ok.1 h
      exact InStep.of_provided hhours hs heq
  | @limitHoursTo24max t t' limited hmade h ih =>
    rw [Time.limitHoursTo24max] at h
    split_ifs at h with hhours
    · cases h
      exact ih
    · obtain ⟨s, hs, heq⟩ := bind_ok.1 h
      cases heq
      exact InStep.of_set (t := { t with hh := t.hh % 24 })
        (Nat.lt_of_le_of_lt (Nat.mod_le _ _) ih.hh) hs
  | @addSeconds t t' seconds hmade h ih =>
    exact InStep.of_set (uint16T_lt ((t.highCarry seconds).2 + seconds / 3600 : ℕ)) h

end invariant

section text

theorem length_toStr_two_iff {n : ℕ} (h : n < 100) : (toStr (n : ℤ)).length = 2 ↔ 10 ≤ n := by
  have hall : ∀ n : ℕ, n < 100 → ((toStr (n : ℤ)).length = 2 ↔ 10 ≤ n) := by decide
  exact hall n h

theorem two_lt_length_toStr {n : ℕ} (h : 100 ≤ n) : 2 < (toStr (n : ℤ)).length := by
  rw [toStr, if_neg (by omega), Int.natAbs_natCast,
    Nat.toDigits_of_base_le (by omega) (by omega),
    Nat.toDigits_of_base_le (by omega) (by omega), List.length_append, List.length_append]
  have := List.length_pos_of_ne_nil (Nat.toDigits_ne_nil (n := n / 10 / 10) (b := 10))
  simp
  omega

theorem appendLeadingZero_toStr {n : ℕ} {check : Bool} {s : Text}
    (h : appendLeadingZero (toStr n) check = .ok s) :
    s = if n < 100 then twoDigits n else '0' :: toStr n := by
  rw [appendLeadingZero] at h
  by_cases hn : n < 100
  · have hlength := toStr_length hn
    rw [if_neg (by omega)] at h
    rw [if_pos hn, twoDigits]
    have htwo := length_toStr_two_iff hn
    split_ifs at h with hlen <;> cases h
    · rw [if_neg (by omega)]
    · rw [if_pos (by omega)]
  · have hlength := two_lt_length_toStr (not_lt.1 hn)
    rw [if_neg hn]
    split_ifs at h with hcheck hlen
    · exact absurd h invalidFieldFormat_ne_ok
    · omega
    · cases h
      rfl

theorem setRawTime_rawTime {t t' : Time} (hmm : t.mm < 100) (hss : t.ss < 100)
    (h : t.setRawTime = .ok t') :
    t'.rawTime = (if t.hh < 100 then twoDigits t.hh else '0' :: toStr t.hh) ++ [':'] ++
      twoDigits t.mm ++ [':'] ++ twoDigits t.ss := by
  simp only [setRawTime, bind_ok] at h
  obtain ⟨hhStr, hhh, mmStr, hmmStr, ssStr, hssStr, ht⟩ := h
  cases ht
  rw [appendLeadingZero_toStr hhh, appendLeadingZero_toStr hmmStr, appendLeadingZero_toStr hssStr,
    if_pos hmm, if_pos hss]

/-- The text is the rendering of the total exactly below a hundred hours. -/
theorem rawTime_eq_hhmmss_iff {t t' : Time} {total : ℕ} (hmm : t.mm < 60) (hss : t.ss < 60)
    (htotal : t.hh * 60 * 60 + t.mm * 60 + t.ss = total) (h : t.setRawTime = .ok t') :
    t'.rawTime = hhmmss total ↔ total < 100 * 3600 := by
  have hfields : total / 3600 = t.hh ∧ total / 60 % 60 = t.mm ∧ total % 60 = t.ss := by omega
  rw [setRawTime_rawTime (by omega) (by omega) h, hhmmss, hfields.1, hfields.2.1, hfields.2.2]
  by_cases hhours : t.hh < 100
  · rw [if_pos hhours]
    exact ⟨fun _ => by omega, fun _ => rfl⟩
  · have hplain : twoDigits t.hh = toStr t.hh := by
      rw [twoDigits, if_neg (by omega)]
    rw [if_neg hhours, hplain]
    constructor
    · intro heq
      have hlength := congrArg List.length heq
      simp only [List.length_append, List.length_cons] at hlength
      omega
    · intro hlt
      omega

theorem ofSeconds_rawTime {n : ℕ} (h : n < 100 * 3600) :
    ∃ t, ofSeconds n = .ok t ∧ t.rawTime = hhmmss n := by
  obtain ⟨t, ht, -⟩ := ofSeconds_ok n
  refine ⟨t, ht, ?_⟩
  rw [ofSeconds] at ht
  split_ifs at ht
  · exact absurd ht invalidFieldFormat_ne_ok
  · obtain ⟨s, hs, heq⟩ := bind_ok.1 ht
    have hhh : uint16T (n / 3600 : ℕ) = n / 3600 := uint16T_of_lt (by omega)
    have hmm : uint16T (n % 3600 / 60 : ℕ) = n % 3600 / 60 := uint16T_of_lt (by omega)
    have hss : uint16T (n % 3600 % 60 : ℕ) = n % 3600 % 60 := uint16T_of_lt (by omega)
    rw [hhh, hmm, hss] at hs
    cases heq
    exact (rawTime_eq_hhmmss_iff (t := setTotalSeconds ⟨false, [], 0, n / 3600, n % 3600 / 60,
      n % 3600 % 60⟩) (show n % 3600 / 60 < 60 by omega) (show n % 3600 % 60 < 60 by omega)
      (show n / 3600 * 60 * 60 + n % 3600 / 60 * 60 + n % 3600 % 60 = n by omega) hs).2 h

end text

section sums

variable {t : Time} {seconds : ℕ}

/-- Where the sums do not hit sixty, the fields are those of the new total. -/
theorem carried_exact (hhh : t.hh < 2 ^ 16) (hmm : t.mm < 60) (hss : t.ss < 60)
    (hmax : (t.hh * 60 * 60 + t.mm * 60 + t.ss + seconds) / 3600 < 2 ^ 16) :
    (t.carried seconds).hh * 60 * 60 + (t.carried seconds).mm * 60 + (t.carried seconds).ss =
        t.hh * 60 * 60 + t.mm * 60 + t.ss + seconds ∧
      ((t.carried seconds).mm < 60 ↔ t.highSum seconds ≠ 60) ∧
      ((t.carried seconds).ss < 60 ↔ t.lowSum seconds ≠ 60) := by
  have hlow : t.lowSum seconds = t.ss + seconds % 60 := rfl
  have hhigh : t.highSum seconds =
      t.mm + (if 60 < t.lowSum seconds then 1 else 0) + seconds / 60 % 60 := rfl
  have hcarry : 60 < t.highSum seconds → t.hh < 2 ^ 16 - 1 := by
    intro h
    split_ifs at hhigh <;> omega
  simp only [carried, highCarry_eq hmm hss hcarry, lowCarry_eq hmm hss]
  split_ifs at hhigh ⊢ <;> dsimp only <;> rw [uint16T_of_lt (by omega)] <;> omega

theorem offTheLimit_iff (hss : t.ss < 60) :
    t.OffTheLimit seconds ↔ t.lowSum seconds ≠ 60 ∧ t.highSum seconds ≠ 60 := by
  rw [OffTheLimit, lowSum, highSum, lowSum]
  split_ifs <;> omega

theorem addSeconds_canonical_iff {t' : Time} (hstep : t.InStep) (hmm : t.mm < 60)
    (hss : t.ss < 60) (hmax : (t.totalSeconds + seconds) / 3600 < 2 ^ 16)
    (h : t.addSeconds seconds = .ok t') :
    t'.Canonical (t.totalSeconds + seconds) ↔ t.OffTheLimit seconds := by
  rw [addSeconds_eq] at h
  rw [hstep.totalSeconds] at hmax ⊢
  obtain ⟨htotal, hhigh, hlow⟩ := carried_exact hstep.hh hmm hss hmax
  obtain ⟨-, hmm', hss', htotal'⟩ := setRawTime_fields h
  rw [offTheLimit_iff hss, ← hlow, ← hhigh]
  constructor
  · intro hc
    exact ⟨hss' ▸ hc.ss, hmm' ▸ hc.mm⟩
  · intro hlt
    exact ⟨htotal'.trans htotal, hmm'.symm ▸ hlt.2, hss'.symm ▸ hlt.1⟩

/-- The addition is exact unless the seconds or the minutes sum up to sixty, and from a hundred
hours on the text has a zero too many. -/
theorem addSeconds_exact_iff (hmade : t.Made) (hmm : t.mm < 60) (hss : t.ss < 60)
    (hmax : (t.totalSeconds + seconds) / 3600 < 2 ^ 16) :
    ((∃ t', t.addSeconds seconds = .ok t' ∧ t'.Canonical (t.totalSeconds + seconds)) ↔
        t.OffTheLimit seconds) ∧
      (t.AddsExactly seconds ↔
        t.OffTheLimit seconds ∧ t.totalSeconds + seconds < 100 * 3600) := by
  obtain ⟨t', h⟩ := addSeconds_ok t seconds
  have hcanonical := addSeconds_canonical_iff hmade.inStep hmm hss hmax h
  constructor
  · rw [← hcanonical]
    constructor
    · rintro ⟨s, hs, hc⟩
      cases h.symm.trans hs
      exact hc
    · intro hc
      exact ⟨t', h, hc⟩
  · have htext : t.OffTheLimit seconds →
        (t'.rawTime = hhmmss (t.totalSeconds + seconds) ↔
          t.totalSeconds + seconds < 100 * 3600) := by
      intro hoff
      obtain ⟨hlow, hhigh⟩ := (offTheLimit_iff hss).1 hoff
      have hstep := hmade.inStep
      rw [hstep.totalSeconds] at hmax ⊢
      obtain ⟨htotal, hmm', hss'⟩ := carried_exact hstep.hh hmm hss hmax
      exact rawTime_eq_hhmmss_iff (t := (t.carried seconds).setTotalSeconds)
        (hmm'.2 hhigh) (hss'.2 hlow) htotal h
    constructor
    · rintro ⟨s, hs, hc, hraw⟩
      cases h.symm.trans hs
      exact ⟨hcanonical.1 hc, (htext (hcanonical.1 hc)).1 hraw⟩
    · rintro ⟨hoff, hlt⟩
      exact ⟨t', h, hcanonical.2 hoff, (htext hoff).2 hlt⟩

theorem addSeconds_exact_noon :
    (⟨true, "11:59:59".toList, 43199, 11, 59, 59⟩ : Time).AddsExactly 62 ∧
      ¬ (⟨true, "11:59:59".toList, 43199, 11, 59, 59⟩ : Time).AddsExactly 2 := by
  have hmade : (⟨true, "11:59:59".toList, 43199, 11, 59, 59⟩ : Time).Made :=
    .ofSeconds (show ofSeconds 43199 = _ from rfl)
  constructor
  · rw [(addSeconds_exact_iff hmade (by decide) (by decide) (by decide)).2, OffTheLimit]
    decide
  · rw [(addSeconds_exact_iff hmade (by decide) (by decide) (by decide)).2, OffTheLimit]
    decide

/-- Ten seconds after `00:00:50` the text is `00:00:60`. -/
theorem addSeconds_fifty_inexact :
    ∃ t, ofSeconds 50 = .ok t ∧ t.Made ∧ t.mm < 60 ∧ t.ss < 60 ∧
      (t.totalSeconds + 10) / 3600 < 2 ^ 16 ∧
      (t.addSeconds 10).toOption.map Time.rawTime = some "00:00:60".toList ∧
      ¬ t.AddsExactly 10 := by
  have hmake : ofSeconds 50 = .ok ⟨true, "00:00:50".toList, 50, 0, 0, 50⟩ := rfl
  refine ⟨_, hmake, .ofSeconds hmake, by decide, by decide, by decide, rfl, ?_⟩
  rintro ⟨t', hadd, hcanonical, -⟩
  cases hadd
  exact absurd hcanonical.ss (by decide)

end sums

end Time

end Pfaedle.Gtfs

import Pfaedle.GtfsFeed

set_option autoImplicit false

/-!
# Times that are computed

`gtfs::time` from a number of seconds. The fields are `uint16_t`, the total is an `int`.
-/
namespace Pfaedle.Gtfs

def appendLeadingZero (s : Text) (check : Bool) : Except StdException Text :=
  if check ∧ 2 < s.length then
    invalidFieldFormat ("The string for appending zero is too long: ".toList ++ s)
  else if s.length = 2 then .ok s
  else .ok ('0' :: s)

namespace Time

def setTotalSeconds (t : Time) : Time :=
  { t with totalSeconds := t.hh * 60 * 60 + t.mm * 60 + t.ss }

def setRawTime (t : Time) : Except StdException Time := do
  let hhStr ← appendLeadingZero (toStr t.hh) false
  let mmStr ← appendLeadingZero (toStr t.mm) true
  let ssStr ← appendLeadingZero (toStr t.ss) true
  .ok { t with rawTime := hhStr ++ [':'] ++ mmStr ++ [':'] ++ ssStr }

def ofSeconds (seconds : ℕ) : Except StdException Time := do
  let hh := uint16T (seconds / 3600 : ℕ)
  let seconds := seconds % 3600
  let mm := uint16T (seconds / 60 : ℕ)
  let ss := uint16T (seconds % 60 : ℕ)
  if 60 < mm ∨ 60 < ss then
    invalidFieldFormat ("time is out of range: ".toList ++ toStr mm ++ "minutes ".toList ++
      toStr ss ++ "seconds".toList)
  else
    let t ← setRawTime (setTotalSeconds ⟨false, [], 0, hh, mm, ss⟩)
    .ok { t with timeIsProvided := true }

def carry (low high : ℕ) : ℕ × ℕ :=
  if 60 < low then (low % 60, uint16T (high + 1 : ℕ)) else (low, high)

def addSeconds (t : Time) (seconds : ℕ) : Except StdException Time :=
  let h := seconds / 3600
  let seconds := seconds % 3600
  let m := seconds / 60
  let s := seconds % 60
  let (ss, mm) := carry (uint16T (t.ss + s : ℕ)) t.mm
  let (mm, hh) := carry (uint16T (mm + m : ℕ)) t.hh
  setRawTime (setTotalSeconds { t with hh := uint16T (hh + h : ℕ), mm, ss })

end Time

theorem uint16T_of_lt {n : ℕ} (h : n < 2 ^ 16) : uint16T (n : ℤ) = n := by
  rw [uint16T]
  omega

theorem toStr_length {n : ℕ} (h : n < 100) : (toStr (n : ℤ)).length ≤ 2 := by
  have hall : ∀ n : ℕ, n < 100 → (toStr (n : ℤ)).length ≤ 2 := by decide
  exact hall n h

theorem appendLeadingZero_ok (s : Text) (check : Bool) (h : check = true → s.length ≤ 2) :
    ∃ s', appendLeadingZero s check = .ok s' := by
  rw [appendLeadingZero, if_neg fun hand => absurd (h hand.1) (by omega)]
  split_ifs
  · exact ⟨_, rfl⟩
  · exact ⟨_, rfl⟩

namespace Time

theorem setRawTime_ok {t : Time} (hmm : t.mm < 100) (hss : t.ss < 100) :
    ∃ t', t.setRawTime = .ok t' ∧ t'.hh = t.hh ∧ t'.mm = t.mm ∧ t'.ss = t.ss ∧
      t'.totalSeconds = t.totalSeconds ∧ t'.timeIsProvided = t.timeIsProvided := by
  obtain ⟨hhStr, hhh⟩ := appendLeadingZero_ok (toStr t.hh) false
    fun h => Bool.noConfusion h
  obtain ⟨mmStr, hmmStr⟩ := appendLeadingZero_ok (toStr t.mm) true
    fun _ => toStr_length hmm
  obtain ⟨ssStr, hssStr⟩ := appendLeadingZero_ok (toStr t.ss) true
    fun _ => toStr_length hss
  refine ⟨{ t with rawTime := hhStr ++ [':'] ++ mmStr ++ [':'] ++ ssStr }, ?_, rfl, rfl, rfl, rfl,
    rfl⟩
  rw [setRawTime, hhh, hmmStr, hssStr]
  rfl

theorem ofSeconds_ok (seconds : ℕ) :
    ∃ t, ofSeconds seconds = .ok t ∧ t.hh = uint16T (seconds / 3600 : ℕ) ∧
      t.mm = seconds % 3600 / 60 ∧ t.ss = seconds % 60 := by
  have hmm : uint16T (seconds % 3600 / 60 : ℕ) = seconds % 3600 / 60 := uint16T_of_lt (by omega)
  have hss : uint16T (seconds % 3600 % 60 : ℕ) = seconds % 60 := by
    rw [uint16T_of_lt (by omega)]
    omega
  have hraw := setRawTime_ok (t := setTotalSeconds ⟨false, [], 0, uint16T (seconds / 3600 : ℕ),
    uint16T (seconds % 3600 / 60 : ℕ), uint16T (seconds % 3600 % 60 : ℕ)⟩)
    (hmm.trans_lt (by omega)) (hss.trans_lt (by omega))
  obtain ⟨t, ht, hhh, htmm, htss, -, -⟩ := hraw
  refine ⟨{ t with timeIsProvided := true }, ?_, hhh, htmm.trans hmm, htss.trans hss⟩
  rw [ofSeconds, if_neg (by omega), ht]
  rfl

theorem carry_fst (low high : ℕ) : (carry low high).1 ≤ 60 := by
  rw [carry]
  split_ifs
  · change low % 60 ≤ 60
    omega
  · change low ≤ 60
    omega

theorem addSeconds_ok (t : Time) (seconds : ℕ) : ∃ t', t.addSeconds seconds = .ok t' :=
  (setRawTime_ok (Nat.lt_of_le_of_lt (carry_fst _ _) (by omega))
    (Nat.lt_of_le_of_lt (carry_fst _ _) (by omega))).imp fun _ ht' => ht'.1

end Time

end Pfaedle.Gtfs

import Pfaedle.StopSequence
import Mathlib.Algebra.Order.Floor.Semiring
import Mathlib.Algebra.BigOperators.Group.List.Lemmas
import Mathlib.Algebra.Order.BigOperators.Group.List
import Mathlib.Data.Rat.Floor
import Mathlib.Tactic.Linarith

set_option autoImplicit false

/-!
# The order of the times after `set_shape`

Costs are exact numbers. The times of a trip stand in the order of its stops, the arrival before the
departure.
-/
namespace Pfaedle.Gtfs.Time

/-- The hours fit into their field. -/
theorem ofSeconds_total {seconds : ℕ} (h : seconds < 2 ^ 16 * 3600) :
    ∃ t, ofSeconds seconds = .ok t ∧ t.totalSeconds = seconds ∧ t.mm < 60 ∧ t.ss < 60 ∧
      t.timeIsProvided = true ∧ t.totalSeconds = t.hh * 60 * 60 + t.mm * 60 + t.ss := by
  have hhh : uint16T (seconds / 3600 : ℕ) = seconds / 3600 := uint16T_of_lt (by omega)
  have hmm : uint16T (seconds % 3600 / 60 : ℕ) = seconds % 3600 / 60 := uint16T_of_lt (by omega)
  have hss : uint16T (seconds % 3600 % 60 : ℕ) = seconds % 3600 % 60 := uint16T_of_lt (by omega)
  obtain ⟨t, ht, hth, htm, hts, htotal, -⟩ := setRawTime_ok
    (t := setTotalSeconds ⟨false, [], 0, seconds / 3600, seconds % 3600 / 60, seconds % 3600 % 60⟩)
    (show seconds % 3600 / 60 < 100 by omega) (show seconds % 3600 % 60 < 100 by omega)
  change t.hh = seconds / 3600 at hth
  change t.mm = seconds % 3600 / 60 at htm
  change t.ss = seconds % 3600 % 60 at hts
  change t.totalSeconds = seconds / 3600 * 60 * 60 + seconds % 3600 / 60 * 60 +
    seconds % 3600 % 60 at htotal
  refine ⟨{ t with timeIsProvided := true }, ?_, ?_, ?_, ?_, rfl, ?_⟩
  · rw [ofSeconds, hhh, hmm, hss, if_neg (by omega), ht]
    rfl
  · change t.totalSeconds = seconds
    omega
  · change t.mm < 60
    omega
  · change t.ss < 60
    omega
  · change t.totalSeconds = t.hh * 60 * 60 + t.mm * 60 + t.ss
    rw [htotal, hth, htm, hts]

theorem carry_total (low high : ℕ) (hlow : low < 120) (hhigh : high + 1 < 2 ^ 16) :
    (carry low high).2 * 60 + (carry low high).1 = high * 60 + low ∧
      (carry low high).2 ≤ high + 1 := by
  unfold carry
  split
  · rw [uint16T_of_lt hhigh]
    dsimp only
    omega
  · dsimp only
    omega

theorem addSeconds_total {t : Time} (seconds : ℕ) (hseconds : seconds < 60) (hmm : t.mm < 60)
    (hss : t.ss < 60) (hhh : t.hh < 2 ^ 16)
    (htotal : t.totalSeconds = t.hh * 60 * 60 + t.mm * 60 + t.ss) :
    ∃ t', t.addSeconds seconds = .ok t' ∧ t'.totalSeconds = t.totalSeconds + seconds ∧
      t'.timeIsProvided = t.timeIsProvided := by
  have hs : seconds % 3600 % 60 = seconds := by omega
  have hm : seconds % 3600 / 60 = 0 := by omega
  have hh : seconds / 3600 = 0 := by omega
  have hcarry := carry_total (t.ss + seconds) t.mm (by omega) (by omega)
  have hfirst := carry_fst (t.ss + seconds) t.mm
  unfold addSeconds
  dsimp only
  rw [hs, hm, hh, uint16T_of_lt (show t.ss + seconds < 2 ^ 16 by omega)]
  generalize carry (t.ss + seconds) t.mm = low at hcarry hfirst
  obtain ⟨ss, mm⟩ := low
  dsimp only at hcarry hfirst ⊢
  have hcarry' : carry (uint16T (mm + 0 : ℕ)) t.hh = (mm, t.hh) := by
    rw [uint16T_of_lt (by omega)]
    exact if_neg (by omega)
  rw [hcarry']
  dsimp only
  rw [uint16T_of_lt (show t.hh + 0 < 2 ^ 16 from hhh)]
  obtain ⟨t', ht', -, -, -, htot, hprov⟩ := setRawTime_ok
    (t := setTotalSeconds { t with hh := t.hh + 0, mm, ss }) (show mm < 100 by omega)
    (show ss < 100 by omega)
  change t'.totalSeconds = (t.hh + 0) * 60 * 60 + mm * 60 + ss at htot
  exact ⟨t', ht', by omega, hprov⟩

end Pfaedle.Gtfs.Time

namespace Pfaedle.ShapeBuilder
open Gtfs

section model
variable {C : Type} [Field C] [LinearOrder C] [FloorSemiring C]

/-- The seconds that a stop gets out of `time_span`. -/
def share (timeSpan : ℕ) (totalCost cost : C) : ℕ := ⌊timeSpan * cost / totalCost⌋₊

variable (C) in
/-- `set_shape` on exact numbers; the sum with `previous_time` is cut off to a `size_t`. -/
def exactCosts : CostArithmetic C where
  zero := 0
  add := (· + ·)
  elapsed timeSpan cost totalCost previousTime := ⌊timeSpan * cost / totalCost + previousTime⌋₊

theorem exactCosts_total [IsStrictOrderedRing C] (costs : List C) :
    costs.foldl (exactCosts C).add (exactCosts C).zero = costs.sum :=
  (List.sum_eq_foldl).symm

theorem exactCosts_elapsed [IsStrictOrderedRing C] {timeSpan : ℕ} {totalCost cost : C}
    (htotal : 0 < totalCost) (hcost : 0 ≤ cost) (previousTime : ℕ) :
    (exactCosts C).elapsed timeSpan cost totalCost previousTime =
      previousTime + share timeSpan totalCost cost := by
  have hnonneg : 0 ≤ timeSpan * cost / totalCost :=
    div_nonneg (mul_nonneg timeSpan.cast_nonneg hcost) htotal.le
  change ⌊timeSpan * cost / totalCost + previousTime⌋₊ = _
  rw [Nat.floor_add_natCast hnonneg, Nat.add_comm]
  rfl

/-- The shares of some stops do not exceed the whole. -/
theorem sum_share_le [IsStrictOrderedRing C] (timeSpan : ℕ) {totalCost : C}
    (htotal : 0 < totalCost) {costs : List C} (hcosts : ∀ c ∈ costs, 0 ≤ c)
    (hsum : costs.sum ≤ totalCost) : (costs.map (share timeSpan totalCost)).sum ≤ timeSpan := by
  have hle : (((costs.map (share timeSpan totalCost)).sum : ℕ) : C) ≤
      timeSpan * costs.sum / totalCost := by
    clear hsum
    induction costs with
    | nil => simp
    | cons c costs ih =>
      rw [List.forall_mem_cons] at hcosts
      have hshare : (share timeSpan totalCost c : C) ≤ timeSpan * c / totalCost :=
        Nat.floor_le (div_nonneg (mul_nonneg timeSpan.cast_nonneg hcosts.1) htotal.le)
      have hrest := ih hcosts.2
      rw [List.map_cons, List.sum_cons, List.sum_cons, Nat.cast_add, mul_add, add_div]
      exact add_le_add hshare hrest
  have hwhole : timeSpan * costs.sum / totalCost ≤ (timeSpan : C) := by
    rw [div_le_iff₀ htotal]
    exact mul_le_mul_of_nonneg_left hsum timeSpan.cast_nonneg
  exact_mod_cast hle.trans hwhole

end model

section writing
variable {D C : Type} {share : C → ℕ} {interpolateTimes : Bool}

/-- What the loop writes into inner stop times that it comes to with `previous_time`. -/
inductive Written (share : C → ℕ) (interpolateTimes : Bool) :
    ℕ → List (StopTime D) → List C → List (StopTime D) → Prop
  | nil (previousTime : ℕ) : Written share interpolateTimes previousTime [] [] []
  | set {previousTime : ℕ} {st st' : StopTime D} {cost : C} {sts sts' : List (StopTime D)}
      {costs : List C} (hset : isInterpolated interpolateTimes true st = true)
      (harrival : st'.arrivalTime.totalSeconds = previousTime + share cost)
      (hdeparture : st'.departureTime.totalSeconds = previousTime + share cost + dwellTimeSeconds)
      (hprovided : st'.arrivalTime.timeIsProvided = true ∧ st'.departureTime.timeIsProvided = true)
      (hrest : Written share interpolateTimes (previousTime + share cost) sts costs sts') :
      Written share interpolateTimes previousTime (st :: sts) (cost :: costs) (st' :: sts')
  | keep {previousTime : ℕ} {st st' : StopTime D} {cost : C} {sts sts' : List (StopTime D)}
      {costs : List C} (hkeep : isInterpolated interpolateTimes true st = false)
      (harrival : st'.arrivalTime = st.arrivalTime)
      (hdeparture : st'.departureTime = st.departureTime)
      (hrest : Written share interpolateTimes previousTime sts costs sts') :
      Written share interpolateTimes previousTime (st :: sts) (cost :: costs) (st' :: sts')

end writing

section rounds
variable {D C : Type} [Field C] [LinearOrder C] [FloorSemiring C] [IsStrictOrderedRing C]
  {interpolateTimes : Bool} (timeSpan : ℕ) {totalCost : C}

theorem setStopTime_set (htotal : 0 < totalCost) {cost : C} (hcost : 0 ≤ cost) {st : StopTime D}
    (hset : isInterpolated interpolateTimes true st = true) (dist : D) {previousTime : ℕ}
    (hfits : previousTime + share timeSpan totalCost cost < 2 ^ 16 * 3600) :
    ∃ st', setStopTime (exactCosts C) interpolateTimes timeSpan totalCost true dist cost previousTime
        st = some (st', previousTime + share timeSpan totalCost cost) ∧
      st'.arrivalTime.totalSeconds = previousTime + share timeSpan totalCost cost ∧
      st'.departureTime.totalSeconds =
        previousTime + share timeSpan totalCost cost + dwellTimeSeconds ∧
      st'.arrivalTime.timeIsProvided = true ∧ st'.departureTime.timeIsProvided = true := by
  obtain ⟨t, ht, htotalSeconds, hmm, hss, hprovided, hfields⟩ := Time.ofSeconds_total hfits
  have hhh : t.hh < 2 ^ 16 := by omega
  obtain ⟨t', ht', hlater, hprovided'⟩ :=
    Time.addSeconds_total dwellTimeSeconds (by decide) hmm hss hhh hfields
  refine ⟨{ st with arrivalTime := t, departureTime := t', shapeDistTraveled := dist }, ?_,
    htotalSeconds, by rw [hlater, htotalSeconds], hprovided, hprovided'.trans hprovided⟩
  unfold setStopTime
  rw [if_pos hset, exactCosts_elapsed htotal hcost]
  change (Except.toOption (Time.ofSeconds _)).bind _ = _
  rw [toOption_eq ht]
  change (Except.toOption (t.addSeconds dwellTimeSeconds)).bind _ = _
  rw [toOption_eq ht']
  rfl

theorem setStopTimes_written (htotal : 0 < totalCost) (inner : List (StopTime D))
    (last : StopTime D) {dists : List D} (dist : D) {costs : List C} (cost : C)
    (hdists : dists.length = inner.length) (hlen : costs.length = inner.length)
    (hcosts : ∀ c ∈ costs, 0 ≤ c) {previousTime : ℕ}
    (hfits : previousTime + (costs.map (share timeSpan totalCost)).sum < 2 ^ 16 * 3600) :
    ∃ inner', setStopTimes (exactCosts C) interpolateTimes timeSpan totalCost false previousTime
        (inner ++ [last]) (dists ++ [dist]) (costs ++ [cost]) =
          some (inner' ++ [{ last with shapeDistTraveled := dist }]) ∧
      Written (share timeSpan totalCost) interpolateTimes previousTime inner costs inner' := by
  induction inner generalizing dists costs previousTime with
  | nil =>
    rw [List.length_nil, List.length_eq_zero_iff] at hdists hlen
    subst hdists hlen
    exact ⟨[], rfl, Written.nil previousTime⟩
  | cons st inner ih =>
    cases dists with
    | nil => cases hdists
    | cons d dists =>
      cases costs with
      | nil => cases hlen
      | cons c costs =>
        rw [List.length_cons, List.length_cons, Nat.add_right_cancel_iff] at hdists hlen
        rw [List.forall_mem_cons] at hcosts
        rw [List.map_cons, List.sum_cons] at hfits
        have hinner : (!false && !(inner ++ [last]).isEmpty) = true := by simp
        cases hset : isInterpolated interpolateTimes true st with
        | true =>
          obtain ⟨st', hst, harrival, hdeparture, hprovided⟩ :=
            setStopTime_set timeSpan htotal hcosts.1 hset d
              (show previousTime + share timeSpan totalCost c < 2 ^ 16 * 3600 by omega)
          obtain ⟨inner', hrest, hwritten⟩ := ih hdists hlen hcosts.2
            (show previousTime + share timeSpan totalCost c +
              (costs.map (share timeSpan totalCost)).sum < 2 ^ 16 * 3600 by omega)
          refine ⟨st' :: inner', ?_, Written.set hset harrival hdeparture hprovided hwritten⟩
          rw [List.cons_append, List.cons_append, List.cons_append, setStopTimes, hinner, hst]
          change (setStopTimes _ _ _ _ _ _ _ _ _).bind _ = _
          rw [hrest]
          rfl
        | false =>
          obtain ⟨inner', hrest, hwritten⟩ := ih hdists hlen hcosts.2
            (show previousTime + (costs.map (share timeSpan totalCost)).sum < 2 ^ 16 * 3600 by omega)
          refine ⟨{ st with shapeDistTraveled := d } :: inner', ?_,
            Written.keep hset rfl rfl hwritten⟩
          rw [List.cons_append, List.cons_append, List.cons_append, setStopTimes, hinner]
          have hround : setStopTime (exactCosts C) interpolateTimes timeSpan totalCost true d c
              previousTime st = some ({ st with shapeDistTraveled := d }, previousTime) :=
            if_neg (by rw [hset]; exact Bool.false_ne_true)
          rw [hround]
          change (setStopTimes _ _ _ _ _ _ _ _ _).bind _ = _
          rw [hrest]
          rfl

end rounds

section order
variable {D C : Type} {share : C → ℕ} {interpolateTimes : Bool} {previousTime : ℕ}
  {sts sts' : List (StopTime D)} {costs : List C}

def providedTimes (sts : List (StopTime D)) : List ℕ :=
  ((sts.flatMap fun st => [st.arrivalTime, st.departureTime]).filter Time.timeIsProvided).map
    Time.totalSeconds

/-- The times do not decrease and stay between the first and the last given one. -/
structure InOrder (given times : List ℕ) : Prop where
  sorted : times.Pairwise (· ≤ ·)
  low : ∀ lo ∈ given.head?, ∀ x ∈ times, lo ≤ x
  high : ∀ hi ∈ given.getLast?, ∀ x ∈ times, x ≤ hi

/-- Each share but the first is as long as a stay, and there is time for a stay before the last
    stop. -/
def Roomy (share : C → ℕ) (begin_ : ℕ) (costs : List C) (arrive : ℕ) : Prop :=
  (∀ c ∈ costs.tail, dwellTimeSeconds ≤ share c) ∧
    (costs ≠ [] → begin_ + (costs.map share).sum + dwellTimeSeconds ≤ arrive)

def firstTime (st : StopTime D) : ℕ :=
  if st.arrivalTime.timeIsProvided then st.arrivalTime.totalSeconds
  else st.departureTime.totalSeconds

def SameTimes (st st' : StopTime D) : Prop :=
  st'.arrivalTime = st.arrivalTime ∧ st'.departureTime = st.departureTime

theorem providedTimes_append (l l' : List (StopTime D)) :
    providedTimes (l ++ l') = providedTimes l ++ providedTimes l' := by
  simp [providedTimes]

theorem providedTimes_cons (st : StopTime D) (l : List (StopTime D)) :
    providedTimes (st :: l) = providedTimes [st] ++ providedTimes l :=
  providedTimes_append [st] l

theorem SameTimes.providedTimes_eq {st st' : StopTime D} (h : SameTimes st st') :
    providedTimes [st'] = providedTimes [st] := by
  simp [providedTimes, h.1, h.2]

theorem providedTimes_singleton {st : StopTime D} (h : st.departureTime.timeIsProvided = true) :
    providedTimes [st] = [firstTime st, st.departureTime.totalSeconds] ∨
      providedTimes [st] = [st.departureTime.totalSeconds] ∧
        firstTime st = st.departureTime.totalSeconds := by
  cases harrival : st.arrivalTime.timeIsProvided with
  | true => exact Or.inl (by simp [providedTimes, firstTime, h, harrival])
  | false => exact Or.inr (by simp [providedTimes, firstTime, h, harrival])

theorem providedTimes_both {st : StopTime D} (h : st.arrivalTime.timeIsProvided = true)
    (h' : st.departureTime.timeIsProvided = true) :
    providedTimes [st] = [st.arrivalTime.totalSeconds, st.departureTime.totalSeconds] := by
  simp [providedTimes, h, h']

theorem isChain_cons_of_head {x arrive : ℕ} {ls : List ℕ} (hls : ls.IsChain (· ≤ ·))
    (hhead : ls.head? = some arrive) : (x :: ls).IsChain (· ≤ ·) ↔ x ≤ arrive := by
  cases ls with
  | nil => cases hhead
  | cons y ls =>
    cases hhead
    rw [List.isChain_cons_cons]
    exact and_iff_left hls

/-- After an interpolated stop: the next one is not reached before the stay is over. -/
theorem Written.chain_after (h : Written share interpolateTimes previousTime sts costs sts')
    (hall : ∀ st ∈ sts, isInterpolated interpolateTimes true st = true) {ls : List ℕ}
    (hls : ls.IsChain (· ≤ ·)) {arrive : ℕ} (hhead : ls.head? = some arrive) :
    ((previousTime + dwellTimeSeconds) :: (providedTimes sts' ++ ls)).IsChain (· ≤ ·) ↔
      (∀ c ∈ costs, dwellTimeSeconds ≤ share c) ∧
        previousTime + (costs.map share).sum + dwellTimeSeconds ≤ arrive := by
  induction h with
  | nil previousTime => simpa [providedTimes] using isChain_cons_of_head hls hhead
  | keep hkeep =>
    rw [hall _ List.mem_cons_self] at hkeep
    cases hkeep
  | set hset harrival hdeparture hprovided hrest ih =>
    rename_i previousTime st st' cost sts sts' costs
    have hnext := ih fun st hst => hall st (List.mem_cons_of_mem _ hst)
    rw [providedTimes_cons, providedTimes_both hprovided.1 hprovided.2, harrival, hdeparture]
    change ((_ :: _ :: _ :: (providedTimes sts' ++ ls)) : List ℕ).IsChain _ ↔ _
    rw [List.isChain_cons_cons, List.isChain_cons_cons, hnext, List.forall_mem_cons, List.map_cons,
      List.sum_cons]
    constructor
    · rintro ⟨hshare, -, hshares, hend⟩
      exact ⟨⟨by omega, hshares⟩, by omega⟩
    · rintro ⟨⟨hshare, hshares⟩, hend⟩
      exact ⟨by omega, Nat.le_add_right _ _, hshares, by omega⟩

theorem Written.chain_start (h : Written share interpolateTimes previousTime sts costs sts')
    (hall : ∀ st ∈ sts, isInterpolated interpolateTimes true st = true) {ls : List ℕ}
    (hls : ls.IsChain (· ≤ ·)) {arrive : ℕ} (hhead : ls.head? = some arrive)
    (hle : previousTime ≤ arrive) :
    (previousTime :: (providedTimes sts' ++ ls)).IsChain (· ≤ ·) ↔
      Roomy share previousTime costs arrive := by
  cases h with
  | nil =>
    have hchain := (@isChain_cons_of_head previousTime _ _ hls hhead).2 hle
    simpa [providedTimes, Roomy] using hchain
  | keep hkeep =>
    rw [hall _ List.mem_cons_self] at hkeep
    cases hkeep
  | set hset harrival hdeparture hprovided hrest =>
    rename_i st st' cost sts sts' costs
    have hnext := hrest.chain_after (fun st hst => hall st (List.mem_cons_of_mem _ hst)) hls hhead
    rw [providedTimes_cons, providedTimes_both hprovided.1 hprovided.2, harrival, hdeparture]
    change ((_ :: _ :: _ :: (providedTimes sts' ++ ls)) : List ℕ).IsChain _ ↔ _
    rw [List.isChain_cons_cons, List.isChain_cons_cons, hnext, Roomy, List.tail_cons, List.map_cons,
      List.sum_cons]
    constructor
    · rintro ⟨-, -, hshares, hend⟩
      exact ⟨hshares, fun _ => by omega⟩
    · rintro ⟨hshares, hend⟩
      have hend := hend (List.cons_ne_nil _ _)
      exact ⟨Nat.le_add_right _ _, Nat.le_add_right _ _, hshares, by omega⟩

theorem inOrder_iff {given times : List ℕ} (hhead : times.head? = given.head?)
    (hlast : times.getLast? = given.getLast?) : InOrder given times ↔ times.Pairwise (· ≤ ·) := by
  refine ⟨fun h => h.sorted, fun h => ⟨h, ?_, ?_⟩⟩
  · intro lo hlo x hx
    rw [← hhead] at hlo
    cases times with
    | nil => cases hlo
    | cons y times =>
      cases hlo
      cases List.mem_cons.1 hx with
      | inl heq => exact heq.ge
      | inr hmem => exact (List.pairwise_cons.1 h).1 x hmem
  · intro hi hhi x hx
    rw [← hlast] at hhi
    obtain ⟨init, rfl⟩ := List.getLast?_eq_some_iff.1 hhi
    cases List.mem_append.1 hx with
    | inl hmem => exact (List.pairwise_append.1 h).2.2 x hmem hi (List.mem_singleton_self hi)
    | inr heq => exact (List.mem_singleton.1 heq).le

/-- The new stop times of the inner stops whose times `set_shape` replaces. -/
def interpolatedOf (interpolateTimes : Bool) (sts sts' : List (StopTime D)) : List (StopTime D) :=
  ((sts.zip sts').filter fun p => isInterpolated interpolateTimes true p.1).map Prod.snd

theorem interpolatedOf_set {st st' : StopTime D}
    (hset : isInterpolated interpolateTimes true st = true) (l l' : List (StopTime D)) :
    interpolatedOf interpolateTimes (st :: l) (st' :: l') =
      st' :: interpolatedOf interpolateTimes l l' := by
  simp [interpolatedOf, hset]

theorem interpolatedOf_keep {st : StopTime D} (st' : StopTime D)
    (hkeep : isInterpolated interpolateTimes true st = false) (l l' : List (StopTime D)) :
    interpolatedOf interpolateTimes (st :: l) (st' :: l') = interpolatedOf interpolateTimes l l' := by
  simp [interpolatedOf, hkeep]

theorem Written.forall_set (h : Written share interpolateTimes previousTime sts costs sts') :
    ∀ st' ∈ interpolatedOf interpolateTimes sts sts',
      previousTime ≤ st'.arrivalTime.totalSeconds ∧
      st'.arrivalTime.totalSeconds ≤ previousTime + (costs.map share).sum ∧
      st'.departureTime.totalSeconds = st'.arrivalTime.totalSeconds + dwellTimeSeconds ∧
      st'.arrivalTime.timeIsProvided = true ∧ st'.departureTime.timeIsProvided = true := by
  induction h with
  | nil => simp [interpolatedOf]
  | set hset harrival hdeparture hprovided hrest ih =>
    rw [interpolatedOf_set hset, List.forall_mem_cons, List.map_cons, List.sum_cons]
    refine ⟨⟨by omega, by omega, by omega, hprovided⟩, fun st' hst' => ?_⟩
    obtain ⟨hlow, hhigh, hrest⟩ := ih st' hst'
    exact ⟨by omega, by omega, hrest⟩
  | keep hkeep harrival hdeparture hrest ih =>
    rw [interpolatedOf_keep _ hkeep, List.map_cons, List.sum_cons]
    intro st' hst'
    obtain ⟨hlow, hhigh, hrest⟩ := ih st' hst'
    exact ⟨hlow, by omega, hrest⟩

theorem Written.pairwise_set (h : Written share interpolateTimes previousTime sts costs sts') :
    ((interpolatedOf interpolateTimes sts sts').map fun st' => st'.arrivalTime.totalSeconds).Pairwise
      (· ≤ ·) := by
  induction h with
  | nil => simp [interpolatedOf]
  | set hset harrival hdeparture hprovided hrest ih =>
    rw [interpolatedOf_set hset, List.map_cons, List.pairwise_cons]
    refine ⟨fun x hx => ?_, ih⟩
    obtain ⟨st', hst', rfl⟩ := List.mem_map.1 hx
    have hlow := (hrest.forall_set st' hst').1
    omega
  | keep hkeep harrival hdeparture hrest ih =>
    rw [interpolatedOf_keep _ hkeep]
    exact ih

theorem Written.kept (h : Written share interpolateTimes previousTime sts costs sts') :
    List.Forall₂ (fun st st' => isInterpolated interpolateTimes true st = false → SameTimes st st')
      sts sts' := by
  induction h with
  | nil => exact List.Forall₂.nil
  | set hset harrival hdeparture hprovided hrest ih =>
    exact List.Forall₂.cons (fun hkeep => absurd (hset.symm.trans hkeep) Bool.noConfusion) ih
  | keep hkeep harrival hdeparture hrest ih =>
    exact List.Forall₂.cons (fun _ => ⟨harrival, hdeparture⟩) ih

variable {first last first' last' : StopTime D} {inner inner' : List (StopTime D)}

theorem head_providedTimes {rest rest' : List (StopTime D)} (hfirst : SameTimes first first')
    (hprovided : first.departureTime.timeIsProvided = true) :
    (providedTimes (first' :: rest')).head? = (providedTimes (first :: rest)).head? := by
  rw [providedTimes_cons, providedTimes_cons first, hfirst.providedTimes_eq]
  rcases providedTimes_singleton hprovided with heq | ⟨heq, -⟩
  · rw [heq]
    rfl
  · rw [heq]
    rfl

theorem getLast_providedTimes {rest rest' : List (StopTime D)} (hlast : SameTimes last last')
    (hprovided : last.departureTime.timeIsProvided = true) :
    (providedTimes (rest' ++ [last'])).getLast? = (providedTimes (rest ++ [last])).getLast? := by
  rw [providedTimes_append, providedTimes_append rest, hlast.providedTimes_eq]
  rcases providedTimes_singleton hprovided with heq | ⟨heq, -⟩
  · simp [heq]
  · simp [heq]

/-- When all inner stops are interpolated, the order of the times depends on the shares alone. -/
theorem Written.inOrder_iff {begin_ : ℕ} (hbegin : begin_ = first.departureTime.totalSeconds)
    (h : Written share interpolateTimes begin_ inner costs inner')
    (hall : ∀ st ∈ inner, isInterpolated interpolateTimes true st = true)
    (hfirst : SameTimes first first') (hlast : SameTimes last last')
    (hprovided : first.departureTime.timeIsProvided = true)
    (hprovided' : last.departureTime.timeIsProvided = true)
    (hgiven : (providedTimes (first :: (inner ++ [last]))).Pairwise (· ≤ ·)) :
    InOrder (providedTimes (first :: (inner ++ [last])))
        (providedTimes (first' :: (inner' ++ [last']))) ↔
      Roomy share begin_ costs (firstTime last) := by
  have hends : (providedTimes [last]).head? = some (firstTime last) := by
    rcases providedTimes_singleton hprovided' with heq | ⟨heq, hsame⟩
    · rw [heq]
      rfl
    · rw [heq, hsame]
      rfl
  rw [providedTimes_cons, providedTimes_append, List.pairwise_append, List.pairwise_append] at hgiven
  obtain ⟨hfront, ⟨-, hback, -⟩, hacross⟩ := hgiven
  have hmemFirst : begin_ ∈ providedTimes [first] := by
    rcases providedTimes_singleton hprovided with heq | ⟨heq, -⟩
    · simp [heq, hbegin]
    · simp [heq, hbegin]
  have hle : begin_ ≤ firstTime last :=
    hacross begin_ hmemFirst _ (List.mem_append_right _ (List.mem_of_mem_head? hends))
  have hchain := h.chain_start hall (List.isChain_iff_pairwise.2 hback) hends hle
  have hlasts : (providedTimes (first' :: (inner' ++ [last']))).getLast? =
      (providedTimes (first :: (inner ++ [last]))).getLast? :=
    @getLast_providedTimes _ _ _ (first :: inner) (first' :: inner') hlast hprovided'
  rw [ShapeBuilder.inOrder_iff (head_providedTimes hfirst hprovided) hlasts,
    ← List.isChain_iff_pairwise, ← hchain, providedTimes_cons, providedTimes_append,
    hfirst.providedTimes_eq, hlast.providedTimes_eq]
  rcases providedTimes_singleton hprovided with heq | ⟨heq, -⟩
  · rw [heq, hbegin]
    rw [heq, List.pairwise_pair] at hfront
    change (_ :: _ :: (providedTimes inner' ++ providedTimes [last]) : List ℕ).IsChain _ ↔ _
    rw [List.isChain_cons_cons]
    exact and_iff_right hfront
  · rw [heq, hbegin]
    rfl

end order

section results
variable {D C : Type} [Field C] [LinearOrder C] [FloorSemiring C] [IsStrictOrderedRing C]

/-- Interpolated arrivals do not decrease and stay within the trip. With all inner stops interpolated
    all times are in order exactly when the stays fit. -/
theorem setShape_times_inOrder {f : Feed D} {t : Text} {first last : StopTime D}
    {inner : List (StopTime D)} (hsts : listedTimes f t = first :: (inner ++ [last]))
    {dists : List D} {d d' : D} (hdists : dists.length = inner.length) {costs : List C} {c c' : C}
    (hlen : costs.length = inner.length) (hcosts : ∀ x ∈ c :: (costs ++ [c']), 0 ≤ x)
    (htotal : 0 < (c :: (costs ++ [c'])).sum)
    (hfirst : first.departureTime.timeIsProvided = true)
    (hlast : last.departureTime.timeIsProvided = true)
    (hspan : first.departureTime.totalSeconds ≤ last.departureTime.totalSeconds)
    (hfits : last.departureTime.totalSeconds < 2 ^ 16 * 3600) (interpolateTimes : Bool)
    (s : Shape D) :
    let begin_ := first.departureTime.totalSeconds
    let share := share (last.departureTime.totalSeconds - begin_) (c :: (costs ++ [c'])).sum
    ∃ first' inner' last', (setShape (exactCosts C) interpolateTimes t s (d :: (dists ++ [d']))
        (c :: (costs ++ [c'])) f).map (fun g => listedTimes g t) =
          some (first' :: (inner' ++ [last'])) ∧
      SameTimes first first' ∧ SameTimes last last' ∧
      List.Forall₂ (fun st st' => isInterpolated interpolateTimes true st = false →
        SameTimes st st') inner inner' ∧
      ((interpolatedOf interpolateTimes inner inner').map fun st' =>
        st'.arrivalTime.totalSeconds).Pairwise (· ≤ ·) ∧
      (∀ st' ∈ interpolatedOf interpolateTimes inner inner',
        begin_ ≤ st'.arrivalTime.totalSeconds ∧
        st'.arrivalTime.totalSeconds ≤ last.departureTime.totalSeconds ∧
        st'.departureTime.totalSeconds = st'.arrivalTime.totalSeconds + dwellTimeSeconds) ∧
      ((∀ st ∈ inner, isInterpolated interpolateTimes true st = true) →
        (providedTimes (first :: (inner ++ [last]))).Pairwise (· ≤ ·) →
        (InOrder (providedTimes (first :: (inner ++ [last])))
          (providedTimes (first' :: (inner' ++ [last']))) ↔
            Roomy share begin_ costs (firstTime last))) := by
  intro begin_ share
  have hinner : ∀ x ∈ costs, 0 ≤ x := fun x hx =>
    hcosts x (List.mem_cons_of_mem _ (List.mem_append_left _ hx))
  have hsum : costs.sum ≤ (c :: (costs ++ [c'])).sum := by
    have hc := hcosts c List.mem_cons_self
    have hc' := hcosts c' (by simp)
    rw [List.sum_cons, List.sum_append, List.sum_singleton]
    linarith
  have hshares := sum_share_le (last.departureTime.totalSeconds - begin_) htotal hinner hsum
  change (costs.map share).sum ≤ _ at hshares
  obtain ⟨inner', hrun, hwritten⟩ := @setStopTimes_written D C _ _ _ _ interpolateTimes
    (last.departureTime.totalSeconds - begin_) _ htotal inner last dists d' costs c' hdists hlen
    hinner begin_ (by change begin_ + (costs.map share).sum < _; omega)
  have hspanT : sizeT (last.departureTime.totalSeconds - first.departureTime.totalSeconds : ℤ) =
      last.departureTime.totalSeconds - begin_ := by
    rw [sizeT]
    omega
  have hdrop : (!true && !(inner ++ [last]).isEmpty) = false := by simp
  have hbegins : setStopTime (exactCosts C) interpolateTimes
      (last.departureTime.totalSeconds - begin_) (c :: (costs ++ [c'])).sum false d c begin_ first =
      some ({ first with shapeDistTraveled := d }, begin_) := rfl
  refine ⟨{ first with shapeDistTraveled := d }, inner', { last with shapeDistTraveled := d' }, ?_,
    ⟨rfl, rfl⟩, ⟨rfl, rfl⟩, hwritten.kept, hwritten.pairwise_set, fun st' hst' => ?_,
    fun hall hgiven => hwritten.inOrder_iff rfl hall ⟨rfl, rfl⟩ ⟨rfl, rfl⟩ hfirst hlast hgiven⟩
  · rw [setShape_times, hsts, if_neg (List.cons_ne_nil _ _), interpolated, if_pos (by simp [hdists, hlen])]
    rw [List.head?_cons, exactCosts_total]
    have hgetLast : (first :: (inner ++ [last])).getLast? = some last := by
      rw [← List.cons_append, List.getLast?_concat]
    rw [hgetLast]
    change setStopTimes _ _ (sizeT _) _ true begin_ _ _ _ = _
    rw [hspanT, setStopTimes, hdrop, hbegins]
    change (setStopTimes _ _ _ _ _ _ _ _ _).bind _ = _
    rw [hrun]
    rfl
  · obtain ⟨hlow, hhigh, hstay, -⟩ := hwritten.forall_set st' hst'
    change st'.arrivalTime.totalSeconds ≤ begin_ + (costs.map share).sum at hhigh
    exact ⟨hlow, by omega, hstay⟩

end results

section samples

def timedStop (sequence : ℕ) (time : Time) : StopTime ℤ :=
  ⟨"a".toList, "platform".toList, sequence, time, time, [], 0, 0, 0, 1⟩

def secondsTime (seconds : ℕ) : Time := ⟨true, [], seconds, 0, 0, seconds⟩

def timedFeed (arrive : ℕ) : Feed ℤ :=
  { entranceFeed 0 with
    stopTimes := [timedStop 0 (secondsTime 0), timedStop 1 .default, timedStop 2 (secondsTime arrive)] }

/-- The stop is left twelve seconds after the start of a trip of five seconds. -/
theorem setShape_times_tight :
    providedTimes (listedTimes (timedFeed 5) "a".toList) = [0, 0, 5, 5] ∧
      (setShape (exactCosts ℚ) false "a".toList ⟨[], []⟩ [0, 0, 0] [0, 1, 1] (timedFeed 5)).map
        (fun g => providedTimes (listedTimes g "a".toList)) = some [0, 0, 2, 12, 5, 5] ∧
      ¬ InOrder [0, 0, 5, 5] [0, 0, 2, 12, 5, 5] := by
  refine ⟨by decide +kernel, by decide +kernel, fun h => ?_⟩
  exact absurd (h.high 5 (by simp) 12 (by simp)) (by decide)

theorem setShape_times_inOrder_timed :
    ∃ times, (setShape (exactCosts ℚ) false "a".toList ⟨[], []⟩ [0, 0, 0] [0, 1, 1]
        (timedFeed 40)).map (fun g => providedTimes (listedTimes g "a".toList)) = some times ∧
      InOrder [0, 0, 40, 40] times := by
  have hsts : listedTimes (timedFeed 40) "a".toList = timedStop 0 (secondsTime 0) ::
      ([timedStop 1 .default] ++ [timedStop 2 (secondsTime 40)]) := by decide +kernel
  have hdists : [(0 : ℤ)].length = [timedStop 1 .default].length := rfl
  have hcosts : [(1 : ℚ)].length = [timedStop 1 .default].length := rfl
  have hnonneg : ∀ x ∈ (0 : ℚ) :: ([1] ++ [1]), 0 ≤ x := by simp
  obtain ⟨first', inner', last', hset, -, -, -, -, -, horder⟩ := setShape_times_inOrder hsts hdists
    hcosts hnonneg (by norm_num) rfl rfl (by decide) (by decide) false ⟨[], []⟩
  refine ⟨providedTimes (first' :: (inner' ++ [last'])), ?_, ?_⟩
  · have hmap := congrArg (Option.map providedTimes) hset
    rw [Option.map_map] at hmap
    exact hmap
  · exact (horder (by decide) (by decide)).2 ⟨by simp, by decide +kernel⟩

end samples

end Pfaedle.ShapeBuilder

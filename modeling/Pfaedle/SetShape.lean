import Pfaedle.StopTimes
import Pfaedle.GtfsTime

set_option autoImplicit false

/-!
# `shape_builder::set_shape`

The stop times of a trip are written in place, through the references of `trip::stop_times`.
-/
namespace Pfaedle.ShapeBuilder

open Gtfs

section writing
variable {A : Type}

def store (l : List A) (refs : List ℕ) (vals : List A) : List A :=
  (refs.zip vals).foldl (fun l e => l.set e.1 e.2) l

/-- The elements with `p`, replaced one after the other. -/
def replaceWhere (p : A → Bool) : List A → List A → List A
  | [], _ => []
  | a :: l, [] => a :: l
  | a :: l, v :: vs => if p a then v :: replaceWhere p l vs else a :: replaceWhere p l (v :: vs)

theorem replaceWhere_nil (p : A → Bool) (l : List A) : replaceWhere p l [] = l := by
  cases l <;> rfl

theorem store_refs (p : A → Bool) (l vals pre : List A) :
    store (pre ++ l) (((l.zipIdx pre.length).filter fun e => p e.1).map Prod.snd) vals =
      pre ++ replaceWhere p l vals := by
  induction l generalizing vals pre with
  | nil => rfl
  | cons a l ih =>
    have hmove : ∀ (v : A) (l' : List A), pre ++ v :: l' = (pre ++ [v]) ++ l' := fun v l' => by
      rw [List.append_assoc]
      rfl
    have hlen : ∀ v : A, (pre ++ [v]).length = pre.length + 1 := fun v => by
      rw [List.length_append, List.length_singleton]
    rw [List.zipIdx_cons]
    cases hp : p a with
    | true =>
      rw [List.filter_cons_of_pos (p := fun e : A × ℕ => p e.1) (a := (a, pre.length)) hp,
        List.map_cons]
      cases vals with
      | nil => rfl
      | cons v vals =>
        have hset : (pre ++ a :: l).set pre.length v = (pre ++ [v]) ++ l := by
          rw [List.set_append_right _ _ (Nat.le_refl _), Nat.sub_self, List.set_cons_zero, hmove]
        rw [store, List.zip_cons_cons, List.foldl_cons, hset, ← hlen v, replaceWhere, if_pos hp]
        exact (ih vals (pre ++ [v])).trans (hmove v _).symm
    | false =>
      rw [List.filter_cons_of_neg (by rw [hp]; exact Bool.false_ne_true), hmove, ← hlen a, ih]
      cases vals with
      | nil =>
        rw [replaceWhere_nil, replaceWhere_nil]
        exact (hmove _ _).symm
      | cons v vals =>
        rw [replaceWhere, hp, if_neg Bool.false_ne_true]
        exact (hmove _ _).symm

theorem filter_replaceWhere {p : A → Bool} {l vals : List A}
    (hlen : vals.length = (l.filter p).length) (hvals : ∀ v ∈ vals, p v = true) :
    (replaceWhere p l vals).filter p = vals := by
  induction l generalizing vals with
  | nil =>
    rw [List.filter_nil, List.length_nil, List.length_eq_zero_iff] at hlen
    rw [hlen]
    rfl
  | cons a l ih =>
    cases vals with
    | nil =>
      rw [List.length_nil, eq_comm, List.length_eq_zero_iff] at hlen
      rw [replaceWhere, hlen]
    | cons v vals =>
      rw [replaceWhere]
      cases hp : p a with
      | true =>
        rw [List.filter_cons_of_pos hp, List.length_cons, List.length_cons] at hlen
        rw [List.forall_mem_cons] at hvals
        rw [if_pos rfl, List.filter_cons_of_pos hvals.1, ih (by omega) hvals.2]
      | false =>
        have hneg : ¬p a = true := fun h => Bool.false_ne_true (hp.symm.trans h)
        rw [List.filter_cons_of_neg hneg] at hlen
        rw [if_neg Bool.false_ne_true, List.filter_cons_of_neg hneg, ih hlen hvals]

theorem filter_replaceWhere_of_disjoint {p q : A → Bool} {l vals : List A}
    (hpq : ∀ a ∈ l, p a = true → q a = false) (hvals : ∀ v ∈ vals, q v = false) :
    (replaceWhere p l vals).filter q = l.filter q := by
  induction l generalizing vals with
  | nil => rfl
  | cons a l ih =>
    rw [List.forall_mem_cons] at hpq
    cases vals with
    | nil => rfl
    | cons v vals =>
      rw [replaceWhere]
      cases hp : p a with
      | true =>
        have hneg : ∀ {b}, q b = false → ¬q b = true := fun hb h =>
          Bool.false_ne_true (hb.symm.trans h)
        rw [List.forall_mem_cons] at hvals
        rw [if_pos rfl, List.filter_cons_of_neg (hneg hvals.1),
          List.filter_cons_of_neg (hneg (hpq.1 hp)), ih hpq.2 hvals.2]
      | false =>
        rw [if_neg Bool.false_ne_true, List.filter_cons, List.filter_cons, ih hpq.2 hvals]

end writing

section interpolation
variable {D C : Type}

/-- The `double` operations of `set_shape`: the sum of the costs, and
`(time_span * cost / total_cost) + previous_time` as a `size_t`. -/
structure CostArithmetic (C : Type) where
  zero : C
  add : C → C → C
  elapsed : ℕ → C → C → ℕ → ℕ

variable (K : CostArithmetic C) (interpolateTimes : Bool)

def dwellTimeSeconds : ℕ := 10

/-- The times of an inner stop are replaced when one is missing, or on request. -/
def isInterpolated (inner : Bool) (st : StopTime D) : Bool :=
  inner && (!st.arrivalTime.timeIsProvided || !st.departureTime.timeIsProvided || interpolateTimes)

/-- One round of the loop over the stop times, with the time of the previous stop. -/
def setStopTime (timeSpan : ℕ) (totalCost : C) (inner : Bool) (dist : D) (cost : C)
    (previousTime : ℕ) (st : StopTime D) : Option (StopTime D × ℕ) :=
  if isInterpolated interpolateTimes inner st then do
    let previousTime := K.elapsed timeSpan cost totalCost previousTime
    let time ← (Time.ofSeconds previousTime).toOption
    let departureTime ← (time.addSeconds dwellTimeSeconds).toOption
    some ({ st with arrivalTime := time, departureTime, shapeDistTraveled := dist }, previousTime)
  else some ({ st with shapeDistTraveled := dist }, previousTime)

def setStopTimes (timeSpan : ℕ) (totalCost : C) (isFirst : Bool) (previousTime : ℕ) :
    List (StopTime D) → List D → List C → Option (List (StopTime D))
  | st :: sts, dist :: dists, cost :: costs => do
    let (st, previousTime) ← setStopTime K interpolateTimes timeSpan totalCost
      (!isFirst && !sts.isEmpty) dist cost previousTime st
    let sts ← setStopTimes timeSpan totalCost false previousTime sts dists costs
    some (st :: sts)
  | _, _, _ => some []

/-- The new stop times of a trip; `none` if the assertion on the lengths fails. -/
def interpolated (sts : List (StopTime D)) (dists : List D) (costs : List C) :
    Option (List (StopTime D)) :=
  if dists.length = sts.length ∧ costs.length = sts.length then do
    let stBegin ← sts.head?
    let stEnd ← sts.getLast?
    let begin_ := stBegin.departureTime.totalSeconds
    let timeSpan := sizeT (stEnd.departureTime.totalSeconds - begin_ : ℤ)
    setStopTimes K interpolateTimes timeSpan (costs.foldl K.add K.zero) true begin_ sts dists costs
  else none

def setShape (t : Text) (s : Shape D) (dists : List D) (costs : List C) (f : Feed D) :
    Option (Feed D) := do
  let refs ← f.stopTimeProvider.getForTrip t
  let sts ← interpolated K interpolateTimes (f.dereference refs) dists costs
  some { f with stopTimes := store f.stopTimes refs sts
                shapes := f.shapes.insert s.shapeId s
                trips := f.trips.map fun id trip =>
                  if id = t then { trip with shapeId := s.shapeId } else trip }

end interpolation

section results
variable {D C : Type} {K : CostArithmetic C} {interpolateTimes : Bool}

def SameStop (st st' : StopTime D) : Prop :=
  st'.tripId = st.tripId ∧ st'.stopId = st.stopId ∧ st'.stopSequence = st.stopSequence

theorem toOption_eq {A : Type} {x : Except StdException A} {a : A} (h : x = .ok a) :
    x.toOption = some a := by
  rw [h]
  rfl

variable (K interpolateTimes) in
theorem setStopTime_some (timeSpan : ℕ) (totalCost : C) (inner : Bool) (dist : D) (cost : C)
    (previousTime : ℕ) (st : StopTime D) :
    ∃ st' previousTime', setStopTime K interpolateTimes timeSpan totalCost inner dist cost
      previousTime st = some (st', previousTime') ∧ SameStop st st' ∧
        st'.shapeDistTraveled = dist := by
  rw [setStopTime]
  split_ifs
  · obtain ⟨t, ht, -⟩ := Time.ofSeconds_ok (K.elapsed timeSpan cost totalCost previousTime)
    obtain ⟨t', ht'⟩ := Time.addSeconds_ok t dwellTimeSeconds
    refine ⟨{ st with arrivalTime := t, departureTime := t', shapeDistTraveled := dist },
      K.elapsed timeSpan cost totalCost previousTime, ?_, ⟨rfl, rfl, rfl⟩, rfl⟩
    change (Except.toOption (Time.ofSeconds _)).bind _ = _
    rw [toOption_eq ht]
    change (Except.toOption (t.addSeconds dwellTimeSeconds)).bind _ = _
    rw [toOption_eq ht']
    rfl
  · exact ⟨_, _, rfl, ⟨rfl, rfl, rfl⟩, rfl⟩

variable (K interpolateTimes) in
theorem setStopTimes_some {sts : List (StopTime D)} {dists : List D} {costs : List C}
    (hdists : dists.length = sts.length) (hcosts : costs.length = sts.length) (timeSpan : ℕ)
    (totalCost : C) (isFirst : Bool) (previousTime : ℕ) :
    ∃ sts', setStopTimes K interpolateTimes timeSpan totalCost isFirst previousTime sts dists costs =
      some sts' ∧ List.Forall₂ SameStop sts sts' ∧ sts'.map StopTime.shapeDistTraveled = dists := by
  induction sts generalizing dists costs isFirst previousTime with
  | nil =>
    rw [List.length_nil, List.length_eq_zero_iff] at hdists
    rw [hdists]
    exact ⟨[], rfl, List.Forall₂.nil, rfl⟩
  | cons st sts ih =>
    cases dists with
    | nil => cases hdists
    | cons dist dists =>
      cases costs with
      | nil => cases hcosts
      | cons cost costs =>
        rw [List.length_cons, List.length_cons, Nat.add_right_cancel_iff] at hdists hcosts
        obtain ⟨st', previousTime', hst, hsame, hdist⟩ := setStopTime_some K
          interpolateTimes timeSpan totalCost (!isFirst && !sts.isEmpty) dist cost previousTime st
        obtain ⟨sts', hsts, hrest, hmap⟩ := ih hdists hcosts false previousTime'
        refine ⟨st' :: sts', ?_, List.Forall₂.cons hsame hrest, ?_⟩
        · rw [setStopTimes, hst]
          change (setStopTimes K interpolateTimes timeSpan totalCost false previousTime' sts dists
            costs).bind _ = _
          rw [hsts]
          rfl
        · rw [List.map_cons, hdist, hmap]

theorem interpolated_spec {sts sts' : List (StopTime D)} {dists : List D} {costs : List C}
    (h : interpolated K interpolateTimes sts dists costs = some sts') :
    List.Forall₂ SameStop sts sts' ∧ sts'.map StopTime.shapeDistTraveled = dists := by
  rw [interpolated] at h
  split_ifs at h with hlen
  obtain ⟨stBegin, -, h⟩ := Option.bind_eq_some_iff.1 h
  obtain ⟨stEnd, -, h⟩ := Option.bind_eq_some_iff.1 h
  obtain ⟨sts'', hsts, hspec⟩ := setStopTimes_some K interpolateTimes hlen.1 hlen.2
    (sizeT (stEnd.departureTime.totalSeconds - stBegin.departureTime.totalSeconds : ℤ))
    (costs.foldl K.add K.zero) true stBegin.departureTime.totalSeconds
  cases hsts.symm.trans h
  exact hspec

end results

end Pfaedle.ShapeBuilder

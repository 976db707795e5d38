import Pfaedle.TripClusters

set_option autoImplicit false

/-!
# `stop_time_provider`

A reference to a stop time is its position in the feed.
-/
namespace Pfaedle.Gtfs

structure StopTimeProvider where
  stopBasedMap : SortedMap Text (List ℕ)
  tripBasedMap : SortedMap Text (List ℕ)

def pushBack (m : SortedMap Text (List ℕ)) (id : Text) (st : ℕ) : SortedMap Text (List ℕ) :=
  m.alter id fun old => old.getD [] ++ [st]

section provider
variable {D : Type}

def StopTimeProvider.prepareOne (p : StopTimeProvider) (e : StopTime D × ℕ) : StopTimeProvider :=
  ⟨pushBack p.stopBasedMap e.1.stopId e.2, pushBack p.tripBasedMap e.1.tripId e.2⟩

def StopTimeProvider.prepare (p : StopTimeProvider) (sts : List (StopTime D)) : StopTimeProvider :=
  sts.zipIdx.foldl prepareOne p

def Feed.stopTimeProvider (f : Feed D) : StopTimeProvider :=
  StopTimeProvider.prepare ⟨.empty, .empty⟩ f.stopTimes

def StopTimeProvider.getForTrip (p : StopTimeProvider) (id : Text) : Option (List ℕ) :=
  p.tripBasedMap.find? id

def Feed.dereference (f : Feed D) (refs : List ℕ) : List (StopTime D) :=
  refs.filterMap fun i => f.stopTimes[i]?

end provider

section grouping
variable {A : Type} {key : A → Text} {ref : A → ℕ}

/-- The references of one key stand in the order of the list. -/
theorem find?_foldl_pushBack (l : List A) (m : SortedMap Text (List ℕ)) (id : Text) :
    (l.foldl (fun m e => pushBack m (key e) (ref e)) m).find? id =
      if l.filter (fun e => key e = id) = [] then m.find? id
      else some ((m.find? id).getD [] ++ (l.filter fun e => key e = id).map ref) := by
  induction l generalizing m with
  | nil => rfl
  | cons e l ih =>
    rw [List.foldl_cons, ih, pushBack, SortedMap.find?_alter]
    by_cases hid : key e = id
    · rw [if_pos hid.symm, List.filter_cons_of_pos (by simpa using hid),
        if_neg (List.cons_ne_nil _ _), List.map_cons, hid]
      split_ifs with hnil
      · rw [hnil]
        rfl
      · rw [Option.getD_some, List.append_assoc]
        rfl
    · rw [if_neg (Ne.symm hid), List.filter_cons_of_neg (by simpa using hid)]

end grouping

section lookups
variable {D : Type}

def refsOf (p : StopTime D → Bool) (sts : List (StopTime D)) : List ℕ :=
  (sts.zipIdx.filter fun e => p e.1).map Prod.snd

theorem mem_refsOf {p : StopTime D → Bool} {sts : List (StopTime D)} {i : ℕ} :
    i ∈ refsOf p sts ↔ ∃ st, sts[i]? = some st ∧ p st = true := by
  rw [refsOf, List.mem_map]
  constructor
  · rintro ⟨⟨st, j⟩, hmem, rfl⟩
    obtain ⟨hmem, hp⟩ := List.mem_filter.1 hmem
    exact ⟨st, List.mem_zipIdx_iff_getElem?.1 hmem, hp⟩
  · rintro ⟨st, hst, hp⟩
    exact ⟨(st, i), List.mem_filter.2 ⟨List.mem_zipIdx_iff_getElem?.2 hst, hp⟩, rfl⟩

theorem filterMap_refsOf (p : StopTime D → Bool) (sts : List (StopTime D)) :
    (refsOf p sts).filterMap (fun i => sts[i]?) = sts.filter p := by
  have hget : ∀ e ∈ sts.zipIdx.filter (fun e => p e.1),
      sts[e.2]? = some e.1 := fun e he =>
    List.mem_zipIdx_iff_getElem?.1 (List.mem_of_mem_filter he)
  have hfst : sts.filter p = (sts.zipIdx.filter fun e => p e.1).map Prod.fst := by
    conv_lhs => rw [← List.zipIdx_map_fst 0 sts, List.filter_map]
    rfl
  rw [hfst, refsOf, List.filterMap_map, ← List.filterMap_eq_map]
  exact List.filterMap_congr fun e he => hget e he

theorem tripBasedMap_prepare (p : StopTimeProvider) (l : List (StopTime D × ℕ)) :
    (l.foldl StopTimeProvider.prepareOne p).tripBasedMap =
      l.foldl (fun m e => pushBack m e.1.tripId e.2) p.tripBasedMap := by
  induction l generalizing p with
  | nil => rfl
  | cons e l ih => exact ih _

theorem refsOf_eq_nil {p : StopTime D → Bool} {sts : List (StopTime D)} :
    refsOf p sts = [] ↔ sts.filter p = [] := by
  rw [← filterMap_refsOf, List.filterMap_eq_nil_iff]
  refine ⟨fun h => by rw [h]; exact fun i hi => absurd hi List.not_mem_nil, fun h => ?_⟩
  by_contra hne
  obtain ⟨i, hi⟩ := List.exists_mem_of_ne_nil _ hne
  obtain ⟨st, hst, -⟩ := mem_refsOf.1 hi
  rw [h i hi] at hst
  cases hst

theorem getForTrip_eq (f : Feed D) (id : Text) :
    f.stopTimeProvider.getForTrip id =
      if f.stopTimes.filter (fun st => st.tripId = id) = [] then none
      else some (refsOf (fun st => st.tripId = id) f.stopTimes) := by
  rw [Feed.stopTimeProvider, StopTimeProvider.prepare, StopTimeProvider.getForTrip,
    tripBasedMap_prepare, find?_foldl_pushBack]
  have hrefs : (f.stopTimes.zipIdx.filter (fun e => decide (e.1.tripId = id)) = []) =
      (f.stopTimes.filter (fun st => decide (st.tripId = id)) = []) := by
    rw [← refsOf_eq_nil, refsOf, List.map_eq_nil_iff]
  simp only [hrefs]
  rfl

/-- The references of `trip::stop_times` lead to the stop times of the trip in the order of the
file. -/
theorem dereference_getForTrip (f : Feed D) (trip : Trip) :
    (f.stopTimeProvider.getForTrip trip.tripId).map f.dereference =
      ShapeBuilder.stopTimes f trip := by
  rw [getForTrip_eq, ShapeBuilder.stopTimes]
  split_ifs
  · rfl
  · rw [Option.map_some, Feed.dereference, filterMap_refsOf]

end lookups

end Pfaedle.Gtfs

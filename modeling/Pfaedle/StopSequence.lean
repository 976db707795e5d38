import Pfaedle.SetShape
import Pfaedle.MotStops
import Pfaedle.FeedRows

set_option autoImplicit false

/-!
# The order of the stops of a trip

`stop_time_provider` groups the rows of `stop_times.txt` in the order of the file. It never looks at
`stop_sequence`.
-/
namespace Pfaedle.ShapeBuilder

open Gtfs

section orders
variable {A : Type} {key : A → ℕ}

theorem mem_iff_of_ties {l l' : List A}
    (hties : ∀ n, l'.filter (fun a => key a = n) = l.filter fun a => key a = n) (a : A) :
    a ∈ l' ↔ a ∈ l := by
  have hfilter : ∀ m : List A, a ∈ m ↔ a ∈ m.filter fun b => key b = key a := fun m => by
    rw [List.mem_filter]
    exact ⟨fun h => ⟨h, decide_eq_true rfl⟩, fun h => h.1⟩
  rw [hfilter l', hfilter l, hties]

/-- A list in the order of its keys is fixed by its elements and the order of those with one key. -/
theorem sorted_unique {l l' : List A} (hsorted : l.Pairwise fun a b => key a ≤ key b)
    (hsorted' : l'.Pairwise fun a b => key a ≤ key b)
    (hties : ∀ n, l'.filter (fun a => key a = n) = l.filter fun a => key a = n) : l' = l := by
  have hmem := mem_iff_of_ties hties
  induction l generalizing l' with
  | nil =>
    cases l' with
    | nil => rfl
    | cons b l' => exact absurd ((hmem b).1 List.mem_cons_self) List.not_mem_nil
  | cons a l ih =>
    cases l' with
    | nil => exact absurd ((hmem a).2 List.mem_cons_self) List.not_mem_nil
    | cons b l' =>
      rw [List.pairwise_cons] at hsorted hsorted'
      have hkey : key b = key a := by
        refine Nat.le_antisymm ?_ ?_
        · cases List.mem_cons.1 ((hmem a).2 List.mem_cons_self) with
          | inl heq => exact heq ▸ Nat.le_refl _
          | inr ha => exact hsorted'.1 a ha
        · cases List.mem_cons.1 ((hmem b).1 List.mem_cons_self) with
          | inl heq => exact heq ▸ Nat.le_refl _
          | inr hb => exact hsorted.1 b hb
      have hhead : b = a := by
        have htie := hties (key a)
        rw [List.filter_cons, List.filter_cons, if_pos (decide_eq_true hkey),
          if_pos (decide_eq_true rfl)] at htie
        exact (List.cons.inj htie).1
      rw [hhead] at hties ⊢
      have htail : ∀ n, l'.filter (fun a => key a = n) = l.filter fun a => key a = n := by
        intro n
        have htie := hties n
        rw [List.filter_cons, List.filter_cons] at htie
        split_ifs at htie
        · exact (List.cons.inj htie).2
        · exact htie
      exact congrArg _ (ih hsorted.2 hsorted'.2 htail (mem_iff_of_ties htail))

end orders

section tables
variable {D : Type} (R : Doubles D)

/-- The rows of `stop_times.txt` in the order of the file. -/
def stopTimeRows (files : Files) : List (StopTime D) :=
  (dataRows files "stop_times.txt").filterMap fun row => (stopTimeOf R row).toOption

/-- The rows of each trip stand in the file by their `stop_sequence`. -/
def InSequence (table : List (StopTime D)) : Prop :=
  table.Pairwise fun st st' => st.tripId = st'.tripId → st.stopSequence ≤ st'.stopSequence

/-- The rows of a trip that share a `stop_sequence` stand in the same order in both tables. -/
def SameTies (table table' : List (StopTime D)) : Prop :=
  ∀ id n, table'.filter (fun st => st.tripId = id ∧ st.stopSequence = n) =
    table.filter fun st => st.tripId = id ∧ st.stopSequence = n

/-- The same feed with the rows of `stop_times.txt` in another order. -/
structure Reordered (files files' : Files) : Prop where
  others : ∀ name ≠ "stop_times.txt", files' name = files name
  rows : (dataRows files' "stop_times.txt").Perm (dataRows files "stop_times.txt")

/-- What the references of `trip::stop_times` lead to. -/
def listedTimes (f : Feed D) (id : Text) : List (StopTime D) :=
  (f.stopTimeProvider.getForTrip id).elim [] f.dereference

/-- The stop times of every trip are its rows in the order of `stop_sequence`. -/
structure Listed (table : List (StopTime D)) (f : Feed D) : Prop where
  rows : ∀ id, (listedTimes f id).Perm (table.filter fun st => st.tripId = id)
  ordered : ∀ id, (listedTimes f id).Pairwise fun st st' => st.stopSequence ≤ st'.stopSequence

/-- Nothing that is computed from the stop times of a trip differs. -/
structure SameRouting (f f' : Feed D) : Prop where
  times : ∀ id, listedTimes f' id = listedTimes f id
  candidates : ∀ {N C : Type} (stops : FeedStops N) (groups : N → StationGroup N C) (trip : Trip),
    getNodeCandidateRoute f' stops groups trip = getNodeCandidateRoute f stops groups trip
  clusters : ∀ (B : Builder D) (mots : List ℤ), clusterTrips B f' mots = clusterTrips B f mots
  interpolation : ∀ {C : Type} (K : CostArithmetic C) (interpolateTimes : Bool) (t : Text)
    (s : Shape D) (dists : List D) (costs : List C),
    (setShape K interpolateTimes t s dists costs f').map (fun g => listedTimes g t) =
      (setShape K interpolateTimes t s dists costs f).map fun g => listedTimes g t

end tables

section listing
variable {D : Type} {f f' : Feed D}

theorem listedTimes_eq (f : Feed D) (id : Text) :
    listedTimes f id = f.stopTimes.filter fun st => st.tripId = id := by
  rw [listedTimes, getForTrip_eq]
  split_ifs with hnil
  · exact hnil.symm
  · exact filterMap_refsOf _ _

theorem stopTimes_eq_listedTimes (f : Feed D) (trip : Trip) :
    stopTimes f trip =
      if listedTimes f trip.tripId = [] then none else some (listedTimes f trip.tripId) := by
  rw [listedTimes_eq]
  rfl

/-- Writing the stop times of one trip leaves the others alone. -/
theorem setShape_spec {C : Type} {K : CostArithmetic C} {interpolateTimes : Bool} {t : Text}
    {s : Shape D} {dists : List D} {costs : List C} {g : Feed D}
    (h : setShape K interpolateTimes t s dists costs f = some g) :
    listedTimes f t ≠ [] ∧
      interpolated K interpolateTimes (listedTimes f t) dists costs = some (listedTimes g t) ∧
      (∀ id, id ≠ t → listedTimes g id = listedTimes f id) ∧
      g = { f with stopTimes := g.stopTimes, shapes := f.shapes.insert s.shapeId s
                   trips := f.trips.map fun id trip =>
                     if id = t then { trip with shapeId := s.shapeId } else trip } := by
  rw [setShape] at h
  obtain ⟨refs, hrefs, h⟩ := Option.bind_eq_some_iff.1 h
  obtain ⟨sts, hsts, h⟩ := Option.bind_eq_some_iff.1 h
  have hderef : f.dereference refs = listedTimes f t := by
    rw [listedTimes, hrefs]
    rfl
  rw [hderef] at hsts
  rw [getForTrip_eq] at hrefs
  split_ifs at hrefs with hnil
  have hsame := (interpolated_spec hsts).1
  have hlen := hsame.length_eq
  have hwrite : g.stopTimes = replaceWhere (fun st => st.tripId = t) f.stopTimes sts := by
    rw [← Option.some.inj h, ← Option.some.inj hrefs]
    exact store_refs (fun st : StopTime D => decide (st.tripId = t)) f.stopTimes sts []
  have hid : ∀ st ∈ sts, st.tripId = t := by
    intro st hst
    obtain ⟨old, hold, hst'⟩ := forall₂_mem_right hsame hst
    rw [listedTimes_eq] at hold
    exact hst'.1.trans (of_decide_eq_true (List.mem_filter.1 hold).2)
  rw [listedTimes_eq] at hlen
  refine ⟨by rwa [listedTimes_eq], ?_, fun id hne => ?_, ?_⟩
  · rw [listedTimes_eq g, hwrite,
      filter_replaceWhere hlen.symm fun st hst => decide_eq_true (hid st hst)]
    exact hsts
  · rw [listedTimes_eq, listedTimes_eq, hwrite]
    refine filter_replaceWhere_of_disjoint (fun st _ hp => ?_) fun st hst => ?_
    · exact decide_eq_false fun heq => hne (heq.symm.trans (of_decide_eq_true hp))
    · exact decide_eq_false fun heq => hne (heq.symm.trans (hid st hst))
  · rw [← Option.some.inj h]

theorem setShape_times {C : Type} (K : CostArithmetic C) (interpolateTimes : Bool) (t : Text)
    (s : Shape D) (dists : List D) (costs : List C) (f : Feed D) :
    (setShape K interpolateTimes t s dists costs f).map (fun g => listedTimes g t) =
      if listedTimes f t = [] then none
      else interpolated K interpolateTimes (listedTimes f t) dists costs := by
  cases hset : setShape K interpolateTimes t s dists costs f with
  | some g =>
    obtain ⟨hne, hsts, -⟩ := setShape_spec hset
    rw [if_neg hne, hsts]
    rfl
  | none =>
    rw [setShape] at hset
    cases hrefs : f.stopTimeProvider.getForTrip t with
    | none =>
      rw [listedTimes, hrefs, Option.elim_none, if_pos rfl]
      rfl
    | some refs =>
      have hderef : f.dereference refs = listedTimes f t := by
        rw [listedTimes, hrefs]
        rfl
      rw [hrefs] at hset
      change (interpolated K interpolateTimes (f.dereference refs) dists costs).bind _ = none at hset
      rw [hderef] at hset
      cases hsts : interpolated K interpolateTimes (listedTimes f t) dists costs with
      | none => rw [ite_self, Option.map_none]
      | some sts =>
        rw [hsts] at hset
        cases hset

end listing

section routing
variable {D : Type}

/-- Two feeds that differ in the order of their stop times at most. -/
structure SameTrips (f f' : Feed D) : Prop where
  stops : f'.stops = f.stops
  routes : f'.routes = f.routes
  trips : f'.trips = f.trips
  shapes : f'.shapes = f.shapes
  times : ∀ id, listedTimes f' id = listedTimes f id

namespace SameTrips
variable {f f' : Feed D} (h : SameTrips f f')
include h

theorem stopTimes_eq : stopTimes f' = stopTimes f := by
  funext trip
  rw [stopTimes_eq_listedTimes, stopTimes_eq_listedTimes, h.times]

theorem stopOf_eq : stopOf f' = stopOf f := by
  funext st
  rw [ShapeBuilder.stopOf, ShapeBuilder.stopOf, h.stops]

theorem routeOf_eq : routeOf f' = routeOf f := by
  funext trip
  rw [ShapeBuilder.routeOf, ShapeBuilder.routeOf, h.routes]

theorem hasShape_eq : hasShape f' = hasShape f := by
  funext trip
  rw [hasShape, hasShape, shapeOf, shapeOf, h.shapes]

theorem getNodeCandidateRoute_eq {N C : Type} (stops : FeedStops N)
    (groups : N → StationGroup N C) (trip : Trip) :
    getNodeCandidateRoute f' stops groups trip = getNodeCandidateRoute f stops groups trip := by
  have hcandidates : stopCandidates f' stops groups trip = stopCandidates f stops groups trip := by
    funext st
    rw [stopCandidates, stopCandidates, h.stopOf_eq]
  rw [getNodeCandidateRoute, getNodeCandidateRoute, h.stopTimes_eq, hcandidates]

theorem getRAttrs_eq (B : Builder D) : getRAttrs B f' = getRAttrs B f := by
  funext trip
  rw [getRAttrs, getRAttrs, h.stopTimes_eq, h.stopOf_eq, h.routeOf_eq]

theorem allEqual_eq (B : Builder D) (as bs : List (StopTime D)) :
    allEqual B f' as bs = allEqual B f as bs := by
  induction as generalizing bs with
  | nil => rfl
  | cons a as ih =>
    cases bs with
    | nil => rfl
    | cons b bs => rw [allEqual, allEqual, stopsEqual, stopsEqual, h.stopOf_eq, ih]

theorem routingEqual_eq (B : Builder D) : routingEqual B f' = routingEqual B f := by
  funext a b
  rw [routingEqual, routingEqual, h.stopTimes_eq, h.getRAttrs_eq]
  simp only [h.allEqual_eq]

theorem findCluster_eq (B : Builder D) (ret : List (List Trip)) (trip : Trip) (is : List ℕ) :
    findCluster B f' ret trip is = findCluster B f ret trip is := by
  induction is with
  | nil => rfl
  | cons i is ih => rw [findCluster, findCluster, h.routingEqual_eq, ih]

theorem clusterTrips_eq (B : Builder D) (mots : List ℤ) :
    clusterTrips B f' mots = clusterTrips B f mots := by
  have hround : clusterTrip B f' mots = clusterTrip B f mots := by
    funext c trip
    simp only [clusterTrip, h.hasShape_eq, h.stopTimes_eq, h.routeOf_eq, h.stopOf_eq,
      h.getRAttrs_eq, h.findCluster_eq]
  rw [clusterTrips, clusterTrips, h.trips, hround]

theorem sameRouting : SameRouting f f' where
  times := h.times
  candidates := h.getNodeCandidateRoute_eq
  clusters := h.clusterTrips_eq
  interpolation K interpolateTimes t s dists costs := by
    rw [setShape_times, setShape_times, h.times]

end SameTrips

end routing

section reading
variable {D : Type} {R : Doubles D} {files files' : Files}

theorem RowsRead.unique {A F : Type} {Q : Record → A → Prop} {add : F → A → F} {filename : String}
    {f g g' : F} (hQ : ∀ {row a a'}, Q row a → Q row a' → a = a')
    (hfile : files' filename = files filename) (h : RowsRead Q add files filename f g)
    (h' : RowsRead Q add files' filename f g') : g' = g := by
  obtain ⟨es, hes, rfl⟩ := h
  obtain ⟨es', hes', rfl⟩ := h'
  have hrows : dataRows files' filename = dataRows files filename := by
    rw [dataRows, dataRows, hfile]
  rw [hrows] at hes'
  have hunique : Relator.RightUnique Q := fun _ _ _ ha ha' => hQ ha ha'
  have heq : es' = es := List.right_unique_forall₂' hunique hes' hes
  rw [heq]

theorem loaded_unique {F : Type} {enabled : Bool} {P P' : F → F → Prop} {f g g' : F}
    (hP : ∀ {g g'}, P f g → P' f g' → g' = g) (h : Loaded enabled P f g)
    (h' : Loaded enabled P' f g') : g' = g := by
  rw [Loaded] at h h'
  split_ifs at h h' with henabled
  · exact hP h h'
  · rw [h, h']

/-- Reading the same rows in another order changes the stop times only. -/
theorem sameTrips_of_read {config : ReadConfig} {f f' : Feed D}
    (hread : FeedRead R files config .empty f) (hread' : FeedRead R files' config .empty f')
    (hreordered : Reordered files files') (htimes : ∀ id, listedTimes f' id = listedTimes f id) :
    SameTrips f f' where
  stops := by
    refine loaded_unique (fun h h' => ?_) hread.stops hread'.stops
    refine RowsRead.unique (fun hs hs' => ?_) (hreordered.others _ (by decide)) h.2 h'.2
    exact Except.ok.inj (Except.ok.inj (hs.symm.trans hs'))
  routes := by
    refine loaded_unique (fun h h' => ?_) hread.routes hread'.routes
    refine RowsRead.unique (fun hr hr' => ?_) (hreordered.others _ (by decide)) h.2 h'.2
    exact Except.ok.inj (hr.1.symm.trans hr'.1)
  trips := by
    refine loaded_unique (fun h h' => ?_) hread.trips hread'.trips
    refine RowsRead.unique (fun ht ht' => ?_) (hreordered.others _ (by decide)) h.2 h'.2
    exact Except.ok.inj (ht.symm.trans ht')
  shapes := by
    refine loaded_unique (fun h h' => ?_) hread.shapes hread'.shapes
    refine RowsRead.unique (fun hs hs' => ?_) (hreordered.others _ (by decide)) h h'
    exact Except.ok.inj (hs.symm.trans hs')
  times := htimes

theorem filterMap_of_forall₂ {A : Type} {entityOf : Record → Except StdException A}
    {rows : List Record} {es : List A}
    (h : List.Forall₂ (fun row e => entityOf row = .ok e) rows es) :
    rows.filterMap (fun row => (entityOf row).toOption) = es := by
  induction h with
  | nil => rfl
  | cons he _ ih => rw [List.filterMap_cons, toOption_eq he, ih]

theorem stopTimes_of_read {config : ReadConfig} {f : Feed D}
    (hread : FeedRead R files config .empty f) (hon : config.stopTimes = true) :
    f.stopTimes = stopTimeRows R files := by
  obtain ⟨-, es, hes, hf⟩ := hread.stopTimes.of_enabled hon
  rw [hf, foldl_append_eq, stopTimeRows, filterMap_of_forall₂ hes]
  rfl

theorem listed_iff {f : Feed D} {table : List (StopTime D)} (h : f.stopTimes = table) :
    Listed table f ↔ InSequence table := by
  have hpairs : ∀ id, (listedTimes f id).Pairwise
      (fun st st' => st.stopSequence ≤ st'.stopSequence) ↔
        table.Pairwise fun st st' => st.tripId = id → st'.tripId = id →
          st.stopSequence ≤ st'.stopSequence := by
    intro id
    rw [listedTimes_eq, h, List.pairwise_filter]
    simp only [decide_eq_true_eq]
  constructor
  · intro hlisted
    rw [InSequence, List.pairwise_iff_getElem]
    intro i j hi hj hij htrip
    exact List.pairwise_iff_getElem.1 ((hpairs _).1 (hlisted.ordered _)) i j hi hj hij htrip rfl
  · intro hsequence
    refine ⟨fun id => ?_, fun id => (hpairs id).2 ?_⟩
    · rw [listedTimes_eq, h]
    · exact hsequence.imp fun hle htrip htrip' => hle (htrip.trans htrip'.symm)

theorem sameTies_of_times {f f' : Feed D} (h : ∀ id, listedTimes f' id = listedTimes f id) :
    SameTies f.stopTimes f'.stopTimes := by
  intro id n
  have hsplit : ∀ table : List (StopTime D),
      table.filter (fun st => st.tripId = id ∧ st.stopSequence = n) =
        (table.filter fun st => st.tripId = id).filter fun st => st.stopSequence = n := by
    intro table
    rw [List.filter_filter]
    refine List.filter_congr fun st _ => ?_
    rw [Bool.decide_and, Bool.and_comm]
  rw [hsplit, hsplit, ← listedTimes_eq, ← listedTimes_eq, h]

theorem times_of_sequence {f f' : Feed D} (hsequence : InSequence f.stopTimes)
    (hsequence' : InSequence f'.stopTimes) (hties : SameTies f.stopTimes f'.stopTimes) (id : Text) :
    listedTimes f' id = listedTimes f id := by
  refine sorted_unique (((listed_iff rfl).2 hsequence).ordered id)
    (((listed_iff rfl).2 hsequence').ordered id) fun n => ?_
  have htie := hties id n
  rw [listedTimes_eq, listedTimes_eq, List.filter_filter, List.filter_filter]
  simp only [← Bool.decide_and, and_comm] at htie ⊢
  exact htie

/-- The stop times of a trip come in the order of `stop_sequence`, whatever the order of the file,
exactly for files in that order. -/
theorem read_stopTimes_iff {config : ReadConfig} (hon : config.stopTimes = true) {f f' : Feed D}
    {res res' : Result} (hread : read R files config .empty = some (res, f)) (hok : res.code = .ok)
    (hread' : read R files' config .empty = some (res', f')) (hok' : res'.code = .ok)
    (hreordered : Reordered files files') :
    (Listed (stopTimeRows R files) f ∧ Listed (stopTimeRows R files') f' ∧ SameRouting f f') ↔
      InSequence (stopTimeRows R files) ∧ InSequence (stopTimeRows R files') ∧
        SameTies (stopTimeRows R files) (stopTimeRows R files') := by
  have hf := read_ok R files hread hok
  have hf' := read_ok R files' hread' hok'
  have hrows := stopTimes_of_read hf hon
  have hrows' := stopTimes_of_read hf' hon
  rw [listed_iff hrows, listed_iff hrows', ← hrows, ← hrows']
  refine and_congr_right fun hsequence => and_congr_right fun hsequence' => ⟨fun h => ?_, fun h => ?_⟩
  · exact sameTies_of_times h.times
  · exact (sameTrips_of_read hf hf' hreordered
      (times_of_sequence hsequence hsequence' h)).sameRouting

end reading

section sample

def stopTimeFiles (rows : String) : Files := fun filename =>
  if filename = "stop_times.txt" then
    some ("trip_id,stop_id,stop_sequence,arrival_time,departure_time\n".toList ++ rows.toList)
  else none

def stopTimesOnly : ReadConfig :=
  ⟨false, false, false, false, true, false, false, false, false, false, false, false, false⟩

def interleaved : Files := stopTimeFiles "T,A,1,,\nU,B,7,,\nT,B,2,,\n"

def grouped : Files := stopTimeFiles "U,B,7,,\nT,A,1,,\nT,B,2,,\n"

def backwards : Files := stopTimeFiles "T,B,2,,\nT,A,1,,\n"

instance {D : Type} (table : List (StopTime D)) : Decidable (InSequence table) :=
  inferInstanceAs (Decidable (List.Pairwise _ _))

theorem sameTies_of_nodup {D : Type} {table table' : List (StopTime D)}
    (hperm : table'.Perm table)
    (hnodup : (table.map fun st => (st.tripId, st.stopSequence)).Nodup) :
    SameTies table table' := by
  intro id n
  have hone : (table.filter fun st => st.tripId = id ∧ st.stopSequence = n).length ≤ 1 := by
    rw [← List.countP_eq_length_filter]
    have hcount := List.nodup_iff_count_le_one.1 hnodup (id, n)
    rw [List.count, List.countP_map] at hcount
    refine (Nat.le_of_eq (List.countP_congr fun st _ => ?_)).trans hcount
    simp
  have hfilter := hperm.filter fun st => decide (st.tripId = id ∧ st.stopSequence = n)
  cases hlist : table.filter (fun st => st.tripId = id ∧ st.stopSequence = n) with
  | nil => rw [hlist] at hfilter; exact hfilter.eq_nil
  | cons st rest =>
    rw [hlist, List.length_cons] at hone
    rw [hlist, List.length_eq_zero_iff.1 (by omega : rest.length = 0)] at hfilter
    rw [hfilter.eq_singleton, List.length_eq_zero_iff.1 (by omega : rest.length = 0)]

set_option maxRecDepth 4000 in
/-- Two trips whose rows are interleaved in one file and grouped in the other. -/
theorem read_stopTimes_interleaved :
    ∃ res res' f f', read wholeNumbers interleaved stopTimesOnly Feed.empty = some (res, f) ∧
      read wholeNumbers grouped stopTimesOnly Feed.empty = some (res', f') ∧
      Listed (stopTimeRows wholeNumbers interleaved) f ∧
      Listed (stopTimeRows wholeNumbers grouped) f' ∧ SameRouting f f' := by
  have hrun : (read wholeNumbers interleaved stopTimesOnly Feed.empty).map
      (fun out => out.1.code) = some .ok := by decide
  have hrun' : (read wholeNumbers grouped stopTimesOnly Feed.empty).map
      (fun out => out.1.code) = some .ok := by decide
  obtain ⟨⟨res, f⟩, hread, hok⟩ := Option.map_eq_some_iff.1 hrun
  obtain ⟨⟨res', f'⟩, hread', hok'⟩ := Option.map_eq_some_iff.1 hrun'
  refine ⟨res, res', f, f', hread, hread', ?_⟩
  refine (read_stopTimes_iff rfl hread hok hread' hok' ⟨fun name hname => ?_, ?_⟩).2
    ⟨by decide, by decide, sameTies_of_nodup (by decide) (by decide)⟩
  · exact (if_neg hname).trans (if_neg hname).symm
  · decide

set_option maxRecDepth 4000 in
/-- A trip whose last stop comes first in the file is routed backwards. -/
theorem read_not_listed :
    ∃ res f, read wholeNumbers backwards stopTimesOnly Feed.empty = some (res, f) ∧
      res.code = .ok ∧ ¬ Listed (stopTimeRows wholeNumbers backwards) f := by
  have hrun : (read wholeNumbers backwards stopTimesOnly Feed.empty).map
      (fun out => (out.1.code, (listedTimes out.2 ['T']).map StopTime.stopSequence)) =
        some (.ok, [2, 1]) := by decide
  obtain ⟨⟨res, f⟩, hread, hout⟩ := Option.map_eq_some_iff.1 hrun
  obtain ⟨hok, hseq⟩ := Prod.mk.inj hout
  refine ⟨res, f, hread, hok, fun h => ?_⟩
  have hordered := (List.pairwise_map (f := StopTime.stopSequence)).2 (h.ordered ['T'])
  dsimp only at hseq
  rw [hseq] at hordered
  exact absurd hordered (by decide)

end sample

end Pfaedle.ShapeBuilder

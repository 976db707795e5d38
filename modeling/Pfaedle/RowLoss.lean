import Pfaedle.RowValues

set_option autoImplicit false

/-!
# Which rows the feed keeps

A map keeps one entity for each key, so a row is lost if the key of its container is not the key of
its table.
-/
namespace Pfaedle.Gtfs

section spec
variable {D : Type} (R : Doubles D) (files : Files)

def EachKept {A : Type} (shows : Record → A → Prop) (rows : List Record) (entities : List A) :
    Prop := ∃ es, List.Forall₂ shows rows es ∧ es.Subperm entities

structure NoRowLost (config : ReadConfig) (feed : Feed D) : Prop where
  agencies : config.agencies = true →
    EachKept Agency.Shows (dataRows files "agency.txt") feed.agencies.values
  stops : config.stops = true →
    EachKept (Stop.Shows R) (dataRows files "stops.txt") feed.stops.values
  routes : config.routes = true →
    EachKept Route.Shows (dataRows files "routes.txt") feed.routes.values
  trips : config.trips = true →
    EachKept Trip.Shows (dataRows files "trips.txt") feed.trips.values
  stopTimes : config.stopTimes = true →
    EachKept (StopTime.Shows R) (dataRows files "stop_times.txt") feed.stopTimes
  calendar : config.calendar = true →
    EachKept CalendarItem.Shows (dataRows files "calendar.txt") feed.calendar.values
  calendarDates : config.calendarDates = true →
    EachKept CalendarDate.Shows (dataRows files "calendar_dates.txt") feed.calendarDates.values
  shapes : config.shapes = true →
    EachKept (ShapePoint.Shows R) (dataRows files "shapes.txt")
      (feed.shapes.values.flatMap Shape.points)
  transfers : config.transfers = true →
    EachKept Transfer.Shows (dataRows files "transfers.txt") feed.transfers.values
  frequencies : config.frequencies = true →
    EachKept Frequency.Shows (dataRows files "frequencies.txt") feed.frequencies
  fareAttributes : config.fareAttributes = true →
    EachKept (FareAttributesItem.Shows R) (dataRows files "fare_attributes.txt")
      feed.fareAttributes.values
  fareRules : config.fareRules = true →
    EachKept FareRule.Shows (dataRows files "fare_rules.txt") feed.fareRules.values
  feedInfo : config.feedInfo = true →
    EachKept FeedInfo.Shows (dataRows files "feed_info.txt") [feed.feedInfo]

/-- No two rows of the table have the same values in the columns `keys`. -/
def DistinctRows (filename : String) (keys : List String) : Prop :=
  ((dataRows files filename).map fun row => keys.map fun key => row.find? key.toList).Nodup

/-- No two rows of a table have its GTFS key in common. -/
structure GtfsKeys : Prop where
  agencies : DistinctRows files "agency.txt" ["agency_id"]
  agencyIds : 1 < (dataRows files "agency.txt").length →
    ∀ row ∈ dataRows files "agency.txt", (row.find? "agency_id".toList).isSome
  stops : DistinctRows files "stops.txt" ["stop_id"]
  routes : DistinctRows files "routes.txt" ["route_id"]
  trips : DistinctRows files "trips.txt" ["trip_id"]
  stopTimes : DistinctRows files "stop_times.txt" ["trip_id", "stop_sequence"]
  calendar : DistinctRows files "calendar.txt" ["service_id"]
  calendarDates : DistinctRows files "calendar_dates.txt" ["service_id", "date"]
  fareRules : (dataRows files "fare_rules.txt").Nodup
  shapes : DistinctRows files "shapes.txt" ["shape_id", "shape_pt_sequence"]
  transfers : DistinctRows files "transfers.txt" ["from_stop_id", "to_stop_id"]

end spec

section tables
variable {A K : Type} [LinearOrder K] {files : Files} {filename : String}

theorem forall₂_map_eq {X : Type} {Q : Record → A → Prop} {f : Record → X} {g : A → X}
    {rows : List Record} {es : List A} (h : List.Forall₂ Q rows es)
    (hfg : ∀ {row e}, Q row e → f row = g e) : rows.map f = es.map g := by
  rw [← List.forall₂_eq_eq_eq, List.forall₂_map_left_iff, List.forall₂_map_right_iff]
  exact h.imp fun _ _ hq => hfg hq

omit [LinearOrder K] in
theorem map_keys {key : A → K} (es : List A) :
    (es.map fun e => (key e, e)).map Prod.fst = es.map key := by
  rw [List.map_map]
  rfl

theorem eachKept_map_iff {Q shows : Record → A → Prop} {key : A → K} {m : SortedMap K A}
    {X : Type} {keyOf : Record → X} {enc : K → X} (henc : Function.Injective enc)
    (hread : RowsRead Q (fun m e => m.insert (key e) e) files filename .empty m)
    (hshows : ∀ {row e}, Q row e → shows row e)
    (hkey : ∀ {row e}, Q row e → keyOf row = enc (key e)) :
    EachKept shows (dataRows files filename) m.values ↔
      ((dataRows files filename).map keyOf).Nodup := by
  obtain ⟨es, hes, hm⟩ := hread
  rw [foldl_insert_eq] at hm
  have hkeys : (dataRows files filename).map keyOf = (es.map key).map enc := by
    rw [List.map_map]
    exact forall₂_map_eq hes hkey
  rw [hkeys, List.nodup_map_iff henc, ← map_keys es]
  constructor
  · rintro ⟨es', hes', hsub⟩
    refine SortedMap.insertAll_nodup_of_length (Nat.le_antisymm ?_ ?_)
    · simpa [SortedMap.empty] using
        SortedMap.insertAll_length_le SortedMap.empty (es.map fun e => (key e, e))
    · have hle := hsub.length_le
      rw [← hes'.length_eq, hes.length_eq, hm, SortedMap.values, List.length_map] at hle
      rwa [List.length_map]
  · intro hnodup
    refine ⟨es, hes.imp fun _ _ hq => hshows hq, ?_⟩
    have hvalues : (es.map fun e => (key e, e)).map Prod.snd = es := by
      rw [List.map_map]
      exact List.map_id' es
    have hsub := (SortedMap.values_subperm_iff (es.map fun e => (key e, e))).2 hnodup
    rwa [hvalues, ← hm] at hsub

theorem eachKept_list {Q shows : Record → A → Prop} {l : List A}
    (hread : RowsRead Q (fun l e => l ++ [e]) files filename [] l)
    (hshows : ∀ {row e}, Q row e → shows row e) :
    EachKept shows (dataRows files filename) l := by
  obtain ⟨es, hes, hl⟩ := hread
  rw [foldl_append_eq, List.nil_append] at hl
  exact ⟨es, hes.imp fun _ _ hq => hshows hq, hl ▸ List.Subperm.refl _⟩

theorem points_addPoint {D : Type} (m : SortedMap Text (Shape D)) (pt : ShapePoint D) :
    ((addPoint m pt).values.flatMap Shape.points).Perm
      (pt :: m.values.flatMap Shape.points) := by
  obtain ⟨l, hsorted⟩ := m
  rw [addPoint, SortedMap.alter, SortedMap.values, SortedMap.values]
  dsimp only
  clear hsorted
  induction l with
  | nil => exact List.Perm.refl _
  | cons e l ih =>
    rw [SortedMap.alterEntries]
    split_ifs
    · exact List.Perm.refl _
    · change ((e.2.points ++ [pt]) ++ (l.map Prod.snd).flatMap Shape.points).Perm
        (pt :: (e.2.points ++ (l.map Prod.snd).flatMap Shape.points))
      rw [List.append_assoc]
      exact List.perm_middle
    · rw [List.map_cons, List.flatMap_cons, List.map_cons, List.flatMap_cons]
      exact (ih.append_left _).trans List.perm_middle

theorem points_foldl_addPoint {D : Type} (es : List (ShapePoint D)) (m : SortedMap Text (Shape D)) :
    ((es.foldl addPoint m).values.flatMap Shape.points).Perm
      (m.values.flatMap Shape.points ++ es) := by
  induction es generalizing m with
  | nil =>
    rw [List.append_nil]
    exact List.Perm.refl _
  | cons e es ih =>
    rw [List.foldl_cons]
    exact (ih _).trans (((points_addPoint m e).append_right es).trans List.perm_middle.symm)

theorem eachKept_points {D : Type} {Q shows : Record → ShapePoint D → Prop}
    {m : SortedMap Text (Shape D)} (hread : RowsRead Q addPoint files filename .empty m)
    (hshows : ∀ {row pt}, Q row pt → shows row pt) :
    EachKept shows (dataRows files filename) (m.values.flatMap Shape.points) := by
  obtain ⟨es, hes, hm⟩ := hread
  exact ⟨es, hes.imp fun _ _ hq => hshows hq,
    hm ▸ (points_foldl_addPoint es SortedMap.empty).symm.subperm⟩

/-- The only entity of a table is that of its last row. -/
theorem eachKept_last_iff {Q shows : Record → A → Prop} {old a : A}
    (hread : RowsRead Q (fun _ e => e) files filename old a)
    (hshows : ∀ {row e}, Q row e → shows row e) :
    EachKept shows (dataRows files filename) [a] ↔ (dataRows files filename).length ≤ 1 := by
  obtain ⟨es, hes, ha⟩ := hread
  constructor
  · rintro ⟨es', hes', hsub⟩
    rw [hes'.length_eq]
    exact hsub.length_le
  · intro hlen
    refine ⟨es, hes.imp fun _ _ hq => hshows hq, ?_⟩
    rw [hes.length_eq] at hlen
    cases es with
    | nil => exact List.nil_subperm
    | cons e es =>
      cases es with
      | nil =>
        rw [ha]
        exact List.Subperm.refl _
      | cons e' es => exact absurd hlen (by simp)

end tables

section reading
variable {D : Type} {R : Doubles D} {files : Files}

theorem one_key_injective : Function.Injective fun k : Text => [some k] :=
  fun _ _ h => Option.some.inj (List.singleton_inj.1 h)

theorem two_keys_injective :
    Function.Injective fun k : Text ×ₗ Text => [some (ofLex k).1, some (ofLex k).2] := by
  intro a b h
  obtain ⟨hfrom, hto⟩ := List.cons.inj h
  exact Prod.ext (Option.some.inj hfrom) (Option.some.inj (List.singleton_inj.1 hto))

theorem eachKept_key_iff {A : Type} {Q shows : Record → A → Prop} {key : A → Text}
    {m : SortedMap Text A} {filename column : String}
    (hread : RowsRead Q (fun m e => m.insert (key e) e) files filename .empty m)
    (hshows : ∀ {row e}, Q row e → shows row e)
    (hkey : ∀ {row e}, shows row e → Required row column (key e)) :
    EachKept shows (dataRows files filename) m.values ↔ DistinctRows files filename [column] :=
  eachKept_map_iff one_key_injective hread hshows fun hq => by
    rw [List.map_singleton, hkey (hshows hq)]

theorem GtfsKeys.agency_nodup (h : GtfsKeys files) :
    ((dataRows files "agency.txt").map fun row =>
      getValueOrDefault row "agency_id" (toStr 0)).Nodup := by
  have hdistinct := h.agencies
  have hids := h.agencyIds
  rw [DistinctRows] at hdistinct
  rcases hrows : dataRows files "agency.txt" with _ | ⟨row, _ | ⟨row', rows⟩⟩
  · exact List.nodup_nil
  · exact List.nodup_singleton _
  · rw [hrows] at hdistinct hids
    refine List.Nodup.map_on ?_ (List.Nodup.of_map _ hdistinct)
    intro x hx y hy hxy
    obtain ⟨i, hi⟩ := Option.isSome_iff_exists.1 (hids (by simp) x hx)
    obtain ⟨j, hj⟩ := Option.isSome_iff_exists.1 (hids (by simp) y hy)
    rw [getValueOrDefault, getValueOrDefault, hi, hj] at hxy
    refine List.inj_on_of_nodup_map hdistinct hx hy ?_
    change [x.find? _] = [y.find? _]
    rw [hi, hj]
    exact congrArg (fun k => [some k]) hxy

/-- Rows are lost where the map of a table is keyed by less than the key of the table. -/
theorem read_noRowLost_iff {config : ReadConfig} {feed : Feed D} {res : Result}
    (hread : read R files config Feed.empty = some (res, feed)) (hok : res.code = .ok)
    (hkeys : GtfsKeys files) :
    NoRowLost R files config feed ↔
      (config.calendarDates = true → DistinctRows files "calendar_dates.txt" ["service_id"]) ∧
      (config.fareRules = true → DistinctRows files "fare_rules.txt" ["fare_id"]) ∧
      (config.fareAttributes = true → DistinctRows files "fare_attributes.txt" ["fare_id"]) ∧
      (config.feedInfo = true → (dataRows files "feed_info.txt").length ≤ 1) := by
  have hfeed := read_ok R files hread hok
  have hdates := fun h => eachKept_key_iff (hfeed.calendarDates.of_enabled h)
    calendarDateOf_shows fun hs : CalendarDate.Shows _ _ => hs.serviceId
  have hrules := fun h => eachKept_key_iff (hfeed.fareRules.of_enabled h)
    fareRuleOf_shows fun hs : FareRule.Shows _ _ => hs.fareId
  have hattributes := fun h => eachKept_key_iff (hfeed.fareAttributes.of_enabled h)
    fareAttributesItemOf_shows fun hs : FareAttributesItem.Shows R _ _ => hs.fareId
  have hinfo := fun h => eachKept_last_iff (hfeed.feedInfo.of_enabled h)
    fun ⟨_, hrow⟩ => readFeedInfoRow_shows hrow
  constructor
  · intro h
    exact ⟨fun he => (hdates he).1 (h.calendarDates he), fun he => (hrules he).1 (h.fareRules he),
      fun he => (hattributes he).1 (h.fareAttributes he), fun he => (hinfo he).1 (h.feedInfo he)⟩
  · rintro ⟨hd, hr, ha, hi⟩
    refine
      { agencies := fun he => ?_
        stops := fun he => ?_
        routes := fun he => ?_
        trips := fun he => ?_
        stopTimes := fun he => eachKept_list (hfeed.stopTimes.of_enabled he).2 stopTimeOf_shows
        calendar := fun he => ?_
        calendarDates := fun he => (hdates he).2 (hd he)
        shapes := fun he => eachKept_points (hfeed.shapes.of_enabled he) shapePointOf_shows
        transfers := fun he => ?_
        frequencies := fun he =>
          eachKept_list (hfeed.frequencies.of_enabled he) frequencyOf_shows
        fareAttributes := fun he => (hattributes he).2 (ha he)
        fareRules := fun he => (hrules he).2 (hr he)
        feedInfo := fun he => (hinfo he).2 (hi he) }
    · exact (eachKept_map_iff Function.injective_id (hfeed.agencies.of_enabled he).2 agencyOf_shows
        fun hq => (agencyOf_shows hq).agencyId).2 hkeys.agency_nodup
    · exact (eachKept_key_iff (hfeed.stops.of_enabled he).2 stopOf_shows
        fun hs : Stop.Shows R _ _ => hs.stopId).2 hkeys.stops
    · exact (eachKept_key_iff (hfeed.routes.of_enabled he).2 (fun hq => routeOf_shows hq.1)
        fun hs : Route.Shows _ _ => hs.routeId).2 hkeys.routes
    · exact (eachKept_key_iff (hfeed.trips.of_enabled he).2 tripOf_shows
        fun hs : Trip.Shows _ _ => hs.tripId).2 hkeys.trips
    · exact (eachKept_key_iff (hfeed.calendar.of_enabled he) calendarItemOf_shows
        fun hs : CalendarItem.Shows _ _ => hs.serviceId).2 hkeys.calendar
    · refine (eachKept_map_iff two_keys_injective (hfeed.transfers.of_enabled he) transferOf_shows
        fun {row t} hq => ?_).2 hkeys.transfers
      have hs := transferOf_shows hq
      rw [List.map_cons, List.map_singleton, hs.fromStopId, hs.toStopId]
      rfl

end reading

section sample

def exceptionFiles (rows : String) : Files := fun filename =>
  if filename = "calendar_dates.txt" then
    some ("service_id,date,exception_type\n".toList ++ rows.toList)
  else none

def twoServices : Files := exceptionFiles "FULLW,20070604,2\nWE,20070604,1\n"

def oneService : Files := exceptionFiles "FULLW,20070604,2\nFULLW,20070605,2\n"

def datesOnly : ReadConfig :=
  ⟨false, false, false, false, false, false, true, false, false, false, false, false, false⟩

theorem exceptionFiles_gtfsKeys {rows : String}
    (h : DistinctRows (exceptionFiles rows) "calendar_dates.txt" ["service_id", "date"]) :
    GtfsKeys (exceptionFiles rows) where
  agencies := List.nodup_nil
  agencyIds := fun _ _ hrow => absurd hrow List.not_mem_nil
  stops := List.nodup_nil
  routes := List.nodup_nil
  trips := List.nodup_nil
  stopTimes := List.nodup_nil
  calendar := List.nodup_nil
  calendarDates := h
  fareRules := List.nodup_nil
  shapes := List.nodup_nil
  transfers := List.nodup_nil

instance (files : Files) (filename : String) (keys : List String) :
    Decidable (DistinctRows files filename keys) :=
  inferInstanceAs (Decidable (List.Nodup _))

set_option maxRecDepth 4000 in
/-- Exceptions of different services on one day. -/
theorem read_noRowLost_twoServices :
    ∃ res feed, read wholeNumbers twoServices datesOnly Feed.empty = some (res, feed) ∧
      NoRowLost wholeNumbers twoServices datesOnly feed := by
  have hrun : (read wholeNumbers twoServices datesOnly Feed.empty).map (fun out => out.1.code) =
      some .ok := by decide
  obtain ⟨⟨res, feed⟩, hread, hok⟩ := Option.map_eq_some_iff.1 hrun
  refine ⟨res, feed, hread, ?_⟩
  refine (read_noRowLost_iff hread hok (exceptionFiles_gtfsKeys (by decide))).2 ⟨?_, ?_, ?_, ?_⟩
  · exact fun _ => by decide
  · exact fun h => absurd h (by decide)
  · exact fun h => absurd h (by decide)
  · exact fun h => absurd h (by decide)

set_option maxRecDepth 4000 in
/-- Two exceptions of one service: the second is lost. -/
theorem read_not_noRowLost :
    GtfsKeys oneService ∧
    ∃ res feed, read wholeNumbers oneService datesOnly Feed.empty = some (res, feed) ∧
      res.code = .ok ∧ ¬ NoRowLost wholeNumbers oneService datesOnly feed := by
  refine ⟨exceptionFiles_gtfsKeys (by decide), ?_⟩
  have hrun : (read wholeNumbers oneService datesOnly Feed.empty).map (fun out =>
      (out.1.code, out.2.calendarDates.values.length)) = some (.ok, 1) := by decide
  obtain ⟨⟨res, feed⟩, hread, hout⟩ := Option.map_eq_some_iff.1 hrun
  obtain ⟨hok, hlength⟩ := Prod.mk.inj hout
  refine ⟨res, feed, hread, hok, fun h => ?_⟩
  obtain ⟨es, hes, hsub⟩ := h.calendarDates rfl
  have hrows : (dataRows oneService "calendar_dates.txt").length = 2 := by decide
  have hle := hsub.length_le
  dsimp only at hlength
  rw [← hes.length_eq, hrows, hlength] at hle
  exact absurd hle (by decide)

end sample

end Pfaedle.Gtfs

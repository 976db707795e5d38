import Pfaedle.RowValues
import Pfaedle.WrittenRows

set_option autoImplicit false

/-!
# Feeds that the reader can produce
-/
namespace Pfaedle.Gtfs

section numbers

def IsInt (z : ℤ) : Prop := -2 ^ 31 ≤ z ∧ z < 2 ^ 31

instance (z : ℤ) : Decidable (IsInt z) :=
  inferInstanceAs (Decidable (-2 ^ 31 ≤ z ∧ z < 2 ^ 31))

def IsSize (n : ℕ) : Prop := ∃ z, IsInt z ∧ n = sizeT z

theorem IsInt.stoi {z : ℤ} (h : IsInt z) : stoi (wrapInt z) = .ok z := stoi_toStr h.1 h.2

theorem IsSize.stoi {n : ℕ} (h : IsSize n) : sizeT <$> stoi (wrapSize n) = .ok n := by
  obtain ⟨z, hz, rfl⟩ := h
  rw [wrapSize, intT_sizeT hz.1 hz.2, stoi_toStr hz.1 hz.2]
  rfl

theorem IsSize.zero : IsSize 0 := ⟨0, by decide, rfl⟩

variable {row : Record} {key : String}

theorem RequiredInt.isInt {z : ℤ} (h : RequiredInt id row key z) : IsInt z := by
  obtain ⟨y, hy, rfl⟩ := h
  exact stoi_range hy

theorem RequiredInt.isSize {n : ℕ} (h : RequiredInt sizeT row key n) : IsSize n := by
  obtain ⟨y, hy, rfl⟩ := h
  exact ⟨y, stoi_range hy, rfl⟩

theorem OptionalInt.isInt {default z : ℤ} (hdefault : IsInt default)
    (h : OptionalInt id default row key z) : IsInt z :=
  h.elim (fun hh => hh.2 ▸ hdefault) RequiredInt.isInt

theorem OptionalInt.isSize {n : ℕ} (h : OptionalInt sizeT 0 row key n) : IsSize n :=
  h.elim (fun hh => hh.2 ▸ IsSize.zero) RequiredInt.isSize

end numbers

section cleanRows

def CleanRow (row : Record) : Prop := ∀ k v, row.find? k = some v → Clean v

variable {row : Record} {key : String} {t : Text}

theorem find?_foldl_set_mem {K V : Type} [LinearOrder K] {l : List (K × V)} {m : SortedMap K V}
    {k : K} {v : V} (h : (l.foldl (fun m e => m.set e.1 e.2) m).find? k = some v) :
    (k, v) ∈ l ∨ m.find? k = some v := by
  induction l generalizing m with
  | nil => exact Or.inr h
  | cons e l ih =>
    cases ih h with
    | inl hmem => exact Or.inl (List.mem_cons_of_mem _ hmem)
    | inr hset =>
      rw [SortedMap.find?_set] at hset
      split_ifs at hset with hk
      · cases hset
        exact Or.inl (hk ▸ List.mem_cons_self)
      · exact Or.inr hset

theorem cleanRow_readRow (names : List Text) {text : Text} (hnl : '\n' ∉ text) :
    CleanRow (readRow names text) := by
  intro k v hfind
  rw [readRow] at hfind
  split_ifs at hfind
  · cases hfind
  · cases find?_foldl_set_mem hfind with
    | inl hmem => exact splitRecord_clean hnl v (List.of_mem_zip hmem).2
    | inr hempty => cases hempty

theorem cleanRow_of_mem {files : Files} {filename : String} (h : row ∈ dataRows files filename) :
    CleanRow row := by
  rw [dataRows] at h
  split at h
  · exact absurd h List.not_mem_nil
  · rename_i content hfile
    split at h
    · exact absurd h List.not_mem_nil
    · rename_i header rows hlines
      obtain ⟨text, htext, rfl⟩ := List.mem_map.1 (List.mem_filter.1 h).1
      have hline : text ∈ lines content := by
        rw [hlines]
        exact List.mem_cons_of_mem _ htext
      exact cleanRow_readRow _ (newline_not_mem_lines hline)

theorem clean_nil : Clean [] := fun _ hc => absurd hc List.not_mem_nil

theorem CleanRow.value (h : CleanRow row) {default : Text} (hdefault : Clean default) :
    Clean (getValueOrDefault row key default) := by
  rw [getValueOrDefault]
  cases hfind : row.find? key.toList with
  | none => exact hdefault
  | some v => exact h _ v hfind

theorem Required.clean (h : Required row key t) (hrow : CleanRow row) : Clean t := hrow _ t h

theorem Optional.clean (h : Optional row key t) (hrow : CleanRow row) : Clean t :=
  h ▸ hrow.value clean_nil

theorem RequiredTime.clean {t : Time} (h : RequiredTime row key t) (hrow : CleanRow row) :
    Clean t.rawTime := by
  obtain ⟨text, htext, hparse⟩ := h
  rw [Time.parse_rawTime hparse]
  exact htext.clean hrow

theorem RequiredTime.reparse {t : Time} (h : RequiredTime row key t) :
    Time.parse t.rawTime = .ok t := by
  obtain ⟨text, htext, hparse⟩ := h
  rw [Time.parse_rawTime hparse]
  exact hparse

end cleanRows

section entities
variable {D : Type} (R : Doubles D)

def ColumnsOk (columns : List (String × Cell)) : Prop := ∀ p ∈ columns, p.2.Ok

structure Stop.Ok (s : Stop D) : Prop where
  columns : ColumnsOk (stopColumns R s)
  locationType : IsInt s.locationType

structure Route.Ok (r : Route) : Prop where
  columns : ColumnsOk (routeColumns r)
  routeType : IsInt r.routeType
  routeSortOrder : IsSize r.routeSortOrder
  named : ¬ (r.routeShortName = [] ∧ r.routeLongName = [])

structure Trip.Ok (t : Trip) : Prop where
  columns : ColumnsOk (tripColumns t)
  directionId : IsInt t.directionId
  wheelchairAccessible : IsInt t.wheelchairAccessible
  bikesAllowed : IsInt t.bikesAllowed

structure StopTime.Ok (st : StopTime D) : Prop where
  columns : ColumnsOk (stopTimeColumns R st)
  stopSequence : IsSize st.stopSequence
  arrivalTime : Time.parse st.arrivalTime.rawTime = .ok st.arrivalTime
  departureTime : Time.parse st.departureTime.rawTime = .ok st.departureTime
  pickupType : IsInt st.pickupType
  dropOffType : IsInt st.dropOffType
  shapeDistTraveled : R.lt st.shapeDistTraveled (R.ofInt 0) = false
  timepoint : IsInt st.timepoint

structure ShapePoint.Ok (pt : ShapePoint D) : Prop where
  columns : ColumnsOk (shapePointColumns R pt)
  shapePtSequence : IsSize pt.shapePtSequence
  coordinates : checkCoordinates R pt.shapePtLat pt.shapePtLon = .ok ()
  shapeDistTraveled : R.lt pt.shapeDistTraveled (R.ofInt 0) = false

structure Shape.Ok (id : Text) (s : Shape D) : Prop where
  shapeId : s.shapeId = id
  ne_nil : s.points ≠ []
  points : ∀ pt ∈ s.points, pt.shapeId = id ∧ pt.Ok R

variable {R} {row : Record}

theorem agencyOf_ok {a : Agency} (h : agencyOf row = .ok a) (hrow : CleanRow row) :
    ColumnsOk (agencyColumns a) := by
  have hs := agencyOf_shows h
  have hid : Clean a.agencyId := hs.agencyId ▸ hrow.value (plain_toStr 0).clean
  simp only [ColumnsOk, agencyColumns, List.forall_mem_cons]
  exact ⟨hid, hs.agencyName.clean hrow, hs.agencyUrl.clean hrow, hs.agencyTimezone.clean hrow,
    hs.agencyLang.clean hrow, hs.agencyPhone.clean hrow, hs.agencyFareUrl.clean hrow,
    hs.agencyEmail.clean hrow, fun _ hp => absurd hp List.not_mem_nil⟩

theorem plain_nil : Plain [] := fun _ hc => absurd hc List.not_mem_nil

theorem stopOf_ok (hR : R.Reread) {s : Stop D} (h : stopOf R row = .ok (.ok s))
    (hrow : CleanRow row) : s.Ok R := by
  have hs := stopOf_shows h
  refine ⟨?_, hs.locationType.isInt (by decide)⟩
  simp only [ColumnsOk, stopColumns, List.forall_mem_cons]
  exact ⟨hs.stopId.clean hrow, hs.stopCode.clean hrow, hs.stopName.clean hrow,
    hs.stopDesc.clean hrow, hR.plain _, hR.plain _, hs.zoneId.clean hrow, hs.stopUrl.clean hrow,
    plain_toStr _, hs.parentStation.clean hrow, hs.stopTimezone.clean hrow,
    hs.wheelchairBoarding.clean hrow, hs.levelId.clean hrow, hs.platformCode.clean hrow,
    fun _ hp => absurd hp List.not_mem_nil⟩

theorem routeOf_ok {r : Route} (h : RouteRead row r) (hrow : CleanRow row) : r.Ok := by
  have hs := routeOf_shows h.1
  refine ⟨?_, hs.routeType.isInt, hs.routeSortOrder.isSize, h.2⟩
  simp only [ColumnsOk, routeColumns, List.forall_mem_cons]
  exact ⟨hs.routeId.clean hrow, hs.agencyId.clean hrow, hs.routeShortName.clean hrow,
    hs.routeLongName.clean hrow, hs.routeDesc.clean hrow, plain_toStr _, hs.routeUrl.clean hrow,
    hs.routeColor.clean hrow, hs.routeTextColor.clean hrow, plain_toStr _, plain_nil, plain_nil,
    fun _ hp => absurd hp List.not_mem_nil⟩

theorem tripOf_ok {t : Trip} (h : tripOf row = .ok t) (hrow : CleanRow row) : t.Ok := by
  have hs := tripOf_shows h
  refine ⟨?_, hs.directionId.isInt (by decide), hs.wheelchairAccessible.isInt (by decide),
    hs.bikesAllowed.isInt (by decide)⟩
  simp only [ColumnsOk, tripColumns, List.forall_mem_cons]
  exact ⟨hs.routeId.clean hrow, hs.serviceId.clean hrow, hs.tripId.clean hrow,
    hs.tripHeadsign.clean hrow, hs.tripShortName.clean hrow, plain_toStr _, hs.blockId.clean hrow,
    hs.shapeId.clean hrow, plain_toStr _, plain_toStr _, fun _ hp => absurd hp List.not_mem_nil⟩

theorem checkDistTraveled_ok {d : D} :
    checkDistTraveled R d = .ok () ↔ R.lt d (R.ofInt 0) = false := by
  rw [checkDistTraveled]
  cases R.lt d (R.ofInt 0) with
  | false => exact ⟨fun _ => rfl, fun _ => rfl⟩
  | true => exact ⟨fun h => (by cases h), fun h => (by cases h)⟩

theorem stopTimeOf_ok (hR : R.Reread) {st : StopTime D} (h : stopTimeOf R row = .ok st)
    (hrow : CleanRow row) : st.Ok R := by
  have hs := stopTimeOf_shows h
  have hdist : R.lt st.shapeDistTraveled (R.ofInt 0) = false := by
    obtain ⟨tripId, -, h⟩ := bind_ok.1 h
    obtain ⟨stopId, -, h⟩ := bind_ok.1 h
    obtain ⟨sequence, -, h⟩ := bind_ok.1 h
    obtain ⟨departure, -, h⟩ := bind_ok.1 h
    obtain ⟨arrival, -, h⟩ := bind_ok.1 h
    obtain ⟨pickup, -, h⟩ := bind_ok.1 h
    obtain ⟨dropOff, -, h⟩ := bind_ok.1 h
    obtain ⟨⟨dist, distSet⟩, -, h⟩ := bind_ok.1 h
    obtain ⟨u, hcheck, h⟩ := bind_ok.1 h
    obtain ⟨timepoint, -, h⟩ := bind_ok.1 h
    cases h
    exact checkDistTraveled_ok.1 hcheck
  refine ⟨?_, hs.stopSequence.isSize, hs.arrivalTime.reparse, hs.departureTime.reparse,
    hs.pickupType.isInt (by decide), hs.dropOffType.isInt (by decide), hdist,
    hs.timepoint.isInt (by decide)⟩
  simp only [ColumnsOk, stopTimeColumns, List.forall_mem_cons]
  exact ⟨hs.tripId.clean hrow, hs.arrivalTime.clean hrow, hs.departureTime.clean hrow,
    hs.stopId.clean hrow, plain_toStr _, hs.stopHeadsign.clean hrow, plain_toStr _,
    plain_toStr _, plain_nil, plain_nil, hR.plain _, plain_toStr _,
    fun _ hp => absurd hp List.not_mem_nil⟩

theorem shapePointOf_ok (hR : R.Reread) {pt : ShapePoint D} (h : shapePointOf R row = .ok pt)
    (hrow : CleanRow row) : pt.Ok R := by
  have hs := shapePointOf_shows h
  have hchecks : checkCoordinates R pt.shapePtLat pt.shapePtLon = .ok () ∧
      R.lt pt.shapeDistTraveled (R.ofInt 0) = false := by
    obtain ⟨shapeId, -, h⟩ := bind_ok.1 h
    obtain ⟨sequence, -, h⟩ := bind_ok.1 h
    obtain ⟨lon, -, h⟩ := bind_ok.1 h
    obtain ⟨lat, -, h⟩ := bind_ok.1 h
    obtain ⟨u, hcoordinates, h⟩ := bind_ok.1 h
    obtain ⟨⟨dist, distSet⟩, -, h⟩ := bind_ok.1 h
    obtain ⟨u, hcheck, h⟩ := bind_ok.1 h
    cases h
    exact ⟨hcoordinates, checkDistTraveled_ok.1 hcheck⟩
  refine ⟨?_, hs.shapePtSequence.isSize, hchecks.1, hchecks.2⟩
  simp only [ColumnsOk, shapePointColumns, List.forall_mem_cons]
  exact ⟨hs.shapeId.clean hrow, hR.plain _, hR.plain _, plain_toStr _, hR.plain _,
    fun _ hp => absurd hp List.not_mem_nil⟩

end entities

section feeds
variable {D : Type} (R : Doubles D)

structure Feed.Ok (feed : Feed D) : Prop where
  agencies : ∀ e ∈ feed.agencies.entries, e.2.agencyId = e.1 ∧ ColumnsOk (agencyColumns e.2)
  stops : ∀ e ∈ feed.stops.entries, e.2.stopId = e.1 ∧ e.2.Ok R
  routes : ∀ e ∈ feed.routes.entries, e.2.routeId = e.1 ∧ e.2.Ok
  trips : ∀ e ∈ feed.trips.entries, e.2.tripId = e.1 ∧ e.2.Ok
  stopTimes : ∀ st ∈ feed.stopTimes, st.Ok R
  shapes : ∀ e ∈ feed.shapes.entries, e.2.Ok R e.1

theorem map_entries_ok {A : Type} {Q : Record → A → Prop} {P : A → Prop} {key : A → Text}
    {files : Files} {filename : String} {enabled : Bool} {m : SortedMap Text A}
    {rowsRead : SortedMap Text A → SortedMap Text A → Prop}
    (h : Loaded enabled rowsRead .empty m)
    (hrows : ∀ {m m'}, rowsRead m m' →
      RowsRead Q (fun m e => m.insert (key e) e) files filename m m')
    (hQ : ∀ {row e}, Q row e → CleanRow row → P e) : ∀ e ∈ m.entries, key e.2 = e.1 ∧ P e.2 := by
  intro e he
  rw [Loaded] at h
  split_ifs at h
  · obtain ⟨es, hes, rfl⟩ := hrows h
    rw [foldl_insert_eq] at he
    obtain ⟨a, ha, rfl⟩ :=
      List.mem_map.1 ((SortedMap.mem_insertAll _ he).resolve_left List.not_mem_nil)
    obtain ⟨row, hrow, hq⟩ := forall₂_mem_right hes ha
    exact ⟨rfl, hQ hq (cleanRow_of_mem hrow)⟩
  · rw [h] at he
    exact absurd he List.not_mem_nil

theorem shape_addPoint {P : ShapePoint D → Prop} {m : SortedMap Text (Shape D)}
    {pt : ShapePoint D} (hpt : P pt)
    (h : ∀ e ∈ m.entries, e.2.shapeId = e.1 ∧ e.2.points ≠ [] ∧
      ∀ pt ∈ e.2.points, pt.shapeId = e.1 ∧ P pt) :
    ∀ e ∈ (addPoint m pt).entries, e.2.shapeId = e.1 ∧ e.2.points ≠ [] ∧
      ∀ pt ∈ e.2.points, pt.shapeId = e.1 ∧ P pt := by
  rintro ⟨k, shape⟩ he
  rw [← SortedMap.find?_eq_some_iff, addPoint, SortedMap.find?_alter] at he
  split_ifs at he with hk
  · cases hk
    cases he
    dsimp only
    cases hfind : m.find? pt.shapeId with
    | none =>
      refine ⟨rfl, List.cons_ne_nil _ _, fun q hq => ?_⟩
      rw [List.mem_singleton.1 hq]
      exact ⟨rfl, hpt⟩
    | some old =>
      obtain ⟨hid, hne, hpoints⟩ := h _ ((SortedMap.find?_eq_some_iff m _ old).1 hfind)
      refine ⟨?_, List.append_ne_nil_of_right_ne_nil _ (List.cons_ne_nil _ _), fun q hq => ?_⟩
      · change (if old.points = [] then _ else old.shapeId) = _
        rw [if_neg hne]
        exact hid
      · change q ∈ old.points ++ [pt] at hq
        cases List.mem_append.1 hq with
        | inl hold => exact hpoints q hold
        | inr hnew =>
          rw [List.mem_singleton.1 hnew]
          exact ⟨rfl, hpt⟩
  · exact h _ ((SortedMap.find?_eq_some_iff m k shape).1 he)

theorem shapes_foldl_addPoint {P : ShapePoint D → Prop} {es : List (ShapePoint D)}
    {m : SortedMap Text (Shape D)} (hes : ∀ pt ∈ es, P pt)
    (h : ∀ e ∈ m.entries, e.2.shapeId = e.1 ∧ e.2.points ≠ [] ∧
      ∀ pt ∈ e.2.points, pt.shapeId = e.1 ∧ P pt) :
    ∀ e ∈ (es.foldl addPoint m).entries, e.2.shapeId = e.1 ∧ e.2.points ≠ [] ∧
      ∀ pt ∈ e.2.points, pt.shapeId = e.1 ∧ P pt := by
  induction es generalizing m with
  | nil => exact h
  | cons pt es ih =>
    exact ih (fun q hq => hes q (List.mem_cons_of_mem _ hq))
      (shape_addPoint (hes pt List.mem_cons_self) h)

variable {R}

theorem read_feedOk (hR : R.Reread) {files : Files} {config : ReadConfig} {feed : Feed D}
    {res : Result} (h : read R files config Feed.empty = some (res, feed)) (hok : res.code = .ok) :
    feed.Ok R := by
  have hfeed := read_ok R files h hok
  refine ⟨?_, ?_, ?_, ?_, ?_, ?_⟩
  · exact map_entries_ok hfeed.agencies And.right agencyOf_ok
  · exact map_entries_ok hfeed.stops And.right (stopOf_ok hR)
  · exact map_entries_ok hfeed.routes And.right routeOf_ok
  · exact map_entries_ok hfeed.trips And.right tripOf_ok
  · intro st hst
    have htimes := hfeed.stopTimes
    rw [Loaded] at htimes
    split_ifs at htimes
    · obtain ⟨-, es, hes, hl⟩ := htimes
      rw [hl, foldl_append_eq, Feed.empty, List.nil_append] at hst
      obtain ⟨row, hrow, hq⟩ := forall₂_mem_right hes hst
      exact stopTimeOf_ok hR hq (cleanRow_of_mem hrow)
    · rw [htimes] at hst
      exact absurd hst List.not_mem_nil
  · intro e he
    have hshapes := hfeed.shapes
    rw [Loaded] at hshapes
    split_ifs at hshapes
    · obtain ⟨es, hes, hm⟩ := hshapes
      rw [hm] at he
      have hpoints : ∀ pt ∈ es, pt.Ok R := by
        intro pt hpt
        obtain ⟨row, hrow, hq⟩ := forall₂_mem_right hes hpt
        exact shapePointOf_ok hR hq (cleanRow_of_mem hrow)
      obtain ⟨hid, hne, hall⟩ := shapes_foldl_addPoint hpoints
        (fun e he => absurd he List.not_mem_nil) e he
      exact ⟨hid, hne, hall⟩
    · rw [hshapes] at he
      exact absurd he List.not_mem_nil

end feeds

end Pfaedle.Gtfs

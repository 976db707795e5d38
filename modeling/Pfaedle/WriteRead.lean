import Pfaedle.RereadRows

set_option autoImplicit false

/-!
# Writing a feed and reading it back
-/
namespace Pfaedle.Gtfs

section tables
variable {V : Type} {files : Files} {filename : String}

theorem RowCodec.decoded_map (C : RowCodec V) {vs es : List V}
    (h : List.Forall₂ C.decoded (vs.map fun v => rowRecord (C.columns v)) es) :
    ∃ g : V → V, es = vs.map g ∧ ∀ v ∈ vs, C.decoded (rowRecord (C.columns v)) (g v) := by
  classical
  rw [List.forall₂_map_left_iff] at h
  refine ⟨fun v => if hv : ∃ v', C.decoded (rowRecord (C.columns v)) v' then hv.choose else v,
    ?_, ?_⟩
  · rw [← List.forall₂_eq_eq_eq, List.forall₂_map_right_iff]
    refine h.flip.imp fun v' v hv => ?_
    rw [dif_pos ⟨v', hv⟩]
    exact C.functional hv (Exists.choose_spec ⟨v', hv⟩)
  · intro v hv
    obtain ⟨v', -, hv'⟩ := forall₂_mem_left h hv
    dsimp only
    rw [dif_pos ⟨v', hv'⟩]
    exact Exists.choose_spec ⟨v', hv'⟩

theorem RowCodec.dataRows (C : RowCodec V) {vs : List V} (hok : ∀ v ∈ vs, C.Ok v)
    (hfile : files filename = some (C.text vs)) :
    dataRows files filename = vs.map fun v => rowRecord (C.columns v) := by
  rw [(C.tableRows hok).dataRows hfile, List.map_map]
  rfl

theorem KeyCodec.similar_iff (C : KeyCodec V) {m m' : SortedMap Text V}
    (hok : ∀ e ∈ m.entries, C.key e.2 = e.1 ∧ C.Ok e.2)
    (hfile : files filename = some (C.text m.values))
    (h : RowsRead C.decoded (fun m e => m.insert (C.key e) e) files filename .empty m') :
    m.Similar C.same m' ↔ ∀ v ∈ m.values, C.Kept v := by
  have hvalues : ∀ v ∈ m.values, C.Ok v := List.forall_mem_map.2 fun e he => (hok e he).2
  obtain ⟨es, hes, hm⟩ := h
  rw [C.dataRows hvalues hfile] at hes
  obtain ⟨g, rfl, hg⟩ := C.decoded_map hes
  have hge : ∀ e ∈ m.entries, C.decoded (rowRecord (C.columns e.2)) (g e.2) :=
    List.forall_mem_map.1 hg
  have hrebuilt : m' =
      SortedMap.empty.insertAll (m.entries.map fun e => (C.key (g e.2), g e.2)) := by
    rw [hm, foldl_insert_eq, SortedMap.values, List.map_map, List.map_map]
    rfl
  have hkey : ∀ e ∈ m.entries, C.key (g e.2) = wrapRead e.1 := fun e he => by
    rw [C.key_read (hok e he).2 (hge e he), (hok e he).1]
  rw [hrebuilt, SortedMap.rebuild_similar_iff wrapRead_idem (fun e he => (hok e he).1) hkey
    fun _ _ => C.same_key, SortedMap.values, List.forall_mem_map]
  exact forall₂_congr fun e he => C.same_iff (hok e he).2 (hge e he)

theorem RowCodec.forall₂_iff (C : RowCodec V) {l l' : List V} (hok : ∀ v ∈ l, C.Ok v)
    (hfile : files filename = some (C.text l))
    (h : RowsRead C.decoded (fun l e => l ++ [e]) files filename [] l') :
    List.Forall₂ C.same l l' ↔ ∀ v ∈ l, C.Kept v := by
  obtain ⟨es, hes, hl⟩ := h
  rw [C.dataRows hok hfile] at hes
  obtain ⟨g, rfl, hg⟩ := C.decoded_map hes
  rw [hl, foldl_append_eq, List.nil_append, List.forall₂_map_right_iff, List.forall₂_same]
  exact forall₂_congr fun v hv => C.same_iff (hok v hv) (hg v hv)

theorem RowCodec.parseCsv (C : RowCodec V) {F : Type} (add : F → V → F) {vs : List V}
    (hok : ∀ v ∈ vs, C.Ok v) (hkept : ∀ v ∈ vs, C.Kept v)
    (hfile : files filename = some (C.text vs)) {addEntity : Record → F → Option (Result × F)}
    (hadd : ∀ {row v}, C.decoded row v → ∀ f, addEntity row f = some (.ok, add f v)) (f : F) :
    ∃ res f', parseCsv files filename addEntity f = some (res, f') ∧ res.code = .ok := by
  have hdecoded : ∃ es, List.Forall₂ (fun row e => ∀ f, addEntity (rowRecord row) f =
      some (.ok, add f e)) (vs.map C.columns) es := by
    clear hfile
    induction vs with
    | nil => exact ⟨[], List.Forall₂.nil⟩
    | cons v vs ih =>
      obtain ⟨v', hv', -⟩ :=
        C.decoded_of_kept (hok v List.mem_cons_self) (hkept v List.mem_cons_self)
      obtain ⟨es, hes⟩ := ih (fun w hw => hok w (List.mem_cons_of_mem _ hw))
        fun w hw => hkept w (List.mem_cons_of_mem _ hw)
      exact ⟨v' :: es, List.Forall₂.cons (hadd hv') hes⟩
  obtain ⟨es, hes⟩ := hdecoded
  obtain ⟨res, hres, hcode⟩ := (C.tableRows hok).parseCsv hfile hes f
  exact ⟨res, _, hres, hcode⟩

end tables

section shapes
variable {D : Type} {R : Doubles D}

/-- The points of one shape go to the end of the map, if its id comes last. -/
theorem foldl_addPoint_last {k : Text} {pts : List (ShapePoint D)} {s : Shape D}
    {l : List (Text × Shape D)} {m : SortedMap Text (Shape D)} (hm : m.entries = l ++ [(k, s)])
    (hl : ∀ e ∈ l, e.1 < k) (hk : s.shapeId = k) (hne : s.points ≠ [])
    (hpts : ∀ pt ∈ pts, pt.shapeId = k) :
    (pts.foldl addPoint m).entries = l ++ [(k, ⟨k, s.points ++ pts⟩)] := by
  induction pts generalizing m s with
  | nil =>
    cases hk
    rw [List.append_nil]
    exact hm
  | cons pt pts ih =>
    have hpt := hpts pt List.mem_cons_self
    have hadd : (addPoint m pt).entries = l ++ [(k, ⟨k, s.points ++ [pt]⟩)] := by
      change SortedMap.alterEntries pt.shapeId (pushPoint pt) m.entries = _
      rw [hm, hpt, SortedMap.alterEntries_at hl, pushPoint]
      dsimp only [Option.getD_some]
      rw [if_neg hne, hk]
    rw [List.foldl_cons, ih hadd rfl (List.append_ne_nil_of_left_ne_nil hne _)
      fun q hq => hpts q (List.mem_cons_of_mem _ hq), List.append_assoc]
    rfl

theorem foldl_addPoint_groups {groups : List (Text × Shape D)} {m : SortedMap Text (Shape D)}
    (hsorted : groups.Pairwise fun a b => a.1 < b.1)
    (hafter : ∀ e ∈ m.entries, ∀ e' ∈ groups, e.1 < e'.1)
    (hgroups : ∀ e ∈ groups, e.2.shapeId = e.1 ∧ e.2.points ≠ [] ∧
      ∀ pt ∈ e.2.points, pt.shapeId = e.1) :
    ((groups.flatMap fun e => e.2.points).foldl addPoint m).entries = m.entries ++ groups := by
  induction groups generalizing m with
  | nil => exact (List.append_nil _).symm
  | cons e groups ih =>
    obtain ⟨k, id, points⟩ := e
    obtain ⟨hhead, htail⟩ := List.pairwise_cons.1 hsorted
    obtain ⟨hid, hne, hpoints⟩ := hgroups _ List.mem_cons_self
    dsimp only at hid hne hpoints
    have hlast : ∀ e ∈ m.entries, e.1 < k := fun e he => hafter e he _ List.mem_cons_self
    have hpart : (points.foldl addPoint m).entries = m.entries ++ [(k, ⟨id, points⟩)] := by
      cases points with
      | nil => exact absurd rfl hne
      | cons pt points =>
        have hpt := hpoints pt List.mem_cons_self
        have hfirst : (addPoint m pt).entries = m.entries ++ [(k, ⟨k, [pt]⟩)] := by
          change SortedMap.alterEntries pt.shapeId (pushPoint pt) m.entries = _
          rw [hpt, SortedMap.alterEntries_last hlast, pushPoint]
          dsimp only [Option.getD_none]
          rw [if_pos rfl, hpt]
          rfl
        rw [List.foldl_cons, foldl_addPoint_last hfirst hlast rfl (List.cons_ne_nil _ _)
          fun q hq => hpoints q (List.mem_cons_of_mem _ hq), hid]
        rfl
    rw [List.flatMap_cons, List.foldl_append, ih htail ?_ fun e he =>
      hgroups e (List.mem_cons_of_mem _ he), hpart, List.append_assoc]
    · rfl
    · intro e he e' he'
      rw [hpart, List.mem_append, List.mem_singleton] at he
      rcases he with he | rfl
      · exact hafter e he e' (List.mem_cons_of_mem _ he')
      · exact hhead e' he'

theorem mem_keys_foldl_addPoint {es : List (ShapePoint D)} {m : SortedMap Text (Shape D)}
    {k : Text} (h : k ∈ (es.foldl addPoint m).keys) : k ∈ m.keys ∨ ∃ pt ∈ es, pt.shapeId = k := by
  induction es generalizing m with
  | nil => exact Or.inl h
  | cons pt es ih =>
    cases ih h with
    | inl hm =>
      cases SortedMap.mem_keys_alter.1 hm with
      | inl heq => exact Or.inr ⟨pt, List.mem_cons_self, heq.symm⟩
      | inr hold => exact Or.inl hold
    | inr hes =>
      obtain ⟨q, hq, hk⟩ := hes
      exact Or.inr ⟨q, List.mem_cons_of_mem _ hq, hk⟩

theorem shapePoint_kept_iff {pt : ShapePoint D} :
    ColumnsKept (shapePointColumns R pt) ↔ SpacesKept pt.shapeId :=
  ⟨fun h => h.1, fun h => ⟨h, trivial, trivial, trivial, trivial⟩⟩

variable {files : Files} {filename : String}

theorem shapes_similar_iff (hR : R.Reread) {m m' : SortedMap Text (Shape D)}
    (hok : ∀ e ∈ m.entries, e.2.Ok R e.1)
    (hfile : files filename = some ((shapePointCodec hR).text (m.values.flatMap Shape.points)))
    (h : RowsRead (fun row pt => shapePointOf R row = .ok pt) addPoint files filename .empty m') :
    m.Similar (Shape.Same R) m' ↔
      ∀ s ∈ m.values, ∀ pt ∈ s.points, ColumnsKept (shapePointColumns R pt) := by
  have hpts : ∀ pt ∈ m.values.flatMap Shape.points, pt.Ok R := by
    intro pt hpt
    obtain ⟨s, hs, hmem⟩ := List.mem_flatMap.1 hpt
    obtain ⟨e, he, rfl⟩ := List.mem_map.1 hs
    exact ((hok e he).points pt hmem).2
  obtain ⟨es, hes, hm⟩ := h
  rw [RowCodec.dataRows (shapePointCodec hR).toRowCodec hpts hfile] at hes
  obtain ⟨g, rfl, hg⟩ := (shapePointCodec hR).decoded_map hes
  rw [SortedMap.values, List.forall_mem_map]
  constructor
  · intro hsim e he pt hpt
    have hmem : e.1 ∈ m.keys := List.mem_map_of_mem he
    rw [hsim.keys_eq, hm] at hmem
    obtain ⟨q, hq, hk⟩ := (mem_keys_foldl_addPoint hmem).resolve_left List.not_mem_nil
    obtain ⟨pt', hpt', rfl⟩ := List.mem_map.1 hq
    rw [shapePoint_kept_iff, ((hok e he).points pt hpt).1, ← wrapRead_eq_iff, ← hk,
      shapePointOf_key (hpts pt' hpt') (hg pt' hpt'), wrapRead_idem]
  · intro hkept
    have hsame : ∀ e ∈ m.entries, ∀ pt ∈ e.2.points, pt.Same R (g pt) := fun e he pt hpt =>
      ((shapePointCodec hR).same_iff ((hok e he).points pt hpt).2
        (hg pt (List.mem_flatMap.2 ⟨_, List.mem_map_of_mem he, hpt⟩))).2 (hkept e he pt hpt)
    let groups := m.entries.map fun e => (e.1, (⟨e.1, e.2.points.map g⟩ : Shape D))
    have hpoints : (m.values.flatMap Shape.points).map g = groups.flatMap fun e => e.2.points := by
      rw [List.map_flatMap, SortedMap.values, List.flatMap_map, List.flatMap_map]
    have hentries : m'.entries = groups := by
      rw [hm, hpoints, foldl_addPoint_groups]
      · rfl
      · exact List.pairwise_map.2 m.sorted
      · exact fun e he => absurd he List.not_mem_nil
      · refine List.forall_mem_map.2 fun e he => ⟨rfl, ?_, List.forall_mem_map.2 fun pt hpt => ?_⟩
        · exact fun hnil => (hok e he).ne_nil (List.map_eq_nil_iff.1 hnil)
        · rw [(hsame e he pt hpt).shapeId]
          exact ((hok e he).points pt hpt).1
    rw [SortedMap.Similar, hentries, List.forall₂_map_right_iff, List.forall₂_same]
    refine fun e he => ⟨rfl, (hok e he).shapeId.symm, ?_⟩
    rw [List.forall₂_map_right_iff, List.forall₂_same]
    exact hsame e he

end shapes

section files
variable {D : Type} (R : Doubles D)

structure HasBodies (config : WriteConfig) : Prop where
  calendar : config.calendar = false
  calendarDates : config.calendarDates = false
  transfers : config.transfers = false
  frequencies : config.frequencies = false
  fareAttributes : config.fareAttributes = false
  fareRules : config.fareRules = false
  feedInfo : config.feedInfo = false

def Directory.fresh (path : Text) : Directory := ⟨path, true, fun _ => none⟩

def wrote (enabled : Bool) (file : String) (header : List String) (rows : List (List Text))
    (files : Files) : Files :=
  if enabled then Function.update files file
    (some (writeJoined (header.map String.toList) ++ rows.flatMap writeJoined))
  else files

def writtenFiles (config : WriteConfig) (feed : Feed D) : Files :=
  wrote config.shapes "shapes.txt" shapesHeader
    (feed.shapes.values.flatMap fun shape => shape.points.map (shapePointFields R)) <|
  wrote config.stopTimes "stop_times.txt" stopTimesHeader
    (feed.stopTimes.map (stopTimeFields R)) <|
  wrote config.trips "trips.txt" tripsHeader (feed.trips.values.map tripFields) <|
  wrote config.routes "routes.txt" routesHeader (feed.routes.values.map routeFields) <|
  wrote config.stops "stops.txt" stopsHeader (feed.stops.values.map (stopFields R)) <|
  wrote config.agencies "agency.txt" agencyHeader (feed.agencies.values.map agencyFields)
    fun _ => none

variable {R} {enabled : Bool} {file : String} {header : List String} {rows : List (List Text)}
variable {rest : Directory → Result × Directory} {path : Text} {files : Files}

theorem wrote_apply (name : String) : wrote enabled file header rows files name =
    if enabled = true ∧ name = file then
      some (writeJoined (header.map String.toList) ++ rows.flatMap writeJoined)
    else files name := by
  cases enabled with
  | false => rfl
  | true => simp [wrote, Function.update_apply]

theorem writeTable_csv : writeTable enabled (writeCsv file header rows) rest ⟨path, true, files⟩ =
    rest ⟨path, true, wrote enabled file header rows files⟩ := by
  cases enabled <;> rfl

theorem writeTable_nothing {unreturned : String → Result} {out : Directory}
    (hun : (unreturned file).code ≠ .ok)
    (h : (writeTable enabled (writeNothing unreturned file) rest out).1.code = .ok) :
    enabled = false := by
  cases enabled with
  | false => rfl
  | true =>
    rw [writeTable, if_pos rfl, writeNothing] at h
    dsimp only at h
    rw [if_pos hun] at h
    exact absurd h hun

theorem writeTable_disabled {table : Directory → Result × Directory} {out : Directory}
    (h : enabled = false) : writeTable enabled table rest out = rest out := by
  rw [h]
  rfl

theorem write_eq {config : WriteConfig} {unreturned : String → Result} {feed : Feed D}
    (h : HasBodies config) : write R unreturned config feed (.fresh path) =
      (.ok, ⟨path, true, writtenFiles R config feed⟩) := by
  rw [write, Directory.fresh, writeAgencies, writeTable_csv, writeStops, writeTable_csv,
    writeRoutes, writeTable_csv, writeTrips, writeTable_csv, writeStopTimes, writeTable_csv,
    writeTable_disabled h.calendar, writeTable_disabled h.calendarDates, writeShapes,
    writeTable_csv, writeTable_disabled h.transfers, writeTable_disabled h.frequencies,
    writeTable_disabled h.fareAttributes, writeTable_disabled h.fareRules,
    writeTable_disabled h.feedInfo]
  rfl

/-- If the writers without a body return an error, none of them may be called. -/
theorem hasBodies_of_write {config : WriteConfig} {unreturned : String → Result} {feed : Feed D}
    (hun : ∀ file, (unreturned file).code ≠ .ok)
    (h : (write R unreturned config feed (.fresh path)).1.code = .ok) : HasBodies config := by
  rw [write, Directory.fresh, writeAgencies, writeTable_csv, writeStops, writeTable_csv,
    writeRoutes, writeTable_csv, writeTrips, writeTable_csv, writeStopTimes, writeTable_csv] at h
  have hcalendar := writeTable_nothing (hun _) h
  rw [writeTable_disabled hcalendar] at h
  have hdates := writeTable_nothing (hun _) h
  rw [writeTable_disabled hdates, writeShapes, writeTable_csv] at h
  have htransfers := writeTable_nothing (hun _) h
  rw [writeTable_disabled htransfers] at h
  have hfrequencies := writeTable_nothing (hun _) h
  rw [writeTable_disabled hfrequencies] at h
  have hattributes := writeTable_nothing (hun _) h
  rw [writeTable_disabled hattributes] at h
  have hrules := writeTable_nothing (hun _) h
  rw [writeTable_disabled hrules] at h
  exact ⟨hcalendar, hdates, htransfers, hfrequencies, hattributes, hrules,
    writeTable_nothing (hun _) h⟩

end files

section lookups
variable {D : Type} {R : Doubles D} {config : WriteConfig} {feed : Feed D}

theorem writtenFiles_agencies (h : config.agencies = true) :
    writtenFiles R config feed "agency.txt" = some (agencyCodec.text feed.agencies.values) := by
  rw [RowCodec.text_eq]
  simp [writtenFiles, wrote_apply, h]
  rfl

theorem writtenFiles_stops (hR : R.Reread) (h : config.stops = true) :
    writtenFiles R config feed "stops.txt" = some ((stopCodec hR).text feed.stops.values) := by
  rw [RowCodec.text_eq]
  simp [writtenFiles, wrote_apply, h]
  rfl

theorem writtenFiles_routes (h : config.routes = true) :
    writtenFiles R config feed "routes.txt" = some (routeCodec.text feed.routes.values) := by
  rw [RowCodec.text_eq]
  simp [writtenFiles, wrote_apply, h]
  rfl

theorem writtenFiles_trips (h : config.trips = true) :
    writtenFiles R config feed "trips.txt" = some (tripCodec.text feed.trips.values) := by
  rw [RowCodec.text_eq]
  simp [writtenFiles, wrote_apply, h]
  rfl

theorem writtenFiles_stopTimes (hR : R.Reread) (h : config.stopTimes = true) :
    writtenFiles R config feed "stop_times.txt" =
      some ((stopTimeCodec hR).text feed.stopTimes) := by
  rw [RowCodec.text_eq]
  simp [writtenFiles, wrote_apply, h]
  rfl

theorem writtenFiles_shapes (hR : R.Reread) (h : config.shapes = true) :
    writtenFiles R config feed "shapes.txt" =
      some ((shapePointCodec hR).text (feed.shapes.values.flatMap Shape.points)) := by
  rw [RowCodec.text_eq, List.map_flatMap]
  simp [writtenFiles, wrote_apply, h]
  rfl

end lookups

section reading
variable {F G : Type}

def Succeeds (table : F → Option (Result × F)) : Prop :=
  ∀ f, ∃ res f', table f = some (res, f') ∧ res.code = .ok

theorem Succeeds.inFeed {table : G → Option (Result × G)} (h : Succeeds table) (get : F → G)
    (put : F → G → F) : Succeeds (inFeed get put table) := by
  intro f
  obtain ⟨res, g, htable, hcode⟩ := h (get f)
  exact ⟨res, put f g, by rw [Gtfs.inFeed, htable]; rfl, hcode⟩

theorem Succeeds.readTable {enabled : Bool} {isError : Result → Bool}
    {table rest : F → Option (Result × F)} (herror : ∀ r : Result, r.code = .ok → isError r = false)
    (htable : enabled = true → Succeeds table) (hrest : Succeeds rest) :
    Succeeds (readTable enabled isError table rest) := by
  intro f
  rw [Gtfs.readTable]
  cases enabled with
  | false => exact hrest f
  | true =>
    obtain ⟨res, g, hg, hcode⟩ := htable rfl f
    rw [if_pos rfl, hg]
    dsimp only
    rw [herror res hcode]
    exact hrest g

theorem errorParsingFile_ok (r : Result) (h : r.code = .ok) : errorParsingFile r = false :=
  decide_eq_false (not_not.2 h)

theorem errorParsingOptionalFile_ok (r : Result) (h : r.code = .ok) :
    errorParsingOptionalFile r = false := decide_eq_false fun hh => hh.1 h

theorem handler_adds {A : Type} {entityOf : Record → Except StdException A} {add : F → A → F}
    {row : Record} {a : A} (h : entityOf row = .ok a) (f : F) :
    handler entityOf add row f = some (.ok, add f a) := by
  rw [handler, h]

end reading

section roundTrips
variable {D : Type} (R : Doubles D)

/-- The tables that `config` enables are the same. -/
structure SameFeed (config : ReadConfig) (feed feed' : Feed D) : Prop where
  agencies : config.agencies = true → feed.agencies = feed'.agencies
  stops : config.stops = true → feed.stops.Similar (Stop.Same R) feed'.stops
  routes : config.routes = true → feed.routes = feed'.routes
  trips : config.trips = true → feed.trips = feed'.trips
  stopTimes : config.stopTimes = true →
    List.Forall₂ (StopTime.Same R) feed.stopTimes feed'.stopTimes
  calendar : config.calendar = true → feed.calendar = feed'.calendar
  calendarDates : config.calendarDates = true → feed.calendarDates = feed'.calendarDates
  shapes : config.shapes = true → feed.shapes.Similar (Shape.Same R) feed'.shapes
  transfers : config.transfers = true → feed.transfers = feed'.transfers
  frequencies : config.frequencies = true → feed.frequencies = feed'.frequencies
  fareAttributes : config.fareAttributes = true →
    feed.fareAttributes.Similar (FareAttributesItem.Same R) feed'.fareAttributes
  fareRules : config.fareRules = true → feed.fareRules = feed'.fareRules
  feedInfo : config.feedInfo = true → feed.feedInfo = feed'.feedInfo

/-- Writing succeeds, whatever the writers without a body return, and the written tables are read
back as they were. -/
def RoundTrips (config : WriteConfig) (feed : Feed D) : Prop :=
  ∀ unreturned path,
    let (res, out) := write R unreturned config feed (.fresh path)
    res.code = .ok ∧ ∃ res feed', read R out.files config Feed.empty = some (res, feed') ∧
      res.code = .ok ∧ SameFeed R config feed feed'

/-- Only tables whose writers have a body are enabled, and each of their rows is read as it was
written. -/
structure WrittenKept (config : WriteConfig) (feed : Feed D) : Prop where
  bodies : HasBodies config
  agencies : config.agencies = true → ∀ a ∈ feed.agencies.values, ColumnsKept (agencyColumns a)
  stops : config.stops = true → ∀ s ∈ feed.stops.values,
    ColumnsKept (stopColumns R s) ∧ s.coordinatesPresent = true
  routes : config.routes = true → ∀ r ∈ feed.routes.values, ColumnsKept (routeColumns r)
  trips : config.trips = true → ∀ t ∈ feed.trips.values, ColumnsKept (tripColumns t)
  stopTimes : config.stopTimes = true →
    ∀ st ∈ feed.stopTimes, ColumnsKept (stopTimeColumns R st)
  shapes : config.shapes = true → ∀ s ∈ feed.shapes.values, ∀ pt ∈ s.points,
    ColumnsKept (shapePointColumns R pt)

variable {R} {config : WriteConfig} {feed feed' : Feed D}

theorem Feed.Ok.points (h : feed.Ok R) : ∀ pt ∈ feed.shapes.values.flatMap Shape.points, pt.Ok R := by
  intro pt hpt
  obtain ⟨s, hs, hmem⟩ := List.mem_flatMap.1 hpt
  obtain ⟨e, he, rfl⟩ := List.mem_map.1 hs
  exact ((h.shapes e he).points pt hmem).2

theorem keyed_ok {V : Type} {C : KeyCodec V} {m : SortedMap Text V}
    (h : ∀ e ∈ m.entries, C.key e.2 = e.1 ∧ C.Ok e.2) : ∀ v ∈ m.values, C.Ok v :=
  List.forall_mem_map.2 fun e he => (h e he).2

theorem disabled {enabled : Bool} {p : Prop} (h : enabled = false) (henabled : enabled = true) :
    p := by
  rw [h] at henabled
  cases henabled

/-- If all rows are kept, the written files are read to their ends. -/
theorem read_writtenFiles (hR : R.Reread) (hfeed : feed.Ok R) (h : WrittenKept R config feed) :
    Succeeds (read R (writtenFiles R config feed) config) := by
  refine .readTable errorParsingFile_ok (fun he => .inFeed (fun f => ?_) _ _) <|
    .readTable errorParsingFile_ok (fun he => .inFeed (fun f => ?_) _ _) <|
    .readTable errorParsingFile_ok (fun he => .inFeed (fun f => ?_) _ _) <|
    .readTable errorParsingFile_ok (fun he => .inFeed (fun f => ?_) _ _) <|
    .readTable errorParsingFile_ok (fun he => .inFeed (fun f => ?_) _ _) <|
    .readTable errorParsingOptionalFile_ok (disabled h.bodies.calendar) <|
    .readTable errorParsingOptionalFile_ok (disabled h.bodies.calendarDates) <|
    .readTable errorParsingOptionalFile_ok (fun he => .inFeed (fun f => ?_) _ _) <|
    .readTable errorParsingOptionalFile_ok (disabled h.bodies.transfers) <|
    .readTable errorParsingOptionalFile_ok (disabled h.bodies.frequencies) <|
    .readTable errorParsingOptionalFile_ok (disabled h.bodies.fareAttributes) <|
    .readTable errorParsingOptionalFile_ok (disabled h.bodies.fareRules) <|
    .readTable errorParsingOptionalFile_ok (disabled h.bodies.feedInfo) fun f => ⟨_, f, rfl, rfl⟩
  · exact agencyCodec.parseCsv _ (keyed_ok hfeed.agencies) (h.agencies he)
      (writtenFiles_agencies he) (fun ha => handler_adds ha) f
  · refine (stopCodec hR).parseCsv (fun m s => m.insert s.stopId s) (keyed_ok hfeed.stops)
      (h.stops he) (writtenFiles_stops hR he) (fun {row s} hs f => ?_) f
    have hrow : stopOf R row = .ok (.ok s) := hs
    rw [hrow]
  · refine routeCodec.parseCsv (fun m r => m.insert r.routeId r) (keyed_ok hfeed.routes)
      (h.routes he) (writtenFiles_routes he) (fun {row r} hr f => ?_) f
    have hrow : routeOf row = .ok r := hr.1
    rw [hrow]
    exact if_neg hr.2
  · exact tripCodec.parseCsv _ (keyed_ok hfeed.trips) (h.trips he)
      (writtenFiles_trips he) (fun ht => handler_adds ht) f
  · exact (stopTimeCodec hR).parseCsv _ hfeed.stopTimes (h.stopTimes he)
      (writtenFiles_stopTimes hR he) (fun hst => handler_adds hst) f
  · refine (shapePointCodec hR).parseCsv addPoint hfeed.points (fun pt hpt => ?_)
      (writtenFiles_shapes hR he) (fun hpt => handler_adds hpt) f
    obtain ⟨s, hs, hmem⟩ := List.mem_flatMap.1 hpt
    exact h.shapes he s hs pt hmem

theorem sameFeed_iff (hR : R.Reread) (hfeed : feed.Ok R) (hbodies : HasBodies config)
    (hread : FeedRead R (writtenFiles R config feed) config Feed.empty feed') :
    SameFeed R config feed feed' ↔ WrittenKept R config feed := by
  have hagencies := fun he => SortedMap.similar_eq_iff.symm.trans
    (agencyCodec.similar_iff hfeed.agencies (writtenFiles_agencies he)
      (hread.agencies.of_enabled he).2)
  have hstops := fun he => (stopCodec hR).similar_iff hfeed.stops (writtenFiles_stops hR he)
    (hread.stops.of_enabled he).2
  have hroutes := fun he => SortedMap.similar_eq_iff.symm.trans
    (routeCodec.similar_iff hfeed.routes (writtenFiles_routes he) (hread.routes.of_enabled he).2)
  have htrips := fun he => SortedMap.similar_eq_iff.symm.trans
    (tripCodec.similar_iff hfeed.trips (writtenFiles_trips he) (hread.trips.of_enabled he).2)
  have htimes := fun he => (stopTimeCodec hR).forall₂_iff hfeed.stopTimes
    (writtenFiles_stopTimes hR he) (hread.stopTimes.of_enabled he).2
  have hshapes := fun he => shapes_similar_iff hR hfeed.shapes (writtenFiles_shapes hR he)
    (hread.shapes.of_enabled he)
  constructor
  · intro h
    exact
      { bodies := hbodies
        agencies := fun he => (hagencies he).1 (h.agencies he)
        stops := fun he => (hstops he).1 (h.stops he)
        routes := fun he => (hroutes he).1 (h.routes he)
        trips := fun he => (htrips he).1 (h.trips he)
        stopTimes := fun he => (htimes he).1 (h.stopTimes he)
        shapes := fun he => (hshapes he).1 (h.shapes he) }
  · intro h
    exact
      { agencies := fun he => (hagencies he).2 (h.agencies he)
        stops := fun he => (hstops he).2 (h.stops he)
        routes := fun he => (hroutes he).2 (h.routes he)
        trips := fun he => (htrips he).2 (h.trips he)
        stopTimes := fun he => (htimes he).2 (h.stopTimes he)
        calendar := disabled hbodies.calendar
        calendarDates := disabled hbodies.calendarDates
        shapes := fun he => (hshapes he).2 (h.shapes he)
        transfers := disabled hbodies.transfers
        frequencies := disabled hbodies.frequencies
        fareAttributes := disabled hbodies.fareAttributes
        fareRules := disabled hbodies.fareRules
        feedInfo := disabled hbodies.feedInfo }

theorem roundTrips_of_ok (hR : R.Reread) (hfeed : feed.Ok R) (config : WriteConfig) :
    RoundTrips R config feed ↔ WrittenKept R config feed := by
  constructor
  · intro h
    have hbodies : HasBodies config := by
      have hwrite := h (fun _ => ⟨.errorFileAbsent, []⟩) []
      exact hasBodies_of_write (fun _ => ResultCode.noConfusion) hwrite.1
    have hwrite := h (fun _ => .ok) []
    rw [write_eq hbodies] at hwrite
    obtain ⟨-, res, feed', hread, hok, hsame⟩ := hwrite
    exact (sameFeed_iff hR hfeed hbodies (read_ok R _ hread hok)).1 hsame
  · intro h unreturned path
    rw [write_eq h.bodies]
    obtain ⟨res, feed', hread, hok⟩ := read_writtenFiles hR hfeed h Feed.empty
    exact ⟨rfl, res, feed', hread, hok,
      (sameFeed_iff hR hfeed h.bodies (read_ok R _ hread hok)).2 h⟩

/-- Writing a feed and reading it back, for every feed that was read. -/
theorem read_roundTrips_iff (hR : R.Reread) {files : Files} {readConfig : ReadConfig}
    {res : Result} (hread : read R files readConfig Feed.empty = some (res, feed))
    (hok : res.code = .ok) (config : WriteConfig) :
    RoundTrips R config feed ↔ WrittenKept R config feed :=
  roundTrips_of_ok hR (read_feedOk hR hread hok) config

end roundTrips

section sample

def agencyFiles (fareUrl : String) : Files := fun filename =>
  if filename = "agency.txt" then
    some ("agency_id,agency_name,agency_url,agency_timezone,agency_fare_url\n".toList ++
      "DTA,Transit,http://google.com,America/Los_Angeles,".toList ++ fareUrl.toList ++ ['\n'])
  else none

def agenciesOnly : ReadConfig :=
  ⟨true, false, false, false, false, false, false, false, false, false, false, false, false⟩

def oneFareUrl : Files := agencyFiles "http://google.com/fares"

def commaFareUrl : Files := agencyFiles "\"http://google.com/a,b\""

set_option maxRecDepth 8000 in
theorem read_roundTrips_agency :
    ∃ res feed, read wholeNumbers oneFareUrl agenciesOnly Feed.empty = some (res, feed) ∧
      RoundTrips wholeNumbers agenciesOnly feed := by
  have hrun : (read wholeNumbers oneFareUrl agenciesOnly Feed.empty).map (fun out =>
      (out.1.code, decide (∀ a ∈ out.2.agencies.values, ColumnsKept (agencyColumns a)))) =
        some (.ok, true) := by decide
  obtain ⟨⟨res, feed⟩, hread, hout⟩ := Option.map_eq_some_iff.1 hrun
  obtain ⟨hok, hkept⟩ := Prod.mk.inj hout
  refine ⟨res, feed, hread,
    (read_roundTrips_iff wholeNumbers_reread hread hok agenciesOnly).2 ?_⟩
  exact ⟨⟨rfl, rfl, rfl, rfl, rfl, rfl, rfl⟩, fun _ => of_decide_eq_true hkept, disabled rfl,
    disabled rfl, disabled rfl, disabled rfl, disabled rfl⟩

set_option maxRecDepth 8000 in
/-- The comma of a fare url is written without quotes. -/
theorem read_not_roundTrips :
    ∃ res feed, read wholeNumbers commaFareUrl agenciesOnly Feed.empty = some (res, feed) ∧
      res.code = .ok ∧ ¬ RoundTrips wholeNumbers agenciesOnly feed := by
  have hrun : (read wholeNumbers commaFareUrl agenciesOnly Feed.empty).map (fun out =>
      (out.1.code, decide (∀ a ∈ out.2.agencies.values, ColumnsKept (agencyColumns a)))) =
        some (.ok, false) := by decide
  obtain ⟨⟨res, feed⟩, hread, hout⟩ := Option.map_eq_some_iff.1 hrun
  obtain ⟨hok, hnot⟩ := Prod.mk.inj hout
  refine ⟨res, feed, hread, hok, fun h => of_decide_eq_false hnot ?_⟩
  exact ((roundTrips_of_ok wholeNumbers_reread (read_feedOk wholeNumbers_reread hread hok)
    agenciesOnly).1 h).agencies rfl

end sample

end Pfaedle.Gtfs

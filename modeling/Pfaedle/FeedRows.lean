import Pfaedle.FeedReader

set_option autoImplicit false

/-!
# What a feed holds after it was read

A table is read row by row; if no row fails, its entities were all added in the order of the file.
-/
namespace Pfaedle.Gtfs

def dataRows (files : Files) (filename : String) : List Record :=
  match files filename with
  | none => []
  | some content =>
    match lines content with
    | [] => []
    | header :: rows =>
      (rows.map (readRow (splitRecord true header))).filter fun record => record.entries ≠ []

section tables
variable {A F : Type} {Q : Record → A → Prop} {add : F → A → F}
variable {addEntity : Record → F → Option (Result × F)}

/-- The entities of the rows of a table were added to `f`. -/
def RowsRead (Q : Record → A → Prop) (add : F → A → F) (files : Files) (filename : String)
    (f f' : F) : Prop :=
  ∃ es, List.Forall₂ Q (dataRows files filename) es ∧ f' = es.foldl add f

theorem foldl_insert_eq {K : Type} [LinearOrder K] {key : A → K} (m : SortedMap K A) (es : List A) :
    es.foldl (fun m e => m.insert (key e) e) m = m.insertAll (es.map fun e => (key e, e)) := by
  rw [SortedMap.insertAll, List.foldl_map]

theorem foldl_append_eq (l es : List A) : es.foldl (fun l e => l ++ [e]) l = l ++ es := by
  induction es generalizing l with
  | nil => exact (List.append_nil l).symm
  | cons e es ih => rw [List.foldl_cons, ih, List.append_assoc]; rfl

theorem parseRows_ok {filename : String} {names rows : List Text} {f f' : F} {res : Result}
    (hadd : ∀ {row f res f'}, addEntity row f = some (res, f') → res.code = .ok →
      ∃ e, Q row e ∧ f' = add f e)
    (h : parseRows filename names addEntity rows f = some (res, f')) (hok : res.code = .ok) :
    ∃ es, List.Forall₂ Q ((rows.map (readRow names)).filter fun record => record.entries ≠ []) es ∧
      f' = es.foldl add f := by
  induction rows generalizing f with
  | nil =>
    cases h
    exact ⟨[], List.Forall₂.nil, rfl⟩
  | cons row rows ih =>
    rw [parseRows] at h
    rw [List.map_cons]
    split_ifs at h with hempty
    · rw [List.filter_cons_of_neg (by simpa using hempty)]
      exact ih h
    · rw [List.filter_cons_of_pos (by simpa using hempty)]
      cases hrow : addEntity (readRow names row) f with
      | none =>
        rw [hrow] at h
        cases h
      | some out =>
        obtain ⟨r, g⟩ := out
        rw [hrow] at h
        dsimp only at h
        split_ifs at h with hr
        · obtain ⟨e, he, hg⟩ := hadd hrow hr
          obtain ⟨es, hes, hf⟩ := ih h
          exact ⟨e :: es, List.Forall₂.cons he hes, by rw [hf, hg]; rfl⟩
        · cases h
          exact absurd hok hr

theorem parseRows_all {filename : String} {names rows : List Text} {es : List A}
    (h : List.Forall₂ (fun row e => ∀ f, addEntity row f = some (.ok, add f e))
      ((rows.map (readRow names)).filter fun record => record.entries ≠ []) es) (f : F) :
    parseRows filename names addEntity rows f =
      some (⟨.ok, "Parsed ".toList ++ filename.toList⟩, es.foldl add f) := by
  induction rows generalizing es f with
  | nil =>
    cases h
    rfl
  | cons row rows ih =>
    rw [List.map_cons] at h
    rw [parseRows]
    split_ifs with hempty
    · rw [List.filter_cons_of_neg (by simpa using hempty)] at h
      exact ih h f
    · rw [List.filter_cons_of_pos (by simpa using hempty)] at h
      cases h with
      | cons he hes =>
        rw [he f]
        exact ih hes _

theorem parseRows_not_absent {filename : String} {names rows : List Text} {f f' : F}
    {res : Result} (hnot : ∀ {row f res f'}, addEntity row f = some (res, f') →
      res.code ≠ .errorFileAbsent)
    (h : parseRows filename names addEntity rows f = some (res, f')) :
    res.code ≠ .errorFileAbsent := by
  induction rows generalizing f with
  | nil =>
    cases h
    exact fun h => nomatch h
  | cons row rows ih =>
    rw [parseRows] at h
    split_ifs at h
    · exact ih h
    · cases hrow : addEntity (readRow names row) f with
      | none =>
        rw [hrow] at h
        cases h
      | some out =>
        obtain ⟨r, g⟩ := out
        rw [hrow] at h
        dsimp only at h
        split_ifs at h
        · exact ih h
        · cases h
          have hr : r.code ≠ .errorFileAbsent := hnot hrow
          exact hr

/-- A table that is read without an error; an absent file counts as a table without rows. -/
theorem parseCsv_rowsRead {files : Files} {filename : String} {f f' : F} {res : Result}
    (hadd : ∀ {row f res f'}, addEntity row f = some (res, f') → res.code = .ok →
      ∃ e, Q row e ∧ f' = add f e)
    (hnot : ∀ {row f res f'}, addEntity row f = some (res, f') → res.code ≠ .errorFileAbsent)
    (h : parseCsv files filename addEntity f = some (res, f'))
    (hok : errorParsingOptionalFile res = false) : RowsRead Q add files filename f f' := by
  have hcode : res.code = .ok ∨ res.code = .errorFileAbsent := by
    rw [errorParsingOptionalFile, decide_eq_false_iff_not, not_and_or, not_not, not_not] at hok
    exact hok
  rw [parseCsv] at h
  rw [RowsRead, dataRows]
  cases hfile : files filename with
  | none =>
    rw [hfile] at h
    cases h
    exact ⟨[], List.Forall₂.nil, rfl⟩
  | some content =>
    rw [hfile] at h
    dsimp only at h ⊢
    cases hlines : lines content with
    | nil =>
      rw [hlines] at h
      cases h
      exact hcode.elim (fun hc => nomatch hc) fun hc => nomatch hc
    | cons header rows =>
      rw [hlines] at h
      dsimp only at h ⊢
      split_ifs at h
      · cases h
        exact hcode.elim (fun hc => nomatch hc) fun hc => nomatch hc
      · exact parseRows_ok hadd h (hcode.resolve_right (parseRows_not_absent hnot h))

theorem failure_code (ex : StdException) :
    (failure ex).code ≠ .ok ∧ (failure ex).code ≠ .errorFileAbsent := by
  cases ex <;> exact ⟨ResultCode.noConfusion, ResultCode.noConfusion⟩

theorem handler_ok {entityOf : Record → Except StdException A} {row : Record} {f f' : F}
    {res : Result} (h : handler entityOf add row f = some (res, f')) (hok : res.code = .ok) :
    ∃ e, entityOf row = .ok e ∧ f' = add f e := by
  rw [handler] at h
  cases hrow : entityOf row with
  | ok e =>
    rw [hrow] at h
    cases h
    exact ⟨e, rfl, rfl⟩
  | error ex =>
    rw [hrow] at h
    cases h
    exact absurd hok (failure_code ex).1

theorem handler_not_absent {entityOf : Record → Except StdException A} {row : Record} {f f' : F}
    {res : Result} (h : handler entityOf add row f = some (res, f')) :
    res.code ≠ .errorFileAbsent := by
  rw [handler] at h
  cases hrow : entityOf row with
  | ok e =>
    rw [hrow] at h
    cases h
    exact fun h => nomatch h
  | error ex =>
    rw [hrow] at h
    cases h
    exact (failure_code ex).2

theorem handler_rowsRead {entityOf : Record → Except StdException A} {files : Files}
    {filename : String} {f f' : F} {res : Result}
    (h : parseCsv files filename (handler entityOf add) f = some (res, f'))
    (hok : errorParsingOptionalFile res = false) :
    RowsRead (fun row e => entityOf row = .ok e) add files filename f f' :=
  parseCsv_rowsRead handler_ok handler_not_absent h hok

end tables

section feeds

def Loaded {F : Type} (enabled : Bool) (rowsRead : F → F → Prop) (f f' : F) : Prop :=
  if enabled then rowsRead f f' else f' = f

theorem Loaded.of_enabled {F : Type} {enabled : Bool} {P : F → F → Prop} {f f' : F}
    (h : Loaded enabled P f f') (henabled : enabled = true) : P f f' := by
  rwa [Loaded, if_pos henabled] at h

variable {D : Type} (R : Doubles D) (files : Files)

def RequiredRead {A F : Type} (Q : Record → A → Prop) (add : F → A → F) (files : Files)
    (filename : String) (f f' : F) : Prop :=
  (files filename).isSome ∧ RowsRead Q add files filename f f'

def RouteRead (row : Record) (r : Route) : Prop :=
  routeOf row = .ok r ∧ ¬ (r.routeShortName = [] ∧ r.routeLongName = [])

structure FeedRead (config : ReadConfig) (feed feed' : Feed D) : Prop where
  agencies : Loaded config.agencies
    (RequiredRead (fun row a => agencyOf row = .ok a) (fun m a => m.insert a.agencyId a)
      files "agency.txt") feed.agencies feed'.agencies
  stops : Loaded config.stops
    (RequiredRead (fun row s => stopOf R row = .ok (.ok s)) (fun m s => m.insert s.stopId s)
      files "stops.txt") feed.stops feed'.stops
  routes : Loaded config.routes
    (RequiredRead RouteRead (fun m r => m.insert r.routeId r) files "routes.txt")
      feed.routes feed'.routes
  trips : Loaded config.trips
    (RequiredRead (fun row t => tripOf row = .ok t) (fun m t => m.insert t.tripId t)
      files "trips.txt") feed.trips feed'.trips
  stopTimes : Loaded config.stopTimes
    (RequiredRead (fun row st => stopTimeOf R row = .ok st) (fun l st => l ++ [st])
      files "stop_times.txt") feed.stopTimes feed'.stopTimes
  calendar : Loaded config.calendar
    (RowsRead (fun row c => calendarItemOf row = .ok c) (fun m c => m.insert c.serviceId c)
      files "calendar.txt") feed.calendar feed'.calendar
  calendarDates : Loaded config.calendarDates
    (RowsRead (fun row c => calendarDateOf row = .ok c) (fun m c => m.insert c.serviceId c)
      files "calendar_dates.txt") feed.calendarDates feed'.calendarDates
  shapes : Loaded config.shapes
    (RowsRead (fun row pt => shapePointOf R row = .ok pt) addPoint files "shapes.txt")
      feed.shapes feed'.shapes
  transfers : Loaded config.transfers
    (RowsRead (fun row t => transferOf row = .ok t)
      (fun m t => m.insert (toLex (t.fromStopId, t.toStopId)) t) files "transfers.txt")
      feed.transfers feed'.transfers
  frequencies : Loaded config.frequencies
    (RowsRead (fun row f => frequencyOf row = .ok f) (fun l f => l ++ [f]) files "frequencies.txt")
      feed.frequencies feed'.frequencies
  fareAttributes : Loaded config.fareAttributes
    (RowsRead (fun row i => fareAttributesItemOf R row = .ok i) (fun m i => m.insert i.fareId i)
      files "fare_attributes.txt") feed.fareAttributes feed'.fareAttributes
  fareRules : Loaded config.fareRules
    (RowsRead (fun row r => fareRuleOf row = .ok r) (fun m r => m.insert r.fareId r)
      files "fare_rules.txt") feed.fareRules feed'.fareRules
  feedInfo : Loaded config.feedInfo
    (RowsRead (fun row info => ∃ old, readFeedInfoRow row old = .ok info) (fun _ info => info)
      files "feed_info.txt") feed.feedInfo feed'.feedInfo

theorem readTable_ok {F : Type} {enabled : Bool} {isError : Result → Bool}
    {table rest : F → Option (Result × F)} {f f' : F} {res : Result}
    (herror : ∀ r : Result, isError r = true → r.code ≠ .ok)
    (h : readTable enabled isError table rest f = some (res, f')) (hok : res.code = .ok) :
    ∃ g, (if enabled then ∃ r, table f = some (r, g) ∧ isError r = false else g = f) ∧
      rest g = some (res, f') := by
  rw [readTable] at h
  split_ifs at h with henabled
  · cases htable : table f with
    | none =>
      rw [htable] at h
      cases h
    | some out =>
      obtain ⟨r, g⟩ := out
      rw [htable] at h
      dsimp only at h
      split_ifs at h with hr
      · cases h
        exact absurd hok (herror _ hr)
      · exact ⟨g, by rw [if_pos henabled]; exact ⟨r, rfl, (Bool.not_eq_true _).mp hr⟩, h⟩
  · exact ⟨f, by rw [if_neg henabled], h⟩

/-- What a successful table does to the feed: its own part is loaded, the rest is kept. -/
theorem loaded_of_table {F G : Type} {enabled : Bool} {isError : Result → Bool} {get : F → G}
    {put : F → G → F} {table : G → Option (Result × G)} {P : G → G → Prop} {f g : F}
    (hself : put f (get f) = f)
    (hP : ∀ {r x}, table (get f) = some (r, x) → isError r = false → P (get f) x)
    (h : if enabled then ∃ r, inFeed get put table f = some (r, g) ∧ isError r = false else g = f) :
    ∃ x, Loaded enabled P (get f) x ∧ g = put f x := by
  split_ifs at h with henabled
  · obtain ⟨r, htable, hr⟩ := h
    rw [inFeed, Option.map_eq_some_iff] at htable
    obtain ⟨⟨r', x⟩, hx, hpair⟩ := htable
    cases hpair
    exact ⟨x, by rw [Loaded, if_pos henabled]; exact hP hx hr, rfl⟩
  · exact ⟨get f, by rw [Loaded, if_neg henabled], by rw [h, hself]⟩

theorem requiredRead_of_ok {A F : Type} {Q : Record → A → Prop} {add : F → A → F} {filename : String}
    {addEntity : Record → F → Option (Result × F)} {f f' : F} {res : Result}
    (h : parseCsv files filename addEntity f = some (res, f')) (hok : errorParsingFile res = false)
    (hrows : RowsRead Q add files filename f f') : RequiredRead Q add files filename f f' := by
  refine ⟨?_, hrows⟩
  have hcode : res.code = .ok := not_not.1 (of_decide_eq_false hok)
  rw [parseCsv] at h
  cases hfile : files filename with
  | none =>
    rw [hfile] at h
    cases h
    exact nomatch hcode
  | some content => rfl

theorem errorParsingFile_code (r : Result) (h : errorParsingFile r = true) : r.code ≠ .ok :=
  of_decide_eq_true h

theorem errorParsingOptionalFile_code (r : Result) (h : errorParsingOptionalFile r = true) :
    r.code ≠ .ok := (of_decide_eq_true h).1

theorem optional_of_file {r : Result} (h : errorParsingFile r = false) :
    errorParsingOptionalFile r = false := by
  have hcode : r.code = .ok := not_not.1 (of_decide_eq_false h)
  exact decide_eq_false fun hh => hh.1 hcode

theorem readStops_rowsRead {m m' : SortedMap Text (Stop D)} {res : Result}
    (h : readStops R files m = some (res, m')) (hok : errorParsingOptionalFile res = false) :
    RowsRead (fun row s => stopOf R row = .ok (.ok s)) (fun m s => m.insert s.stopId s)
      files "stops.txt" m m' := by
  refine parseCsv_rowsRead ?_ ?_ h hok
  · intro row f r f' hrow hr
    rcases hstop : stopOf R row with ex | ex | s
    · rw [hstop] at hrow
      cases hrow
      exact absurd hr (failure_code ex).1
    · rw [hstop] at hrow
      cases hrow
    · rw [hstop] at hrow
      cases hrow
      exact ⟨s, rfl, rfl⟩
  · intro row f r f' hrow
    rcases hstop : stopOf R row with ex | ex | s
    · rw [hstop] at hrow
      cases hrow
      exact (failure_code ex).2
    · rw [hstop] at hrow
      cases hrow
    · rw [hstop] at hrow
      cases hrow
      exact fun h => nomatch h

theorem readRoutes_rowsRead {m m' : SortedMap Text Route} {res : Result}
    (h : readRoutes files m = some (res, m')) (hok : errorParsingOptionalFile res = false) :
    RowsRead RouteRead (fun m r => m.insert r.routeId r) files "routes.txt" m m' := by
  refine parseCsv_rowsRead ?_ ?_ h hok
  · intro row f res f' hrow hr
    cases hroute : routeOf row with
    | error ex =>
      rw [hroute] at hrow
      cases hrow
      exact absurd hr (failure_code ex).1
    | ok r =>
      rw [hroute] at hrow
      dsimp only at hrow
      split_ifs at hrow with hname
      · cases hrow
        exact nomatch hr
      · cases hrow
        exact ⟨r, ⟨hroute, hname⟩, rfl⟩
  · intro row f res f' hrow
    cases hroute : routeOf row with
    | error ex =>
      rw [hroute] at hrow
      cases hrow
      exact (failure_code ex).2
    | ok r =>
      rw [hroute] at hrow
      dsimp only at hrow
      split_ifs at hrow <;> (cases hrow; exact fun h => nomatch h)

theorem readFeedInfo_rowsRead {info info' : FeedInfo} {res : Result}
    (h : readFeedInfo files info = some (res, info'))
    (hok : errorParsingOptionalFile res = false) :
    RowsRead (fun row info => ∃ old, readFeedInfoRow row old = .ok info) (fun _ info => info)
      files "feed_info.txt" info info' := by
  refine parseCsv_rowsRead ?_ ?_ h hok
  · intro row f r f' hrow hr
    rcases hinfo : readFeedInfoRow row f with ⟨ex, old⟩ | info
    · rw [hinfo] at hrow
      cases hrow
      exact absurd hr (failure_code ex).1
    · rw [hinfo] at hrow
      cases hrow
      exact ⟨_, ⟨f, hinfo⟩, rfl⟩
  · intro row f r f' hrow
    rcases hinfo : readFeedInfoRow row f with ⟨ex, old⟩ | info
    · rw [hinfo] at hrow
      cases hrow
      exact (failure_code ex).2
    · rw [hinfo] at hrow
      cases hrow
      exact fun h => nomatch h

/-- After a successful `read` every enabled table was read to its end. -/
theorem read_ok {config : ReadConfig} {feed feed' : Feed D} {res : Result}
    (h : read R files config feed = some (res, feed')) (hok : res.code = .ok) :
    FeedRead R files config feed feed' := by
  obtain ⟨f₁, h₁, h⟩ := readTable_ok errorParsingFile_code h hok
  obtain ⟨f₂, h₂, h⟩ := readTable_ok errorParsingFile_code h hok
  obtain ⟨f₃, h₃, h⟩ := readTable_ok errorParsingFile_code h hok
  obtain ⟨f₄, h₄, h⟩ := readTable_ok errorParsingFile_code h hok
  obtain ⟨f₅, h₅, h⟩ := readTable_ok errorParsingFile_code h hok
  obtain ⟨f₆, h₆, h⟩ := readTable_ok errorParsingOptionalFile_code h hok
  obtain ⟨f₇, h₇, h⟩ := readTable_ok errorParsingOptionalFile_code h hok
  obtain ⟨f₈, h₈, h⟩ := readTable_ok errorParsingOptionalFile_code h hok
  obtain ⟨f₉, h₉, h⟩ := readTable_ok errorParsingOptionalFile_code h hok
  obtain ⟨f₁₀, h₁₀, h⟩ := readTable_ok errorParsingOptionalFile_code h hok
  obtain ⟨f₁₁, h₁₁, h⟩ := readTable_ok errorParsingOptionalFile_code h hok
  obtain ⟨f₁₂, h₁₂, h⟩ := readTable_ok errorParsingOptionalFile_code h hok
  obtain ⟨f₁₃, h₁₃, h⟩ := readTable_ok errorParsingOptionalFile_code h hok
  cases h
  obtain ⟨x₁, l₁, rfl⟩ := loaded_of_table rfl
    (fun ht hr => requiredRead_of_ok files ht hr (handler_rowsRead ht (optional_of_file hr))) h₁
  obtain ⟨x₂, l₂, rfl⟩ := loaded_of_table rfl
    (fun ht hr => requiredRead_of_ok files ht hr
      (readStops_rowsRead R files ht (optional_of_file hr))) h₂
  obtain ⟨x₃, l₃, rfl⟩ := loaded_of_table rfl
    (fun ht hr => requiredRead_of_ok files ht hr
      (readRoutes_rowsRead files ht (optional_of_file hr))) h₃
  obtain ⟨x₄, l₄, rfl⟩ := loaded_of_table rfl
    (fun ht hr => requiredRead_of_ok files ht hr (handler_rowsRead ht (optional_of_file hr))) h₄
  obtain ⟨x₅, l₅, rfl⟩ := loaded_of_table rfl
    (fun ht hr => requiredRead_of_ok files ht hr (handler_rowsRead ht (optional_of_file hr))) h₅
  obtain ⟨x₆, l₆, rfl⟩ := loaded_of_table rfl handler_rowsRead h₆
  obtain ⟨x₇, l₇, rfl⟩ := loaded_of_table rfl handler_rowsRead h₇
  obtain ⟨x₈, l₈, rfl⟩ := loaded_of_table rfl handler_rowsRead h₈
  obtain ⟨x₉, l₉, rfl⟩ := loaded_of_table rfl handler_rowsRead h₉
  obtain ⟨x₁₀, l₁₀, rfl⟩ := loaded_of_table rfl handler_rowsRead h₁₀
  obtain ⟨x₁₁, l₁₁, rfl⟩ := loaded_of_table rfl handler_rowsRead h₁₁
  obtain ⟨x₁₂, l₁₂, rfl⟩ := loaded_of_table rfl handler_rowsRead h₁₂
  obtain ⟨x₁₃, l₁₃, rfl⟩ := loaded_of_table rfl (readFeedInfo_rowsRead files) h₁₃
  exact ⟨l₁, l₂, l₃, l₄, l₅, l₆, l₇, l₈, l₉, l₁₀, l₁₁, l₁₂, l₁₃⟩

end feeds

end Pfaedle.Gtfs

import Pfaedle.ProducedFeed

set_option autoImplicit false

/-!
# What the handlers make of a written row

A `RowCodec` is a table whose rows are written and decoded again: decoding a written row gives the
same entity exactly if the row is kept.
-/
namespace Pfaedle.Gtfs

section columns
variable {D : Type} {R : Doubles D} {row : Record} {key : String}

def Holds (row : Record) (columns : List (String × Cell)) : Prop :=
  ∀ p ∈ columns, row.find? p.1.toList = some p.2.value

theorem rowAt_found {v : Text} (h : row.find? key.toList = some v) : rowAt row key = .ok v := by
  rw [rowAt, h]

theorem getValue_found {v default : Text} (h : row.find? key.toList = some v) :
    getValueOrDefault row key default = v := by
  rw [getValueOrDefault, h]
  rfl

theorem setField_found {A : Type} {cast : ℤ → A} {field a : A} {v : Text} {isOptional : Bool}
    (h : row.find? key.toList = some v) (hne : v ≠ []) (hv : cast <$> stoi v = .ok a) :
    setField cast field row key isOptional = .ok a := by
  rw [setField, getValue_found h]
  exact (if_pos (Or.inl hne)).trans hv

theorem setField_int {field z : ℤ} {isOptional : Bool}
    (h : row.find? key.toList = some (wrapInt z)) (hz : IsInt z) :
    setField id field row key isOptional = .ok z :=
  setField_found h (toStr_ne_nil z) (by rw [hz.stoi]; rfl)

theorem setField_size {field n : ℕ} {isOptional : Bool}
    (h : row.find? key.toList = some (wrapSize n)) (hn : IsSize n) :
    setField sizeT field row key isOptional = .ok n :=
  setField_found h (toStr_ne_nil _) hn.stoi

theorem rowAt_size {n : ℕ} (h : row.find? key.toList = some (wrapSize n)) (hn : IsSize n) :
    sizeT <$> (rowAt row key >>= stoi) = .ok n := by
  rw [rowAt_found h, ok_bind]
  exact hn.stoi

theorem rowAt_time {t : Time} (h : row.find? key.toList = some t.rawTime)
    (ht : Time.parse t.rawTime = .ok t) : rowAt row key >>= Time.parse = .ok t := by
  rw [rowAt_found h]
  exact ht

theorem setFractional_found {field d d' : D} {isOptional : Bool} (hR : R.Reread)
    (h : row.find? key.toList = some (R.fixed d)) (hd : R.stod (R.fixed d) = .ok d') :
    setFractional R field row key isOptional = .ok (d', true) := by
  rw [setFractional, getValue_found h]
  refine (if_pos (Or.inl (hR.ne_nil d))).trans ?_
  rw [hd]
  rfl

end columns

section same
variable {D : Type} (R : Doubles D)

/-- The same stop, up to the digits of its position that are not written. -/
structure Stop.Same (s s' : Stop D) : Prop where
  fields : s' = { s with stopLat := s'.stopLat, stopLon := s'.stopLon }
  stopLat : R.fixed s'.stopLat = R.fixed s.stopLat
  stopLon : R.fixed s'.stopLon = R.fixed s.stopLon

structure StopTime.Same (st st' : StopTime D) : Prop where
  fields : st' = { st with shapeDistTraveled := st'.shapeDistTraveled }
  shapeDistTraveled : R.fixed st'.shapeDistTraveled = R.fixed st.shapeDistTraveled

structure ShapePoint.Same (pt pt' : ShapePoint D) : Prop where
  shapeId : pt'.shapeId = pt.shapeId
  shapePtLat : R.fixed pt'.shapePtLat = R.fixed pt.shapePtLat
  shapePtLon : R.fixed pt'.shapePtLon = R.fixed pt.shapePtLon
  shapePtSequence : pt'.shapePtSequence = pt.shapePtSequence
  shapeDistTraveled : R.fixed pt'.shapeDistTraveled = R.fixed pt.shapeDistTraveled

structure Shape.Same (s s' : Shape D) : Prop where
  shapeId : s'.shapeId = s.shapeId
  points : List.Forall₂ (ShapePoint.Same R) s.points s'.points

structure FareAttributesItem.Same (i i' : FareAttributesItem D) : Prop where
  fields : i' = { i with price := i'.price }
  price : R.fixed i'.price = R.fixed i.price

end same

section codecs

structure RowCodec (V : Type) where
  header : List String
  columns : V → List (String × Cell)
  decoded : Record → V → Prop
  same : V → V → Prop
  Ok : V → Prop
  Kept : V → Prop
  headerOk : HeaderOk header
  header_ne : header ≠ []
  names : ∀ v, (columns v).map Prod.fst = header
  columnsOk : ∀ {v}, Ok v → ColumnsOk (columns v)
  functional : ∀ {row v v'}, decoded row v → decoded row v' → v = v'
  decoded_of_kept : ∀ {v}, Ok v → Kept v → ∃ v', decoded (rowRecord (columns v)) v' ∧ same v v'
  kept_of_same : ∀ {v v'}, Ok v → decoded (rowRecord (columns v)) v' → same v v' → Kept v

/-- A codec whose entities are found under a text that is always read from its own column. -/
structure KeyCodec (V : Type) extends RowCodec V where
  key : V → Text
  same_key : ∀ {v v'}, same v v' → key v = key v'
  key_read : ∀ {v v'}, Ok v → decoded (rowRecord (columns v)) v' → key v' = wrapRead (key v)

variable {V : Type} (C : RowCodec V)

theorem RowCodec.tableRows {vs : List V} (h : ∀ v ∈ vs, C.Ok v) :
    TableRows C.header (vs.map C.columns) where
  headerOk := C.headerOk
  names row hrow := by
    obtain ⟨v, -, rfl⟩ := List.mem_map.1 hrow
    exact C.names v
  ok row hrow := by
    obtain ⟨v, hv, rfl⟩ := List.mem_map.1 hrow
    exact C.columnsOk (h v hv)
  notEmpty := C.header_ne

def RowCodec.text (vs : List V) : Text := tableText C.header (vs.map C.columns)

theorem RowCodec.text_eq (vs : List V) : C.text vs = writeJoined (C.header.map String.toList) ++
    (vs.map fun v => (C.columns v).map fun p => p.2.written).flatMap writeJoined := by
  rw [text, tableText, List.map_map]
  rfl

variable {C}

theorem RowCodec.same_iff {v v' : V} (hok : C.Ok v)
    (h : C.decoded (rowRecord (C.columns v)) v') : C.same v v' ↔ C.Kept v := by
  refine ⟨C.kept_of_same hok h, fun hkept => ?_⟩
  obtain ⟨v'', hv'', hsame⟩ := C.decoded_of_kept hok hkept
  rwa [C.functional h hv'']

end codecs

section holds
variable {D : Type} {R : Doubles D} {row : Record}

theorem checkCoordinates_ok {lat lon : D} : checkCoordinates R lat lon = .ok () ↔
    (R.lt lat (R.ofInt (-90)) = false ∧ R.lt (R.ofInt 90) lat = false) ∧
      R.lt lon (R.ofInt (-180)) = false ∧ R.lt (R.ofInt 180) lon = false := by
  rw [checkCoordinates]
  simp only [← Bool.not_eq_true]
  split_ifs with hlat hlon
  · exact ⟨fun h => (by cases h), fun h => absurd hlat (not_or.2 h.1)⟩
  · exact ⟨fun h => (by cases h), fun h => absurd hlon (not_or.2 h.2)⟩
  · exact ⟨fun _ => ⟨not_or.1 hlat, not_or.1 hlon⟩, fun _ => rfl⟩

/-- A value stays on its side of the integers that a check compares it with. -/
def SameSides (R : Doubles D) (d d' : D) : Prop :=
  ∀ c : ℤ, |c| ≤ 180 →
    (R.lt d (R.ofInt c) = false → R.lt d' (R.ofInt c) = false) ∧
    (R.lt (R.ofInt c) d = false → R.lt (R.ofInt c) d' = false)

theorem checkCoordinates_reread {lat lon lat' lon' : D}
    (h : checkCoordinates R lat lon = .ok ()) (hlat : SameSides R lat lat')
    (hlon : SameSides R lon lon') : checkCoordinates R lat' lon' = .ok () := by
  rw [checkCoordinates_ok] at h ⊢
  exact ⟨⟨(hlat _ (by decide)).1 h.1.1, (hlat _ (by decide)).2 h.1.2⟩,
    (hlon _ (by decide)).1 h.2.1, (hlon _ (by decide)).2 h.2.2⟩

theorem agencyOf_holds {a : Agency} (h : Holds row (agencyColumns a)) : agencyOf row = .ok a := by
  simp only [Holds, agencyColumns, List.forall_mem_cons, Cell.value] at h
  obtain ⟨hid, hname, hurl, htimezone, hlang, hphone, hfare, hemail, -⟩ := h
  refine bind_ok.2 ⟨_, rowAt_found hname, bind_ok.2 ⟨_, rowAt_found hurl,
    bind_ok.2 ⟨_, rowAt_found htimezone, ?_⟩⟩⟩
  rw [getValue_found hid, getValue_found hlang, getValue_found hphone, getValue_found hfare,
    getValue_found hemail]

theorem stopOf_holds (hR : R.Reread) {s : Stop D} (hok : s.Ok R) (h : Holds row (stopColumns R s))
    (hpresent : s.coordinatesPresent = true) :
    ∃ s', stopOf R row = .ok (.ok s') ∧ s.Same R s' := by
  simp only [Holds, stopColumns, List.forall_mem_cons, Cell.value] at h
  obtain ⟨hid, hcode, hname, hdesc, hlat, hlon, hzone, hurl, htype, hparent, htimezone, hboarding,
    hlevel, hplatform, -⟩ := h
  obtain ⟨lat, hlatRead, hlatSame, -⟩ := hR.reread s.stopLat
  obtain ⟨lon, hlonRead, hlonSame, -⟩ := hR.reread s.stopLon
  refine ⟨_, bind_ok.2 ⟨_, rowAt_found hid, bind_ok.2 ⟨_, setFractional_found hR hlon hlonRead,
    bind_ok.2 ⟨_, setFractional_found hR hlat hlatRead,
      congrArg Except.ok (bind_ok.2 ⟨_, setField_int htype hok.locationType, rfl⟩)⟩⟩⟩,
    ?_, hlatSame, hlonSame⟩
  rw [getValue_found hcode, getValue_found hname, getValue_found hdesc, getValue_found hzone,
    getValue_found hurl, getValue_found hparent, getValue_found htimezone,
    getValue_found hboarding, getValue_found hlevel, getValue_found hplatform, hpresent]
  rfl

theorem routeOf_holds {r : Route} (hok : r.Ok) (h : Holds row (routeColumns r)) :
    routeOf row = .ok r := by
  simp only [Holds, routeColumns, List.forall_mem_cons, Cell.value] at h
  obtain ⟨hid, hagency, hshort, hlong, hdesc, htype, hurl, hcolor, htext, horder, -⟩ := h
  refine bind_ok.2 ⟨_, rowAt_found hid, bind_ok.2 ⟨_, setField_int htype hok.routeType,
    bind_ok.2 ⟨_, setField_size horder hok.routeSortOrder, ?_⟩⟩⟩
  rw [getValue_found hagency, getValue_found hshort, getValue_found hlong, getValue_found hdesc,
    getValue_found hurl, getValue_found hcolor, getValue_found htext]

theorem tripOf_holds {t : Trip} (hok : t.Ok) (h : Holds row (tripColumns t)) :
    tripOf row = .ok t := by
  simp only [Holds, tripColumns, List.forall_mem_cons, Cell.value] at h
  obtain ⟨hroute, hservice, hid, hheadsign, hshort, hdirection, hblock, hshape, hwheelchair, hbikes,
    -⟩ := h
  refine bind_ok.2 ⟨_, rowAt_found hroute, bind_ok.2 ⟨_, rowAt_found hservice,
    bind_ok.2 ⟨_, rowAt_found hid, bind_ok.2 ⟨_, setField_int hdirection hok.directionId,
      bind_ok.2 ⟨_, setField_int hwheelchair hok.wheelchairAccessible,
        bind_ok.2 ⟨_, setField_int hbikes hok.bikesAllowed, ?_⟩⟩⟩⟩⟩⟩
  rw [getValue_found hshape, getValue_found hheadsign, getValue_found hshort,
    getValue_found hblock]

theorem stopTimeOf_holds (hR : R.Reread) {st : StopTime D} (hok : st.Ok R)
    (h : Holds row (stopTimeColumns R st)) :
    ∃ st', stopTimeOf R row = .ok st' ∧ st.Same R st' := by
  simp only [Holds, stopTimeColumns, List.forall_mem_cons, Cell.value] at h
  obtain ⟨htrip, harrival, hdeparture, hstop, hsequence, hheadsign, hpickup, hdropOff, -, -, hdist,
    htimepoint, -⟩ := h
  obtain ⟨dist, hdistRead, hdistSame, hsides⟩ := hR.reread st.shapeDistTraveled
  have hcheck := checkDistTraveled_ok.2 ((hsides 0 (by decide)).1 hok.shapeDistTraveled)
  refine ⟨_, bind_ok.2 ⟨_, rowAt_found htrip, bind_ok.2 ⟨_, rowAt_found hstop,
    bind_ok.2 ⟨_, rowAt_size hsequence hok.stopSequence,
      bind_ok.2 ⟨_, rowAt_time hdeparture hok.departureTime,
        bind_ok.2 ⟨_, rowAt_time harrival hok.arrivalTime,
          bind_ok.2 ⟨_, setField_int hpickup hok.pickupType,
            bind_ok.2 ⟨_, setField_int hdropOff hok.dropOffType,
              bind_ok.2 ⟨_, setFractional_found hR hdist hdistRead,
                bind_ok.2 ⟨_, hcheck,
                  bind_ok.2 ⟨_, setField_int htimepoint hok.timepoint, rfl⟩⟩⟩⟩⟩⟩⟩⟩⟩⟩,
    ?_, hdistSame⟩
  rw [getValue_found hheadsign]

theorem shapePointOf_holds (hR : R.Reread) {pt : ShapePoint D} (hok : pt.Ok R)
    (h : Holds row (shapePointColumns R pt)) :
    ∃ pt', shapePointOf R row = .ok pt' ∧ pt.Same R pt' := by
  simp only [Holds, shapePointColumns, List.forall_mem_cons, Cell.value] at h
  obtain ⟨hid, hlat, hlon, hsequence, hdist, -⟩ := h
  obtain ⟨lat, hlatRead, hlatSame, hlatSides⟩ := hR.reread pt.shapePtLat
  obtain ⟨lon, hlonRead, hlonSame, hlonSides⟩ := hR.reread pt.shapePtLon
  obtain ⟨dist, hdistRead, hdistSame, hdistSides⟩ := hR.reread pt.shapeDistTraveled
  have hcheck := checkDistTraveled_ok.2 ((hdistSides 0 (by decide)).1 hok.shapeDistTraveled)
  have hcoordinates := checkCoordinates_reread hok.coordinates hlatSides hlonSides
  have hlonRow : rowAt row "shape_pt_lon" >>= R.stod = .ok lon := by
    rw [rowAt_found hlon]
    exact hlonRead
  have hlatRow : rowAt row "shape_pt_lat" >>= R.stod = .ok lat := by
    rw [rowAt_found hlat]
    exact hlatRead
  exact ⟨_, bind_ok.2 ⟨_, rowAt_found hid, bind_ok.2 ⟨_, rowAt_size hsequence hok.shapePtSequence,
    bind_ok.2 ⟨_, hlonRow, bind_ok.2 ⟨_, hlatRow, bind_ok.2 ⟨_, hcoordinates,
      bind_ok.2 ⟨_, setFractional_found hR hdist hdistRead, bind_ok.2 ⟨_, hcheck, rfl⟩⟩⟩⟩⟩⟩⟩,
    rfl, hlatSame, hlonSame, rfl, hdistSame⟩

end holds

section kept
variable {D : Type} {R : Doubles D}

theorem agency_distinct (a : Agency) : DistinctNames (agencyColumns a) := agencyHeader_ok.names

theorem stop_distinct (s : Stop D) : DistinctNames (stopColumns R s) := stopsHeader_ok.names

theorem route_distinct (r : Route) : DistinctNames (routeColumns r) := routesHeader_ok.names

theorem trip_distinct (t : Trip) : DistinctNames (tripColumns t) := tripsHeader_ok.names

theorem stopTime_distinct (st : StopTime D) : DistinctNames (stopTimeColumns R st) :=
  stopTimesHeader_ok.names

theorem shapePoint_distinct (pt : ShapePoint D) : DistinctNames (shapePointColumns R pt) :=
  shapesHeader_ok.names

def ColumnsKept (columns : List (String × Cell)) : Prop := RowKept (columns.map Prod.snd)

instance (columns : List (String × Cell)) : Decidable (ColumnsKept columns) :=
  inferInstanceAs (Decidable (RowKept _))

theorem ColumnsKept.holds {columns : List (String × Cell)} (h : ColumnsKept columns)
    (hnames : DistinctNames columns) (hok : ColumnsOk columns) :
    Holds (rowRecord columns) columns := fun _ hp => RowKept.find? hnames hok h hp

theorem agencyOf_key {a a' : Agency} (hok : ColumnsOk (agencyColumns a))
    (h : agencyOf (rowRecord (agencyColumns a)) = .ok a') : a'.agencyId = wrapRead a.agencyId := by
  have hfind := find?_wrapped_first (agency_distinct a) hok rfl
  exact (agencyOf_shows h).agencyId.symm.trans (getValue_found hfind)

theorem agencyOf_kept {a : Agency} (hok : ColumnsOk (agencyColumns a))
    (h : agencyOf (rowRecord (agencyColumns a)) = .ok a) : ColumnsKept (agencyColumns a) := by
  have hs := agencyOf_shows h
  have hid : getValueOrDefault (rowRecord (agencyColumns a)) "agency_id" [] = a.agencyId := by
    have hfind := find?_wrapped_first (agency_distinct a) hok rfl
    rw [getValue_found hfind, ← agencyOf_key hok h]
  refine rowKept_of_values (agency_distinct a) hok ?_
  generalize rowRecord (agencyColumns a) = row at hs hid
  simp only [agencyColumns, List.forall_mem_cons]
  exact ⟨fun _ => hid, fun _ => hs.agencyName.optional, fun _ => hs.agencyUrl.optional,
    fun _ => hs.agencyTimezone.optional, fun _ => hs.agencyLang, fun _ => hs.agencyPhone,
    fun _ => hs.agencyFareUrl, fun _ => hs.agencyEmail, fun _ hp => absurd hp List.not_mem_nil⟩

theorem stopOf_kept (hR : R.Reread) {s s' : Stop D} (hok : s.Ok R)
    (h : stopOf R (rowRecord (stopColumns R s)) = .ok (.ok s')) (hsame : s.Same R s') :
    ColumnsKept (stopColumns R s) ∧ s.coordinatesPresent = true := by
  have hs := stopOf_shows h
  rw [hsame.fields] at hs
  have hkept : ColumnsKept (stopColumns R s) := by
    refine rowKept_of_values (stop_distinct s) hok.columns ?_
    generalize rowRecord (stopColumns R s) = row at hs
    simp only [stopColumns, List.forall_mem_cons]
    exact ⟨fun _ => hs.stopId.optional, fun _ => hs.stopCode, fun _ => hs.stopName,
      fun _ => hs.stopDesc, False.elim, False.elim, fun _ => hs.zoneId, fun _ => hs.stopUrl,
      False.elim, fun _ => hs.parentStation, fun _ => hs.stopTimezone,
      fun _ => hs.wheelchairBoarding, fun _ => hs.levelId, fun _ => hs.platformCode,
      fun _ hp => absurd hp List.not_mem_nil⟩
  refine ⟨hkept, hs.coordinatesPresent.2 ?_⟩
  have hholds := hkept.holds (stop_distinct s) hok.columns
  generalize rowRecord (stopColumns R s) = row at hholds
  simp only [Holds, stopColumns, List.forall_mem_cons, Cell.value] at hholds
  obtain ⟨-, -, -, -, hlat, hlon, -⟩ := hholds
  rw [getValue_found hlat, getValue_found hlon]
  exact ⟨hR.ne_nil _, hR.ne_nil _⟩

theorem routeOf_kept {r : Route} (hok : r.Ok) (h : routeOf (rowRecord (routeColumns r)) = .ok r) :
    ColumnsKept (routeColumns r) := by
  have hs := routeOf_shows h
  refine rowKept_of_values (route_distinct r) hok.columns ?_
  generalize rowRecord (routeColumns r) = row at hs
  simp only [routeColumns, List.forall_mem_cons]
  exact ⟨fun _ => hs.routeId.optional, fun _ => hs.agencyId, fun _ => hs.routeShortName,
    fun _ => hs.routeLongName, fun _ => hs.routeDesc, False.elim, fun _ => hs.routeUrl,
    fun _ => hs.routeColor, fun _ => hs.routeTextColor, False.elim, False.elim, False.elim,
    fun _ hp => absurd hp List.not_mem_nil⟩

theorem tripOf_kept {t : Trip} (hok : t.Ok) (h : tripOf (rowRecord (tripColumns t)) = .ok t) :
    ColumnsKept (tripColumns t) := by
  have hs := tripOf_shows h
  refine rowKept_of_values (trip_distinct t) hok.columns ?_
  generalize rowRecord (tripColumns t) = row at hs
  simp only [tripColumns, List.forall_mem_cons]
  exact ⟨fun _ => hs.routeId.optional, fun _ => hs.serviceId.optional,
    fun _ => hs.tripId.optional, fun _ => hs.tripHeadsign, fun _ => hs.tripShortName, False.elim,
    fun _ => hs.blockId, fun _ => hs.shapeId, False.elim, False.elim,
    fun _ hp => absurd hp List.not_mem_nil⟩

theorem RequiredTime.optional {row : Record} {key : String} {t : Time}
    (h : RequiredTime row key t) : Optional row key t.rawTime := by
  obtain ⟨text, htext, hparse⟩ := h
  rw [Time.parse_rawTime hparse]
  exact htext.optional

theorem stopTimeOf_kept {st st' : StopTime D} (hok : st.Ok R)
    (h : stopTimeOf R (rowRecord (stopTimeColumns R st)) = .ok st') (hsame : st.Same R st') :
    ColumnsKept (stopTimeColumns R st) := by
  have hs := stopTimeOf_shows h
  rw [hsame.fields] at hs
  refine rowKept_of_values (stopTime_distinct st) hok.columns ?_
  generalize rowRecord (stopTimeColumns R st) = row at hs
  simp only [stopTimeColumns, List.forall_mem_cons]
  exact ⟨fun _ => hs.tripId.optional, fun _ => hs.arrivalTime.optional,
    fun _ => hs.departureTime.optional, fun _ => hs.stopId.optional, False.elim,
    fun _ => hs.stopHeadsign, False.elim, False.elim, False.elim, False.elim, False.elim,
    False.elim, fun _ hp => absurd hp List.not_mem_nil⟩

theorem shapePointOf_kept {pt pt' : ShapePoint D} (hok : pt.Ok R)
    (h : shapePointOf R (rowRecord (shapePointColumns R pt)) = .ok pt') (hsame : pt.Same R pt') :
    ColumnsKept (shapePointColumns R pt) := by
  have hs := shapePointOf_shows h
  have hid := hs.shapeId
  rw [hsame.shapeId] at hid
  refine rowKept_of_values (shapePoint_distinct pt) hok.columns ?_
  generalize rowRecord (shapePointColumns R pt) = row at hid
  simp only [shapePointColumns, List.forall_mem_cons]
  exact ⟨fun _ => hid.optional, False.elim, False.elim, False.elim, False.elim,
    fun _ hp => absurd hp List.not_mem_nil⟩

end kept

section keys
variable {D : Type} {R : Doubles D}

theorem required_eq {row : Record} {key : String} {t t' : Text} (h : Required row key t)
    (h' : row.find? key.toList = some t') : t = t' := Option.some.inj (h.symm.trans h')

theorem stopOf_key {s s' : Stop D} (hok : s.Ok R)
    (h : stopOf R (rowRecord (stopColumns R s)) = .ok (.ok s')) :
    s'.stopId = wrapRead s.stopId := by
  have hfind := find?_wrapped_first (stop_distinct s) hok.columns rfl
  exact required_eq (stopOf_shows h).stopId hfind

theorem routeOf_key {r r' : Route} (hok : r.Ok)
    (h : routeOf (rowRecord (routeColumns r)) = .ok r') : r'.routeId = wrapRead r.routeId := by
  have hfind := find?_wrapped_first (route_distinct r) hok.columns rfl
  exact required_eq (routeOf_shows h).routeId hfind

theorem tripOf_key {t t' : Trip} (hok : t.Ok)
    (h : tripOf (rowRecord (tripColumns t)) = .ok t') : t'.tripId = wrapRead t.tripId := by
  have hbefore : ∀ p ∈ [("route_id", Cell.wrapped t.routeId), ("service_id", .wrapped t.serviceId)],
      framing false p.2.written = some false := by
    simp only [List.forall_mem_cons]
    exact ⟨framing_wrap _, framing_wrap _, fun _ hp => absurd hp List.not_mem_nil⟩
  have hfind := find?_wrapped (trip_distinct t) hok.columns rfl hbefore
  exact required_eq (tripOf_shows h).tripId hfind

theorem shapePointOf_key {pt pt' : ShapePoint D} (hok : pt.Ok R)
    (h : shapePointOf R (rowRecord (shapePointColumns R pt)) = .ok pt') :
    pt'.shapeId = wrapRead pt.shapeId := by
  have hfind := find?_wrapped_first (shapePoint_distinct pt) hok.columns rfl
  exact required_eq (shapePointOf_shows h).shapeId hfind

end keys

section tables
variable {D : Type} {R : Doubles D}

def agencyCodec : KeyCodec Agency where
  header := agencyHeader
  columns := agencyColumns
  decoded row a := agencyOf row = .ok a
  same := Eq
  Ok a := ColumnsOk (agencyColumns a)
  Kept a := ColumnsKept (agencyColumns a)
  headerOk := agencyHeader_ok
  header_ne := List.cons_ne_nil _ _
  names _ := rfl
  columnsOk := id
  functional h h' := Except.ok.inj (h.symm.trans h')
  decoded_of_kept hok hkept := ⟨_, agencyOf_holds (hkept.holds (agency_distinct _) hok), rfl⟩
  kept_of_same hok h hsame := by
    cases hsame
    exact agencyOf_kept hok h
  key := Agency.agencyId
  same_key h := congrArg _ h
  key_read := agencyOf_key

def stopCodec (hR : R.Reread) : KeyCodec (Stop D) where
  header := stopsHeader
  columns := stopColumns R
  decoded row s := stopOf R row = .ok (.ok s)
  same := Stop.Same R
  Ok := Stop.Ok R
  Kept s := ColumnsKept (stopColumns R s) ∧ s.coordinatesPresent = true
  headerOk := stopsHeader_ok
  header_ne := List.cons_ne_nil _ _
  names _ := rfl
  columnsOk := Stop.Ok.columns
  functional h h' := Except.ok.inj (Except.ok.inj (h.symm.trans h'))
  decoded_of_kept hok hkept :=
    stopOf_holds hR hok (hkept.1.holds (stop_distinct _) hok.columns) hkept.2
  kept_of_same := stopOf_kept hR
  key := Stop.stopId
  same_key h := by rw [h.fields]
  key_read := stopOf_key

def routeCodec : KeyCodec Route where
  header := routesHeader
  columns := routeColumns
  decoded := RouteRead
  same := Eq
  Ok := Route.Ok
  Kept r := ColumnsKept (routeColumns r)
  headerOk := routesHeader_ok
  header_ne := List.cons_ne_nil _ _
  names _ := rfl
  columnsOk := Route.Ok.columns
  functional h h' := Except.ok.inj (h.1.symm.trans h'.1)
  decoded_of_kept {r} hok hkept :=
    ⟨r, ⟨routeOf_holds hok (hkept.holds (route_distinct r) hok.columns), hok.named⟩, rfl⟩
  kept_of_same hok h hsame := by
    cases hsame
    exact routeOf_kept hok h.1
  key := Route.routeId
  same_key h := congrArg _ h
  key_read hok h := routeOf_key hok h.1

def tripCodec : KeyCodec Trip where
  header := tripsHeader
  columns := tripColumns
  decoded row t := tripOf row = .ok t
  same := Eq
  Ok := Trip.Ok
  Kept t := ColumnsKept (tripColumns t)
  headerOk := tripsHeader_ok
  header_ne := List.cons_ne_nil _ _
  names _ := rfl
  columnsOk := Trip.Ok.columns
  functional h h' := Except.ok.inj (h.symm.trans h')
  decoded_of_kept hok hkept :=
    ⟨_, tripOf_holds hok (hkept.holds (trip_distinct _) hok.columns), rfl⟩
  kept_of_same hok h hsame := by
    cases hsame
    exact tripOf_kept hok h
  key := Trip.tripId
  same_key h := congrArg _ h
  key_read := tripOf_key

def stopTimeCodec (hR : R.Reread) : RowCodec (StopTime D) where
  header := stopTimesHeader
  columns := stopTimeColumns R
  decoded row st := stopTimeOf R row = .ok st
  same := StopTime.Same R
  Ok := StopTime.Ok R
  Kept st := ColumnsKept (stopTimeColumns R st)
  headerOk := stopTimesHeader_ok
  header_ne := List.cons_ne_nil _ _
  names _ := rfl
  columnsOk := StopTime.Ok.columns
  functional h h' := Except.ok.inj (h.symm.trans h')
  decoded_of_kept hok hkept :=
    stopTimeOf_holds hR hok (hkept.holds (stopTime_distinct _) hok.columns)
  kept_of_same := stopTimeOf_kept

def shapePointCodec (hR : R.Reread) : KeyCodec (ShapePoint D) where
  header := shapesHeader
  columns := shapePointColumns R
  decoded row pt := shapePointOf R row = .ok pt
  same := ShapePoint.Same R
  Ok := ShapePoint.Ok R
  Kept pt := ColumnsKept (shapePointColumns R pt)
  headerOk := shapesHeader_ok
  header_ne := List.cons_ne_nil _ _
  names _ := rfl
  columnsOk := ShapePoint.Ok.columns
  functional h h' := Except.ok.inj (h.symm.trans h')
  decoded_of_kept hok hkept :=
    shapePointOf_holds hR hok (hkept.holds (shapePoint_distinct _) hok.columns)
  kept_of_same := shapePointOf_kept
  key := ShapePoint.shapeId
  same_key h := h.shapeId.symm
  key_read := shapePointOf_key

end tables

end Pfaedle.Gtfs

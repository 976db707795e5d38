import Pfaedle.FeedRows

set_option autoImplicit false

/-!
# The field values of a row

`Shows row entity` says column by column that an entity has the values of a row, with the default
where a column is absent or empty.
-/
namespace Pfaedle.Gtfs

section columns

def Required (row : Record) (key : String) (field : Text) : Prop :=
  row.find? key.toList = some field

def Optional (row : Record) (key : String) (field : Text) : Prop :=
  getValueOrDefault row key [] = field

def RequiredInt {A : Type} (cast : ℤ → A) (row : Record) (key : String) (field : A) : Prop :=
  ∃ z, stoi (getValueOrDefault row key []) = .ok z ∧ field = cast z

def OptionalInt {A : Type} (cast : ℤ → A) (default : A) (row : Record) (key : String) (field : A) :
    Prop :=
  getValueOrDefault row key [] = [] ∧ field = default ∨ RequiredInt cast row key field

def RequiredTime (row : Record) (key : String) (field : Time) : Prop :=
  ∃ text, Required row key text ∧ Time.parse text = .ok field

def RequiredDate (row : Record) (key : String) (field : Date) : Prop :=
  ∃ text, Required row key text ∧ Date.parse text = .ok field

variable {D : Type} (R : Doubles D)

def RequiredFraction (row : Record) (key : String) (field : D) : Prop :=
  R.stod (getValueOrDefault row key []) = .ok field

def OptionalFraction (row : Record) (key : String) (field : D) : Prop :=
  getValueOrDefault row key [] = [] ∧ field = R.ofInt 0 ∨ RequiredFraction R row key field

variable {R} {row : Record} {key : String}

theorem rowAt_ok {field : Text} (h : rowAt row key = .ok field) : Required row key field := by
  rw [rowAt] at h
  cases hfind : row.find? key.toList with
  | none =>
    rw [hfind] at h
    cases h
  | some value =>
    rw [hfind] at h
    cases h
    exact hfind

theorem Required.optional {field : Text} (h : Required row key field) : Optional row key field := by
  rw [Optional, getValueOrDefault, h]
  rfl

theorem setField_required {A : Type} {cast : ℤ → A} {default field : A}
    (h : setField cast default row key false = .ok field) : RequiredInt cast row key field := by
  rw [setField] at h
  rw [if_pos (Or.inr rfl)] at h
  obtain ⟨z, hz, hfield⟩ := map_ok.1 h
  exact ⟨z, hz, hfield.symm⟩

theorem setField_optional {A : Type} {cast : ℤ → A} {default field : A}
    (h : setField cast default row key true = .ok field) :
    OptionalInt cast default row key field := by
  rw [setField] at h
  by_cases hkey : getValueOrDefault row key [] = []
  · rw [if_neg fun hh => hh.elim (fun hne => hne hkey) Bool.noConfusion] at h
    cases h
    exact Or.inl ⟨hkey, rfl⟩
  · rw [if_pos (Or.inl hkey)] at h
    obtain ⟨z, hz, hfield⟩ := map_ok.1 h
    exact Or.inr ⟨z, hz, hfield.symm⟩

theorem setFractional_required {field : D} {present : Bool}
    (h : setFractional R (R.ofInt 0) row key false = .ok (field, present)) :
    RequiredFraction R row key field := by
  rw [setFractional] at h
  rw [if_pos (Or.inr rfl)] at h
  obtain ⟨d, hd, hfield⟩ := map_ok.1 h
  cases hfield
  exact hd

theorem setFractional_optional {field : D} {present : Bool}
    (h : setFractional R (R.ofInt 0) row key true = .ok (field, present)) :
    OptionalFraction R row key field ∧
      (present = true ↔ getValueOrDefault row key [] ≠ []) := by
  rw [setFractional] at h
  by_cases hkey : getValueOrDefault row key [] = []
  · rw [if_neg fun hh => hh.elim (fun hne => hne hkey) Bool.noConfusion] at h
    cases h
    exact ⟨Or.inl ⟨hkey, rfl⟩, Bool.noConfusion, fun hne => absurd hkey hne⟩
  · rw [if_pos (Or.inl hkey)] at h
    obtain ⟨d, hd, hfield⟩ := map_ok.1 h
    cases hfield
    exact ⟨Or.inr hd, fun _ => hkey, fun _ => rfl⟩

theorem requiredInt_of_row {A : Type} {cast : ℤ → A} {field : A}
    (h : cast <$> (rowAt row key >>= stoi) = .ok field) : RequiredInt cast row key field := by
  obtain ⟨z, hz, hfield⟩ := map_ok.1 h
  obtain ⟨text, htext, hz⟩ := bind_ok.1 hz
  have hvalue : getValueOrDefault row key [] = text := (rowAt_ok htext).optional
  exact ⟨z, by rw [hvalue]; exact hz, hfield.symm⟩

theorem requiredTime_of_row {field : Time} (h : rowAt row key >>= Time.parse = .ok field) :
    RequiredTime row key field := by
  obtain ⟨text, htext, hfield⟩ := bind_ok.1 h
  exact ⟨text, rowAt_ok htext, hfield⟩

theorem requiredDate_of_row {field : Date} (h : rowAt row key >>= Date.parse = .ok field) :
    RequiredDate row key field := by
  obtain ⟨text, htext, hfield⟩ := bind_ok.1 h
  exact ⟨text, rowAt_ok htext, hfield⟩

theorem requiredFraction_of_row {field : D} (h : rowAt row key >>= R.stod = .ok field) :
    RequiredFraction R row key field := by
  obtain ⟨text, htext, hfield⟩ := bind_ok.1 h
  have hvalue : getValueOrDefault row key [] = text := (rowAt_ok htext).optional
  rw [RequiredFraction, hvalue]
  exact hfield

end columns

section shows

structure Agency.Shows (row : Record) (a : Agency) : Prop where
  agencyId : getValueOrDefault row "agency_id" (toStr 0) = a.agencyId
  agencyName : Required row "agency_name" a.agencyName
  agencyUrl : Required row "agency_url" a.agencyUrl
  agencyTimezone : Required row "agency_timezone" a.agencyTimezone
  agencyLang : Optional row "agency_lang" a.agencyLang
  agencyPhone : Optional row "agency_phone" a.agencyPhone
  agencyFareUrl : Optional row "agency_fare_url" a.agencyFareUrl
  agencyEmail : Optional row "agency_email" a.agencyEmail

structure Route.Shows (row : Record) (r : Route) : Prop where
  routeId : Required row "route_id" r.routeId
  routeType : RequiredInt id row "route_type" r.routeType
  agencyId : Optional row "agency_id" r.agencyId
  routeShortName : Optional row "route_short_name" r.routeShortName
  routeLongName : Optional row "route_long_name" r.routeLongName
  routeDesc : Optional row "route_desc" r.routeDesc
  routeUrl : Optional row "route_url" r.routeUrl
  routeColor : Optional row "route_color" r.routeColor
  routeTextColor : Optional row "route_text_color" r.routeTextColor
  routeSortOrder : OptionalInt sizeT 0 row "route_sort_order" r.routeSortOrder

structure Trip.Shows (row : Record) (t : Trip) : Prop where
  routeId : Required row "route_id" t.routeId
  serviceId : Required row "service_id" t.serviceId
  tripId : Required row "trip_id" t.tripId
  tripHeadsign : Optional row "trip_headsign" t.tripHeadsign
  tripShortName : Optional row "trip_short_name" t.tripShortName
  directionId : OptionalInt id TripDirectionId.defaultDirection row "direction_id" t.directionId
  blockId : Optional row "block_id" t.blockId
  shapeId : Optional row "shape_id" t.shapeId
  wheelchairAccessible :
    OptionalInt id TripAccess.noInfo row "wheelchair_accessible" t.wheelchairAccessible
  bikesAllowed : OptionalInt id TripAccess.noInfo row "bikes_allowed" t.bikesAllowed

structure CalendarItem.Shows (row : Record) (c : CalendarItem) : Prop where
  serviceId : Required row "service_id" c.serviceId
  monday : RequiredInt id row "monday" c.monday
  tuesday : RequiredInt id row "tuesday" c.tuesday
  wednesday : RequiredInt id row "wednesday" c.wednesday
  thursday : RequiredInt id row "thursday" c.thursday
  friday : RequiredInt id row "friday" c.friday
  saturday : RequiredInt id row "saturday" c.saturday
  sunday : RequiredInt id row "sunday" c.sunday
  startDate : RequiredDate row "start_date" c.startDate
  endDate : RequiredDate row "end_date" c.endDate

structure CalendarDate.Shows (row : Record) (c : CalendarDate) : Prop where
  serviceId : Required row "service_id" c.serviceId
  date : RequiredDate row "date" c.date
  exceptionType : RequiredInt id row "exception_type" c.exceptionType

structure FareRule.Shows (row : Record) (r : FareRule) : Prop where
  fareId : Required row "fare_id" r.fareId
  routeId : Optional row "route_id" r.routeId
  originId : Optional row "origin_id" r.originId
  destinationId : Optional row "destination_id" r.destinationId
  containsId : Optional row "contains_id" r.containsId

structure Frequency.Shows (row : Record) (f : Frequency) : Prop where
  tripId : Required row "trip_id" f.tripId
  startTime : RequiredTime row "start_time" f.startTime
  endTime : RequiredTime row "end_time" f.endTime
  headwaySecs : RequiredInt sizeT row "headway_secs" f.headwaySecs
  exactTimes :
    OptionalInt id FrequencyTripService.frequencyBased row "exact_times" f.exactTimes

structure Transfer.Shows (row : Record) (t : Transfer) : Prop where
  fromStopId : Required row "from_stop_id" t.fromStopId
  toStopId : Required row "to_stop_id" t.toStopId
  transferType : RequiredInt id row "transfer_type" t.transferType
  minTransferTime : OptionalInt sizeT 0 row "min_transfer_time" t.minTransferTime

structure FeedInfo.Shows (row : Record) (info : FeedInfo) : Prop where
  feedPublisherName : Required row "feed_publisher_name" info.feedPublisherName
  feedPublisherUrl : Required row "feed_publisher_url" info.feedPublisherUrl
  feedLang : Required row "feed_lang" info.feedLang
  feedStartDate :
    Date.parse (getValueOrDefault row "feed_start_date" []) = .ok info.feedStartDate
  feedEndDate : Date.parse (getValueOrDefault row "feed_end_date" []) = .ok info.feedEndDate
  feedVersion : Optional row "feed_version" info.feedVersion
  feedContactEmail : Optional row "feed_contact_email" info.feedContactEmail
  feedContactUrl : Optional row "feed_contact_url" info.feedContactUrl

variable {D : Type} (R : Doubles D)

structure Stop.Shows (row : Record) (s : Stop D) : Prop where
  stopId : Required row "stop_id" s.stopId
  stopName : Optional row "stop_name" s.stopName
  coordinatesPresent : s.coordinatesPresent = true ↔
    getValueOrDefault row "stop_lon" [] ≠ [] ∧ getValueOrDefault row "stop_lat" [] ≠ []
  stopLat : OptionalFraction R row "stop_lat" s.stopLat
  stopLon : OptionalFraction R row "stop_lon" s.stopLon
  zoneId : Optional row "zone_id" s.zoneId
  parentStation : Optional row "parent_station" s.parentStation
  stopCode : Optional row "stop_code" s.stopCode
  stopDesc : Optional row "stop_desc" s.stopDesc
  stopUrl : Optional row "stop_url" s.stopUrl
  locationType : OptionalInt id StopLocationType.genericNode row "location_type" s.locationType
  stopTimezone : Optional row "stop_timezone" s.stopTimezone
  wheelchairBoarding : Optional row "wheelchair_boarding" s.wheelchairBoarding
  levelId : Optional row "level_id" s.levelId
  platformCode : Optional row "platform_code" s.platformCode

structure StopTime.Shows (row : Record) (st : StopTime D) : Prop where
  tripId : Required row "trip_id" st.tripId
  stopId : Required row "stop_id" st.stopId
  stopSequence : RequiredInt sizeT row "stop_sequence" st.stopSequence
  arrivalTime : RequiredTime row "arrival_time" st.arrivalTime
  departureTime : RequiredTime row "departure_time" st.departureTime
  stopHeadsign : Optional row "stop_headsign" st.stopHeadsign
  pickupType : OptionalInt id StopTimeBoarding.regularlyScheduled row "pickup_type" st.pickupType
  dropOffType :
    OptionalInt id StopTimeBoarding.regularlyScheduled row "drop_off_type" st.dropOffType
  shapeDistTraveled : OptionalFraction R row "shape_dist_traveled" st.shapeDistTraveled
  timepoint : OptionalInt id StopTimePoint.exact row "timepoint" st.timepoint

structure ShapePoint.Shows (row : Record) (pt : ShapePoint D) : Prop where
  shapeId : Required row "shape_id" pt.shapeId
  shapePtLat : RequiredFraction R row "shape_pt_lat" pt.shapePtLat
  shapePtLon : RequiredFraction R row "shape_pt_lon" pt.shapePtLon
  shapePtSequence : RequiredInt sizeT row "shape_pt_sequence" pt.shapePtSequence
  shapeDistTraveled : OptionalFraction R row "shape_dist_traveled" pt.shapeDistTraveled

structure FareAttributesItem.Shows (row : Record) (i : FareAttributesItem D) : Prop where
  fareId : Required row "fare_id" i.fareId
  price : RequiredFraction R row "price" i.price
  currencyType : Required row "currency_type" i.currencyType
  paymentMethod : RequiredInt id row "payment_method" i.paymentMethod
  transfers : RequiredInt id row "transfers" i.transfers
  agencyId : Optional row "agency_id" i.agencyId
  transferDuration : OptionalInt sizeT 0 row "transfer_duration" i.transferDuration

end shows

section handlers
variable {D : Type} {R : Doubles D} {row : Record}

theorem agencyOf_shows {a : Agency} (h : agencyOf row = .ok a) : a.Shows row := by
  obtain ⟨name, hname, h⟩ := bind_ok.1 h
  obtain ⟨url, hurl, h⟩ := bind_ok.1 h
  obtain ⟨timezone, htimezone, h⟩ := bind_ok.1 h
  cases h
  exact ⟨rfl, rowAt_ok hname, rowAt_ok hurl, rowAt_ok htimezone, rfl, rfl, rfl, rfl⟩

theorem stopOf_shows {s : Stop D} (h : stopOf R row = .ok (.ok s)) : s.Shows R row := by
  obtain ⟨stopId, hid, h⟩ := bind_ok.1 h
  obtain ⟨⟨lon, setLon⟩, hlon, h⟩ := bind_ok.1 h
  obtain ⟨⟨lat, setLat⟩, hlat, h⟩ := bind_ok.1 h
  obtain ⟨locationType, htype, h⟩ := bind_ok.1 (Except.ok.inj h)
  cases h
  obtain ⟨hlonValue, hlonSet⟩ := setFractional_optional hlon
  obtain ⟨hlatValue, hlatSet⟩ := setFractional_optional hlat
  refine ⟨rowAt_ok hid, rfl, ?_, hlatValue, hlonValue, rfl, rfl, rfl, rfl, rfl,
    setField_optional htype, rfl, rfl, rfl, rfl⟩
  rw [Bool.and_eq_true, hlonSet, hlatSet]

theorem routeOf_shows {r : Route} (h : routeOf row = .ok r) : r.Shows row := by
  obtain ⟨routeId, hid, h⟩ := bind_ok.1 h
  obtain ⟨routeType, htype, h⟩ := bind_ok.1 h
  obtain ⟨order, horder, h⟩ := bind_ok.1 h
  cases h
  exact ⟨rowAt_ok hid, setField_required htype, rfl, rfl, rfl, rfl, rfl, rfl, rfl,
    setField_optional horder⟩

theorem tripOf_shows {t : Trip} (h : tripOf row = .ok t) : t.Shows row := by
  obtain ⟨routeId, hroute, h⟩ := bind_ok.1 h
  obtain ⟨serviceId, hservice, h⟩ := bind_ok.1 h
  obtain ⟨tripId, htrip, h⟩ := bind_ok.1 h
  obtain ⟨direction, hdirection, h⟩ := bind_ok.1 h
  obtain ⟨wheelchair, hwheelchair, h⟩ := bind_ok.1 h
  obtain ⟨bikes, hbikes, h⟩ := bind_ok.1 h
  cases h
  exact ⟨rowAt_ok hroute, rowAt_ok hservice, rowAt_ok htrip, rfl, rfl,
    setField_optional hdirection, rfl, rfl, setField_optional hwheelchair,
    setField_optional hbikes⟩

theorem stopTimeOf_shows {st : StopTime D} (h : stopTimeOf R row = .ok st) : st.Shows R row := by
  obtain ⟨tripId, htrip, h⟩ := bind_ok.1 h
  obtain ⟨stopId, hstop, h⟩ := bind_ok.1 h
  obtain ⟨sequence, hsequence, h⟩ := bind_ok.1 h
  obtain ⟨departure, hdeparture, h⟩ := bind_ok.1 h
  obtain ⟨arrival, harrival, h⟩ := bind_ok.1 h
  obtain ⟨pickup, hpickup, h⟩ := bind_ok.1 h
  obtain ⟨dropOff, hdropOff, h⟩ := bind_ok.1 h
  obtain ⟨⟨dist, distSet⟩, hdist, h⟩ := bind_ok.1 h
  obtain ⟨-, -, h⟩ := bind_ok.1 h
  obtain ⟨timepoint, htimepoint, h⟩ := bind_ok.1 h
  cases h
  exact ⟨rowAt_ok htrip, rowAt_ok hstop, requiredInt_of_row hsequence,
    requiredTime_of_row harrival, requiredTime_of_row hdeparture, rfl, setField_optional hpickup,
    setField_optional hdropOff, (setFractional_optional hdist).1, setField_optional htimepoint⟩

theorem calendarItemOf_shows {c : CalendarItem} (h : calendarItemOf row = .ok c) :
    c.Shows row := by
  obtain ⟨serviceId, hservice, h⟩ := bind_ok.1 h
  obtain ⟨monday, hmonday, h⟩ := bind_ok.1 h
  obtain ⟨tuesday, htuesday, h⟩ := bind_ok.1 h
  obtain ⟨wednesday, hwednesday, h⟩ := bind_ok.1 h
  obtain ⟨thursday, hthursday, h⟩ := bind_ok.1 h
  obtain ⟨friday, hfriday, h⟩ := bind_ok.1 h
  obtain ⟨saturday, hsaturday, h⟩ := bind_ok.1 h
  obtain ⟨sunday, hsunday, h⟩ := bind_ok.1 h
  obtain ⟨startDate, hstart, h⟩ := bind_ok.1 h
  obtain ⟨endDate, hend, h⟩ := bind_ok.1 h
  cases h
  exact ⟨rowAt_ok hservice, setField_required hmonday, setField_required htuesday,
    setField_required hwednesday, setField_required hthursday, setField_required hfriday,
    setField_required hsaturday, setField_required hsunday, requiredDate_of_row hstart,
    requiredDate_of_row hend⟩

theorem calendarDateOf_shows {c : CalendarDate} (h : calendarDateOf row = .ok c) :
    c.Shows row := by
  obtain ⟨serviceId, hservice, h⟩ := bind_ok.1 h
  obtain ⟨exceptionType, htype, h⟩ := bind_ok.1 h
  obtain ⟨date, hdate, h⟩ := bind_ok.1 h
  cases h
  exact ⟨rowAt_ok hservice, requiredDate_of_row hdate, setField_required htype⟩

theorem fareRuleOf_shows {r : FareRule} (h : fareRuleOf row = .ok r) : r.Shows row := by
  obtain ⟨fareId, hfare, h⟩ := bind_ok.1 h
  cases h
  exact ⟨rowAt_ok hfare, rfl, rfl, rfl, rfl⟩

theorem fareAttributesItemOf_shows {i : FareAttributesItem D}
    (h : fareAttributesItemOf R row = .ok i) : i.Shows R row := by
  obtain ⟨fareId, hfare, h⟩ := bind_ok.1 h
  obtain ⟨⟨price, priceSet⟩, hprice, h⟩ := bind_ok.1 h
  obtain ⟨currency, hcurrency, h⟩ := bind_ok.1 h
  obtain ⟨payment, hpayment, h⟩ := bind_ok.1 h
  obtain ⟨transfers, htransfers, h⟩ := bind_ok.1 h
  obtain ⟨duration, hduration, h⟩ := bind_ok.1 h
  cases h
  exact ⟨rowAt_ok hfare, setFractional_required hprice, rowAt_ok hcurrency,
    setField_required hpayment, setField_required htransfers, rfl, setField_optional hduration⟩

theorem shapePointOf_shows {pt : ShapePoint D} (h : shapePointOf R row = .ok pt) :
    pt.Shows R row := by
  obtain ⟨shapeId, hshape, h⟩ := bind_ok.1 h
  obtain ⟨sequence, hsequence, h⟩ := bind_ok.1 h
  obtain ⟨lon, hlon, h⟩ := bind_ok.1 h
  obtain ⟨lat, hlat, h⟩ := bind_ok.1 h
  obtain ⟨-, -, h⟩ := bind_ok.1 h
  obtain ⟨⟨dist, distSet⟩, hdist, h⟩ := bind_ok.1 h
  obtain ⟨-, -, h⟩ := bind_ok.1 h
  cases h
  exact ⟨rowAt_ok hshape, requiredFraction_of_row hlat, requiredFraction_of_row hlon,
    requiredInt_of_row hsequence, (setFractional_optional hdist).1⟩

theorem frequencyOf_shows {f : Frequency} (h : frequencyOf row = .ok f) : f.Shows row := by
  obtain ⟨tripId, htrip, h⟩ := bind_ok.1 h
  obtain ⟨startTime, hstart, h⟩ := bind_ok.1 h
  obtain ⟨endTime, hend, h⟩ := bind_ok.1 h
  obtain ⟨headway, hheadway, h⟩ := bind_ok.1 h
  obtain ⟨exact_times, hexact, h⟩ := bind_ok.1 h
  cases h
  exact ⟨rowAt_ok htrip, requiredTime_of_row hstart, requiredTime_of_row hend,
    setField_required hheadway, setField_optional hexact⟩

theorem transferOf_shows {t : Transfer} (h : transferOf row = .ok t) : t.Shows row := by
  obtain ⟨fromStop, hfrom, h⟩ := bind_ok.1 h
  obtain ⟨toStop, hto, h⟩ := bind_ok.1 h
  obtain ⟨transferType, htype, h⟩ := bind_ok.1 h
  obtain ⟨minTime, hmin, h⟩ := bind_ok.1 h
  cases h
  exact ⟨rowAt_ok hfrom, rowAt_ok hto, setField_required htype, setField_optional hmin⟩

theorem mapError_ok {E E' A : Type} {x : Except E A} {f : E → E'} {a : A}
    (h : x.mapError f = .ok a) : x = .ok a := by
  cases x with
  | error e => cases h
  | ok b =>
    cases h
    rfl

theorem readFeedInfoRow_shows {old info : FeedInfo} (h : readFeedInfoRow row old = .ok info) :
    info.Shows row := by
  obtain ⟨name, hname, h⟩ := bind_ok.1 h
  obtain ⟨url, hurl, h⟩ := bind_ok.1 h
  obtain ⟨lang, hlang, h⟩ := bind_ok.1 h
  obtain ⟨startDate, hstart, h⟩ := bind_ok.1 h
  obtain ⟨endDate, hend, h⟩ := bind_ok.1 h
  cases h
  exact ⟨rowAt_ok (mapError_ok hname), rowAt_ok (mapError_ok hurl), rowAt_ok (mapError_ok hlang),
    mapError_ok hstart, mapError_ok hend, rfl, rfl, rfl⟩

end handlers

end Pfaedle.Gtfs

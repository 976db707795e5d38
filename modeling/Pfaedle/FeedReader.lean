import Pfaedle.GtfsFeed

set_option autoImplicit false

/-!
# `access::feed_reader`

Reading is `none` when an exception leaves a handler: `parse_csv` is `noexcept`, so the program
is terminated.
-/
namespace Pfaedle.Gtfs

inductive ResultCode where
  | ok
  | endOfFile
  | errorInvalidGtfsPath
  | errorFileAbsent
  | errorRequiredFieldAbsent
  | errorInvalidFieldFormat
  deriving DecidableEq

structure Result where
  code : ResultCode
  message : Text

def Result.ok : Result := ⟨.ok, []⟩

abbrev Files := String → Option Text

abbrev Record := SortedMap Text Text

section csv

def readRow (fieldSequence : List Text) (row : Text) : Record :=
  if row = ['\r'] then .empty
  else (fieldSequence.zip (splitRecord false row)).foldl (fun obj e => obj.set e.1 e.2) .empty

variable {F : Type}

def parseRows (filename : String) (fieldSequence : List Text)
    (addEntity : Record → F → Option (Result × F)) : List Text → F → Option (Result × F)
  | [], f => some (⟨.ok, "Parsed ".toList ++ filename.toList⟩, f)
  | row :: rows, f =>
    let record := readRow fieldSequence row
    if record.entries = [] then parseRows filename fieldSequence addEntity rows f
    else
      match addEntity record f with
      | none => none
      | some (res, f) =>
        if res.code = .ok then parseRows filename fieldSequence addEntity rows f
        else some ({ res with
          message := res.message ++ " while adding item from ".toList ++ filename.toList }, f)

def parseCsv (files : Files) (filename : String) (addEntity : Record → F → Option (Result × F))
    (f : F) : Option (Result × F) :=
  match files filename with
  | none =>
    some (⟨.errorFileAbsent, "File ".toList ++ filename.toList ++ " could not be opened".toList⟩, f)
  | some content =>
    match lines content with
    | [] => some (⟨.errorInvalidFieldFormat, "Empty header in file ".toList ++ filename.toList⟩, f)
    | header :: rows =>
      if header = [] then
        some (⟨.errorInvalidFieldFormat, "Empty header in file ".toList ++ filename.toList⟩, f)
      else parseRows filename (splitRecord true header) addEntity rows f

end csv

section fields

def rowAt (row : Record) (key : String) : Except StdException Text :=
  match row.find? key.toList with
  | some value => .ok value
  | none => .error (.outOfRange "map::at".toList)

def getValueOrDefault (row : Record) (key : String) (default : Text) : Text :=
  (row.find? key.toList).getD default

def setField {A : Type} (cast : ℤ → A) (field : A) (row : Record) (key : String)
    (isOptional : Bool) : Except StdException A :=
  let keyStr := getValueOrDefault row key []
  if keyStr ≠ [] ∨ isOptional = false then cast <$> stoi keyStr else .ok field

variable {D : Type} (R : Doubles D)

def setFractional (field : D) (row : Record) (key : String) (isOptional : Bool) :
    Except StdException (D × Bool) :=
  let keyStr := getValueOrDefault row key []
  if keyStr ≠ [] ∨ isOptional = false then (fun d => (d, true)) <$> R.stod keyStr
  else .ok (field, false)

def checkCoordinates (latitude longitude : D) : Except StdException Unit :=
  if R.lt latitude (R.ofInt (-90)) ∨ R.lt (R.ofInt 90) latitude then
    .error (.outOfRange "Latitude".toList)
  else if R.lt longitude (R.ofInt (-180)) ∨ R.lt (R.ofInt 180) longitude then
    .error (.outOfRange "Longitude".toList)
  else .ok ()

def checkDistTraveled (dist : D) : Except StdException Unit :=
  if R.lt dist (R.ofInt 0) then .error (.invalidArgument "Invalid shape_dist_traveled".toList)
  else .ok ()

def failure : StdException → Result
  | .outOfRange what => ⟨.errorRequiredFieldAbsent, what⟩
  | .invalidArgument what => ⟨.errorInvalidFieldFormat, what⟩
  | .invalidFieldFormat what => ⟨.errorInvalidFieldFormat, what⟩

end fields

section entities
variable {D : Type} (R : Doubles D)

/-- `index` is never counted up, so an absent id is always `0`. -/
def agencyOf (row : Record) : Except StdException Agency := do
  let agencyName ← rowAt row "agency_name"
  let agencyUrl ← rowAt row "agency_url"
  let agencyTimezone ← rowAt row "agency_timezone"
  .ok { agencyId := getValueOrDefault row "agency_id" (toStr 0)
        agencyName, agencyUrl, agencyTimezone
        agencyLang := getValueOrDefault row "agency_lang" []
        agencyPhone := getValueOrDefault row "agency_phone" []
        agencyFareUrl := getValueOrDefault row "agency_fare_url" []
        agencyEmail := getValueOrDefault row "agency_email" [] }

/-- The location type is read after the `try` block: the inner exceptions are not caught. -/
def stopOf (row : Record) : Except StdException (Except StdException (Stop D)) := do
  let stopId ← rowAt row "stop_id"
  let (stopLon, setLon) ← setFractional R (R.ofInt 0) row "stop_lon" true
  let (stopLat, setLat) ← setFractional R (R.ofInt 0) row "stop_lat" true
  .ok do
    let locationType ← setField id StopLocationType.genericNode row "location_type" true
    .ok { stopId, stopLon, stopLat, locationType
          coordinatesPresent := setLon && setLat
          stopName := getValueOrDefault row "stop_name" []
          parentStation := getValueOrDefault row "parent_station" []
          zoneId := getValueOrDefault row "zone_id" []
          stopCode := getValueOrDefault row "stop_code" []
          stopDesc := getValueOrDefault row "stop_desc" []
          stopUrl := getValueOrDefault row "stop_url" []
          stopTimezone := getValueOrDefault row "stop_timezone" []
          wheelchairBoarding := getValueOrDefault row "wheelchair_boarding" []
          levelId := getValueOrDefault row "level_id" []
          platformCode := getValueOrDefault row "platform_code" [] }

def routeOf (row : Record) : Except StdException Route := do
  let routeId ← rowAt row "route_id"
  let routeType ← setField id RouteType.tram row "route_type" false
  let routeSortOrder ← setField sizeT 0 row "route_sort_order" true
  .ok { routeId, routeType, routeSortOrder
        agencyId := getValueOrDefault row "agency_id" []
        routeShortName := getValueOrDefault row "route_short_name" []
        routeLongName := getValueOrDefault row "route_long_name" []
        routeColor := getValueOrDefault row "route_color" []
        routeTextColor := getValueOrDefault row "route_text_color" []
        routeDesc := getValueOrDefault row "route_desc" []
        routeUrl := getValueOrDefault row "route_url" [] }

def tripOf (row : Record) : Except StdException Trip := do
  let routeId ← rowAt row "route_id"
  let serviceId ← rowAt row "service_id"
  let tripId ← rowAt row "trip_id"
  let directionId ← setField id TripDirectionId.defaultDirection row "direction_id" true
  let wheelchairAccessible ← setField id TripAccess.noInfo row "wheelchair_accessible" true
  let bikesAllowed ← setField id TripAccess.noInfo row "bikes_allowed" true
  .ok { routeId, serviceId, tripId, directionId, wheelchairAccessible, bikesAllowed
        shapeId := getValueOrDefault row "shape_id" []
        tripHeadsign := getValueOrDefault row "trip_headsign" []
        tripShortName := getValueOrDefault row "trip_short_name" []
        blockId := getValueOrDefault row "block_id" [] }

def stopTimeOf (row : Record) : Except StdException (StopTime D) := do
  let tripId ← rowAt row "trip_id"
  let stopId ← rowAt row "stop_id"
  let stopSequence ← sizeT <$> (rowAt row "stop_sequence" >>= stoi)
  let departureTime ← rowAt row "departure_time" >>= Time.parse
  let arrivalTime ← rowAt row "arrival_time" >>= Time.parse
  let pickupType ← setField id StopTimeBoarding.regularlyScheduled row "pickup_type" true
  let dropOffType ← setField id StopTimeBoarding.regularlyScheduled row "drop_off_type" true
  let (shapeDistTraveled, _) ← setFractional R (R.ofInt 0) row "shape_dist_traveled" true
  checkDistTraveled R shapeDistTraveled
  let timepoint ← setField id StopTimePoint.exact row "timepoint" true
  .ok { tripId, stopId, stopSequence, departureTime, arrivalTime, pickupType, dropOffType
        shapeDistTraveled, timepoint
        stopHeadsign := getValueOrDefault row "stop_headsign" [] }

def calendarItemOf (row : Record) : Except StdException CalendarItem := do
  let serviceId ← rowAt row "service_id"
  let monday ← setField id CalendarAvailability.notAvailable row "monday" false
  let tuesday ← setField id CalendarAvailability.notAvailable row "tuesday" false
  let wednesday ← setField id CalendarAvailability.notAvailable row "wednesday" false
  let thursday ← setField id CalendarAvailability.notAvailable row "thursday" false
  let friday ← setField id CalendarAvailability.notAvailable row "friday" false
  let saturday ← setField id CalendarAvailability.notAvailable row "saturday" false
  let sunday ← setField id CalendarAvailability.notAvailable row "sunday" false
  let startDate ← rowAt row "start_date" >>= Date.parse
  let endDate ← rowAt row "end_date" >>= Date.parse
  .ok { serviceId, monday, tuesday, wednesday, thursday, friday, saturday, sunday
        startDate, endDate }

def calendarDateOf (row : Record) : Except StdException CalendarDate := do
  let serviceId ← rowAt row "service_id"
  let exceptionType ← setField id CalendarDateException.added row "exception_type" false
  let date ← rowAt row "date" >>= Date.parse
  .ok { serviceId, exceptionType, date }

def fareRuleOf (row : Record) : Except StdException FareRule := do
  let fareId ← rowAt row "fare_id"
  .ok { fareId
        routeId := getValueOrDefault row "route_id" []
        originId := getValueOrDefault row "origin_id" []
        destinationId := getValueOrDefault row "destination_id" []
        containsId := getValueOrDefault row "contains_id" [] }

def fareAttributesItemOf (row : Record) : Except StdException (FareAttributesItem D) := do
  let fareId ← rowAt row "fare_id"
  let (price, _) ← setFractional R (R.ofInt 0) row "price" false
  let currencyType ← rowAt row "currency_type"
  let paymentMethod ← setField id FarePayment.beforeBoarding row "payment_method" false
  let transfers ← setField id FareTransfers.unlimited row "transfers" false
  let transferDuration ← setField sizeT 0 row "transfer_duration" true
  .ok { fareId, price, currencyType, paymentMethod, transfers, transferDuration
        agencyId := getValueOrDefault row "agency_id" [] }

def shapePointOf (row : Record) : Except StdException (ShapePoint D) := do
  let shapeId ← rowAt row "shape_id"
  let shapePtSequence ← sizeT <$> (rowAt row "shape_pt_sequence" >>= stoi)
  let shapePtLon ← rowAt row "shape_pt_lon" >>= R.stod
  let shapePtLat ← rowAt row "shape_pt_lat" >>= R.stod
  checkCoordinates R shapePtLat shapePtLon
  let (shapeDistTraveled, _) ← setFractional R (R.ofInt 0) row "shape_dist_traveled" true
  checkDistTraveled R shapeDistTraveled
  .ok { shapeId, shapePtSequence, shapePtLon, shapePtLat, shapeDistTraveled }

def frequencyOf (row : Record) : Except StdException Frequency := do
  let tripId ← rowAt row "trip_id"
  let startTime ← rowAt row "start_time" >>= Time.parse
  let endTime ← rowAt row "end_time" >>= Time.parse
  let headwaySecs ← setField sizeT 0 row "headway_secs" false
  let exactTimes ← setField id FrequencyTripService.frequencyBased row "exact_times" true
  .ok { tripId, startTime, endTime, headwaySecs, exactTimes }

def transferOf (row : Record) : Except StdException Transfer := do
  let fromStopId ← rowAt row "from_stop_id"
  let toStopId ← rowAt row "to_stop_id"
  let transferType ← setField id TransferType.recommended row "transfer_type" false
  let minTransferTime ← setField sizeT 0 row "min_transfer_time" true
  .ok { fromStopId, toStopId, transferType, minTransferTime }

/-- The handler writes into the feed field by field; an exception leaves the first fields. -/
def readFeedInfoRow (row : Record) (info : FeedInfo) : Except (StdException × FeedInfo) FeedInfo := do
  let orElse (x : Except StdException Text) (info : FeedInfo) := x.mapError (·, info)
  let info := { info with feedPublisherName := ← orElse (rowAt row "feed_publisher_name") info }
  let info := { info with feedPublisherUrl := ← orElse (rowAt row "feed_publisher_url") info }
  let info := { info with feedLang := ← orElse (rowAt row "feed_lang") info }
  let startDate ← (Date.parse (getValueOrDefault row "feed_start_date" [])).mapError (·, info)
  let info := { info with feedStartDate := startDate }
  let endDate ← (Date.parse (getValueOrDefault row "feed_end_date" [])).mapError (·, info)
  .ok { info with feedEndDate := endDate
                  feedVersion := getValueOrDefault row "feed_version" []
                  feedContactEmail := getValueOrDefault row "feed_contact_email" []
                  feedContactUrl := getValueOrDefault row "feed_contact_url" [] }

end entities

section tables
variable {D : Type} (R : Doubles D) (files : Files) {A F : Type}

def handler (entityOf : Record → Except StdException A) (add : F → A → F) (row : Record) (f : F) :
    Option (Result × F) :=
  match entityOf row with
  | .ok entity => some (.ok, add f entity)
  | .error ex => some (failure ex, f)

def readAgencies : SortedMap Text Agency → Option (Result × SortedMap Text Agency) :=
  parseCsv files "agency.txt" (handler agencyOf fun m a => m.insert a.agencyId a)

def readStops : SortedMap Text (Stop D) → Option (Result × SortedMap Text (Stop D)) :=
  parseCsv files "stops.txt" fun row m =>
    match stopOf R row with
    | .ok (.ok s) => some (.ok, m.insert s.stopId s)
    | .ok (.error _) => none
    | .error ex => some (failure ex, m)

def readRoutes : SortedMap Text Route → Option (Result × SortedMap Text Route) :=
  parseCsv files "routes.txt" fun row m =>
    match routeOf row with
    | .ok r =>
      if r.routeShortName = [] ∧ r.routeLongName = [] then
        some (⟨.errorRequiredFieldAbsent,
          "'route_short_name' or 'route_long_name' must be specified".toList⟩, m)
      else some (.ok, m.insert r.routeId r)
    | .error ex => some (failure ex, m)

def readTrips : SortedMap Text Trip → Option (Result × SortedMap Text Trip) :=
  parseCsv files "trips.txt" (handler tripOf fun m t => m.insert t.tripId t)

def readStopTimes : List (StopTime D) → Option (Result × List (StopTime D)) :=
  parseCsv files "stop_times.txt" (handler (stopTimeOf R) fun l st => l ++ [st])

def readCalendar : SortedMap Text CalendarItem → Option (Result × SortedMap Text CalendarItem) :=
  parseCsv files "calendar.txt" (handler calendarItemOf fun m c => m.insert c.serviceId c)

def readCalendarDates : SortedMap Text CalendarDate → Option (Result × SortedMap Text CalendarDate) :=
  parseCsv files "calendar_dates.txt" (handler calendarDateOf fun m c => m.insert c.serviceId c)

def readFareRules : SortedMap Text FareRule → Option (Result × SortedMap Text FareRule) :=
  parseCsv files "fare_rules.txt" (handler fareRuleOf fun m r => m.insert r.fareId r)

def readFareAttributes : SortedMap Text (FareAttributesItem D) →
    Option (Result × SortedMap Text (FareAttributesItem D)) :=
  parseCsv files "fare_attributes.txt"
    (handler (fareAttributesItemOf R) fun m i => m.insert i.fareId i)

def pushPoint (pt : ShapePoint D) (old : Option (Shape D)) : Shape D :=
  let shape := old.getD ⟨[], []⟩
  ⟨if shape.points = [] then pt.shapeId else shape.shapeId, shape.points ++ [pt]⟩

def addPoint (m : SortedMap Text (Shape D)) (pt : ShapePoint D) : SortedMap Text (Shape D) :=
  m.alter pt.shapeId (pushPoint pt)

def readShapes : SortedMap Text (Shape D) → Option (Result × SortedMap Text (Shape D)) :=
  parseCsv files "shapes.txt" (handler (shapePointOf R) addPoint)

def readFrequencies : List Frequency → Option (Result × List Frequency) :=
  parseCsv files "frequencies.txt" (handler frequencyOf fun l f => l ++ [f])

def readTransfers :
    SortedMap (Text ×ₗ Text) Transfer → Option (Result × SortedMap (Text ×ₗ Text) Transfer) :=
  parseCsv files "transfers.txt"
    (handler transferOf fun m t => m.insert (toLex (t.fromStopId, t.toStopId)) t)

def readFeedInfo : FeedInfo → Option (Result × FeedInfo) :=
  parseCsv files "feed_info.txt" fun row info =>
    match readFeedInfoRow row info with
    | .ok info => some (.ok, info)
    | .error (ex, info) => some (failure ex, info)

end tables

section read
variable {D : Type} (R : Doubles D) (files : Files)

structure ReadConfig where
  agencies : Bool
  stops : Bool
  routes : Bool
  trips : Bool
  stopTimes : Bool
  calendar : Bool
  calendarDates : Bool
  shapes : Bool
  transfers : Bool
  frequencies : Bool
  fareAttributes : Bool
  fareRules : Bool
  feedInfo : Bool

def ReadConfig.default : ReadConfig :=
  ⟨true, true, true, true, true, true, true, true, true, true, true, true, true⟩

def errorParsingFile (res : Result) : Bool := res.code ≠ .ok

def errorParsingOptionalFile (res : Result) : Bool :=
  res.code ≠ .ok ∧ res.code ≠ .errorFileAbsent

/-- One `if` of `read`: an enabled table is read, and its errors end the reading. -/
def readTable {F : Type} (enabled : Bool) (isError : Result → Bool)
    (table rest : F → Option (Result × F)) (f : F) : Option (Result × F) :=
  if enabled then
    match table f with
    | none => none
    | some (res, f) => if isError res then some (res, f) else rest f
  else rest f

def inFeed {F G : Type} (get : F → G) (put : F → G → F) (table : G → Option (Result × G)) (f : F) :
    Option (Result × F) :=
  (table (get f)).map fun (res, g) => (res, put f g)

def read (config : ReadConfig) : Feed D → Option (Result × Feed D) :=
  readTable config.agencies errorParsingFile
      (inFeed Feed.agencies (fun f m => { f with agencies := m }) (readAgencies files)) <|
  readTable config.stops errorParsingFile
      (inFeed Feed.stops (fun f m => { f with stops := m }) (readStops R files)) <|
  readTable config.routes errorParsingFile
      (inFeed Feed.routes (fun f m => { f with routes := m }) (readRoutes files)) <|
  readTable config.trips errorParsingFile
      (inFeed Feed.trips (fun f m => { f with trips := m }) (readTrips files)) <|
  readTable config.stopTimes errorParsingFile
      (inFeed Feed.stopTimes (fun f m => { f with stopTimes := m }) (readStopTimes R files)) <|
  readTable config.calendar errorParsingOptionalFile
      (inFeed Feed.calendar (fun f m => { f with calendar := m }) (readCalendar files)) <|
  readTable config.calendarDates errorParsingOptionalFile
      (inFeed Feed.calendarDates (fun f m => { f with calendarDates := m })
        (readCalendarDates files)) <|
  readTable config.shapes errorParsingOptionalFile
      (inFeed Feed.shapes (fun f m => { f with shapes := m }) (readShapes R files)) <|
  readTable config.transfers errorParsingOptionalFile
      (inFeed Feed.transfers (fun f m => { f with transfers := m }) (readTransfers files)) <|
  readTable config.frequencies errorParsingOptionalFile
      (inFeed Feed.frequencies (fun f m => { f with frequencies := m }) (readFrequencies files)) <|
  readTable config.fareAttributes errorParsingOptionalFile
      (inFeed Feed.fareAttributes (fun f m => { f with fareAttributes := m })
        (readFareAttributes R files)) <|
  readTable config.fareRules errorParsingOptionalFile
      (inFeed Feed.fareRules (fun f m => { f with fareRules := m }) (readFareRules files)) <|
  readTable config.feedInfo errorParsingOptionalFile
      (inFeed Feed.feedInfo (fun f m => { f with feedInfo := m }) (readFeedInfo files)) <|
  fun f => some (.ok, f)

end read

end Pfaedle.Gtfs

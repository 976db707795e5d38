import Pfaedle.FeedReader
import Mathlib.Logic.Function.Basic

set_option autoImplicit false

/-!
# `access::feed_writter`

The writers of seven tables have no body: they write nothing and return no result. What their
caller finds in the place of a result is left open, as a function `unreturned` of the table.
-/
namespace Pfaedle.Gtfs

section tables

def writeJoined (elements : List Text) : Text := joined elements ++ ['\n']

def wrapInt (z : ℤ) : Text := toStr z

def wrapSize (n : ℕ) : Text := toStr (intT n)

def agencyHeader : List String :=
  ["agency_id", "agency_name", "agency_url", "agency_timezone", "agency_lang", "agency_phone",
    "agency_fare_url", "agency_email"]

def routesHeader : List String :=
  ["route_id", "agency_id", "route_short_name", "route_long_name", "route_desc", "route_type",
    "route_url", "route_color", "route_text_color", "route_sort_order", "continuous_pickup",
    "continuous_drop_off"]

def shapesHeader : List String :=
  ["shape_id", "shape_pt_lat", "shape_pt_lon", "shape_pt_sequence", "shape_dist_traveled"]

def tripsHeader : List String :=
  ["route_id", "service_id", "trip_id", "trip_headsign", "trip_short_name", "direction_id",
    "block_id", "shape_id", "wheelchair_accessible", "bikes_allowed"]

def stopsHeader : List String :=
  ["stop_id", "stop_code", "stop_name", "stop_desc", "stop_lat", "stop_lon", "zone_id",
    "stop_url", "location_type", "parent_station", "stop_timezone", "wheelchair_boarding",
    "level_id", "platform_code"]

def stopTimesHeader : List String :=
  ["trip_id", "arrival_time", "departure_time", "stop_id", "stop_sequence", "stop_headsign",
    "pickup_type", "drop_off_type", "continuous_pickup", "continuous_drop_off",
    "shape_dist_traveled", "timepoint"]

def agencyFields (agency : Agency) : List Text :=
  [wrap agency.agencyId, wrap agency.agencyName, wrap agency.agencyUrl, agency.agencyTimezone,
    agency.agencyLang, wrap agency.agencyPhone, agency.agencyFareUrl, agency.agencyEmail]

def routeFields (route : Route) : List Text :=
  [wrap route.routeId, wrap route.agencyId, wrap route.routeShortName, wrap route.routeLongName,
    wrap route.routeDesc, wrapInt route.routeType, route.routeUrl, route.routeColor,
    route.routeTextColor, wrapSize route.routeSortOrder, [], []]

def tripFields (trip : Trip) : List Text :=
  [wrap trip.routeId, wrap trip.serviceId, wrap trip.tripId, wrap trip.tripHeadsign,
    wrap trip.tripShortName, wrapInt trip.directionId, wrap trip.blockId, wrap trip.shapeId,
    wrapInt trip.wheelchairAccessible, wrapInt trip.bikesAllowed]

variable {D : Type} (R : Doubles D)

def shapePointFields (point : ShapePoint D) : List Text :=
  [wrap point.shapeId, R.fixed point.shapePtLat, R.fixed point.shapePtLon,
    wrapSize point.shapePtSequence, R.fixed point.shapeDistTraveled]

def stopFields (stop : Stop D) : List Text :=
  [wrap stop.stopId, wrap stop.stopCode, wrap stop.stopName, wrap stop.stopDesc,
    R.fixed stop.stopLat, R.fixed stop.stopLon, wrap stop.zoneId, stop.stopUrl,
    wrapInt stop.locationType, wrap stop.parentStation, stop.stopTimezone,
    wrap stop.wheelchairBoarding, wrap stop.levelId, wrap stop.platformCode]

def stopTimeFields (stopTime : StopTime D) : List Text :=
  [wrap stopTime.tripId, stopTime.arrivalTime.rawTime, stopTime.departureTime.rawTime,
    wrap stopTime.stopId, wrapSize stopTime.stopSequence, wrap stopTime.stopHeadsign,
    wrapInt stopTime.pickupType, wrapInt stopTime.dropOffType, [], [],
    R.fixed stopTime.shapeDistTraveled, wrapInt stopTime.timepoint]

end tables

section write
variable {D : Type} (R : Doubles D)

/-- A directory that files can be written to, unless it cannot be opened. -/
structure Directory where
  path : Text
  isOpen : Bool
  files : Files

def writeCsv (file : String) (header : List String) (entities : List (List Text))
    (out : Directory) : Result × Directory :=
  if out.isOpen = false then
    (⟨.errorInvalidGtfsPath, "Could not open path for writing ".toList ++ out.path ++ file.toList⟩,
      out)
  else
    (.ok, { out with
      files := Function.update out.files file
        (some (writeJoined (header.map String.toList) ++ entities.flatMap writeJoined)) })

def writeAgencies (feed : Feed D) : Directory → Result × Directory :=
  writeCsv "agency.txt" agencyHeader (feed.agencies.values.map agencyFields)

def writeRoutes (feed : Feed D) : Directory → Result × Directory :=
  writeCsv "routes.txt" routesHeader (feed.routes.values.map routeFields)

def writeShapes (feed : Feed D) : Directory → Result × Directory :=
  writeCsv "shapes.txt" shapesHeader
    (feed.shapes.values.flatMap fun shape => shape.points.map (shapePointFields R))

def writeTrips (feed : Feed D) : Directory → Result × Directory :=
  writeCsv "trips.txt" tripsHeader (feed.trips.values.map tripFields)

def writeStops (feed : Feed D) : Directory → Result × Directory :=
  writeCsv "stops.txt" stopsHeader (feed.stops.values.map (stopFields R))

def writeStopTimes (feed : Feed D) : Directory → Result × Directory :=
  writeCsv "stop_times.txt" stopTimesHeader (feed.stopTimes.map (stopTimeFields R))

def writeNothing (unreturned : String → Result) (file : String) (out : Directory) :
    Result × Directory := (unreturned file, out)

abbrev WriteConfig := ReadConfig

def writeTable (enabled : Bool) (table rest : Directory → Result × Directory) (out : Directory) :
    Result × Directory :=
  if enabled then
    let (res, out) := table out
    if res.code ≠ .ok then (res, out) else rest out
  else rest out

def write (unreturned : String → Result) (config : WriteConfig) (feed : Feed D) :
    Directory → Result × Directory :=
  writeTable config.agencies (writeAgencies feed) <|
  writeTable config.stops (writeStops R feed) <|
  writeTable config.routes (writeRoutes feed) <|
  writeTable config.trips (writeTrips feed) <|
  writeTable config.stopTimes (writeStopTimes R feed) <|
  writeTable config.calendar (writeNothing unreturned "calendar.txt") <|
  writeTable config.calendarDates (writeNothing unreturned "calendar_dates.txt") <|
  writeTable config.shapes (writeShapes R feed) <|
  writeTable config.transfers (writeNothing unreturned "transfers.txt") <|
  writeTable config.frequencies (writeNothing unreturned "frequencies.txt") <|
  writeTable config.fareAttributes (writeNothing unreturned "fare_attributes.txt") <|
  writeTable config.fareRules (writeNothing unreturned "fare_rules.txt") <|
  writeTable config.feedInfo (writeNothing unreturned "feed_info.txt") <|
  fun out => (.ok, out)

end write

section columns

def agencyColumns (a : Agency) : List (String × Cell) :=
  [("agency_id", .wrapped a.agencyId), ("agency_name", .wrapped a.agencyName),
    ("agency_url", .wrapped a.agencyUrl), ("agency_timezone", .raw a.agencyTimezone),
    ("agency_lang", .raw a.agencyLang), ("agency_phone", .wrapped a.agencyPhone),
    ("agency_fare_url", .raw a.agencyFareUrl), ("agency_email", .raw a.agencyEmail)]

def routeColumns (r : Route) : List (String × Cell) :=
  [("route_id", .wrapped r.routeId), ("agency_id", .wrapped r.agencyId),
    ("route_short_name", .wrapped r.routeShortName), ("route_long_name", .wrapped r.routeLongName),
    ("route_desc", .wrapped r.routeDesc), ("route_type", .plain (wrapInt r.routeType)),
    ("route_url", .raw r.routeUrl), ("route_color", .raw r.routeColor),
    ("route_text_color", .raw r.routeTextColor),
    ("route_sort_order", .plain (wrapSize r.routeSortOrder)), ("continuous_pickup", .plain []),
    ("continuous_drop_off", .plain [])]

def tripColumns (t : Trip) : List (String × Cell) :=
  [("route_id", .wrapped t.routeId), ("service_id", .wrapped t.serviceId),
    ("trip_id", .wrapped t.tripId), ("trip_headsign", .wrapped t.tripHeadsign),
    ("trip_short_name", .wrapped t.tripShortName), ("direction_id", .plain (wrapInt t.directionId)),
    ("block_id", .wrapped t.blockId), ("shape_id", .wrapped t.shapeId),
    ("wheelchair_accessible", .plain (wrapInt t.wheelchairAccessible)),
    ("bikes_allowed", .plain (wrapInt t.bikesAllowed))]

variable {D : Type} (R : Doubles D)

def shapePointColumns (pt : ShapePoint D) : List (String × Cell) :=
  [("shape_id", .wrapped pt.shapeId), ("shape_pt_lat", .plain (R.fixed pt.shapePtLat)),
    ("shape_pt_lon", .plain (R.fixed pt.shapePtLon)),
    ("shape_pt_sequence", .plain (wrapSize pt.shapePtSequence)),
    ("shape_dist_traveled", .plain (R.fixed pt.shapeDistTraveled))]

def stopColumns (s : Stop D) : List (String × Cell) :=
  [("stop_id", .wrapped s.stopId), ("stop_code", .wrapped s.stopCode),
    ("stop_name", .wrapped s.stopName), ("stop_desc", .wrapped s.stopDesc),
    ("stop_lat", .plain (R.fixed s.stopLat)), ("stop_lon", .plain (R.fixed s.stopLon)),
    ("zone_id", .wrapped s.zoneId), ("stop_url", .raw s.stopUrl),
    ("location_type", .plain (wrapInt s.locationType)),
    ("parent_station", .wrapped s.parentStation), ("stop_timezone", .raw s.stopTimezone),
    ("wheelchair_boarding", .wrapped s.wheelchairBoarding), ("level_id", .wrapped s.levelId),
    ("platform_code", .wrapped s.platformCode)]

def stopTimeColumns (st : StopTime D) : List (String × Cell) :=
  [("trip_id", .wrapped st.tripId), ("arrival_time", .raw st.arrivalTime.rawTime),
    ("departure_time", .raw st.departureTime.rawTime), ("stop_id", .wrapped st.stopId),
    ("stop_sequence", .plain (wrapSize st.stopSequence)),
    ("stop_headsign", .wrapped st.stopHeadsign), ("pickup_type", .plain (wrapInt st.pickupType)),
    ("drop_off_type", .plain (wrapInt st.dropOffType)), ("continuous_pickup", .plain []),
    ("continuous_drop_off", .plain []),
    ("shape_dist_traveled", .plain (R.fixed st.shapeDistTraveled)),
    ("timepoint", .plain (wrapInt st.timepoint))]

end columns

end Pfaedle.Gtfs

import Pfaedle.SortedMap
import Pfaedle.StdText
import Mathlib.Data.Char
import Mathlib.Data.List.Lex
import Mathlib.Data.Prod.Lex

set_option autoImplicit false

/-!
# `gtfs::feed`

Values of enumerations are the `int` behind them, since a reader casts any `int` to them.
-/
namespace Pfaedle.Gtfs

section enumerations

def RouteType.tram : ℤ := 0
def RouteType.bus : ℤ := 3
def StopLocationType.entranceExit : ℤ := 2
def StopLocationType.genericNode : ℤ := 3
def StopTimeBoarding.regularlyScheduled : ℤ := 0
def StopTimePoint.exact : ℤ := 1
def TripDirectionId.defaultDirection : ℤ := 0
def TripAccess.noInfo : ℤ := 0
def CalendarAvailability.notAvailable : ℤ := 0
def CalendarDateException.added : ℤ := 1
def FrequencyTripService.frequencyBased : ℤ := 0
def TransferType.recommended : ℤ := 0
def FarePayment.beforeBoarding : ℤ := 1
def FareTransfers.unlimited : ℤ := 3

end enumerations

section times

structure Time where
  timeIsProvided : Bool
  rawTime : Text
  totalSeconds : ℕ
  hh : ℕ
  mm : ℕ
  ss : ℕ
  deriving DecidableEq

def Time.default : Time := ⟨false, [], 0, 0, 0, 0⟩

def Time.parse (rawTimeStr : Text) : Except StdException Time :=
  if rawTimeStr = [] then .ok Time.default
  else
    let len := rawTimeStr.length
    if ¬ (len = 7 ∨ len = 8) ∨
        rawTimeStr[len - 3]? ≠ some ':' ∧ rawTimeStr[len - 6]? ≠ some ':' then
      invalidFieldFormat ("time is not in [H]H:MM:SS format: ".toList ++ rawTimeStr)
    else do
      let hh ← uint16T <$> stoi (rawTimeStr.take (len - 6))
      let mm ← uint16T <$> stoi ((rawTimeStr.drop (len - 5)).take 2)
      let ss ← uint16T <$> stoi (rawTimeStr.drop (len - 2))
      if 60 < mm ∨ 60 < ss then
        invalidFieldFormat ("time minutes/seconds wrong value: ".toList ++ toStr mm ++
          " minutes, ".toList ++ toStr ss ++ " seconds".toList)
      else .ok ⟨true, rawTimeStr, hh * 60 * 60 + mm * 60 + ss, hh, mm, ss⟩

structure Date where
  rawDate : Text
  yyyy : ℕ
  mm : ℕ
  dd : ℕ
  dateIsProvided : Bool
  deriving DecidableEq

def Date.default : Date := ⟨[], 0, 0, 0, false⟩

def Date.checkValid (yyyy mm dd : ℕ) : Except StdException Unit :=
  if yyyy < 1000 ∨ 9999 < yyyy ∨ mm < 1 ∨ 12 < mm ∨ dd < 1 ∨ 31 < dd then
    invalidFieldFormat ("date check failed: out of range. ".toList ++ toStr yyyy ++
      " year, ".toList ++ toStr mm ++ " month, ".toList ++ toStr dd ++ " day".toList)
  else if mm = 2 ∧ 28 < dd ∧ (yyyy % 4 ≠ 0 ∨ yyyy % 100 = 0 ∧ yyyy % 400 ≠ 0) then
    invalidFieldFormat ("Invalid days count in February of non-leap year: ".toList ++ toStr dd ++
      " year".toList ++ toStr yyyy)
  else if mm = 2 ∧ 29 < dd then
    invalidFieldFormat ("Invalid days count in February of leap year: ".toList ++ toStr dd ++
      " year".toList ++ toStr yyyy)
  else if 30 < dd ∧ (mm = 4 ∨ mm = 6 ∨ mm = 9 ∨ mm = 11) then
    invalidFieldFormat ("Invalid days count in month: ".toList ++ toStr dd ++ " days in ".toList ++
      toStr mm)
  else .ok ()

def Date.parse (rawDateStr : Text) : Except StdException Date :=
  if rawDateStr = [] then .ok Date.default
  else if rawDateStr.length ≠ 8 then
    invalidFieldFormat ("date is not in YYYY:MM::DD format: ".toList ++ rawDateStr)
  else do
    let yyyy ← uint16T <$> stoi (rawDateStr.take 4)
    let mm ← uint16T <$> stoi ((rawDateStr.drop 4).take 2)
    let dd ← uint16T <$> stoi ((rawDateStr.drop 6).take 2)
    Date.checkValid yyyy mm dd
    .ok ⟨rawDateStr, yyyy, mm, dd, true⟩

end times

section records

structure Agency where
  agencyId : Text
  agencyName : Text
  agencyUrl : Text
  agencyTimezone : Text
  agencyLang : Text
  agencyPhone : Text
  agencyFareUrl : Text
  agencyEmail : Text
  deriving DecidableEq

structure Stop (D : Type) where
  stopId : Text
  stopName : Text
  coordinatesPresent : Bool
  stopLat : D
  stopLon : D
  zoneId : Text
  parentStation : Text
  stopCode : Text
  stopDesc : Text
  stopUrl : Text
  locationType : ℤ
  stopTimezone : Text
  wheelchairBoarding : Text
  levelId : Text
  platformCode : Text
  deriving DecidableEq

structure Route where
  routeId : Text
  routeType : ℤ
  agencyId : Text
  routeShortName : Text
  routeLongName : Text
  routeDesc : Text
  routeUrl : Text
  routeColor : Text
  routeTextColor : Text
  routeSortOrder : ℕ
  deriving DecidableEq

structure Trip where
  routeId : Text
  serviceId : Text
  tripId : Text
  tripHeadsign : Text
  tripShortName : Text
  directionId : ℤ
  blockId : Text
  shapeId : Text
  wheelchairAccessible : ℤ
  bikesAllowed : ℤ
  deriving DecidableEq

structure StopTime (D : Type) where
  tripId : Text
  stopId : Text
  stopSequence : ℕ
  arrivalTime : Time
  departureTime : Time
  stopHeadsign : Text
  pickupType : ℤ
  dropOffType : ℤ
  shapeDistTraveled : D
  timepoint : ℤ
  deriving DecidableEq

structure ShapePoint (D : Type) where
  shapeId : Text
  shapePtLat : D
  shapePtLon : D
  shapePtSequence : ℕ
  shapeDistTraveled : D
  deriving DecidableEq

structure Shape (D : Type) where
  shapeId : Text
  points : List (ShapePoint D)
  deriving DecidableEq

structure CalendarItem where
  serviceId : Text
  monday : ℤ
  tuesday : ℤ
  wednesday : ℤ
  thursday : ℤ
  friday : ℤ
  saturday : ℤ
  sunday : ℤ
  startDate : Date
  endDate : Date
  deriving DecidableEq

structure CalendarDate where
  serviceId : Text
  date : Date
  exceptionType : ℤ
  deriving DecidableEq

structure Frequency where
  tripId : Text
  startTime : Time
  endTime : Time
  headwaySecs : ℕ
  exactTimes : ℤ
  deriving DecidableEq

structure Transfer where
  fromStopId : Text
  toStopId : Text
  transferType : ℤ
  minTransferTime : ℕ
  deriving DecidableEq

structure FareRule where
  fareId : Text
  routeId : Text
  originId : Text
  destinationId : Text
  containsId : Text
  deriving DecidableEq

structure FareAttributesItem (D : Type) where
  fareId : Text
  price : D
  currencyType : Text
  paymentMethod : ℤ
  transfers : ℤ
  agencyId : Text
  transferDuration : ℕ
  deriving DecidableEq

structure FeedInfo where
  feedPublisherName : Text
  feedPublisherUrl : Text
  feedLang : Text
  feedStartDate : Date
  feedEndDate : Date
  feedVersion : Text
  feedContactEmail : Text
  feedContactUrl : Text
  deriving DecidableEq

def FeedInfo.default : FeedInfo := ⟨[], [], [], Date.default, Date.default, [], [], []⟩

structure Feed (D : Type) where
  agencies : SortedMap Text Agency
  stops : SortedMap Text (Stop D)
  routes : SortedMap Text Route
  trips : SortedMap Text Trip
  stopTimes : List (StopTime D)
  calendar : SortedMap Text CalendarItem
  calendarDates : SortedMap Text CalendarDate
  fareRules : SortedMap Text FareRule
  fareAttributes : SortedMap Text (FareAttributesItem D)
  shapes : SortedMap Text (Shape D)
  frequencies : List Frequency
  transfers : SortedMap (Text ×ₗ Text) Transfer
  feedInfo : FeedInfo

def Feed.empty {D : Type} : Feed D where
  agencies := .empty
  stops := .empty
  routes := .empty
  trips := .empty
  stopTimes := []
  calendar := .empty
  calendarDates := .empty
  fareRules := .empty
  fareAttributes := .empty
  shapes := .empty
  frequencies := []
  transfers := .empty
  feedInfo := FeedInfo.default

end records

section constructors

theorem Time.parse_rawTime {raw : Text} {t : Time} (h : Time.parse raw = .ok t) :
    t.rawTime = raw := by
  rw [Time.parse] at h
  dsimp only at h
  split_ifs at h with hempty hformat
  · cases h
    exact hempty.symm
  · exact absurd h invalidFieldFormat_ne_ok
  · obtain ⟨hh, -, h⟩ := bind_ok.1 h
    obtain ⟨mm, -, h⟩ := bind_ok.1 h
    obtain ⟨ss, -, h⟩ := bind_ok.1 h
    split_ifs at h
    · exact absurd h invalidFieldFormat_ne_ok
    · cases h
      rfl

end constructors

end Pfaedle.Gtfs

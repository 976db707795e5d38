import Pfaedle.GtfsFeed
import Pfaedle.ReadOptions
import Pfaedle.Router
import Mathlib.Algebra.Order.Field.Basic

set_option autoImplicit false

/-!
# `mot_config_reader`

A section of the configuration is read into a `mot_config`. Numbers are exact.
-/
namespace Pfaedle.Config
open Osm Router

section text

/-- `util::split`; nothing comes after a separator at the end. -/
def split (s : String) (sep : Char) : List String :=
  let parts := s.toList.splitOn sep
  (if parts.getLast? = some [] then parts.dropLast else parts).map String.ofList

def trim (s : String) : String :=
  String.ofList ((s.toList.dropWhile Gtfs.isSpace).rdropWhile Gtfs.isSpace)

def getKv (kv : String) : String × String :=
  let key := kv.toList.takeWhile (· ≠ '=')
  (String.ofList key, String.ofList (kv.toList.drop (key.length + 1)))

def getFRule (r : String) : Option FilterRule :=
  match split (trim r) '|' with
  | [] => none
  | kv :: flags => some ⟨getKv kv, (SortedMap.empty.insertAll (flags.map fun s => (s, ()))).keys⟩

def getDeepAttrRule (rule : String) : Option DeepAttributeRule :=
  match rule.toList with
  | '[' :: rest =>
    if ']' ∈ rest then do
      let inner := rest.takeWhile (· ≠ ']')
      let kv ← getFRule (String.ofList inner)
      some ⟨String.ofList (rest.drop (inner.length + 1)), kv⟩
    else some ⟨rule, ⟨("", ""), []⟩⟩
  | _ => some ⟨rule, ⟨("", ""), []⟩⟩

def splitArrow : List Char → Option (List Char × List Char)
  | ' ' :: '-' :: '>' :: ' ' :: rest => some ([], rest)
  | c :: rest => (splitArrow rest).map fun p => (c :: p.1, p.2)
  | [] => none

def unquote (s : List Char) : List Char :=
  if 1 < s.length ∧ s.head? = some (Char.ofNat 39) ∧ s.getLast? = some (Char.ofNat 39) then
    s.tail.dropLast
  else s

def getNormRules (arr : List String) : ReplRules :=
  arr.filterMap fun a => (splitArrow a.toList).map fun p =>
    (String.ofList (unquote p.1), String.ofList (unquote p.2))

end text

section types

/-- `gtfs::get_route_type`; other numbers are no route types. -/
def getRouteType (t : ℤ) : Option ℤ :=
  if t ∈ [2, 100, 101, 102, 103, 104, 105, 106, 107, 108, 109, 110, 111, 112, 113, 114, 115, 117,
      300, 400, 403, 404, 405, 1503] then some 2
  else if t ∈ [3] then some 3
  else if t ∈ [200, 201, 202, 203, 204, 205, 206, 207, 208, 209] then some 200
  else if t ∈ [700, 701, 702, 703, 704, 705, 706, 707, 708, 709, 710, 711, 712, 713, 714, 715,
      716, 717, 800, 1500, 1501, 1505, 1506, 1507] then some 3
  else if t ∈ [1, 401, 402, 500, 600] then some 1
  else if t ∈ [0, 900, 901, 902, 903, 904, 905, 906] then some 0
  else if t ∈ [4, 1000, 1200, 1502] then some 4
  else if t ∈ [6, 1300, 1301, 1304, 1306, 1307] then some 6
  else if t ∈ [7, 116, 1303, 1302, 1400] then some 7
  else if t ∈ [5] then some 5
  else if t ∈ [11] then some 11
  else none

/-- `strtol` when it reads to the end of the name, cut to an `int`. -/
def wholeNumber (name : String) : Option ℤ :=
  let (negative, rest) := Gtfs.sign (name.toList.dropWhile Gtfs.isSpace)
  if rest ≠ [] ∧ rest.all Char.isDigit then
    let n : ℤ := Nat.ofDigitChars 10 rest 0
    some (Int.bmod (max (-2 ^ 63) (min (2 ^ 63 - 1) (if negative then -n else n))) (2 ^ 32))
  else none

def getRouteTypesFromString (name : String) : Option (List ℤ) :=
  if name = "" then some []
  else
    match wholeNumber name with
    | some num => (getRouteType num).map fun i => [i]
    | none =>
      let name := name.toLower
      some <|
        if name = "all" then [0, 1, 2, 3, 200, 4, 5, 6, 7, 11]
        else if name = "bus" then [3]
        else if name ∈ ["trolley", "trolleybus", "trolley-bus"] then [11]
        else if name ∈ ["tram", "streetcar", "light_rail", "lightrail", "light-rail"] then [0]
        else if name ∈ ["train", "rail"] then [2]
        else if name ∈ ["ferry", "boat", "ship"] then [4]
        else if name ∈ ["subway", "metro"] then [1]
        else if name ∈ ["cablecar", "cable_car", "cable-car"] then [5]
        else if name = "gondola" then [6]
        else if name = "funicular" then [7]
        else if name = "coach" then [200]
        else []

end types

section configs

/-- `router::routing_options` with the numbers that only the station candidates use. -/
structure ConfigRoutingOptions (C : Type*) extends RoutingOptions C where
  stationDistPenFactor : C
  nonOsmPen : C

structure MotConfig (C : Type) where
  routeTypes : List ℤ
  osmBuildOpts : OsmReadOptions C
  routingOpts : ConfigRoutingOptions C
  unproced : List (String × String)

structure ConfigSection where
  name : String
  keyVals : List (String × String)

/-- What the text of a value stands for. `regex` says whether all rules can be compiled. -/
structure Values (C : Type) where
  strArr : String → Char → List String
  double : String → Option C
  doubleArr : String → Char → Option (List C)
  int : String → Option ℤ
  bool : String → Option Bool
  atof : String → C
  regex : ReplRules → Bool

end configs

section reading
variable {C : Type} (V : Values C) (sec : ConfigSection)

def ConfigSection.read {A : Type*} (sec : ConfigSection) (key : String) (default : A)
    (f : String → Option A) : Option A :=
  (sec.keyVals.lookup key).elim (some default) f

def readFilter (key : String) : Option RuleMap :=
  sec.read key .empty fun v => ((V.strArr v ' ').mapM getFRule).map RuleMap.ofRules

def readDeepRules (key : String) : Option (List DeepAttributeRule) :=
  sec.read key [] fun v => (V.strArr v ' ').mapM getDeepAttrRule

def readGroupRules (key : String) : Option (List (StationGroupNodeAttributeRule C)) :=
  sec.read key [] fun v => (V.strArr v ' ').mapM fun ruleStr => do
    let deep ← getDeepAttrRule ruleStr
    let attrD := getKv deep.attr
    some ⟨{ deep with attr := attrD.1 }, V.atof attrD.2⟩

def addLineRule (rules : RelationLineRules) (ruleStr : String) : RelationLineRules :=
  let rule := getKv ruleStr
  let tags := split rule.2 ','
  if rule.1 = "from_name" then { rules with fromNameRule := tags }
  else if rule.1 = "to_name" then { rules with toNameRule := tags }
  else if rule.1 = "line_name" then { rules with sNameRule := tags }
  else rules

def readLineRules (key : String) : Option RelationLineRules :=
  sec.read key ⟨[], [], []⟩ fun v => some ((V.strArr v ' ').foldl addLineRule ⟨[], [], []⟩)

def readDouble (key : String) (default : C) : Option C := sec.read key default V.double

/-- A rule that is no regular expression makes `parse` throw. -/
def readNormalizer (key : String) : Option ReplRules :=
  sec.read key [] fun v =>
    let rules := getNormRules (V.strArr v ';')
    if V.regex rules then some rules else none

def levelFilterKey (i : ℕ) : String := "osm_filter_lvl" ++ toString i

def levelPunishKey (i : ℕ) : String := "routing_lvl" ++ toString i ++ "_fac"

def procedKeys : List String :=
  ["osm_filter_keep", "osm_filter_drop", "osm_max_snap_level", "osm_filter_nohup",
    "osm_filter_oneway", "osm_filter_oneway_reverse", "osm_filter_undirected",
    "osm_filter_station", "osm_filter_station_blocker", "osm_node_positive_restriction",
    "osm_node_negative_restriction", "osm_filter_no_restriction", "osm_station_name_attrs",
    "osm_track_number_tags", "osm_station_id_attrs", "osm_edge_track_number_tags",
    "osm_station_group_attrs", "osm_line_relation_tags", "osm_max_snap_distance",
    "osm_max_snap_fallback_distance", "osm_max_osm_station_distance",
    "osm_max_node_block_distance", "routing_full_turn_punish", "routing_no_self_hops",
    "routing_full_turn_angle", "routing_snap_full_turn_angle",
    "routing_pass_thru_station_punish", "routing_one_way_meter_punish_fac",
    "routing_one_way_edge_punish", "routing_line_unmatched_punish_fac",
    "routing_no_lines_punish_fac", "routing_platform_unmatched_punish",
    "routing_non_osm_station_punish", "routing_station_distance_punish_fac",
    "station_normalize_chain", "track_normalize_chain", "line_normalize_chain",
    "station_id_normalize_chain"] ++
    (List.range 8).map levelFilterKey ++ (List.range 8).map levelPunishKey

variable [Field C] [LinearOrder C]

/-- `*std::max_element` has no value for no distances. -/
def readOsmReadOptions : Option (OsmReadOptions C) := do
  let keepFilter ← readFilter V sec "osm_filter_keep"
  let levelFilters ← (List.range 8).mapM fun i => readFilter V sec (levelFilterKey i)
  let dropFilter ← readFilter V sec "osm_filter_drop"
  let maxSnapLevel ← sec.read "osm_max_snap_level" 7 V.int
  let noHupFilter ← readFilter V sec "osm_filter_nohup"
  let oneWayFilter ← readFilter V sec "osm_filter_oneway"
  let oneWayFilterRev ← readFilter V sec "osm_filter_oneway_reverse"
  let twoWayFilter ← readFilter V sec "osm_filter_undirected"
  let stationFilter ← readFilter V sec "osm_filter_station"
  let stationBlockerFilter ← readFilter V sec "osm_filter_station_blocker"
  let restrPosRestr ← readFilter V sec "osm_node_positive_restriction"
  let restrNegRestr ← readFilter V sec "osm_node_negative_restriction"
  let noRestrFilter ← readFilter V sec "osm_filter_no_restriction"
  let nameRule ← readDeepRules V sec "osm_station_name_attrs"
  let platformRule ← readDeepRules V sec "osm_track_number_tags"
  let idRule ← readDeepRules V sec "osm_station_id_attrs"
  let edgePlatformRules ← readDeepRules V sec "osm_edge_track_number_tags"
  let statGroupNAttrRules ← readGroupRules V sec "osm_station_group_attrs"
  let relLinerules ← readLineRules V sec "osm_line_relation_tags"
  let maxSnapDistances ← sec.read "osm_max_snap_distance" [((50 : ℕ) : C)] fun v => V.doubleArr v ','
  let maxSnapFallbackHeurDistance ← sec.read "osm_max_snap_fallback_distance" none
    (fun v => (V.double v).map some) >>= fun d => d.or (maxSnapDistances.max?.map (· * 2))
  let maxOsmStationDistance ← readDouble V sec "osm_max_osm_station_distance" 5
  let maxBlockDistance ← sec.read "osm_max_node_block_distance" none
    (fun v => (V.double v).map some) >>= fun d => d.or (maxSnapDistances.max?.map (· / 8))
  let fullTurnAngle ← readDouble V sec "routing_full_turn_angle" 5
  let maxAngleSnapReach ← readDouble V sec "routing_snap_full_turn_angle" fullTurnAngle
  let statNormzer ← readNormalizer V sec "station_normalize_chain"
  let trackNormzer ← readNormalizer V sec "track_normalize_chain"
  let lineNormzer ← readNormalizer V sec "line_normalize_chain"
  let idNormzer ← readNormalizer V sec "station_id_normalize_chain"
  some
    { noHupFilter, keepFilter, dropFilter, oneWayFilter, oneWayFilterRev, twoWayFilter,
      stationFilter, stationBlockerFilter, statGroupNAttrRules, statNormzer, lineNormzer,
      trackNormzer, idNormzer, relLinerules, edgePlatformRules, maxAngleSnapReach,
      maxSnapDistances, maxSnapFallbackHeurDistance, maxBlockDistance, maxOsmStationDistance,
      fullTurnAngle, restrPosRestr, restrNegRestr, noRestrFilter
      levelFilters := fun i => levelFilters.getD i.val .empty
      statAttrRules := { nameRule, platformRule, idRule }
      maxSnapLevel := (maxSnapLevel % 2 ^ 8).toNat
      levelSnapPunishFac := fun _ => 0 }

def readRoutingOptions : Option (ConfigRoutingOptions C) := do
  let levelPunish ← (List.range 8).mapM fun i => readDouble V sec (levelPunishKey i) 1
  let fullTurnPunishFac ← readDouble V sec "routing_full_turn_punish" 2000
  let noSelfHops ← sec.read "routing_no_self_hops" true V.bool
  let fullTurnAngle ← readDouble V sec "routing_full_turn_angle" 5
  let passThruStationsPunish ← readDouble V sec "routing_pass_thru_station_punish" 100
  let oneWayPunishFac ← readDouble V sec "routing_one_way_meter_punish_fac" 1
  let oneWayEdgePunish ← readDouble V sec "routing_one_way_edge_punish" 0
  let lineUnmatchedPunishFact ← readDouble V sec "routing_line_unmatched_punish_fac" (1 / 2)
  let noLinesPunishFact ← readDouble V sec "routing_no_lines_punish_fac" 0
  let platformUnmatchedPen ← readDouble V sec "routing_platform_unmatched_punish" 0
  let nonOsmPen ← readDouble V sec "routing_non_osm_station_punish" 0
  let stationDistPenFactor ← readDouble V sec "routing_station_distance_punish_fac" 1
  some
    { fullTurnPunishFac, fullTurnAngle, passThruStationsPunish, oneWayPunishFac,
      oneWayEdgePunish, lineUnmatchedPunishFact, noLinesPunishFact, platformUnmatchedPen,
      nonOsmPen, stationDistPenFactor, noSelfHops
      levelPunish := fun i => levelPunish.getD i 1
      popReachEdge := true }

/-- The configuration of one section; `none` is an exception. -/
def readSection : Option (MotConfig C) := do
  let osmBuildOpts ← readOsmReadOptions V sec
  let routingOpts ← readRoutingOptions V sec
  let routeTypes ← getRouteTypesFromString sec.name
  some ⟨routeTypes, osmBuildOpts, routingOpts, sec.keyVals.filter fun kv => kv.1 ∉ procedKeys⟩

end reading

end Pfaedle.Config

import Pfaedle.FilterRules

set_option autoImplicit false

/-!
# `osm_read_options` and the filter that is made from them

Numbers are of any type. A set of keys is a list.
-/
namespace Pfaedle.Osm

structure DeepAttributeRule where
  attr : String
  relRule : FilterRule
deriving DecidableEq

structure RelationLineRules where
  sNameRule : List String
  fromNameRule : List String
  toNameRule : List String
deriving DecidableEq

structure StationAttributeRules where
  nameRule : List DeepAttributeRule
  platformRule : List DeepAttributeRule
  idRule : List DeepAttributeRule

structure StationGroupNodeAttributeRule (C : Type*) where
  attr : DeepAttributeRule
  maxDist : C
deriving DecidableEq

abbrev ReplRules := List (String × String)

structure OsmReadOptions (C : Type*) where
  noHupFilter : RuleMap
  keepFilter : RuleMap
  levelFilters : Fin 8 → RuleMap
  dropFilter : RuleMap
  oneWayFilter : RuleMap
  oneWayFilterRev : RuleMap
  twoWayFilter : RuleMap
  stationFilter : RuleMap
  stationBlockerFilter : RuleMap
  statGroupNAttrRules : List (StationGroupNodeAttributeRule C)
  statNormzer : ReplRules
  lineNormzer : ReplRules
  trackNormzer : ReplRules
  idNormzer : ReplRules
  relLinerules : RelationLineRules
  statAttrRules : StationAttributeRules
  edgePlatformRules : List DeepAttributeRule
  maxSnapLevel : ℕ
  maxAngleSnapReach : C
  maxSnapDistances : List C
  maxSnapFallbackHeurDistance : C
  maxBlockDistance : C
  maxOsmStationDistance : C
  levelSnapPunishFac : Fin 7 → C
  fullTurnAngle : C
  restrPosRestr : RuleMap
  restrNegRestr : RuleMap
  noRestrFilter : RuleMap

section filter

/-- `osm_filter` with the rules that only the reader needs. -/
structure ReadFilter extends OsmFilter where
  nohupRules : MultiAttributeMap
  onewayRules : MultiAttributeMap
  onewayrevRules : MultiAttributeMap
  twowayRules : MultiAttributeMap
  stationRules : MultiAttributeMap
  blockerRules : MultiAttributeMap
  levelRules : Fin 8 → MultiAttributeMap

def OsmReadOptions.filter {C : Type*} (o : OsmReadOptions C) : ReadFilter where
  keepRules := o.keepFilter.map
  dropRules := o.dropFilter.map
  nohupRules := o.noHupFilter.map
  onewayRules := o.oneWayFilter.map
  onewayrevRules := o.oneWayFilterRev.map
  twowayRules := o.twoWayFilter.map
  stationRules := o.stationFilter.map
  blockerRules := o.stationBlockerFilter.map
  posRestrRules := o.restrPosRestr.map
  negRestrRules := o.restrNegRestr.map
  noRestrRules := o.noRestrFilter.map
  levelRules i := (o.levelFilters i).map

def anyValue (map : MultiAttributeMap) (key v : String) : Bool :=
  (map key).any fun r => valMatches v r.1 false

namespace ReadFilter
variable (iter : AttributeMap → AttributeMap) (f : ReadFilter) (attrs : AttributeMap)

def nohup (key v : String) : Bool := anyValue f.nohupRules key v

def oneway : UInt64 :=
  if contained iter attrs f.twowayRules .way ≠ 0 then 0 else contained iter attrs f.onewayRules .way

def onewayrev : UInt64 :=
  if contained iter attrs f.twowayRules .way ≠ 0 then 0
  else contained iter attrs f.onewayrevRules .way

def station : UInt64 := contained iter attrs f.stationRules .node

def blocker : UInt64 := contained iter attrs f.blockerRules .node

def levelMatches (i : Fin 8) : Bool := attrs.any fun kv => anyValue (f.levelRules i) kv.1 kv.2

/-- The best matching level, and `0` when there is none. -/
def level : ℕ := ((List.finRange 8).find? fun i => f.levelMatches attrs i).elim 0 Fin.val

end ReadFilter

end filter

section attributes

def containedAttribute (attrs : AttributeMap) (attr : String × String) : Bool :=
  (attrs.lookup attr.1).any fun v => valMatches v attr.2 false

/-- `entRels` lists the relations of an element by their places in `rels`. -/
def getAttribute (s : DeepAttributeRule) (id : Osmid) (attrs : AttributeMap)
    (entRels : Osmid → List ℕ) (rels : List AttributeMap) : String :=
  if s.relRule.kv.1 = "" then (attrs.lookup s.attr).getD ""
  else
    ((entRels id).findSome? fun relId => rels[relId]?.bind fun rel =>
      if containedAttribute rel s.relRule.kv then rel.lookup s.attr else none).getD ""

def getAttrMatchRanked (rule : List DeepAttributeRule) (id : Osmid) (attrs : AttributeMap)
    (entRels : Osmid → List ℕ) (rels : List AttributeMap) (norm : String → String) : List String :=
  (rule.map fun s => norm (getAttribute s id attrs entRels rels)).filter (· ≠ "")

def getAttrByFirstMatch (rule : List DeepAttributeRule) (id : Osmid) (attrs : AttributeMap)
    (entRels : Osmid → List ℕ) (rels : List AttributeMap) (norm : String → String) : String :=
  (getAttrMatchRanked rule id attrs entRels rels norm).head?.getD ""

def lineName (rule : List String) (rel : AttributeMap) (norm : String → String) : String :=
  ((rule.filterMap fun r => rel.lookup r).map norm).find? (· ≠ "") |>.getD ""

end attributes

section keys

structure AttributeKeySets where
  nodes : List String
  ways : List String
  rels : List String

def DeepAttributeRule.ownKeys (s : DeepAttributeRule) : List String :=
  if s.relRule.kv.1 = "" then [s.attr] else []

def DeepAttributeRule.relKeys (s : DeepAttributeRule) : List String :=
  if s.relRule.kv.1 = "" then [] else [s.relRule.kv.1, s.attr]

def OsmReadOptions.getKeptAttributeKeys {C : Type*} (o : OsmReadOptions C) : AttributeKeySets where
  nodes :=
    (o.statGroupNAttrRules.flatMap fun i => i.attr.ownKeys) ++ o.keepFilter.keys ++
      o.dropFilter.keys ++ o.noHupFilter.keys ++ o.stationFilter.keys ++
      o.stationBlockerFilter.keys ++ o.statAttrRules.nameRule.flatMap DeepAttributeRule.ownKeys ++
      o.statAttrRules.platformRule.flatMap DeepAttributeRule.ownKeys ++
      o.statAttrRules.idRule.flatMap DeepAttributeRule.ownKeys
  ways :=
    o.keepFilter.keys ++ o.dropFilter.keys ++ o.oneWayFilter.keys ++ o.oneWayFilterRev.keys ++
      o.twoWayFilter.keys ++
      (((List.finRange 8).filter fun j => j.val < 7).flatMap fun j => (o.levelFilters j).keys) ++
      ["maxspeed"] ++ o.edgePlatformRules.flatMap DeepAttributeRule.ownKeys
  rels :=
    (o.statGroupNAttrRules.flatMap fun i => i.attr.relKeys) ++ o.keepFilter.keys ++
      o.dropFilter.keys ++ o.stationFilter.keys ++ o.restrPosRestr.keys ++ o.restrNegRestr.keys ++
      o.noRestrFilter.keys ++ ["from", "via", "to"] ++ o.relLinerules.toNameRule ++
      o.relLinerules.fromNameRule ++ o.relLinerules.sNameRule ++
      o.statAttrRules.nameRule.flatMap DeepAttributeRule.relKeys ++
      o.edgePlatformRules.flatMap DeepAttributeRule.relKeys ++
      o.statAttrRules.platformRule.flatMap DeepAttributeRule.relKeys ++
      o.statAttrRules.idRule.flatMap DeepAttributeRule.relKeys

end keys

end Pfaedle.Osm

import Mathlib.Data.List.Infix
import Mathlib.Data.UInt
import Mathlib.Logic.Function.Basic

set_option autoImplicit false

/-!
# OSM elements and `osm_filter`

The parsed document as `osm_builder` walks over it, and the attribute filters. A hash map of
attributes is a list with one entry for every key; `iter` is the order it is iterated in.
-/
namespace Pfaedle.Osm

abbrev Osmid := UInt64

abbrev AttributeMap := List (String × String)

abbrev MultiAttributeMap := String → List (String × UInt64)

structure Member where
  type : String
  ref : Osmid
  role : String

structure XmlRelation where
  id : Osmid
  tags : List (String × String)
  members : List Member

structure OsmWay where
  id : Osmid
  attrs : AttributeMap
  nodes : List Osmid

structure Restriction where
  eFrom : Osmid
  eTo : Osmid
deriving DecidableEq

structure Restrictions where
  pos : Osmid → List Restriction
  neg : Osmid → List Restriction

section filter

def relNoDown : UInt64 := 2

def multValMatch : UInt64 := 32

/-- `osm_filter::Type`: the flag that switches a rule off for a kind of element. -/
inductive FilterType
  | node
  | way
  | rel
  | all

def FilterType.flag : FilterType → UInt64
  | .node => 16
  | .way => 8
  | .rel => 4
  | .all => 0

structure OsmFilter where
  keepRules : MultiAttributeMap
  dropRules : MultiAttributeMap
  posRestrRules : MultiAttributeMap
  negRestrRules : MultiAttributeMap
  noRestrRules : MultiAttributeMap

def occursIn (a b : String) : Bool := decide (b.toList <:+: a.toList)

def valMatches (a b : String) (m : Bool) : Bool :=
  b = "*" ||
  (m && (occursIn a (";" ++ b) || occursIn a (b ++ ";") || occursIn a ("; " ++ b) ||
    occursIn a (b ++ " ;"))) ||
  a = b

def ruleFlags (v : String) (t : FilterType) : List (String × UInt64) → Option UInt64
  | [] => none
  | (val, flags) :: rules =>
    if flags &&& t.flag ≠ 0 then ruleFlags v t rules
    else if valMatches v val (flags &&& multValMatch ≠ 0) then some flags
    else ruleFlags v t rules

variable (iter : AttributeMap → AttributeMap)

def contained (attrs : AttributeMap) (map : MultiAttributeMap) (t : FilterType) : UInt64 :=
  ((iter attrs).findSome? fun kv => ruleFlags kv.2 t (map kv.1)).getD 0

def OsmFilter.keep (f : OsmFilter) (attrs : AttributeMap) (t : FilterType) : UInt64 :=
  contained iter attrs f.keepRules t

def OsmFilter.drop (f : OsmFilter) (attrs : AttributeMap) (t : FilterType) : UInt64 :=
  contained iter attrs f.dropRules t

def OsmFilter.posRestr (f : OsmFilter) (attrs : AttributeMap) : UInt64 :=
  if contained iter attrs f.noRestrRules .all ≠ 0 then 0
  else contained iter attrs f.posRestrRules .all

def OsmFilter.negRestr (f : OsmFilter) (attrs : AttributeMap) : UInt64 :=
  if contained iter attrs f.noRestrRules .all ≠ 0 then 0
  else contained iter attrs f.negRestrRules .all

end filter

section attributes

def setAttr (attrs : AttributeMap) (key value : String) : AttributeMap :=
  if (attrs.lookup key).isSome then attrs.map fun kv => if kv.1 = key then (key, value) else kv
  else attrs ++ [(key, value)]

def readAttrs (keepAttrs : List String) (tags : List (String × String)) : AttributeMap :=
  tags.foldl (fun attrs kv => if kv.1 ∈ keepAttrs then setAttr attrs kv.1 kv.2 else attrs) []

end attributes

end Pfaedle.Osm

import Pfaedle.KeptKeys
import Pfaedle.StationGroups
import Pfaedle.WaySegments

set_option autoImplicit false

/-!
# `osm_builder::read_nodes` and the passes of `read`

The fourth pass gives the graph nodes their positions and stations. Nothing after the passes looks
at the document.
-/
namespace Pfaedle.OsmBuilder
open DirGraphs Osm OsmRelations Restriction ODirEdges KeptKeys ReadEdges BoundingBoxes Trgraph

section document

/-- A child of `<osm>`. What a tag does not have is zero or empty, as `pugi` has it. -/
structure XmlElement (C : Type*) where
  name : String
  id : Osmid
  lat : C
  lon : C
  nds : List Osmid
  tags : List (String × String)
  members : List Member

variable {C : Type*}

def children (name : String) (doc : List (XmlElement C)) : List (XmlElement C) :=
  doc.filter fun x => x.name = name

def XmlElement.node (x : XmlElement C) : XmlNode C := ⟨x.id, x.lat, x.lon, x.tags⟩

def XmlElement.way (keepAttrs : List String) (x : XmlElement C) : OsmWay :=
  ⟨x.id, readAttrs keepAttrs x.tags, x.nds⟩

def XmlElement.relation (x : XmlElement C) : XmlRelation := ⟨x.id, x.tags, x.members⟩

def xmlRelations (doc : List (XmlElement C)) : List XmlRelation :=
  (children "relation" doc).map XmlElement.relation

end document

section payload

structure WayData where
  level : ℕ
  maxspeed : String
  track : String
  lines : List (String × String × String)

instance : Inhabited WayData := ⟨⟨0, "", "", []⟩⟩

def addLine (lines : List (String × String × String)) (line : String × String × String) :
    List (String × String × String) := if line ∈ lines then lines else lines ++ [line]

/-- The last lines of the loop in `read_edges`; a track is kept in `etracks`. -/
def annotate (d : WayDecisions) (pl : EdgePayload WayData) : EdgePayload WayData :=
  { pl with
    oneWay := if d.onewayrev then 2 else if d.oneway then 1 else pl.oneWay
    data :=
      { level := d.level
        maxspeed := d.maxspeed.getD ""
        track := if d.track = "" then pl.data.track else d.track
        lines := d.lines.foldl addLine pl.data.lines } }

structure NodeData (C : Type*) where
  geom : C × C
  si : Option SInfo
  blocker : Bool

instance {C : Type*} [Zero C] : Inhabited (NodeData C) := ⟨⟨(0, 0), none, false⟩⟩

end payload

section stations
variable {C : Type*} [LinearOrder C]

structure Built (C : Type*) where
  g : TrGraph (NodeData C) WayData
  restor : Restrictor
  groups : ℕ → List ℕ
  nextGroup : ℕ
  /-- `station_attribute_groups` -/
  attrGroups : String → String → List ℕ
  orphanStations : List ℕ

structure Surroundings (C : Type*) where
  latLngToWebMerc : C → C → C × C
  webMercMeterDist : C × C → C × C → C
  addr : ℕ → ℕ

def Built.ofEdges (st : ReadState (NodeData C) WayData) : Built C :=
  ⟨st.g, st.restor, fun _ => [], 0, fun _ _ => [], []⟩

def Built.pl (b : Built C) (n : ℕ) : NodeData C := b.g.npl n

def Built.setPl (b : Built C) (n : ℕ) (p : NodeData C) : Built C :=
  { b with g := { b.g with npl := Function.update b.g.npl n p } }

variable (sur : Surroundings C) (o : OsmReadOptions C) (d : NodeDecisions)

def groupValues : List (StationGroupNodeAttributeRule C × String) :=
  o.statGroupNAttrRules.zip d.groups

def matchingGroup (pos : C × C) (b : Built C) : Option ℕ :=
  (groupValues o d).findSome? fun r =>
    if r.2 = "" then none
    else (b.attrGroups r.1.attr.attr r.2).find? fun group =>
      (b.groups group).any fun member =>
        sur.webMercMeterDist (b.pl member).geom pos ≤ r.1.maxDist

def Built.addToGroup (b : Built C) (group node : ℕ) : Built C :=
  { b with groups := Function.update b.groups group (setInsert sur.addr node (b.groups group)) }

def Built.addGroup (b : Built C) (attr val : String) (node : ℕ) : Built C :=
  { b with
    groups := Function.update b.groups b.nextGroup [node]
    nextGroup := b.nextGroup + 1
    attrGroups := Function.update b.attrGroups attr
      (Function.update (b.attrGroups attr) val (b.attrGroups attr val ++ [b.nextGroup])) }

def getStationInfo (node : ℕ) (pos : C × C) (b : Built C) : Option SInfo × Built C :=
  match d.names with
  | [] => (none, b)
  | name :: altNames =>
    let ret : StationData := ⟨name, altNames, d.platform, true⟩
    match matchingGroup sur o d pos b with
    | some group => (some ⟨some group, ret⟩, b.addToGroup sur group node)
    | none =>
      match (groupValues o d).find? fun r => r.2 ≠ "" with
      | some r => (some ⟨some b.nextGroup, ret⟩, b.addGroup r.1.attr.attr r.2 node)
      | none => (some ⟨none, ret⟩, b)

def placeNode (pos : C × C) (b : Built C) (n : ℕ) : Built C :=
  let b := b.setPl n { b.pl n with geom := pos }
  if d.station then
    let (si, b) := getStationInfo sur o d n pos b
    match si with
    | some si => b.setPl n { b.pl n with si := some si, blocker := false }
    | none => b
  else if d.blocker then b.setPl n { b.pl n with si := none, blocker := true }
  else b

def addOrphan (pos : C × C) (b : Built C) : Built C :=
  let (tmp, g) := b.g.addNd ⟨pos, none, false⟩
  let (si, b) := getStationInfo sur o d tmp pos { b with g }
  match si with
  | some si =>
    let b := b.setPl tmp { b.pl tmp with si := some { si with data := { si.data with fromOsm := false } } }
    { b with orphanStations := setInsert sur.addr tmp b.orphanStations }
  | none => b

end stations

section passes
variable {C : Type*} [Field C] [LinearOrder C]

def keepNode (iter : AttributeMap → AttributeMap) (filter : OsmFilter) (id : Osmid)
    (attrs : AttributeMap) (inNodes inMult : Bool) (nodeRels : Osmid → List ℕ)
    (bBoxNodes : Osmid → Bool) (flat : List ℕ) : Bool :=
  id ≠ 0 ∧
    (inNodes ∨ inMult ∨ shouldKeepRelation id nodeRels flat ∨ filter.keep iter attrs .node ≠ 0) ∧
    (inNodes ∨ bBoxNodes id) ∧ (inNodes ∨ inMult ∨ filter.drop iter attrs .node = 0)

variable (norm : ReplRules → String → String) (iter : AttributeMap → AttributeMap)
  (sur : Surroundings C) (bbox : BoundingBox C) (o : OsmReadOptions C) (uninit : ℕ → UInt64)
  (doc : List (XmlElement C))

def inBBox (filter : ReadFilter) (nid : Osmid) : Bool :=
  (filterNodes filter bbox ((children "node" doc).map XmlElement.node)).1.any fun id => id = nid

def isNoHup (filter : ReadFilter) (nid : Osmid) : Bool :=
  (filterNodes filter bbox ((children "node" doc).map XmlElement.node)).2.any fun id => id = nid

def relationsRead : Relations :=
  readRelations iter o.filter.toOsmFilter o.getKeptAttributeKeys.rels uninit (xmlRelations doc)

def decideWay (w : OsmWay) : WayDecisions :=
  let rs := relationsRead iter o uninit doc
  wayDecisions norm iter o w.id rs.wayRels rs.rels w.attrs

def wayKept (w : OsmWay) : Bool :=
  let rs := relationsRead iter o uninit doc
  keepWay iter o.filter.toOsmFilter w rs.wayRels (inBBox bbox doc o.filter) rs.flat

def edgesRead : ReadState (NodeData C) WayData :=
  readEdges (inBBox bbox doc o.filter) (isNoHup bbox doc o.filter)
    (relationsRead iter o uninit doc).rests
    (fun w => annotate (decideWay norm iter o uninit doc w)) (wayKept iter bbox o uninit doc)
    ((children "way" doc).map (XmlElement.way o.getKeptAttributeKeys.ways))

def nodeKept (st : ReadState (NodeData C) WayData) (x : XmlElement C) : Bool :=
  let rs := relationsRead iter o uninit doc
  keepNode iter o.filter.toOsmFilter x.id (readAttrs o.getKeptAttributeKeys.nodes x.tags)
    (st.nodes x.id).isSome (!(st.multNodes x.id).isEmpty) rs.nodeRels
    (inBBox bbox doc o.filter) rs.flat

def decideNode (x : XmlElement C) : NodeDecisions :=
  let rs := relationsRead iter o uninit doc
  nodeDecisions norm iter o x.id rs.nodeRels rs.rels
    (readAttrs o.getKeptAttributeKeys.nodes x.tags)

def readNode (st : ReadState (NodeData C) WayData) (b : Built C) (x : XmlElement C) : Built C :=
  let d := decideNode norm iter o uninit doc x
  let pos := sur.latLngToWebMerc x.lat x.lon
  if nodeKept iter bbox o uninit doc st x then
    match st.nodes x.id with
    | some n => placeNode sur o d pos b n
    | none =>
      if (st.multNodes x.id).isEmpty then
        if d.station then addOrphan sur o d pos b else b
      else
        ((st.multNodes x.id).foldl (fun ns n => setInsert sur.addr n ns) []).foldl
          (placeNode sur o d pos) b
  else b

def passes : Built C :=
  if bbox.size = 0 then .ofEdges .empty
  else
    let st := edgesRead norm iter bbox o uninit doc
    (children "node" doc).foldl (readNode norm iter sur bbox o uninit doc st) (.ofEdges st)

end passes

end Pfaedle.OsmBuilder

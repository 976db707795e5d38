import Pfaedle.CleanUp
import Pfaedle.Components
import Pfaedle.EdgeTracks
import Pfaedle.ReadNodes

set_option autoImplicit false

/-!
# `osm_builder::read`

The passes over the document are followed by the clean-up, the components and the copies of the
edges, in the order of the source.
-/
namespace Pfaedle.OsmBuilder
open DirGraphs Osm OsmRelations Restriction ODirEdges KeptKeys ReadEdges BoundingBoxes Trgraph
open Components

section setup
variable {C : Type*} [Field C] [LinearOrder C]

/-- The configuration of a run. `trackOrder` is the order of the hash map of tracks, and `cells` is
    the node grid of `fix_gaps`. -/
structure ReadSetup (C : Type*) [LinearOrder C] where
  norm : ReplRules → String → String
  iter : AttributeMap → AttributeMap
  latLngToWebMerc : C → C → C × C
  snapper : Snapper (C × C) C
  bbox : BoundingBox C
  opts : OsmReadOptions C
  uninit : ℕ → UInt64
  line : String × String × String → ℕ
  trackOrder : EdgeTracks → EdgeTracks
  cells : Graph (C × C) C ℕ StationData → ℕ → List ℕ
  stops : ℕ → GtfsStop (C × C)
  keys : List ℕ
  tolerance : C

/-- The payload that the clean-up starts from; an edge has no line and no length yet. -/
def edgePayload (line : String × String × String → ℕ) (p : EdgePayload WayData) :
    Payload (C × C) C :=
  ⟨p.oneWay, p.hasRestr, p.rev, ⟨[], 0, p.data.level, p.data.lines.map line⟩⟩

def Built.stations (line : String × String × String → ℕ) (b : Built C) : Stations (C × C) C where
  g :=
    { b.g.mapPl (edgePayload line) with
      npl := fun n => ⟨(b.g.npl n).geom, (b.g.npl n).si⟩ }
  groups G := ⟨b.groups G, []⟩
  nextGroup := b.nextGroup

/-- `e_tracks`, which has the edges whose way has a track. -/
def Built.tracks (b : Built C) : EdgeTracks :=
  (b.g.edges.filter fun e => (b.g.pl e).data.track ≠ "").map fun e => (e, (b.g.pl e).data.track)

def Built.blockers (b : Built C) : List ℕ := b.g.nds.filter fun n => (b.g.npl n).blocker

variable (r : ReadSetup C) (doc : List (XmlElement C))

def ReadSetup.surroundings : Surroundings C :=
  ⟨r.latLngToWebMerc, r.snapper.geo.webMercMeterDist, r.snapper.addr⟩

def ReadSetup.built : Built C :=
  passes r.norm r.iter r.surroundings r.bbox r.opts r.uninit doc

def ReadSetup.stations : Stations (C × C) C :=
  writeEdgeTracks (r.trackOrder (r.built doc).tracks) ((r.built doc).stations r.line)

def ReadSetup.cleanUp : CleanUp (C × C) C where
  S := r.snapper
  cells := r.cells (r.stations doc).g
  stops := r.stops
  keys := r.keys
  orphanStations := (r.built doc).orphanStations
  blockers := (r.built doc).blockers
  tolerance := r.tolerance

structure ReadGraph (C : Type*) where
  g : Graph (C × C) C ℕ StationData
  comps : WrittenComponents
  restor : Restrictor
  groups : ℕ → StationGroup
  fs : ℕ → Option ℕ

def ReadSetup.readDoc : ReadGraph C :=
  let C := r.cleanUp doc
  let restor := (r.built doc).restor
  let snapped := C.snapStations (r.stations doc) restor
  let dirs := C.run (r.stations doc) restor
  { g := writeSelfEdgs dirs.1
    comps := writeComponents (C.deleteOrphans (C.collapse snapped.st.g)) fun _ => none
    restor := dirs.2
    groups := snapped.st.groups
    fs := (snap_stations C.S C.stops C.keys C.orphanStations (C.fixGaps (r.stations doc)) restor
      C.blockers).2 }

def ReadGraph.empty : ReadGraph C where
  g := .empty ⟨(0, 0), none⟩ newEdge
  comps := ⟨fun _ => none, fun _ => 7, 0⟩
  restor := .empty
  groups _ := .empty
  fs _ := none

def ReadSetup.read : ReadGraph C := if r.bbox.size = 0 then .empty else r.readDoc doc

end setup

end Pfaedle.OsmBuilder

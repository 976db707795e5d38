import Pfaedle.PriorityQueue
import Pfaedle.StationGroups

set_option autoImplicit false

/-!
# `osm_builder::snap_stations`

The grids hold what lies in them: a node by its position, an edge by its line. A range query is
answered by the tests that follow it in the code.
-/
namespace Pfaedle.Trgraph
open DirGraphs Restriction ODirEdges

/-- `fullTurn` compares the angle at the first point with `maxAngleSnapReach`, and `edgeDist` is the
    distance in meters from an edge. -/
structure SnapGeo (P L : Type*) extends Geo P L where
  projectOn : P → P → P → P
  fullTurn : P → P → P → Bool
  edgeDist : P → P → P → L
  inGrid : P → Bool
  edgeInGrid : List P → Bool

structure SnapOptions (L : Type*) where
  maxSnapDistances : List L
  maxSnapFallbackHeurDistance : L
  maxOsmStationDistance : L
  maxBlockDistance : L
  maxSnapLevel : ℕ
  /-- `2` meters, in which an end point is taken. -/
  near : L

structure StationPayload (P : Type*) where
  geom : P
  si : SInfo

/-- What is read of a `gtfs::stop`; the position is the projected one. -/
structure GtfsStop (P : Type*) where
  geom : P
  name : String
  platform_code : String
  parent_name : Option String

structure NodeCand (L : Type*) where
  dist : L
  node : ℕ
  fromEdge : Edge

/-- The graph, the restrictor and the grids while stations are snapped. -/
structure SnapState (P L : Type*) where
  st : Stations P L
  restor : Restrictor
  blockers : List ℕ
  sng : List ℕ
  eg : List Edge

structure Snapper (P L : Type*) [LinearOrder L] where
  geo : SnapGeo P L
  opts : SnapOptions L
  statSimi : String → String → Bool
  statNormzer : String → String
  trackNormzer : String → String
  nodeQueue : PriorityQueue (NodeCand L) fun a b => b.dist < a.dist
  edgeQueue : PriorityQueue (L × Edge) fun a b => b.1 < a.1
  addr : ℕ → ℕ
  import_osm_stations : Bool

section search
variable {P L : Type*} [AddCommMonoid L] [LinearOrder L] (S : Snapper P L)

def simi (a b : StationData) : Bool :=
  S.statSimi a.name b.name ||
    a.altNames.any (fun x => S.statSimi x b.name || b.altNames.any fun y => S.statSimi x y) ||
    b.altNames.any fun y => S.statSimi a.name y

def neighbours (g : Graph P L ℕ StationData) (n : ℕ) : List (ℕ × Edge) :=
  (g.getAdjListIn n).map (fun e => (e.getFrom, e)) ++
    (g.getAdjListOut n).map fun e => (e.getTo, e)

/-- The inner loop of `depth_search`, where `maxFullTurns` is `0`. -/
def expandNode (g : Graph P L ℕ StationData) (sfunc : ℕ → Bool) (maxD : L) (closed : List ℕ)
    (cur : NodeCand L) : List (ℕ × Edge) → Option ℕ × List (NodeCand L)
  | [] => (none, [])
  | (cand, edg) :: rest =>
    if cand = cur.node then expandNode g sfunc maxD closed cur rest
    else
      let fullTurn := 2 < deg g cur.node ∧
        S.geo.fullTurn (pos g cur.node) (pos g (cur.fromEdge.getOtherNd cur.node)) (pos g cand)
      let dist := cur.dist + (g.pl edg).data.length
      if ¬ fullTurn ∧ dist < maxD ∧ cand ∉ closed then
        if sfunc cand then (some cand, [])
        else
          let (found, new) := expandNode g sfunc maxD closed cur rest
          (found, ⟨dist, cand, edg⟩ :: new)
      else expandNode g sfunc maxD closed cur rest

/-- Every node is expanded once, so `2 + 2 * |E|` candidates are pushed at most. -/
def searchLoop (g : Graph P L ℕ StationData) (sfunc : ℕ → Bool) (maxD : L) :
    ℕ → List ℕ → List (NodeCand L) → Option ℕ
  | 0, _, _ => none
  | k + 1, closed, q =>
    match S.nodeQueue.pop q with
    | none => none
    | some (cur, q) =>
      if cur.node ∈ closed then searchLoop g sfunc maxD k closed q
      else
        match expandNode S g sfunc maxD (cur.node :: closed) cur (neighbours g cur.node) with
        | (some n, _) => some n
        | (none, new) => searchLoop g sfunc maxD k (cur.node :: closed) (q ++ new)

def depth_search (g : Graph P L ℕ StationData) (e : Edge) (p : P) (maxD : L) (sfunc : ℕ → Bool) :
    Option ℕ :=
  let dFrom := S.geo.webMercMeterDist (pos g e.getFrom) p
  let dTo := S.geo.webMercMeterDist (pos g e.getTo) p
  if maxD < dFrom ∧ maxD < dTo then none
  else if dFrom ≤ maxD ∧ sfunc e.getFrom then some e.getFrom
  else if dTo ≤ maxD ∧ sfunc e.getTo then some e.getTo
  else
    searchLoop S g sfunc maxD (2 * g.edges.length + 3) [] (⟨dFrom, e.getFrom, e⟩ ::
      if e.getFrom ≠ e.getTo then [⟨dTo, e.getTo, e⟩] else [])

def eqSearch (st : Stations P L) (si : SInfo) (orphanSnap : Bool) (cand : ℕ) : Bool :=
  (getSi st cand).any fun c =>
    (orphanSnap && c.group.all fun G => (st.groups G).stops.isEmpty) || simi S c.data si.data

def blockSearch (s : SnapState P L) (si : SInfo) (n : ℕ) : Bool :=
  ((getSi s.st n).any fun c => !simi S c.data si.data) || n ∈ s.blockers

def eqStatReach (s : SnapState P L) (e : Edge) (si : SInfo) (p : P) (maxD : L) (orphanSnap : Bool) :
    Option ℕ := depth_search S s.st.g e p maxD (eqSearch S s.st si orphanSnap)

def is_blocked (s : SnapState P L) (e : Edge) (si : SInfo) (p : P) : Bool :=
  (depth_search S s.st.g e p S.opts.maxBlockDistance (blockSearch S s si)).isSome

def nearer (s : SnapState P L) (test : StationData → Bool) (p : P) (d : L) (best : Option (ℕ × L))
    (n : ℕ) : Option (ℕ × L) :=
  match getSi s.st n with
  | none => best
  | some si =>
    let dist := S.geo.webMercMeterDist (pos s.st.g n) p
    if test si.data ∧ dist < d ∧ best.all (fun b => dist < b.2) then some (n, dist) else best

def nearestStation (s : SnapState P L) (test : StationData → Bool) (p : P) (d : L) : Option ℕ :=
  (s.sng.foldl (nearer S s test p d) none).map (·.1)

def get_distance_matching_node (s : SnapState P L) (pl : StationPayload P) : Option ℕ :=
  nearestStation S s (fun _ => true) pl.geom S.opts.maxSnapFallbackHeurDistance

def get_matching_node (s : SnapState P L) (pl : StationPayload P) : Option ℕ :=
  nearestStation S s (fun data => simi S data pl.si.data) pl.geom S.opts.maxSnapFallbackHeurDistance

def get_edge_candidates (s : SnapState P L) (p : P) (d : L) : List Edge :=
  let dist := fun e : Edge => S.geo.edgeDist (pos s.st.g e.getFrom) (pos s.st.g e.getTo) p
  let cands := (s.eg.filter fun e => dist e ≤ d).map fun e => (dist e, e)
  (S.edgeQueue.popAll cands.length cands).map (·.2)

end search

section snapping
variable {P L : Type*} [AddCommMonoid L] [LinearOrder L] (S : Snapper P L)

structure SnapRun (P L : Type*) where
  s : SnapState P L
  pl : StationPayload P
  ret : List ℕ

def addToGroup (si : SInfo) (n : ℕ) (st : Stations P L) : Stations P L :=
  match si.group with
  | some G => addNode S.addr G n st
  | none => st

def placeAt (r : SnapRun P L) (n : ℕ) : SnapRun P L :=
  { r with
    s := { r.s with
      st := addToGroup S r.pl.si n (setSi n r.pl.si r.s.st)
      blockers := r.s.blockers.filter (· ≠ n) }
    ret := setInsert S.addr n r.ret }

def splitAt (r : SnapRun P L) (e : Edge) (geom : P) : SnapRun P L :=
  let pl := { r.pl with geom := geom }
  let n := r.s.st.g.nextNd
  let frm := pos r.s.st.g e.getFrom
  let to_ := pos r.s.st.g e.getTo
  let (g, restor) := splitEdge S.geo.toGeo (r.s.st.g, r.s.restor) e ⟨geom, some pl.si⟩
  let ne := if S.geo.edgeInGrid [frm, geom] then (g.getEdg e.getFrom n).toList else []
  let nf := if S.geo.edgeInGrid [geom, to_] then (g.getEdg n e.getTo).toList else []
  { s := { r.s with
      st := addToGroup S pl.si n { r.s.st with g := g }
      restor := restor
      sng := if S.geo.inGrid geom then setInsert S.addr n r.s.sng else r.s.sng
      eg := (r.s.eg ++ ne ++ nf).filter (· ≠ e) }
    pl := pl
    ret := setInsert S.addr n r.ret }

def takeEq (r : SnapRun P L) (eq : ℕ) : SnapRun P L :=
  let close := S.geo.webMercMeterDist r.pl.geom (pos r.s.st.g eq) < S.opts.maxOsmStationDistance
  { r with
    s := { r.s with
      st :=
        if close then
          setData eq (fun data =>
            if data.track = "" then { data with track := r.pl.si.data.track } else data) r.s.st
        else r.s.st }
    ret := setInsert S.addr eq r.ret }

def snapEdge (maxD : L) (orphSnap : Bool) (r : SnapRun P L) (e : Edge) : SnapRun P L :=
  let g := r.s.st.g
  let geom := S.geo.projectOn (pos g e.getFrom) r.pl.geom (pos g e.getTo)
  match eqStatReach S r.s e r.pl.si geom (maxD + maxD) orphSnap with
  | some eq => takeEq S r eq
  | none =>
    if S.opts.maxSnapLevel < (g.pl e).data.level then r
    else if is_blocked S r.s e r.pl.si geom then r
    else if (getSi r.s.st e.getFrom).isNone ∧
        S.geo.webMercMeterDist geom (pos g e.getFrom) < S.opts.near then placeAt S r e.getFrom
    else if (getSi r.s.st e.getTo).isNone ∧
        S.geo.webMercMeterDist geom (pos g e.getTo) < S.opts.near then placeAt S r e.getTo
    else splitAt S r e geom

def importFrom (s : SnapState P L) (pl : StationPayload P) : Option (ℕ × SInfo) :=
  if S.import_osm_stations then
    (get_distance_matching_node S s pl).bind fun n => (getSi s.st n).map fun si => (n, si)
  else none

def snap_station (maxD : L) (surHeur orphSnap : Bool) (s : SnapState P L) (pl : StationPayload P) :
    SnapRun P L :=
  let (pl, p) :=
    match importFrom S s pl with
    | some (best, si) => ({ pl with si := si }, pos s.st.g best)
    | none => (pl, pl.geom)
  let pq := get_edge_candidates S s p maxD
  let pq :=
    if pq.isEmpty && surHeur then
      match get_matching_node S s pl with
      | some best => get_edge_candidates S s (pos s.st.g best) maxD
      | none => get_edge_candidates S s pl.geom S.opts.maxSnapFallbackHeurDistance
    else pq
  pq.foldl (snapEdge S maxD orphSnap) ⟨s, pl, []⟩

def setFromOsm (b : Bool) (data : StationData) : StationData := { data with fromOsm := b }

/-- `snap_station` with the `group_stats` that follows it. -/
def snapGroup (maxD : L) (surHeur orphSnap : Bool) (s : SnapState P L) (pl : StationPayload P) :
    Option ℕ × SnapRun P L :=
  let r := snap_station S maxD surHeur orphSnap s pl
  let (group, st) := groupStats S.addr r.ret r.s.st
  (group, { r with s := { r.s with st := st } })

def snapOrphan (d : L) (s : SnapState P L) (o : ℕ) : SnapState P L :=
  match getSi s.st o with
  | none => s
  | some si =>
    let geom := pos s.st.g o
    let r := (snapGroup S d false false s ⟨geom, { si with data := setFromOsm false si.data }⟩).2
    { r.s with
      st := r.ret.foldl (fun st n =>
        if S.geo.webMercMeterDist geom (pos st.g n) < S.opts.maxOsmStationDistance then
          setData n (setFromOsm true) st
        else st) r.s.st }

def payload_from_gtfs (stop : GtfsStop P) : StationPayload P :=
  ⟨stop.geom, none, ⟨S.statNormzer stop.name,
    (stop.parent_name.map S.statNormzer).toList, S.trackNormzer stop.platform_code, false⟩⟩

structure StopRun (P L : Type*) where
  s : SnapState P L
  fs : ℕ → Option ℕ
  pl : StationPayload P
  snapped : Bool

def joinGroup (orphSnap : Bool) (stop G : ℕ) (r : StopRun P L) : StopRun P L :=
  let st := addStop S.addr G stop r.s.st
  let nodes := (st.groups G).nodes
  let st :=
    if orphSnap then
      nodes.foldl (fun st n => setData n (fun data =>
        { data with altNames := data.altNames ++ [r.pl.si.data.name] }) st) st
    else st
  { r with
    s := { r.s with st := st }
    fs := Function.update r.fs stop nodes.head?
    snapped := true }

/-- A stop is snapped at the distance with the index `i`. -/
def snapStopAt (orphSnap : Bool) (stop : ℕ) (r : StopRun P L) (d : L × ℕ) : StopRun P L :=
  let (group, run) :=
    snapGroup S d.1 (d.2 + 1 = S.opts.maxSnapDistances.length) orphSnap r.s r.pl
  let r := { r with s := run.s, pl := run.pl }
  match group with
  | some G => joinGroup S orphSnap stop G r
  | none => r

def snapStop (orphSnap : Bool) (stops : ℕ → GtfsStop P) (s : SnapState P L) (fs : ℕ → Option ℕ)
    (stop : ℕ) : StopRun P L :=
  S.opts.maxSnapDistances.zipIdx.foldl (snapStopAt S orphSnap stop)
    ⟨s, fs, payload_from_gtfs S (stops stop), false⟩

/-- `fs` and the stops that have not been snapped. -/
structure StopsRun (P L : Type*) where
  s : SnapState P L
  fs : ℕ → Option ℕ
  not_snapped : List ℕ

def snapNormal (stops : ℕ → GtfsStop P) (r : StopsRun P L) (stop : ℕ) : StopsRun P L :=
  let run := snapStop S false stops r.s r.fs stop
  ⟨run.s, run.fs, if run.snapped then r.not_snapped else r.not_snapped ++ [stop]⟩

def giveUp (stop : ℕ) (r : StopRun P L) : StopRun P L :=
  let (G, st) := newGroup r.s.st
  let (n, g) := st.g.addNd ⟨r.pl.geom, some r.pl.si⟩
  let st := addStop S.addr G stop (addNode S.addr G n (setGroup n G { st with g := g }))
  { r with s := { r.s with st := st }, fs := Function.update r.fs stop (some n) }

def snapAgain (stops : ℕ → GtfsStop P) (r : StopsRun P L) (stop : ℕ) : StopsRun P L :=
  let run := snapStop S true stops r.s r.fs stop
  let run := if run.snapped then run else giveUp S stop run
  { r with s := run.s, fs := run.fs }

/-- The grids are built; every station node and every edge that lies in them is added. -/
def buildGrids (st : Stations P L) (restor : Restrictor) (blockers : List ℕ) : SnapState P L where
  st := st
  restor := restor
  blockers := blockers
  sng := (st.g.nds.filter fun n => (getSi st n).isSome ∧ S.geo.inGrid (pos st.g n)).foldl
    (fun l n => setInsert S.addr n l) []
  eg := st.g.edges.filter fun e => S.geo.edgeInGrid (st.g.pl e).data.geom

/-- `keys` are the stops of `fs`, whose nodes are null. -/
def snap_stations (stops : ℕ → GtfsStop P) (keys orphanStations : List ℕ) (st : Stations P L)
    (restor : Restrictor) (blockers : List ℕ) : SnapState P L × (ℕ → Option ℕ) :=
  let s := S.opts.maxSnapDistances.foldl (fun s d => orphanStations.foldl (snapOrphan S d) s)
    (buildGrids S st restor blockers)
  let normal := keys.foldl (snapNormal S stops) ⟨s, fun _ => none, []⟩
  let r := normal.not_snapped.foldl (snapAgain S stops) normal
  (r.s, r.fs)

end snapping

end Pfaedle.Trgraph

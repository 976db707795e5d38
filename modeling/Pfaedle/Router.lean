import Pfaedle.DirGraph
import Pfaedle.EDijkstra
import Mathlib.Algebra.Order.Field.Basic
import Mathlib.Algebra.Order.Ring.Defs
import Mathlib.Data.List.Dedup

set_option autoImplicit false

/-!
# `router::route` and its hop cache

Costs are exact numbers, and an `edge_cost` is its value. Geometry and the similarity of lines
are taken as functions.
-/
namespace Pfaedle.Router
open DirGraphs

/-- A `std::set` of pointers: every element once, in address order. -/
structure PointerSet (α : Type*) where
  toList : List α → List α
  nodup : ∀ xs, (toList xs).Nodup
  mem : ∀ {xs x}, x ∈ toList xs ↔ x ∈ xs

def PointerSet.dedup {α : Type*} [DecidableEq α] : PointerSet α :=
  ⟨List.dedup, List.nodup_dedup, List.mem_dedup⟩

structure RoutingOptions (C : Type*) where
  fullTurnPunishFac : C
  fullTurnAngle : C
  passThruStationsPunish : C
  oneWayPunishFac : C
  oneWayEdgePunish : C
  lineUnmatchedPunishFact : C
  noLinesPunishFact : C
  platformUnmatchedPen : C
  levelPunish : ℕ → C
  popReachEdge : Bool
  noSelfHops : Bool

structure RoutingAttributes where
  frm : String
  to_ : String
  short_name : String
deriving DecidableEq

/-- `trgraph::graph`. The station info of a node may lack a group. -/
structure TransitGraph (N E C : Type*) extends EDijkstra.DirGraph N E where
  geom : N → C × C
  si : N → Option (Option ℕ)
  component : N → ℕ
  minEdgeLvl : ℕ → ℕ
  level : E → ℕ
  length : E → C
  oneWay : E → ℕ
  is_restricted : E → Bool
  lines : E → List ℕ

structure EdgeCandidate (E C : Type*) where
  e : E
  pen : C

abbrev EdgeCandidateGroup (E C : Type*) := List (EdgeCandidate E C)

abbrev EdgeCandidateRoute (E C : Type*) := List (EdgeCandidateGroup E C)

structure HopBand (E C : Type*) where
  minD : C
  maxD : C
  nearest : Option E
  maxInGrpDist : C

/-- What `hops` writes into `rCosts` and `edgesRet`. -/
structure HopResults (E C : Type*) where
  costs : E → C
  edges : E → List E

abbrev Cache (E C : Type*) := RoutingAttributes → E → E → Option (C × List E)

abbrev Caches (E C : Type*) := ℕ → Cache E C

structure EdgeListHop (N E C : Type*) where
  edges : List E
  cost : C
  start : Option N
  end_ : Option N

structure CandPayload (N E C : Type*) where
  cost : C
  edges : List E
  start : Option N
  end_ : Option N

abbrev CandGraph (N E C : Type*) := DirGraphs.DirGraph (Option N) (CandPayload N E C)

/-- What a router works on, with the order in which queues and sets list their elements. -/
structure Setting (N E C : Type*) [LinearOrder C] where
  g : TransitGraph N E C
  rOpts : RoutingOptions C
  may : E → E → N → Bool
  simi : RoutingAttributes → ℕ → C
  webMercMeterDist : C × C → C × C → C
  innerProd : E → N → E → C
  caching : Bool
  pq : PriorityQueue (EDijkstra.RouteEdge N E C) EDijkstra.RouteEdge.less
  edgeSet : PointerSet E
  candPq : PriorityQueue (EDijkstra.RouteEdge ℕ Edge C) EDijkstra.RouteEdge.less
  candSet : PointerSet Edge

section model
variable {N E C : Type*} [DecidableEq N] [DecidableEq E] [Field C] [LinearOrder C]

def edgeCost (o : RoutingOptions C) (mDist : ℕ → C) (fullTurns passThru : ℕ) (oneWayMeters : C)
    (oneWayEdges : ℕ) (lineUnmatchedMeters noLinesMeters reachPen : C) : C :=
  ((List.range 8).map fun l => mDist l * o.levelPunish l).sum +
    oneWayMeters * o.oneWayPunishFac + oneWayEdges * o.oneWayEdgePunish +
    lineUnmatchedMeters * o.lineUnmatchedPunishFact + noLinesMeters * o.noLinesPunishFact +
    fullTurns * o.fullTurnPunishFac + passThru * o.passThruStationsPunish + reachPen

variable (S : Setting N E C)

section cost
variable (rAttrs : RoutingAttributes)

def bestSimi (simi : ℕ → C) : C → List ℕ → C
  | best, [] => best
  | best, l :: lines =>
    let cur := simi l
    if cur < 1 / 10000 then 0 else bestSimi simi (if cur < best then cur else best) lines

def transitLineCmp (e : E) : C :=
  if rAttrs.short_name = "" ∧ rAttrs.to_ = "" ∧ rAttrs.frm = "" then 0
  else bestSimi (S.simi rAttrs) 1 (S.g.lines e)

def edgePairCost (tgGrp : Option ℕ) (frm : E) (n : N) (to_ : E) : C :=
  let fullTurns : ℕ :=
    if S.g.getFrom frm = S.g.getTo to_ ∧ S.g.getTo frm = S.g.getFrom to_ then 1
    else if 2 < (S.g.adjListOut n).length then
      (if S.innerProd frm n to_ < S.rOpts.fullTurnAngle then 1 else 0)
    else 0
  let oneway : ℕ :=
    if S.g.is_restricted frm ∧ ¬ S.may frm to_ n then 1
    else if S.g.oneWay frm = 2 then 1 else 0
  let stationSkip : ℕ :=
    match S.g.si n with
    | some grp => if tgGrp ≠ none ∧ grp ≠ tgGrp then 1 else 0
    | none => 0
  let noLines : Bool :=
    rAttrs.short_name = "" ∧ rAttrs.to_ = "" ∧ rAttrs.frm = "" ∧ S.g.lines frm = []
  edgeCost S.rOpts (fun l => if S.g.level frm = l then S.g.length frm else 0) fullTurns stationSkip
    (S.g.length frm * oneway) oneway (S.g.length frm * transitLineCmp S rAttrs frm)
    (if noLines then S.g.length frm else 0) 0

def costFunc (tgGrp : Option ℕ) (max : C) : EDijkstra.CostFunc N E C where
  start _ := 0
  cost := edgePairCost S rAttrs tgGrp
  inf := max

end cost

def maxFrom (ds : List C) : C := ds.foldl max 0

def groupCenter (tos : List E) : C × C :=
  ((tos.map fun e => (S.g.geom (S.g.getFrom e)).1).sum / (tos.length : C),
    (tos.map fun e => (S.g.geom (S.g.getFrom e)).2).sum / (tos.length : C))

def distHeur (minLvl : ℕ) (tos : List E) : EDijkstra.HeurFunc E C := fun a _ =>
  let toCenter := fun e =>
    S.webMercMeterDist (S.g.geom (S.g.getFrom e)) (groupCenter S tos) * S.rOpts.levelPunish minLvl
  toCenter a - maxFrom (tos.map toCenter)

def compConned (a b : EdgeCandidateGroup E C) : Bool :=
  a.any fun n1 => b.any fun n2 =>
    S.g.component (S.g.getFrom n1.e) = S.g.component (S.g.getFrom n2.e)

def targetGroup (b : EdgeCandidateGroup E C) : Option ℕ :=
  b.head?.bind fun c => (S.g.si (S.g.getFrom c.e)).bind id

variable (thread : ℕ) (rAttrs : RoutingAttributes)

def cache (caches : Caches E C) (frm to_ : E) (c : C) (edges : List E) : Caches E C :=
  if ¬ S.caching ∨ frm = to_ then caches
  else
    Function.update caches thread (Function.update (caches thread) rAttrs
      (Function.update (caches thread rAttrs) frm
        (Function.update (caches thread rAttrs frm) to_ (some (c, edges)))))

structure NestedState (E C : Type*) where
  curEdges : List E
  curCost : C
  caches : Caches E C

def nestedCacheStep (front : E) (froms : List E) (cost : EDijkstra.CostFunc N E C)
    (st : NestedState E C) (e : E) : NestedState E C :=
  let curCost :=
    match st.curEdges.getLast? with
    | some back => st.curCost + cost.cost e (S.g.getTo e) back
    | none => st.curCost
  let curEdges := st.curEdges ++ [e]
  { curEdges, curCost
    caches :=
      if e ∈ froms then cache S thread rAttrs st.caches e front (cost.start e + curCost) curEdges
      else st.caches }

def nestedCache (el froms : List E) (cost : EDijkstra.CostFunc N E C) (caches : Caches E C) :
    Caches E C :=
  if ¬ S.caching then caches
  else
    match el with
    | [] => caches
    | front :: _ => (el.foldl (nestedCacheStep S thread rAttrs front froms cost) ⟨[], 0, caches⟩).caches

def getValue (c : WithTop C) : C := c.untopD 0

def pendingDistance (a b : EdgeCandidateGroup E C) : C :=
  maxFrom (a.flatMap fun i => b.map fun j =>
    S.webMercMeterDist (S.g.geom (S.g.getFrom i.e)) (S.g.geom (S.g.getFrom j.e)))

/-- The search of `getHopBand`: its cost and its edge list. -/
def pilotRun (a b : EdgeCandidateGroup E C) : C × List E :=
  let cost := costFunc S rAttrs (targetGroup S b) (pendingDistance S a b * 50)
  let frm := S.edgeSet.toList (a.map EdgeCandidate.e)
  let tos := S.edgeSet.toList (b.map EdgeCandidate.e)
  if compConned S a b then
    let ret := EDijkstra.shortestPathSet S.pq S.g.toDirGraph cost (distHeur S 0 tos) tos frm
    (getValue ret.1, ret.2)
  else (pendingDistance S a b * 50, [])

def getHopBand (a b : EdgeCandidateGroup E C) (caches : Caches E C) :
    HopBand E C × Caches E C :=
  let pend := pendingDistance S a b
  let frm := S.edgeSet.toList (a.map EdgeCandidate.e)
  let tos := S.edgeSet.toList (b.map EdgeCandidate.e)
  let (ret, el) := pilotRun S rAttrs a b
  if el.length < 2 ∧ pend * 50 ≤ ret then (⟨0, 1, none, 0⟩, caches)
  else
    let caches :=
      nestedCache S thread rAttrs el frm (costFunc S rAttrs (targetGroup S b) (pend * 50)) caches
    let maxStrD := maxFrom (tos.map fun e => el.head?.elim 0 fun front =>
      S.webMercMeterDist (S.g.geom (S.g.getFrom front)) (S.g.geom (S.g.getTo e)))
    let maxD := max ret (pend * S.rOpts.levelPunish 2) * 3 +
      S.rOpts.fullTurnPunishFac + S.rOpts.platformUnmatchedPen
    (⟨ret, maxD, el.head?, maxStrD⟩, caches)

def cachedHop (caches : Caches E C) (frm to_ : E) : Option (C × List E) :=
  if S.caching then caches thread rAttrs frm to_ else none

def getCachedHops (caches : Caches E C) (frm : E) (tos : List E) : List E :=
  tos.filter fun t => (cachedHop S thread rAttrs caches frm t).isNone

def isShortcut (frm e : E) : Bool :=
  (S.rOpts.noSelfHops ∧ (e = frm ∨ S.g.getFrom e = S.g.getFrom frm)) ∨
    S.g.component (S.g.getFrom frm) ≠ S.g.component (S.g.getTo e) ∨
    S.g.oneWay e = 2 ∨ S.g.oneWay frm = 2

/-- The search of `hops` for the targets that are left. -/
def hopSearch (frm : E) (rem : List E) (tgGrp : Option ℕ) (maxD : C) : EDijkstra.Results E C :=
  EDijkstra.shortestPathAll S.pq S.g.toDirGraph (costFunc S rAttrs tgGrp maxD)
    (distHeur S (S.g.minEdgeLvl (S.g.component (S.g.getFrom frm))) rem) rem frm

def hopTargets (frm : E) (tos : List E) (caches : Caches E C) : List E :=
  (getCachedHops S thread rAttrs caches frm tos).filter fun t => !isShortcut S frm t

def hops (frm : E) (froms tos : List E) (tgGrp : Option ℕ) (maxD : C) (caches : Caches E C) :
    HopResults E C × Caches E C :=
  let rem := hopTargets S thread rAttrs frm tos caches
  let ret := hopSearch S rAttrs frm rem tgGrp maxD
  ({ costs := fun t =>
      if t ∉ tos then 0
      else
        match cachedHop S thread rAttrs caches frm t with
        | some cv => cv.1
        | none => if isShortcut S frm t then maxD else getValue (ret.costs t)
     edges := fun t =>
      if t ∉ tos then []
      else
        match cachedHop S thread rAttrs caches frm t with
        | some cv => cv.2
        | none => if isShortcut S frm t then [] else ret.resEdges t },
    rem.foldl (fun caches t => nestedCache S thread rAttrs (ret.resEdges t) froms
      (costFunc S rAttrs tgGrp maxD) caches) caches)

section route

structure RouteState (N E C : Type*) where
  cgraph : CandGraph N E C
  nodes : E → Option ℕ
  nextNodes : E → Option ℕ
  caches : Caches E C
  /-- What `hops` returned for an edge of a group, which the source does not keep. -/
  delivered : ℕ → E → HopResults E C

def defaultPayload : CandPayload N E C := ⟨0, [], none, none⟩

def addSourceEdge (source : ℕ) (st : RouteState N E C) (c : EdgeCandidate E C) :
    RouteState N E C :=
  let (n, g) := st.cgraph.addNd (some (S.g.getFrom c.e))
  let (e, g) := g.addEdg source n defaultPayload
  { st with
    cgraph := g.setPl e { g.pl e with cost := c.pen }
    nodes := Function.update st.nodes c.e (some n) }

/-- The maps `edges` and `pens` of one edge of the left group. -/
structure Targets (E C : Type*) where
  edges : E → Option Edge
  pens : E → C

/-- `nextNodes[eTo]`, which is added when it is not there. -/
def targetNode (nextNodes : E → Option ℕ) (g : CandGraph N E C) (c : EdgeCandidate E C) :
    ℕ × CandGraph N E C :=
  match nextNodes c.e with
  | some n => (n, g)
  | none => g.addNd (some (S.g.getFrom c.e))

def addSinkEdge (last : Bool) (sink n : ℕ) (g : CandGraph N E C) : CandGraph N E C :=
  if last then (g.addEdg n sink defaultPayload).2 else g

def addTarget (last : Bool) (sink : ℕ) (eFr : E) (cNodeFr : ℕ)
    (st : CandGraph N E C × (E → Option ℕ) × Targets E C) (c : EdgeCandidate E C) :
    CandGraph N E C × (E → Option ℕ) × Targets E C :=
  let (g, nextNodes, tg) := st
  let (n, g) := targetNode S nextNodes g c
  let (e, g) := (addSinkEdge last sink n g).addEdg cNodeFr n defaultPayload
  (g.setPl e { g.pl e with start := some (S.g.getFrom eFr), end_ := some (S.g.getFrom c.e) },
    Function.update nextNodes c.e (some n),
    ⟨Function.update tg.edges c.e (some e), Function.update tg.pens c.e c.pen⟩)

/-- Cost and edge list of a hop, with the reach edge taken off the list. -/
def writeHop (res : HopResults E C) (tg : Targets E C) (g : CandGraph N E C) (t : E) :
    CandGraph N E C :=
  match tg.edges t with
  | none => g
  | some e =>
    g.setPl e { g.pl e with
      cost := tg.pens t + res.costs t
      edges := if S.rOpts.popReachEdge then (res.edges t).tail else res.edges t }

/-- The inner loop of `route` for one edge of group `i`. -/
def routeFrom (i : ℕ) (last : Bool) (sink : ℕ) (a b : EdgeCandidateGroup E C) (maxD : C)
    (st : RouteState N E C) (eFr : E) : RouteState N E C :=
  match st.nodes eFr with
  | none => st
  | some cNodeFr =>
    let (g, nextNodes, tg) := b.foldl (addTarget S last sink eFr cNodeFr)
      (st.cgraph, st.nextNodes, ⟨fun _ => none, fun _ => 0⟩)
    let tos := S.edgeSet.toList (b.map EdgeCandidate.e)
    let (res, caches) := hops S thread rAttrs eFr (S.edgeSet.toList (a.map EdgeCandidate.e)) tos
      (targetGroup S b) maxD st.caches
    { st with
      cgraph := tos.foldl (writeHop S res tg) g
      nextNodes
      caches
      delivered := Function.update st.delivered i (Function.update (st.delivered i) eFr res) }

/-- One round of the outer loop of `route`, from group `i`. -/
def routeLayer (i : ℕ) (last : Bool) (sink : ℕ) (a b : EdgeCandidateGroup E C)
    (st : RouteState N E C) : RouteState N E C :=
  let (hopBand, caches) := getHopBand S thread rAttrs a b st.caches
  let st := (S.edgeSet.toList (a.map EdgeCandidate.e)).foldl
    (routeFrom S thread rAttrs i last sink a b hopBand.maxD)
    { st with
      caches
      nextNodes := fun _ => none }
  { st with
    nodes := st.nextNodes
    nextNodes := st.nodes }

/-- The outer loop of `route`: group `a` is number `i`, and `rest` follows it. -/
def routeHops (sink : ℕ) : ℕ → EdgeCandidateGroup E C → EdgeCandidateRoute E C →
    RouteState N E C → RouteState N E C
  | _, _, [], st => st
  | i, a, b :: rest, st =>
    routeHops sink (i + 1) b rest (routeLayer S thread rAttrs i rest.isEmpty sink a b st)

def source : ℕ := 0

def sink : ℕ := 1

def emptyState (caches : Caches E C) : RouteState N E C :=
  let empty : CandGraph N E C := .empty none defaultPayload
  ⟨((empty.addNd none).2.addNd none).2, fun _ => none, fun _ => none, caches,
    fun _ _ => ⟨fun _ => 0, fun _ => []⟩⟩

def routeGraph (route : EdgeCandidateRoute E C) (caches : Caches E C) : RouteState N E C :=
  match route with
  | [] => emptyState caches
  | a :: rest =>
    routeHops S thread rAttrs sink 0 a rest (a.foldl (addSourceEdge S source) (emptyState caches))

def searchGraph (g : CandGraph N E C) : EDijkstra.DirGraph ℕ Edge where
  edges := g.edges
  getFrom := Edge.getFrom
  getTo := Edge.getTo
  adjListOut := g.getAdjListOut
  mem_adjListOut := DirGraph.mem_getAdjListOut

def combCostFunc (g : CandGraph N E C) : EDijkstra.CostFunc ℕ Edge C where
  start e := (g.pl e).cost
  cost _ _ to_ := (g.pl to_).cost
  inf := ⊤

/-- `EDijkstra::shortestPath(source, sink, ccost, &res)` -/
def solve (g : CandGraph N E C) : List Edge :=
  (EDijkstra.shortestPathSet S.candPq (searchGraph g) (combCostFunc g) (fun _ _ => 0)
    (S.candSet.toList (g.getAdjListIn sink)) (S.candSet.toList (g.getAdjListOut source))).2

def edgeListHop (p : CandPayload N E C) : EdgeListHop N E C := ⟨p.edges, p.cost, p.start, p.end_⟩

def readHops (g : CandGraph N E C) (res : List Edge) : List (EdgeListHop N E C) :=
  (res.reverse.filter fun e => e.getFrom ≠ source ∧ e.getTo ≠ sink).map fun e => edgeListHop (g.pl e)

def route (cands : EdgeCandidateRoute E C) (caches : Caches E C) :
    List (EdgeListHop N E C) × Caches E C :=
  if cands.length < 2 then ([], caches)
  else
    let st := routeGraph S thread rAttrs cands caches
    let ret := readHops st.cgraph (solve S st.cgraph)
    (ret ++ List.replicate (cands.length - 1 - ret.length) ⟨[], 0, none, none⟩, st.caches)

end route

end model

end Pfaedle.Router

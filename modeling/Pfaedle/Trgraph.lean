import Pfaedle.ODirEdges
import Mathlib.Algebra.Order.Monoid.Canonical.Defs

set_option autoImplicit false

/-!
# The clean-up passes of `trgraph::graph`

Positions are points of any type and lengths any ordered amounts that are never negative. The
node set is walked through in address order, which is any order.
-/
namespace Pfaedle.Trgraph
open DirGraphs Restriction ODirEdges

/-- `LINE`, length, level and lines of an edge. -/
structure EdgeData (P L : Type*) where
  geom : List P
  length : L
  level : ℕ
  lines : List ℕ

/-- `get_si` is null for a blocker. `G` is the type of group pointers. -/
structure StationInfo (G D : Type*) where
  group : Option G
  data : D

structure NodePayload (P G D : Type*) where
  geom : P
  si : Option (StationInfo G D)

abbrev Payload (P L : Type*) := EdgePayload (EdgeData P L)

abbrev Graph (P L G D : Type*) := TrGraph (NodePayload P G D) (EdgeData P L)

/-- `gap p` is `meter / webMercDistFactor(p)`, `angSmaller` compares with the full turn angle, and
`toFloat` is a `double` after it has been stored as a `float`. -/
structure Geo (P L : Type*) where
  webMercMeterDist : P → P → L
  toFloat : L → L
  gap : P → L
  angSmaller : P → P → P → Bool
  distToSegment : P → P → P → L

section payload
variable {P L : Type*}

def setLine (p : Payload P L) (l : List P) : Payload P L := { p with data := { p.data with geom := l } }

def setLength (geo : Geo P L) (p : Payload P L) (len : L) : Payload P L :=
  { p with data := { p.data with length := geo.toFloat len } }

def addPoint (p : Payload P L) (x : P) : Payload P L := setLine p (p.data.geom ++ [x])

def backHop (p : Payload P L) : Option P :=
  if p.rev then p.data.geom[1]? else p.data.geom.reverse[1]?

def frontHop (p : Payload P L) : Option P :=
  if p.rev then p.data.geom.reverse[1]? else p.data.geom[1]?

end payload

section passes
variable {P L G D : Type*} (geo : Geo P L)

def pos (g : Graph P L G D) (n : ℕ) : P := (g.npl n).geom

def deg (g : Graph P L G D) (n : ℕ) : ℕ := g.getInDeg n + g.getDeg n

def writeGeometry (g : Graph P L G D) (e : Edge) : Graph P L G D :=
  let p := addPoint (g.pl e) (pos g e.getFrom)
  let p := setLength geo p (geo.webMercMeterDist (pos g e.getFrom) (pos g e.getTo))
  g.setPl e (addPoint p (pos g e.getTo))

def writeGeometries (g : Graph P L G D) : Graph P L G D :=
  g.nds.foldl (fun g n => (g.getAdjListOut n).foldl (writeGeometry geo) g) g

def hasGroup (g : Graph P L G D) (n : ℕ) : Bool := (g.npl n).si.any fun si => si.group.isSome

def deleteOrphanNode (g : Graph P L G D) (n : ℕ) : Graph P L G D :=
  if deg g n = 0 ∧ ¬ hasGroup g n then g.delNd n else g

def deleteOrphanNodes (g : Graph P L G D) : Graph P L G D := g.nds.foldl deleteOrphanNode g

section gaps
variable [LinearOrder L]

/-- The graph with the nodes that have been taken out of the grid. -/
structure GapState (P L G D : Type*) where
  g : Graph P L G D
  removed : List ℕ

def deadEdge (g : Graph P L G D) (nb : ℕ) : Option Edge :=
  if g.getDeg nb ≠ 0 then (g.getAdjListOut nb).head? else (g.getAdjListIn nb).head?

def isGap (g : Graph P L G D) (n nb : ℕ) : Prop :=
  nb ≠ n ∧ deg g nb = 1 ∧ geo.webMercMeterDist (pos g nb) (pos g n) ≤ geo.gap (pos g n)

instance (g : Graph P L G D) (n nb : ℕ) : Decidable (isGap geo g n nb) :=
  inferInstanceAs (Decidable (_ ∧ _ ∧ _))

def bothPlain (g : Graph P L G D) (n nb : ℕ) : Prop := (g.npl nb).si = none ∧ (g.npl n).si = none

instance (g : Graph P L G D) (n nb : ℕ) : Decidable (bothPlain g n nb) :=
  decidable_of_iff ((g.npl nb).si.isNone ∧ (g.npl n).si.isNone) (by
    rw [Option.isNone_iff_eq_none, Option.isNone_iff_eq_none]
    rfl)

/-- The end point `nb` of `old` is moved to `n`, and `nb` is deleted. -/
def moveEnd (st : GapState P L G D) (n nb : ℕ) (old : Edge) : GapState P L G D :=
  let otherN := old.getOtherNd nb
  let (e, g) := st.g.addEdg otherN n (st.g.pl old)
  let g := g.setPl e (setLine (g.pl e) [pos g otherN, pos g n])
  ⟨g.delNd nb, nb :: st.removed⟩

def bridge (st : GapState P L G D) (n nb : ℕ) (old : Edge) : GapState P L G D :=
  { st with g := (st.g.addEdg n nb (st.g.pl old)).2 }

def fixGap (n : ℕ) (st : GapState P L G D) (nb : ℕ) : GapState P L G D :=
  if isGap geo st.g n nb then
    match deadEdge st.g nb with
    | none => st
    | some old => if bothPlain st.g n nb then moveEnd st n nb old else bridge st n nb old
  else st

def gridGet (cells : ℕ → List ℕ) (st : GapState P L G D) (n : ℕ) : List ℕ :=
  (cells n).filter (· ∉ st.removed)

/-- `cells n` is what the grid around `n` held when it was built. -/
def fixGapsAt (cells : ℕ → List ℕ) (st : GapState P L G D) (n : ℕ) : GapState P L G D :=
  if n ∈ st.g.nds ∧ deg st.g n = 1 then (gridGet cells st n).foldl (fixGap geo n) st else st

def fixGaps (cells : ℕ → List ℕ) (g : Graph P L G D) : Graph P L G D :=
  (g.nds.foldl (fixGapsAt geo cells) ⟨g, []⟩).g

end gaps

section collapse
variable [Add L]

def areEdgesSimilar (g : Graph P L G D) (a b : Edge) : Bool :=
  let pa := g.pl a
  let pb := g.pl b
  if xor (pa.oneWay ≠ 0) (pb.oneWay ≠ 0) then false
  else if pa.data.level ≠ pb.data.level then false
  else if pa.data.lines ≠ pb.data.lines then false
  else if (pa.oneWay ≠ 0 ∧ pb.oneWay ≠ 0) ∧ a.getFrom ≠ b.getTo ∧ a.getTo ≠ b.getFrom then false
  else if pa.is_restricted ∨ pb.is_restricted then false
  else true

/-- The node that `merge_edge_payload` takes for the shared one. -/
def mergeNode (a b : Edge) : ℕ :=
  if a.getFrom = b.getFrom then a.getFrom
  else if a.getFrom = b.getTo then a.getFrom
  else a.getTo

def mergeLine (a b : Edge) (la lb : List P) : List P :=
  let n := mergeNode a b
  if a.getTo = n ∧ b.getTo = n then la ++ lb.reverse
  else if a.getTo = n ∧ b.getFrom = n then la ++ lb
  else if a.getFrom = n ∧ b.getTo = n then la.reverse ++ lb.reverse
  else la.reverse ++ lb

def mergeEdgePayload (g : Graph P L G D) (a b : Edge) : Payload P L :=
  setLength geo (setLine (g.pl a) (mergeLine a b (g.pl a).data.geom (g.pl b).data.geom))
    ((g.pl a).data.length + (g.pl b).data.length)

def edgePair (g : Graph P L G D) (n : ℕ) : Option (Edge × Edge) :=
  let outs := g.getAdjListOut n
  let ins := g.getAdjListIn n
  if outs.length = 2 then outs.head?.bind fun a => outs.getLast?.map fun b => (a, b)
  else if ins.length = 2 then ins.head?.bind fun a => ins.getLast?.map fun b => (a, b)
  else outs.head?.bind fun a => ins.head?.map fun b => (a, b)

/-- The two edges at `n` are replaced by one; the first of them becomes the payload. -/
def contract (g : Graph P L G D) (n : ℕ) (ea eb : Edge) : Graph P L G D :=
  let g' :=
    if (g.pl ea).oneWay ≠ 0 ∧ ea.getOtherNd n ≠ ea.getFrom then
      (g.addEdg (eb.getOtherNd n) (ea.getOtherNd n) (mergeEdgePayload geo g eb ea)).2
    else (g.addEdg (ea.getOtherNd n) (eb.getOtherNd n) (mergeEdgePayload geo g ea eb)).2
  (g'.delEdg ea.getFrom ea.getTo).delEdg eb.getFrom eb.getTo

def collapseAt (g : Graph P L G D) (n : ℕ) : Graph P L G D :=
  if deg g n ≠ 2 ∨ (g.npl n).si.isSome then g
  else
    match edgePair g n with
    | none => g
    | some (ea, eb) =>
      if (g.getEdg (ea.getOtherNd n) (eb.getOtherNd n)).isSome then g
      else if (g.getEdg (eb.getOtherNd n) (ea.getOtherNd n)).isSome then g
      else if areEdgesSimilar g ea eb then contract geo g n ea eb
      else g

def collapseEdges (g : Graph P L G D) : Graph P L G D := g.nds.foldl (collapseAt geo) g

end collapse

def hopAt (g : Graph P L G D) (n : ℕ) (e : Edge) : Option P :=
  if e.getTo ≠ n then frontHop (g.pl e) else backHop (g.pl e)

def keepFullTurn (g : Graph P L G D) (n : ℕ) : Bool :=
  if deg g n ≠ 1 then false
  else
    match deadEdge g n with
    | none => false
    | some e =>
      let other := e.getOtherNd n
      if deg g other = 3 then
        match (g.getAdjListIn other ++ g.getAdjListOut other).filter (· ≠ e) with
        | a :: b :: _ =>
          match hopAt g other a, hopAt g other b with
          | some ap, some bp => geo.angSmaller ap (pos g other) bp
          | _, _ => false
        | _ => false
      else false

def deleteOrphanEdge (g : Graph P L G D) (n : ℕ) : Graph P L G D :=
  if deg g n ≠ 1 ∨ (g.npl n).si.isSome then g
  else if keepFullTurn geo g n then g
  else g.delNd n

def deleteOrphanRound (g : Graph P L G D) : Graph P L G D :=
  g.nds.foldl (deleteOrphanEdge geo) g

def deleteOrphanEdges (g : Graph P L G D) : Graph P L G D :=
  deleteOrphanRound geo (deleteOrphanRound geo (deleteOrphanRound geo g))

section simplify
variable [LinearOrder L] [Zero L]

/-- The inner point that is farthest from the segment, with its distance. -/
def farthest (front back : P) (g : List P) : ℕ × L :=
  (g.zipIdx.drop 1).dropLast.foldl
    (fun best x =>
      let dt := geo.distToSegment front back x.1
      if best.2 < dt then (x.2, dt) else best) (0, 0)

/-- Douglas-Peucker; `k` bounds the depth of the recursion. -/
def simplifyLine (d : L) : ℕ → List P → List P
  | 0, g => g
  | k + 1, g =>
    match g.head?, g.getLast? with
    | some front, some back =>
      let (maxi, maxd) := farthest geo front back g
      if d < maxd then
        simplifyLine d k (g.take (maxi + 1)) ++ (simplifyLine d k (g.drop maxi)).tail
      else [front, back]
    | _, _ => []

def simplifyGeometry (d : L) (g : Graph P L G D) (e : Edge) : Graph P L G D :=
  g.setPl e (setLine (g.pl e) (simplifyLine geo d (g.pl e).data.geom.length (g.pl e).data.geom))

def simplifyGeometries (d : L) (g : Graph P L G D) : Graph P L G D :=
  g.nds.foldl (fun g n => (g.getAdjListOut n).foldl (simplifyGeometry geo d) g) g

end simplify

/-- The part of `snap_station` that splits `e` at a new node with the payload `s`. -/
def splitEdge (st : Graph P L G D × Restrictor) (e : Edge) (s : NodePayload P G D) :
    Graph P L G D × Restrictor :=
  let (n, g) := st.1.addNd s
  let (ne, g) := g.addEdg e.getFrom n (g.pl e)
  let g := g.setPl ne (setLine (setLength geo (g.pl ne)
    (geo.webMercMeterDist (pos g n) (pos g e.getFrom))) [pos g e.getFrom, pos g n])
  let (nf, g) := g.addEdg n e.getTo (g.pl e)
  let g := g.setPl nf (setLine (setLength geo (g.pl nf)
    (geo.webMercMeterDist (pos g n) (pos g e.getTo))) [pos g n, pos g e.getTo])
  (g.delEdg e.getFrom e.getTo, st.2.replaceEdge e ne nf)

end passes

/-- A natural number in a `float`: the nearest number of 24 bits, of two the even one. -/
def floatOfNat (n : ℕ) : ℕ :=
  let unit := 2 ^ (n.log2 + 1 - 24)
  let q := n / unit
  let r := n % unit
  (if unit < 2 * r ∨ (unit = 2 * r ∧ q % 2 = 1) then q + 1 else q) * unit

def lineGeo : Geo ℕ ℕ where
  webMercMeterDist p q := (p - q) + (q - p)
  toFloat := floatOfNat
  gap _ := 1
  angSmaller p q r := p < q ↔ r < q
  distToSegment p q x := (min p q - x) + (x - max p q)

end Pfaedle.Trgraph

import Pfaedle.ODirEdges

set_option autoImplicit false

/-!
# `osm_builder::read_edges`

Kept ways are cut into edges, and at both ends of every edge the restrictions for that node are
entered into the restrictor. `annotate` stands for what `read_edges` writes into the payload of
an edge from the attributes and relations of its way.
-/
namespace Pfaedle.ReadEdges
open DirGraphs Osm Restriction ODirEdges

structure Visit (V E : Type*) where
  nid : Osmid
  wid : Osmid
  e : E
  n : V
deriving DecidableEq

structure ReadState (NP D : Type*) where
  g : TrGraph NP D
  nodes : Osmid → Option ℕ
  multNodes : Osmid → List ℕ
  restor : Restrictor
  /-- The calls of `process_restrictions` so far, which the source does not keep. -/
  visits : List (Visit ℕ Edge)

section model
variable {NP D : Type*} [Inhabited NP] [Inhabited D]

def defaultPayload : EdgePayload D := ⟨0, false, false, default⟩

def ReadState.empty : ReadState NP D :=
  ⟨.empty default defaultPayload, fun _ => none, fun _ => [], .empty, []⟩

def setRestricted (g : TrGraph NP D) (e : Edge) : TrGraph NP D :=
  g.setPl e { g.pl e with hasRestr := true }

/-- One restriction in the loops of `process_restrictions`. -/
def processRestriction (pos : Bool) (v : Visit ℕ Edge) (st : TrGraph NP D × Restrictor)
    (kv : Restriction) : TrGraph NP D × Restrictor :=
  if kv.eFrom = v.wid then (setRestricted st.1 v.e, st.2.add v.e kv.eTo v.n pos)
  else if kv.eTo = v.wid then (setRestricted st.1 v.e, st.2.relax v.wid v.n v.e)
  else st

def processRestrictions (rawRests : Restrictions) (st : ReadState NP D) (v : Visit ℕ Edge) :
    ReadState NP D :=
  let (g, restor) := (rawRests.neg v.nid).foldl (processRestriction false v)
    ((rawRests.pos v.nid).foldl (processRestriction true v) (st.g, st.restor))
  { st with g, restor, visits := st.visits ++ [v] }

variable (bBoxNodes noHupNodes : Osmid → Bool) (rawRests : Restrictions)
  (annotate : OsmWay → EdgePayload D → EdgePayload D)

/-- The graph node for a node reference; `none` for a node that is passed over. -/
def refNode (st : ReadState NP D) (nid : Osmid) : Option (ℕ × ReadState NP D) :=
  if noHupNodes nid then
    let (n, g) := st.g.addNd default
    some (n, { st with
      g
      multNodes := Function.update st.multNodes nid (st.multNodes nid ++ [n]) })
  else
    match st.nodes nid with
    | some n => some (n, st)
    | none =>
      if bBoxNodes nid then
        let (n, g) := st.g.addNd default
        some (n, { st with
          g
          nodes := Function.update st.nodes nid (some n) })
      else none

def connect (w : OsmWay) (st : ReadState NP D) (last : Osmid × ℕ) (nid : Osmid) (n : ℕ) :
    ReadState NP D :=
  let (e, g) := st.g.addEdg last.2 n defaultPayload
  let st := processRestrictions rawRests { st with g } ⟨nid, w.id, e, n⟩
  let st := processRestrictions rawRests st ⟨last.1, w.id, e, last.2⟩
  { st with g := st.g.setPl e (annotate w (st.g.pl e)) }

/-- `last` holds `lastnid` and `last`, which are set together. -/
def readRef (w : OsmWay) (st : ReadState NP D × Option (Osmid × ℕ)) (nid : Osmid) :
    ReadState NP D × Option (Osmid × ℕ) :=
  match refNode bBoxNodes noHupNodes st.1 nid with
  | none => st
  | some (n, s) =>
    match st.2 with
    | none => (s, some (nid, n))
    | some last => (connect rawRests annotate w s last nid n, some (nid, n))

def readWay (st : ReadState NP D) (w : OsmWay) : ReadState NP D :=
  (w.nodes.foldl (readRef bBoxNodes noHupNodes rawRests annotate w) (st, none)).1

/-- `read_edges` over the ways that `keep_way` lets through. -/
def readEdges (keep : OsmWay → Bool) (ways : List OsmWay) : ReadState NP D :=
  (ways.filter keep).foldl (readWay bBoxNodes noHupNodes rawRests annotate) .empty

end model

end Pfaedle.ReadEdges

import Pfaedle.Contraction
import Pfaedle.GapGeometry
import Pfaedle.SnapFindable
import Pfaedle.SnapStreets

set_option autoImplicit false

/-!
# The clean-up in `osm_builder::read`

The passes over the graph that `read_edges` and `read_nodes` leave, in the order in which `read`
makes them.
-/
namespace Pfaedle.Trgraph
open DirGraphs Restriction ODirEdges LoopRules

/-- What `read` hands to the passes. `cells` is the node grid of `fix_gaps`, and `tolerance` is the
    one of `simplify_geometries`. -/
structure CleanUp (P L : Type*) [LinearOrder L] where
  S : Snapper P L
  cells : ℕ → List ℕ
  stops : ℕ → GtfsStop P
  keys : List ℕ
  orphanStations : List ℕ
  blockers : List ℕ
  tolerance : L

section model
variable {P L : Type*} [AddCommMonoid L] [LinearOrder L] (C : CleanUp P L)

def CleanUp.geo : Geo P L := C.S.geo.toGeo

def CleanUp.fixGaps (st : Stations P L) : Stations P L :=
  { st with g := writeGeometries C.geo (Trgraph.fixGaps C.geo C.cells st.g) }

def CleanUp.snapStations (st : Stations P L) (restor : Restrictor) : SnapState P L :=
  (snap_stations C.S C.stops C.keys C.orphanStations (C.fixGaps st) restor C.blockers).1

def CleanUp.deleteOrphans {G D : Type*} (g : Graph P L G D) : Graph P L G D :=
  deleteOrphanEdges C.geo (deleteOrphanNodes g)

def CleanUp.collapse {G D : Type*} (g : Graph P L G D) : Graph P L G D :=
  collapseEdges C.geo (C.deleteOrphans g)

def CleanUp.simplify {G D : Type*} (g : Graph P L G D) : Graph P L G D :=
  simplifyGeometries C.geo C.tolerance (C.deleteOrphans (C.collapse g))

/-- From the reading of the nodes to `writeODirEdgs`. -/
def CleanUp.run (st : Stations P L) (restor : Restrictor) :
    Graph P L ℕ StationData × Restrictor :=
  let s := C.snapStations st restor
  writeODirEdgs (C.simplify s.st.g) s.restor

end model

section passes
variable {P L G D : Type*} {g g' : Graph P L G D}

structure Shrunk (g g' : Graph P L G D) : Prop where
  edges : ∀ e ∈ g'.edges, e ∈ g.edges
  pl : g'.pl = g.pl
  npl : g'.npl = g.npl
  proper : g.Proper → g'.Proper

theorem Shrunk.refl (g : Graph P L G D) : Shrunk g g := ⟨fun _ h => h, rfl, rfl, id⟩

theorem Shrunk.trans {g'' : Graph P L G D} (h : Shrunk g g') (h' : Shrunk g' g'') : Shrunk g g'' :=
  ⟨fun e he => h.edges e (h'.edges e he), h'.pl.trans h.pl, h'.npl.trans h.npl,
    fun hg => h'.proper (h.proper hg)⟩

theorem delNd_shrunk (g : Graph P L G D) (n : ℕ) : Shrunk g (g.delNd n) :=
  ⟨fun _ he => (DirGraph.mem_delNd_edges.1 he).1, rfl, rfl, fun h => h.delNd n⟩

theorem deleteOrphanNodes_shrunk (g : Graph P L G D) : Shrunk g (deleteOrphanNodes g) := by
  refine foldl_inv deleteOrphanNode (Shrunk g) g.nds (Shrunk.refl g) fun s n _ h => ?_
  rw [deleteOrphanNode]
  split
  · exact h.trans (delNd_shrunk s n)
  · exact h

theorem deleteOrphanRound_shrunk (geo : Geo P L) (g : Graph P L G D) :
    Shrunk g (deleteOrphanRound geo g) := by
  refine foldl_inv (deleteOrphanEdge geo) (Shrunk g) g.nds (Shrunk.refl g) fun s n _ h => ?_
  rw [deleteOrphanEdge]
  split
  · exact h
  · split
    · exact h
    · exact h.trans (delNd_shrunk s n)

theorem deleteOrphanEdges_shrunk (geo : Geo P L) (g : Graph P L G D) :
    Shrunk g (deleteOrphanEdges geo g) :=
  ((deleteOrphanRound_shrunk geo g).trans (deleteOrphanRound_shrunk geo _)).trans
    (deleteOrphanRound_shrunk geo _)

theorem writeGeometries_proper (geo : Geo P L) (h : g.Proper) : (writeGeometries geo g).Proper := by
  obtain ⟨q, hg, -⟩ := writeGeometries_spec geo h
  rw [hg]
  exact h.withPl q

section collapse
variable {geo : Geo P L} {n : ℕ} {a b f : Edge}

theorem OnlyTwo.others_mem (h : OnlyTwo g n a b) (hlive : g.Live) :
    a.getOtherNd n ∈ g.nds ∧ b.getOtherNd n ∈ g.nds := by
  have hother : ∀ e ∈ g.edges, e.getOtherNd n ∈ g.nds := by
    intro e he
    rw [Edge.getOtherNd]
    split
    · exact (hlive.ends e he).1
    · exact (hlive.ends e he).2
  exact ⟨hother a h.mem.1, hother b h.mem.2⟩

variable [Add L]

theorem ContractedGraph.proper (h : ContractedGraph geo g n a b f g') (hproper : g.Proper)
    (hmem : a.getOtherNd n ∈ g.nds ∧ b.getOtherNd n ∈ g.nds) : g'.Proper := by
  refine ⟨⟨?_, ?_, ?_⟩, h.nodup⟩
  · rw [h.nds, h.nextNd]
    exact hproper.live.handed
  · rw [h.nds]
    exact hproper.live.nodup
  · intro e he
    rw [h.nds]
    cases (h.edges e).1 he with
    | inl he => exact hproper.live.ends e he.1
    | inr he =>
      rw [he, h.ends.1, h.ends.2]
      exact hmem

theorem collapseAt_proper (geo : Geo P L) (g : Graph P L G D) (n : ℕ) (h : g.Proper) :
    (collapseAt geo g n).Proper := by
  cases collapseAt_cases geo g n with
  | inl hround =>
    obtain ⟨ea, eb, hcon, heq⟩ := hround
    obtain ⟨a, b, f, hjoined⟩ := contract_spec geo hcon h.nodup
    rw [heq]
    exact hjoined.graph.proper h ((hjoined.onlyTwo (hcon.onlyTwo h.nodup)).others_mem h.live)
  | inr heq =>
    rw [heq]
    exact h

theorem collapseEdges_proper (geo : Geo P L) (h : g.Proper) : (collapseEdges geo g).Proper :=
  foldl_inv (collapseAt geo) DirGraph.Proper g.nds h fun s n _ hs => collapseAt_proper geo s n hs

end collapse

section simplify
variable [LinearOrder L] [Zero L]

/-- The line of an edge after `simplify_geometries`. -/
def simplified (geo : Geo P L) (d : L) (l : List P) : List P := simplifyLine geo d l.length l

theorem simplifyGeometries_spec (geo : Geo P L) (d : L) (h : g.Proper) :
    ∃ q, simplifyGeometries geo d g = g.withPl q ∧
      ∀ e ∈ g.edges, q e = setLine (g.pl e) (simplified geo d (g.pl e).data.geom) := by
  exact h.foldl_visit_nds (f := fun _ p => setLine p (simplified geo d p.data.geom)) fun q e => rfl

end simplify

end passes

section run
variable {P L : Type*} [LinearOrder L] (C : CleanUp P L) {st : Stations P L}

theorem CleanUp.fixGaps_proper (h : st.g.Proper) : (C.fixGaps st).g.Proper :=
  writeGeometries_proper C.geo (Trgraph.fixGaps_proper C.geo C.cells h)

theorem CleanUp.snapStations_steps [AddCommMonoid L] (restor : Restrictor) (h : st.g.Proper) :
    (C.snapStations st restor).st.g.Proper ∧ SnapSteps C.geo ((C.fixGaps st).g, restor)
      ((C.snapStations st restor).st.g, (C.snapStations st restor).restor) :=
  snap_stations_steps C.S C.stops C.keys C.orphanStations restor C.blockers (C.fixGaps_proper h)

variable {G D : Type*} (g : Graph P L G D)

theorem CleanUp.deleteOrphans_shrunk : Shrunk g (C.deleteOrphans g) :=
  (deleteOrphanNodes_shrunk g).trans (deleteOrphanEdges_shrunk C.geo _)

theorem CleanUp.collapse_proper [AddCommMonoid L] (h : g.Proper) : (C.collapse g).Proper :=
  collapseEdges_proper C.geo ((C.deleteOrphans_shrunk g).proper h)

end run

section samples

/-- Nodes `0`, `1` and so on, ten meters apart on a line, and the given streets between them. -/
def streetsOf (nodes : ℕ) (edges : List Edge) (oneWay : ℕ) (hasRestr : Bool)
    (nextEdge : ℕ) (fresh : ∀ e ∈ edges, e.id < nextEdge)
    (simple : ∀ e ∈ edges, ∀ e' ∈ edges, e.getFrom = e'.getFrom → e.getTo = e'.getTo → e = e') :
    Stations ℕ ℕ where
  g :=
    { nds := List.range nodes
      npl := fun n => ⟨10 * n, none⟩
      edges := edges
      pl := fun _ => ⟨oneWay, hasRestr, false, ⟨[], 0, 0, []⟩⟩
      nextNd := nodes
      nextEdge := nextEdge
      fresh := fresh
      simple := simple }
  groups _ := .empty
  nextGroup := 0

def lineCleanUp : CleanUp ℕ ℕ where
  S := lineSnapper false
  cells _ := []
  stops _ := ⟨5, "Oper", "", none⟩
  keys := [7]
  orphanStations := []
  blockers := []
  tolerance := 0

end samples

end Pfaedle.Trgraph

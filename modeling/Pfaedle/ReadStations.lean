import Pfaedle.OrphanRemoval
import Pfaedle.ReadLengths

set_option autoImplicit false

/-!
# The stations of a graph that has been read

From the nodes of the document to the candidates of the router: the passes of `read` keep the
nodes of every station group, and each of them has an outgoing edge in the end.
-/
namespace Pfaedle.Trgraph
open DirGraphs Restriction ODirEdges LoopRules Components

section gaps
variable {P L G D : Type*} {g g' : Graph P L G D}

structure StationsKept (g g' : Graph P L G D) : Prop where
  npl : g'.npl = g.npl
  nds : ∀ n ∈ g'.nds, n ∈ g.nds
  kept : ∀ n ∈ g.nds, (g.npl n).si.isSome → n ∈ g'.nds

theorem StationsKept.refl (g : Graph P L G D) : StationsKept g g := ⟨rfl, fun _ => id, fun _ hn _ => hn⟩

theorem StationsKept.trans {g'' : Graph P L G D} (h : StationsKept g g') (h' : StationsKept g' g'') :
    StationsKept g g'' :=
  ⟨h'.npl.trans h.npl, fun n hn => h.nds n (h'.nds n hn),
    fun n hn hsi => h'.kept n (h.kept n hn hsi) (h.npl.symm ▸ hsi)⟩

variable [LinearOrder L]

theorem fixGap_stationsKept (geo : Geo P L) (st : GapState P L G D) (n nb : ℕ) :
    StationsKept st.g (fixGap geo n st nb).g := by
  cases fixGap_cases geo st n nb with
  | inl hround =>
    obtain ⟨hmerge, old, -, hdead, heq⟩ := hround
    obtain ⟨x, p, hmoved⟩ := moveEnd_spec hdead hmerge.1.1
    have hnds : ∀ m, m ∈ (moveEnd st n nb old).g.nds ↔ m ∈ st.g.nds ∧ m ≠ nb := fun m => by
      change m ∈ (st.g.addEdg (old.getOtherNd nb) n (st.g.pl old)).2.nds.filter _ ↔ _
      rw [DirGraph.addEdg_nds, List.mem_filter, decide_eq_true_iff]
    rw [heq]
    refine ⟨hmoved.npl, fun m hm => ((hnds m).1 hm).1, fun m hm hsi => (hnds m).2 ⟨hm, ?_⟩⟩
    intro hnb
    rw [hnb, hmerge.2.1] at hsi
    cases hsi
  | inr hround =>
    cases hround.2 with
    | inl hbridge =>
      obtain ⟨old, -, heq⟩ := hbridge
      have hlink := DirGraph.addEdg_linked st.g n nb (st.g.pl old)
      have hnds : (bridge st n nb old).g.nds = st.g.nds := hlink.nds
      rw [heq]
      exact ⟨hlink.npl, fun m hm => hnds ▸ hm, fun m hm _ => hnds.symm ▸ hm⟩
    | inr heq =>
      rw [heq]
      exact StationsKept.refl _

theorem fixGaps_stationsKept (geo : Geo P L) (cells : ℕ → List ℕ) (g : Graph P L G D) :
    StationsKept g (fixGaps geo cells g) := by
  refine foldl_inv (fixGapsAt geo cells) (fun st => StationsKept g st.g) g.nds
    (StationsKept.refl g) fun st n _ hst => ?_
  unfold fixGapsAt
  split
  · exact foldl_inv (fixGap geo n) (fun st => StationsKept g st.g) _ hst fun st nb _ hst =>
      hst.trans (fixGap_stationsKept geo st n nb)
  · exact hst

end gaps

section snapping
variable {P L : Type*} [LinearOrder L] (C : CleanUp P L) {st : Stations P L}

theorem CleanUp.fixGaps_stationsKept (hproper : st.g.Proper) :
    StationsKept st.g (C.fixGaps st).g := by
  obtain ⟨q, hq, -⟩ := writeGeometries_spec C.geo (Trgraph.fixGaps_proper C.geo C.cells hproper)
  have hgaps := Trgraph.fixGaps_stationsKept C.geo C.cells st.g
  unfold CleanUp.fixGaps
  rw [hq]
  exact ⟨hgaps.npl, hgaps.nds, hgaps.kept⟩

omit [LinearOrder L] in
/-- A group is only read through nodes that have station info. -/
theorem Linked.stationsKept {g : Graph P L ℕ StationData} (h : Linked st)
    (hkept : StationsKept st.g g) : Linked { st with g } := by
  have hold : ∀ {n G}, InGroup { st with g } n G → InGroup st n G := fun hn =>
    ⟨hkept.nds _ hn.mem, by
      have hgroup := hn.group
      unfold getGroup getSi at hgroup ⊢
      rw [← hkept.npl]
      exact hgroup⟩
  refine ⟨fun hn => h.handed (hold hn), fun hn => h.listed (hold hn), fun hn m hm => ?_⟩
  have hback := h.back (hold hn) m hm
  obtain ⟨si, hsi, -⟩ := hback.si
  refine ⟨hkept.kept m hback.mem ?_, ?_⟩
  · change (getSi st m).isSome
    rw [hsi]
    rfl
  · unfold getGroup getSi
    rw [show g.npl = st.g.npl from hkept.npl]
    exact hback.group

end snapping

section stations
variable {P L G D : Type*} [LinearOrder L] {g : Graph P L G D}

structure GroupsKept (g g' : Graph P L G D) : Prop where
  npl : g'.npl = g.npl
  kept : ∀ n ∈ g.nds, hasGroup g n → n ∈ g'.nds

omit [LinearOrder L] in
theorem GroupsKept.trans {g' g'' : Graph P L G D} (h : GroupsKept g g') (h' : GroupsKept g' g'') :
    GroupsKept g g'' :=
  ⟨h'.npl.trans h.npl, fun n hn hgroup => h'.kept n (h.kept n hn hgroup) (by
    unfold hasGroup at hgroup ⊢
    rw [h.npl]
    exact hgroup)⟩

variable (C : CleanUp P L)

theorem CleanUp.deleteOrphans_groupsKept (g : Graph P L G D) : GroupsKept g (C.deleteOrphans g) :=
  ⟨(C.deleteOrphans_shrunk g).npl, fun n hn hgroup =>
    (((deleteOrphanNodes_walksKept g).trans (deleteOrphanEdges_walksKept C.geo _)).groups n hn
      hgroup).1⟩

variable [AddCommMonoid L]

omit [LinearOrder L] in
theorem collapseEdges_groupsKept (geo : Geo P L) (hproper : g.Proper) :
    GroupsKept g (collapseEdges geo g) := by
  have hkept := foldl_inv (collapseAt geo) (fun s => s.Proper ∧ s.nds = g.nds ∧ s.npl = g.npl) g.nds
    ⟨hproper, rfl, rfl⟩ fun s n _ hs => by
      refine ⟨collapseAt_proper geo s n hs.1, ?_⟩
      cases collapseAt_cases geo s n with
      | inl hround =>
        obtain ⟨ea, eb, hcon, heq⟩ := hround
        obtain ⟨a, b, f, hjoined⟩ := contract_spec geo hcon hs.1.nodup
        rw [heq]
        exact ⟨hjoined.graph.nds.trans hs.2.1, hjoined.graph.npl.trans hs.2.2⟩
      | inr heq =>
        rw [heq]
        exact hs.2
  exact ⟨hkept.2.2, fun n hn _ => hkept.2.1.symm ▸ hn⟩

theorem CleanUp.simplify_groupsKept (hproper : g.Proper) : GroupsKept g (C.simplify g) := by
  have hcut := C.deleteOrphans_groupsKept g
  have hfold : GroupsKept (C.deleteOrphans g) (C.collapse g) :=
    collapseEdges_groupsKept C.geo ((C.deleteOrphans_shrunk g).proper hproper)
  have hcollapse := C.collapse_proper g hproper
  have hagain := C.deleteOrphans_groupsKept (C.collapse g)
  obtain ⟨q, hq, -⟩ := simplifyGeometries_spec C.geo C.tolerance
    ((C.deleteOrphans_shrunk (C.collapse g)).proper hcollapse)
  have hlines : GroupsKept (C.deleteOrphans (C.collapse g)) (C.simplify g) := by
    unfold CleanUp.simplify
    rw [hq]
    generalize C.deleteOrphans (C.collapse g) = cut
    exact ⟨rfl, fun _ hn _ => hn⟩
  exact ((hcut.trans hfold).trans hagain).trans hlines

omit [LinearOrder L]

theorem writeSelfEdgs_nodup (hnodup : g.edges.Nodup) : (writeSelfEdgs g).edges.Nodup := by
  refine foldl_inv writeSelfEdg (fun s => s.edges.Nodup) g.nds hnodup fun s n _ hs => ?_
  unfold writeSelfEdg
  split
  · exact DirGraph.addEdg_nodup hs
  · exact hs

/-- A node with a group is there in the end, and one can start from it. -/
theorem writeSelfEdgs_dirs_out {g : Graph P L G D} (hproper : g.Proper) (restor : Restrictor)
    {n : ℕ} (hn : n ∈ g.nds) (hsi : (g.npl n).si.isSome) :
    n ∈ (writeSelfEdgs (writeODirEdgs g restor).1).nds ∧
      ∃ e ∈ (writeSelfEdgs (writeODirEdgs g restor).1).edges, e.getFrom = n := by
  have hmirror := writeODirEdgs_mirrored (fun e he => (hproper.live.ends e he).1) restor
  have hlooped := writeSelfEdgs_looped (writeODirEdgs g restor).1
  have hmem : n ∈ (writeODirEdgs g restor).1.nds := hmirror.nds.symm ▸ hn
  refine ⟨hlooped.nds.symm ▸ hmem, writeSelfEdgs_out hmem ?_⟩
  rw [hmirror.npl]
  exact hsi

end stations

end Pfaedle.Trgraph

namespace Pfaedle.OsmBuilder
open DirGraphs Osm BoundingBoxes ODirEdges Trgraph Components

section served
variable {C : Type*} [Field C] [LinearOrder C] (r : ReadSetup C) (doc : List (XmlElement C))

def ReadGraph.groupOf (R : ReadGraph C) (n : ℕ) : Option ℕ := (R.g.npl n).si.bind (·.group)

/-- The stop `t` is in the group `G` of `v`, and one can start at every node of the group. -/
structure ReadGraph.Serves (R : ReadGraph C) (t v G : ℕ) : Prop where
  group : R.groupOf v = some G
  stop : t ∈ (R.groups G).stops
  node : v ∈ (R.groups G).nodes
  nodes : ∀ m ∈ (R.groups G).nodes,
    m ∈ R.g.nds ∧ R.groupOf m = some G ∧ ∃ e ∈ R.g.edges, e.getFrom = m

structure GridHolds {P L : Type*} [AddCommMonoid L] [LinearOrder L] (S : Snapper P L)
    (g : Graph P L ℕ StationData) : Prop where
  self : ∀ p, S.geo.webMercMeterDist p p = 0
  nonneg : ∀ p q, 0 ≤ S.geo.webMercMeterDist p q
  nodes : ∀ n ∈ g.nds, S.geo.inGrid (pos g n)
  convex : ∀ p q x, S.geo.inGrid p → S.geo.inGrid q → S.geo.inGrid (S.geo.projectOn p x q)

theorem GridHolds.covers {P L : Type*} [AddCommMonoid L] [LinearOrder L] {S : Snapper P L}
    {g g' : Graph P L ℕ StationData} (h : GridHolds S g) (hkept : StationsKept g g')
    (hproper : g'.Proper) : GridCovers S g' := by
  have hpos : ∀ n ∈ g'.nds, S.geo.inGrid (pos g' n) := fun n hn => by
    rw [pos, hkept.npl]
    exact h.nodes n (hkept.nds n hn)
  refine ⟨h.self, fun e he => ?_, h.convex⟩
  have hends := hproper.live.ends e he
  exact ⟨hpos _ hends.1, hpos _ hends.2⟩

theorem ReadSetup.readDoc_serves (hids : ((children "node" doc).map XmlElement.id).Nodup)
    (himport : r.snapper.import_osm_stations = true → GridHolds r.snapper (r.stations doc).g) :
    ∀ t ∈ r.keys, ∃ v G, (r.readDoc doc).fs t = some v ∧ (r.readDoc doc).Serves t v G := by
  have hproper := (r.stations_proper doc).1
  have hready := r.stations_ready doc hids
  have hkept := (r.cleanUp doc).fixGaps_stationsKept hproper
  have hfixed := (r.cleanUp doc).fixGaps_proper hproper
  have hlinked : Linked ((r.cleanUp doc).fixGaps (r.stations doc)) :=
    hready.linked.stationsKept hkept
  have hinv := snap_stations_kept (r.cleanUp doc).S (r.cleanUp doc).stops (r.cleanUp doc).keys
    (r.cleanUp doc).orphanStations (r.built doc).restor (r.cleanUp doc).blockers hfixed hlinked
    (fun o ho => hkept.kept o (hready.orphans o ho).1 (hready.orphans o ho).2)
    (fun hosm => (himport hosm).covers hkept hfixed) fun hosm => (himport hosm).nonneg
  intro t ht
  obtain ⟨v, hv, G, hin, hstop⟩ := hinv.2.2 t ht
  have hlinks := hinv.1.linked
  have hsnapped := hinv.1.proper
  unfold ReadSetup.readDoc CleanUp.run CleanUp.snapStations
  dsimp only
  generalize snap_stations (r.cleanUp doc).S (r.cleanUp doc).stops (r.cleanUp doc).keys
    (r.cleanUp doc).orphanStations ((r.cleanUp doc).fixGaps (r.stations doc)) (r.built doc).restor
    (r.cleanUp doc).blockers = run at hv hin hstop hlinks hsnapped ⊢
  have hproper' := (r.cleanUp doc).simplify_proper hsnapped
  have hgroups := (r.cleanUp doc).simplify_groupsKept hsnapped
  generalize (r.cleanUp doc).simplify run.1.st.g = cut at hproper' hgroups ⊢
  have hmirror := writeODirEdgs_mirrored (fun e he => (hproper'.live.ends e he).1) run.1.restor
  have hlooped := writeSelfEdgs_looped (writeODirEdgs cut run.1.restor).1
  have hnpl : (writeSelfEdgs (writeODirEdgs cut run.1.restor).1).npl = run.1.st.g.npl :=
    (hlooped.npl.trans hmirror.npl).trans hgroups.npl
  have hgroup : ∀ m, InGroup run.1.st m G →
      ((writeSelfEdgs (writeODirEdgs cut run.1.restor).1).npl m).si.bind (·.group) = some G :=
    fun m hm => by
      rw [hnpl]
      exact hm.group
  refine ⟨v, G, hv, hgroup v hin, hstop, hlinks.listed hin, fun m hm => ?_⟩
  have hback := hlinks.back hin m hm
  obtain ⟨si, hsi, hsigroup⟩ := hback.si
  have hmem : m ∈ cut.nds := by
    refine hgroups.kept m hback.mem ?_
    unfold hasGroup
    rw [show (run.1.st.g.npl m).si = some si from hsi, Option.any_some, hsigroup]
    rfl
  have hout := writeSelfEdgs_dirs_out hproper' run.1.restor hmem (by
    rw [hgroups.npl, show (run.1.st.g.npl m).si = some si from hsi]
    rfl)
  exact ⟨hout.1, hgroup m hback, hout.2⟩

theorem ReadSetup.readDoc_sets : SetGroups r.keys (r.readDoc doc).groups := by
  have hgroups : ((r.cleanUp doc).fixGaps (r.stations doc)).groups =
      ((r.built doc).stations r.line).groups :=
    writeEdgeTracks_groups (r.trackOrder (r.built doc).tracks) ((r.built doc).stations r.line)
  have hsets := passes_sets r.surroundings r.opts r.norm r.iter r.bbox r.uninit doc
  have hstart : SetGroups r.keys ((r.cleanUp doc).fixGaps (r.stations doc)).groups := by
    rw [hgroups]
    exact fun G => ⟨hsets G, List.nodup_nil, fun _ hs => absurd hs List.not_mem_nil⟩
  exact snap_stations_sets (r.cleanUp doc).S (r.cleanUp doc).stops (r.cleanUp doc).orphanStations
    hstart (r.built doc).restor (r.cleanUp doc).blockers

theorem ReadSetup.readDoc_nodup : (r.readDoc doc).g.edges.Nodup := by
  have hrun := ((r.cleanUp doc).run_hopped (r.built doc).restor (r.stations_proper doc).1).nodup
  unfold ReadSetup.readDoc
  dsimp only
  generalize (r.cleanUp doc).run (r.stations doc) (r.built doc).restor = dirs at hrun ⊢
  exact writeSelfEdgs_nodup hrun

end served

end Pfaedle.OsmBuilder

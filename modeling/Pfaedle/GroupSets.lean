import Pfaedle.EdgeTracks
import Pfaedle.LoopRules
import Pfaedle.ReadNodes
import Pfaedle.Snapping

set_option autoImplicit false

/-!
# The sets of a station group

A station group has two `std::set`s. Nothing is in one of them twice, from `read_nodes` to the end
of `snap_stations`, and only the stops of the feed are in the second.
-/
namespace Pfaedle.Trgraph
open DirGraphs LoopRules

section sets

theorem setInsert_nodup (addr : ℕ → ℕ) (x : ℕ) {l : List ℕ} (hl : l.Nodup) :
    (setInsert addr x l).Nodup := by
  unfold setInsert
  split
  · exact hl
  · rename_i hx
    exact (List.perm_orderedInsert _ x l).nodup_iff.2 (List.nodup_cons.2 ⟨hx, hl⟩)

theorem setInserts_spec (addr : ℕ → ℕ) (ns l : List ℕ) (hl : l.Nodup) :
    (ns.foldl (fun l n => setInsert addr n l) l).Nodup ∧
      ∀ n, n ∈ ns.foldl (fun l n => setInsert addr n l) l ↔ n ∈ ns ∨ n ∈ l := by
  induction ns generalizing l with
  | nil => exact ⟨hl, fun n => by simp⟩
  | cons x ns ih =>
    have hrest := ih _ (setInsert_nodup addr x hl)
    refine ⟨hrest.1, fun n => ?_⟩
    rw [List.foldl_cons, hrest.2, mem_setInsert, List.mem_cons]
    tauto

end sets

section groups
variable {P L : Type*} {st : Stations P L} {keys : List ℕ}

/-- No group has a node or a stop twice, and all stops are among `keys`. -/
def SetGroups (keys : List ℕ) (groups : ℕ → StationGroup) : Prop :=
  ∀ G, (groups G).nodes.Nodup ∧ (groups G).stops.Nodup ∧ ∀ s ∈ (groups G).stops, s ∈ keys

theorem SetGroups.update {groups : ℕ → StationGroup} (h : SetGroups keys groups) (G : ℕ)
    {grp : StationGroup} (hgrp : grp.nodes.Nodup ∧ grp.stops.Nodup ∧ ∀ s ∈ grp.stops, s ∈ keys) :
    SetGroups keys (Function.update groups G grp) := by
  intro H
  by_cases hH : H = G
  · rw [hH, Function.update_self]
    exact hgrp
  · rw [Function.update_of_ne hH]
    exact h H

theorem setData_groups (n : ℕ) (f : StationData → StationData) (st : Stations P L) :
    (setData n f st).groups = st.groups := by
  unfold setData
  split
  · rfl
  · rfl

theorem addNode_sets (addr : ℕ → ℕ) (G n : ℕ) (h : SetGroups keys st.groups) :
    SetGroups keys (addNode addr G n st).groups :=
  h.update G ⟨setInsert_nodup addr n (h G).1, (h G).2⟩

theorem addStop_sets (addr : ℕ → ℕ) (G : ℕ) {s : ℕ} (hs : s ∈ keys)
    (h : SetGroups keys st.groups) : SetGroups keys (addStop addr G s st).groups := by
  refine h.update G ⟨(h G).1, setInsert_nodup addr s (h G).2.1, fun x hx => ?_⟩
  cases mem_setInsert.1 hx with
  | inl heq => exact heq ▸ hs
  | inr hold => exact (h G).2.2 x hold

theorem merge_sets (addr : ℕ → ℕ) (this other : ℕ) (h : SetGroups keys st.groups) :
    SetGroups keys (merge addr this other st).groups := by
  unfold merge
  split
  · exact h
  · refine foldl_inv (fun st s => addStop addr this s st) (fun st => SetGroups keys st.groups) _ ?_
      fun st s hs hst => addStop_sets addr this ((h other).2.2 s hs) hst
    refine foldl_inv (fun st n => addNode addr this n (setGroup n this st))
      (fun st => SetGroups keys st.groups) _ h fun st n _ hst => addNode_sets addr this n ?_
    rw [(setGroup_groups _ _ _).1]
    exact hst

theorem newGroup_sets (h : SetGroups keys st.groups) : SetGroups keys (newGroup st).2.groups :=
  h.update _ ⟨List.nodup_nil, List.nodup_nil, fun _ hs => absurd hs List.not_mem_nil⟩

theorem groupNode_sets (addr : ℕ → ℕ) (ret n : ℕ) (h : SetGroups keys st.groups) :
    SetGroups keys (groupNode addr ret st n).groups := by
  unfold groupNode
  split
  · exact h
  · split
    · exact merge_sets addr ret _ h
    · rw [(setGroup_groups _ _ _).1]
      exact addNode_sets addr ret n h

theorem groupStats_sets (addr : ℕ → ℕ) (s : List ℕ) (h : SetGroups keys st.groups) :
    SetGroups keys (groupStats addr s st).2.groups := by
  have hall := foldl_inv (groupNode addr (newGroup st).1) (fun st => SetGroups keys st.groups) s
    (newGroup_sets h) fun st n _ hst => groupNode_sets addr _ n hst
  unfold groupStats
  split
  · exact h
  · dsimp only
    split
    · exact hall
    · exact hall

theorem writeEdgeTracks_groups (tracks : EdgeTracks) (st : Stations P L) :
    (writeEdgeTracks tracks st).groups = st.groups := by
  have htrack : ∀ (track : String) (n : ℕ) (st : Stations P L),
      (setTrack track n st).groups = st.groups := fun track n st => by
    unfold setTrack
    split
    · exact setData_groups n _ st
    · rfl
  exact foldl_inv writeEdgeTrack (fun s => s.groups = st.groups) tracks rfl fun s tr _ hs =>
    (htrack _ _ _).trans ((htrack _ _ _).trans hs)

end groups

section snapping
variable {P L : Type*} [LinearOrder L] (S : Snapper P L) {st : Stations P L} {keys : List ℕ}

theorem addToGroup_sets (si : SInfo) (n : ℕ) (h : SetGroups keys st.groups) :
    SetGroups keys (addToGroup S si n st).groups := by
  unfold addToGroup
  split
  · exact addNode_sets S.addr _ n h
  · exact h

variable [AddCommMonoid L]

theorem snapEdge_sets (maxD : L) (orphSnap : Bool) {r : SnapRun P L} (h : SetGroups keys r.s.st.groups)
    (e : Edge) : SetGroups keys (snapEdge S maxD orphSnap r e).s.st.groups := by
  have hplace : ∀ n, SetGroups keys (placeAt S r n).s.st.groups := fun n => addToGroup_sets S _ n h
  have hsplit : ∀ geom, SetGroups keys (splitAt S r e geom).s.st.groups := fun geom =>
    addToGroup_sets S _ _ h
  have htake : ∀ eq, SetGroups keys (takeEq S r eq).s.st.groups := fun eq => by
    unfold takeEq
    dsimp only
    split
    · rw [setData_groups]
      exact h
    · exact h
  unfold snapEdge
  dsimp only
  split
  · exact htake _
  · split_ifs
    · exact h
    · exact h
    · exact hplace _
    · exact hplace _
    · exact hsplit _

theorem snap_station_sets (maxD : L) (surHeur orphSnap : Bool) {s : SnapState P L}
    (h : SetGroups keys s.st.groups) (pl : StationPayload P) :
    SetGroups keys (snap_station S maxD surHeur orphSnap s pl).s.st.groups := by
  unfold snap_station
  dsimp only
  exact foldl_inv (snapEdge S maxD orphSnap) (fun r => SetGroups keys r.s.st.groups) _ h
    fun r e _ hr => snapEdge_sets S maxD orphSnap hr e

theorem snapGroup_sets (maxD : L) (surHeur orphSnap : Bool) {s : SnapState P L}
    (h : SetGroups keys s.st.groups) (pl : StationPayload P) :
    SetGroups keys (snapGroup S maxD surHeur orphSnap s pl).2.s.st.groups :=
  groupStats_sets S.addr _ (snap_station_sets S maxD surHeur orphSnap h pl)

theorem snapOrphan_sets (d : L) {s : SnapState P L} (h : SetGroups keys s.st.groups) (o : ℕ) :
    SetGroups keys (snapOrphan S d s o).st.groups := by
  unfold snapOrphan
  split
  · exact h
  · dsimp only
    refine foldl_inv _ (fun st : Stations P L => SetGroups keys st.groups) _
      (snapGroup_sets S d false false h _) fun st n _ hst => ?_
    split
    · rw [setData_groups]
      exact hst
    · exact hst

omit [AddCommMonoid L] in
theorem joinGroup_sets (orphSnap : Bool) {stop : ℕ} (ht : stop ∈ keys) (G : ℕ) {r : StopRun P L}
    (h : SetGroups keys r.s.st.groups) :
    SetGroups keys (joinGroup S orphSnap stop G r).s.st.groups := by
  have hstop := addStop_sets S.addr G ht h
  unfold joinGroup
  dsimp only
  split
  · exact foldl_inv _ (fun st : Stations P L => SetGroups keys st.groups) _ hstop fun st n _ hst => by
      rw [setData_groups]
      exact hst
  · exact hstop

theorem snapStop_sets (orphSnap : Bool) (stops : ℕ → GtfsStop P) {s : SnapState P L}
    (h : SetGroups keys s.st.groups) (fs : ℕ → Option ℕ) {stop : ℕ} (ht : stop ∈ keys) :
    SetGroups keys (snapStop S orphSnap stops s fs stop).s.st.groups := by
  refine foldl_inv (snapStopAt S orphSnap stop) (fun r => SetGroups keys r.s.st.groups) _ h
    fun r d _ hr => ?_
  have hgroup := snapGroup_sets S d.1 (d.2 + 1 = S.opts.maxSnapDistances.length) orphSnap hr r.pl
  unfold snapStopAt
  dsimp only
  split
  · exact joinGroup_sets S orphSnap ht _ hgroup
  · exact hgroup

omit [AddCommMonoid L] in
theorem giveUp_sets {stop : ℕ} (ht : stop ∈ keys) {r : StopRun P L} (h : SetGroups keys r.s.st.groups) :
    SetGroups keys (giveUp S stop r).s.st.groups := by
  refine addStop_sets S.addr _ ht (addNode_sets S.addr _ _ ?_)
  rw [(setGroup_groups _ _ _).1]
  exact newGroup_sets h

theorem snapNormal_sets (stops : ℕ → GtfsStop P) {r : StopsRun P L}
    (h : SetGroups keys r.s.st.groups ∧ ∀ t ∈ r.not_snapped, t ∈ keys) {stop : ℕ}
    (ht : stop ∈ keys) :
    SetGroups keys (snapNormal S stops r stop).s.st.groups ∧
      ∀ t ∈ (snapNormal S stops r stop).not_snapped, t ∈ keys := by
  refine ⟨snapStop_sets S false stops h.1 r.fs ht, fun t hmem => ?_⟩
  unfold snapNormal at hmem
  dsimp only at hmem
  split at hmem
  · exact h.2 t hmem
  · rw [List.mem_append, List.mem_singleton] at hmem
    exact hmem.elim (h.2 t) fun heq => heq ▸ ht

theorem snapAgain_sets (stops : ℕ → GtfsStop P) {r : StopsRun P L}
    (h : SetGroups keys r.s.st.groups) {stop : ℕ} (ht : stop ∈ keys) :
    SetGroups keys (snapAgain S stops r stop).s.st.groups := by
  have hrun := snapStop_sets S true stops h r.fs ht
  unfold snapAgain
  dsimp only
  split
  · exact hrun
  · exact giveUp_sets S ht hrun

theorem snap_stations_sets (stops : ℕ → GtfsStop P) (orphanStations : List ℕ)
    (h : SetGroups keys st.groups) (restor : Restriction.Restrictor) (blockers : List ℕ) :
    SetGroups keys (snap_stations S stops keys orphanStations st restor blockers).1.st.groups := by
  have horphans := foldl_inv (fun s d => orphanStations.foldl (snapOrphan S d) s)
    (fun s => SetGroups keys s.st.groups) S.opts.maxSnapDistances
    (s := buildGrids S st restor blockers) h fun s d _ hs =>
      foldl_inv (snapOrphan S d) (fun s => SetGroups keys s.st.groups) orphanStations hs
        fun s o _ hs => snapOrphan_sets S d hs o
  have hnormal := foldl_inv (snapNormal S stops)
    (fun r => SetGroups keys r.s.st.groups ∧ ∀ t ∈ r.not_snapped, t ∈ keys) keys
    (s := ⟨_, fun _ => none, []⟩) ⟨horphans, fun _ ht => absurd ht List.not_mem_nil⟩
    fun r t ht hr => snapNormal_sets S stops hr ht
  exact foldl_inv (snapAgain S stops) (fun r => SetGroups keys r.s.st.groups) _ hnormal.1
    fun r t ht hr => snapAgain_sets S stops hr (hnormal.2 t ht)

end snapping

end Pfaedle.Trgraph

namespace Pfaedle.OsmBuilder
open DirGraphs Osm OsmRelations ODirEdges KeptKeys ReadEdges BoundingBoxes Trgraph LoopRules

section nodes
variable {C : Type*} (sur : Surroundings C) (o : OsmReadOptions C) {b : Built C}

def Built.SetGroups (b : Built C) : Prop := ∀ G, (b.groups G).Nodup

theorem Built.SetGroups.update (h : b.SetGroups) (G : ℕ) {ns : List ℕ} (hns : ns.Nodup) (H : ℕ) :
    (Function.update b.groups G ns H).Nodup := by
  by_cases hH : H = G
  · rw [hH, Function.update_self]
    exact hns
  · rw [Function.update_of_ne hH]
    exact h H

variable [LinearOrder C]

theorem getStationInfo_sets (d : NodeDecisions) (node : ℕ) (pos : C × C) (h : b.SetGroups) :
    (getStationInfo sur o d node pos b).2.SetGroups := by
  unfold getStationInfo
  split
  · exact h
  · dsimp only
    split
    · exact h.update _ (setInsert_nodup sur.addr node (h _))
    · split
      · exact h.update _ (List.nodup_singleton node)
      · exact h

theorem placeNode_sets (d : NodeDecisions) (pos : C × C) (n : ℕ) (h : b.SetGroups) :
    (placeNode sur o d pos b n).SetGroups := by
  have hinfo := getStationInfo_sets sur o d n pos
    (b := b.setPl n { b.pl n with geom := pos }) h
  unfold placeNode
  dsimp only
  generalize getStationInfo sur o d n pos _ = found at hinfo
  split
  · split
    · exact hinfo
    · exact hinfo
  · split
    · exact h
    · exact h

theorem addOrphan_sets (d : NodeDecisions) (pos : C × C) (h : b.SetGroups) :
    (addOrphan sur o d pos b).SetGroups := by
  unfold addOrphan
  dsimp only
  have hinfo := getStationInfo_sets sur o d (b.g.addNd ⟨pos, none, false⟩).1 pos
    (b := { b with g := (b.g.addNd ⟨pos, none, false⟩).2 }) h
  generalize getStationInfo sur o d _ pos _ = found at hinfo
  split
  · exact hinfo
  · exact hinfo

variable (norm : ReplRules → String → String) (iter : AttributeMap → AttributeMap)
  (bbox : BoundingBox C) (uninit : ℕ → UInt64) (doc : List (XmlElement C))
variable [Field C]

theorem passes_sets : (passes norm iter sur bbox o uninit doc).SetGroups := by
  unfold passes
  split
  · exact fun _ => List.nodup_nil
  · refine foldl_inv (OsmBuilder.readNode norm iter sur bbox o uninit doc _) Built.SetGroups _
      (fun _ => List.nodup_nil) fun b x _ hb => ?_
    unfold readNode
    dsimp only
    split
    · split
      · exact placeNode_sets sur o _ _ _ hb
      · split
        · split
          · exact addOrphan_sets sur o _ _ hb
          · exact hb
        · exact foldl_inv _ Built.SetGroups _ hb fun b n _ hb => placeNode_sets sur o _ _ n hb
    · exact hb

end nodes

end Pfaedle.OsmBuilder

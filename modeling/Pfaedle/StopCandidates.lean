import Pfaedle.ReadStations
import Pfaedle.ShapeLine

set_option autoImplicit false

/-!
# From `read` to the candidates of a trip

`app` reads the graph for the stops of `write_mot_stops` and writes the penalties of their groups;
the shape builder then looks up the candidates of a stop. A stop has an address while it is read,
and its id everywhere else.
-/
namespace Pfaedle.App
open Gtfs DirGraphs Osm BoundingBoxes Trgraph Components OsmBuilder ShapeBuilder Router LoopRules

section penalties
variable {N C : Type} (getPenalty : Text → N → C)

theorem nodePenalties_find? (nodes : List N) (pens : SortedMap Text (List (NodeCandidate N C)))
    (s k : Text) :
    (nodes.foldl (fun pens n => pens.alter s fun old => old.getD [] ++ [⟨n, getPenalty s n⟩])
      pens).find? k =
      if k = s ∧ nodes ≠ [] then
        some ((pens.find? s).getD [] ++ nodes.map fun n => ⟨n, getPenalty s n⟩)
      else pens.find? k := by
  induction nodes generalizing pens with
  | nil => rw [if_neg fun h => h.2 rfl, List.foldl_nil]
  | cons n nodes ih =>
    rw [List.foldl_cons, ih, SortedMap.find?_alter, if_pos rfl, Option.getD_some, List.append_assoc]
    by_cases hk : k = s
    · cases nodes with
      | nil => simp [hk, SortedMap.find?_alter]
      | cons m nodes => simp [hk]
    · rw [if_neg fun h => hk h.1, if_neg fun h => hk h.1, SortedMap.find?_alter, if_neg hk]

theorem stopPenalties_find? {nodes : List N} (hnodes : nodes ≠ []) {stops : List Text}
    (hnodup : stops.Nodup) (pens : SortedMap Text (List (NodeCandidate N C))) (k : Text) :
    (stops.foldl (fun pens s => nodes.foldl (fun pens n =>
      pens.alter s fun old => old.getD [] ++ [⟨n, getPenalty s n⟩]) pens) pens).find? k =
      if k ∈ stops then some ((pens.find? k).getD [] ++ nodes.map fun n => ⟨n, getPenalty k n⟩)
      else pens.find? k := by
  induction stops generalizing pens with
  | nil => rw [if_neg List.not_mem_nil, List.foldl_nil]
  | cons s stops ih =>
    rw [List.nodup_cons] at hnodup
    rw [List.foldl_cons, ih hnodup.2, nodePenalties_find?]
    by_cases hk : k = s
    · rw [hk, if_neg hnodup.1, if_pos ⟨rfl, hnodes⟩, if_pos List.mem_cons_self]
    · simp only [hk, false_and, if_false, List.mem_cons, false_or]

theorem writePenalties_find? {g : ShapeBuilder.StationGroup N C} (hempty : g.stopNodePens = .empty)
    (hnodes : g.nodes ≠ []) (hnodup : g.stops.Nodup) (k : Text) :
    (writePenalties getPenalty g).stopNodePens.find? k =
      if k ∈ g.stops then some (g.nodes.map fun n => ⟨n, getPenalty k n⟩) else none := by
  rw [writePenalties, if_neg fun h => h (by rw [hempty]; rfl)]
  dsimp only
  rw [stopPenalties_find? getPenalty hnodes hnodup, hempty]
  rfl

theorem writePenalties_again (g : ShapeBuilder.StationGroup N C) :
    writePenalties getPenalty (writePenalties getPenalty g) = writePenalties getPenalty g := by
  by_cases hwritten : (writePenalties getPenalty g).stopNodePens.entries = []
  · have hempty : g.stopNodePens.entries = [] := by
      by_contra hne
      rw [writePenalties, if_pos hne] at hwritten
      exact hne hwritten
    have hsame : writePenalties getPenalty g = g := by
      obtain ⟨nodes, stops, pens⟩ := g
      rw [writePenalties, if_neg fun h => h hempty] at hwritten ⊢
      exact congrArg (ShapeBuilder.StationGroup.mk nodes stops)
        (SortedMap.ext (hwritten.trans hempty.symm))
    rw [hsame, hsame]
  · rw [writePenalties, if_pos hwritten]

end penalties

section model
variable {C : Type} [Field C] [LinearOrder C]

/-- The options of `write_penalties` that are numbers. -/
structure PenaltyOptions (C : Type) where
  platformUnmatchedPen : C
  stationDistPenFactor : C
  nonOsmPen : C

def getPenalty (dist : C × C → C × C → C) (norm : String → String) (o : PenaltyOptions C)
    (s : GtfsStop (C × C)) (n : NodePayload (C × C) ℕ StationData) : C :=
  let distPen := dist s.geom n.geom * o.stationDistPenFactor
  let platform := norm s.platform_code
  let track := n.si.elim "" fun si => si.data.track
  let trackPen :=
    if platform ≠ "" ∧ track ≠ "" ∧ track = platform then 0 else o.platformUnmatchedPen
  let nonOsmPen := if n.si.any fun si => si.data.fromOsm then 0 else o.nonOsmPen
  distPen + trackPen + nonOsmPen

/-- What a run over the document `doc` is made with. `addr` is the address of a stop, and `idOf`
    its id. -/
structure AppSetup (C : Type) [LinearOrder C] where
  osm : ReadSetup C
  doc : List (XmlElement C)
  addr : Text → ℕ
  idOf : ℕ → Text
  pens : PenaltyOptions C

variable (A : AppSetup C) (ret : FeedStops ℕ)

/-- `read` for the stops of `write_mot_stops`, whose nodes are still null. -/
def AppSetup.graph : ReadGraph C :=
  if ret.entries = [] then .empty
  else ({ A.osm with keys := ret.keys.map A.addr } : ReadSetup C).read A.doc

def AppSetup.fStops : FeedStops ℕ := ret.map fun key _ => (A.graph ret).fs (A.addr key)

/-- The groups that `read` has built, without penalties. -/
def AppSetup.readGroups (G : ℕ) : ShapeBuilder.StationGroup ℕ C :=
  let grp := (A.graph ret).groups G
  ⟨grp.nodes, grp.stops.map A.idOf, .empty⟩

def AppSetup.penalty (s : Text) (n : ℕ) : C :=
  getPenalty A.osm.snapper.geo.webMercMeterDist A.osm.snapper.trackNormzer A.pens
    (A.osm.stops (A.addr s)) ((A.graph ret).g.npl n)

def AppSetup.writeStopPenalties (grps : ℕ → ShapeBuilder.StationGroup ℕ C) (node : Option ℕ) :
    ℕ → ShapeBuilder.StationGroup ℕ C :=
  match node.bind (A.graph ret).groupOf with
  | none => grps
  | some G => Function.update grps G (writePenalties (A.penalty ret) (grps G))

/-- `get_si()->get_group()` of a node, after the loop. -/
def AppSetup.groups (n : ℕ) : ShapeBuilder.StationGroup ℕ C :=
  ((A.graph ret).groupOf n).elim ⟨[], [], .empty⟩
    ((A.fStops ret).values.foldl (A.writeStopPenalties ret) (A.readGroups ret))

def AppSetup.transit : TransitGraph ℕ Edge C :=
  transitGraph id id id (A.graph ret).g (A.graph ret).comps

end model

section run
variable {C : Type} [Field C] [LinearOrder C] (A : AppSetup C) (ret : FeedStops ℕ)

/-- The document has no node id twice, there is a box, the stops have different addresses, and the
    stations are taken from the document only with a grid for them. -/
structure AppSetup.Sound : Prop where
  ids : ((children "node" A.doc).map XmlElement.id).Nodup
  box : A.osm.bbox.size ≠ 0
  idOf : ∀ k ∈ ret.keys, A.idOf (A.addr k) = k
  grid : A.osm.snapper.import_osm_stations = true →
    GridHolds A.osm.snapper (A.osm.stations A.doc).g

variable {A ret}

theorem AppSetup.graph_eq (h : A.Sound ret) (hret : ret.entries ≠ []) :
    A.graph ret = ({ A.osm with keys := ret.keys.map A.addr } : ReadSetup C).readDoc A.doc := by
  unfold AppSetup.graph
  rw [if_neg hret]
  exact if_neg h.box

theorem AppSetup.served (h : A.Sound ret) {key : Text} (hkey : key ∈ ret.keys) :
    ∃ v G, (A.fStops ret).find? key = some (some v) ∧ (A.graph ret).Serves (A.addr key) v G := by
  have hret : ret.entries ≠ [] := fun hnil => by
    rw [SortedMap.keys, hnil] at hkey
    exact List.not_mem_nil hkey
  have hserves := ({ A.osm with keys := ret.keys.map A.addr } : ReadSetup C).readDoc_serves A.doc
    h.ids h.grid (A.addr key) (List.mem_map_of_mem hkey)
  rw [← A.graph_eq h hret] at hserves
  obtain ⟨v, G, hv, hG⟩ := hserves
  refine ⟨v, G, ?_, hG⟩
  obtain ⟨old, hold⟩ := Option.isSome_iff_exists.1 ((SortedMap.find?_isSome_iff ret key).2 hkey)
  unfold AppSetup.fStops
  rw [SortedMap.find?_map, hold, Option.map_some, hv]

theorem AppSetup.writeStopPenalties_apply (grps : ℕ → ShapeBuilder.StationGroup ℕ C)
    (node : Option ℕ) (H : ℕ) : A.writeStopPenalties ret grps node H =
      if node.bind (A.graph ret).groupOf = some H then writePenalties (A.penalty ret) (grps H)
      else grps H := by
  unfold AppSetup.writeStopPenalties
  cases hnode : node.bind (A.graph ret).groupOf with
  | none => rw [if_neg fun h => by cases h]
  | some G =>
    dsimp only
    by_cases hH : H = G
    · rw [hH, Function.update_self, if_pos rfl]
    · rw [Function.update_of_ne hH, if_neg fun h => hH (Option.some.inj h).symm]

/-- A group is written once, however many stops it has. -/
theorem AppSetup.groups_spec {v G : ℕ} (hv : some v ∈ (A.fStops ret).values)
    (hG : (A.graph ret).groupOf v = some G) :
    A.groups ret v = writePenalties (A.penalty ret) (A.readGroups ret G) := by
  have hloop := foldl_each (A.writeStopPenalties ret)
    (fun grps => ∀ H, grps H = A.readGroups ret H ∨
      grps H = writePenalties (A.penalty ret) (A.readGroups ret H))
    (fun node grps => ∀ H, node.bind (A.graph ret).groupOf = some H →
      grps H = writePenalties (A.penalty ret) (A.readGroups ret H))
    (A.fStops ret).values (s := A.readGroups ret) (fun _ => Or.inl rfl)
    (fun grps node _ hinv H => ?_) (fun grps node _ hinv H hH => ?_)
    (fun grps node _ other hinv hother H hH => ?_)
  · unfold AppSetup.groups
    rw [hG, Option.elim_some]
    exact hloop (some v) hv G (by rw [Option.bind_some, hG])
  · rw [A.writeStopPenalties_apply]
    split
    · cases hinv H with
      | inl hread => exact Or.inr (by rw [hread])
      | inr hwritten => exact Or.inr (by rw [hwritten, writePenalties_again])
    · exact hinv H
  · rw [A.writeStopPenalties_apply, if_pos hH]
    cases hinv H with
    | inl hread => rw [hread]
    | inr hwritten => rw [hwritten, writePenalties_again]
  · rw [A.writeStopPenalties_apply]
    split
    · rw [hother H hH, writePenalties_again]
    · exact hother H hH

theorem AppSetup.mem_values {key : Text} {v : ℕ} (hv : (A.fStops ret).find? key = some (some v)) :
    some v ∈ (A.fStops ret).values :=
  List.mem_map.2 ⟨_, (SortedMap.find?_eq_some_iff _ _ _).1 hv, rfl⟩

theorem AppSetup.readGroups_nodup (h : A.Sound ret) (G : ℕ) :
    (A.readGroups ret G).nodes.Nodup ∧ (A.readGroups ret G).stops.Nodup := by
  by_cases hret : ret.entries = []
  · have hgraph : A.graph ret = .empty := if_pos hret
    unfold AppSetup.readGroups
    rw [hgraph]
    exact ⟨List.nodup_nil, List.nodup_nil⟩
  · have hsets := ({ A.osm with keys := ret.keys.map A.addr } : ReadSetup C).readDoc_sets A.doc G
    rw [← A.graph_eq h hret] at hsets
    refine ⟨hsets.1, List.Nodup.map_on (fun s hs t ht heq => ?_) hsets.2.1⟩
    obtain ⟨k, hk, rfl⟩ := List.mem_map.1 (hsets.2.2 s hs)
    obtain ⟨l, hl, rfl⟩ := List.mem_map.1 (hsets.2.2 t ht)
    rw [h.idOf k hk, h.idOf l hl] at heq
    rw [heq]

theorem AppSetup.candidates (h : A.Sound ret) {key : Text} (hkey : key ∈ ret.keys) :
    ∃ v G, (A.fStops ret).find? key = some (some v) ∧ (A.graph ret).Serves (A.addr key) v G ∧
      getNodeCandidates (A.fStops ret) (A.groups ret) key =
        .ok (((A.graph ret).groups G).nodes.map fun n => ⟨n, A.penalty ret key n⟩) := by
  obtain ⟨v, G, hv, hserves⟩ := A.served h hkey
  refine ⟨v, G, hv, hserves, ?_⟩
  have hstop : key ∈ (A.readGroups ret G).stops :=
    List.mem_map.2 ⟨A.addr key, hserves.stop, h.idOf key hkey⟩
  unfold getNodeCandidates
  rw [hv]
  dsimp only
  rw [A.groups_spec (A.mem_values hv) hserves.group, writePenalties_find? _ rfl
    (List.ne_nil_of_mem hserves.node) (A.readGroups_nodup h G).2, if_pos hstop]
  rfl

theorem AppSetup.graph_nodup : (A.graph ret).g.edges.Nodup := by
  unfold AppSetup.graph
  split
  · exact List.nodup_nil
  · unfold ReadSetup.read
    split
    · exact List.nodup_nil
    · exact ({ A.osm with keys := ret.keys.map A.addr } : ReadSetup C).readDoc_nodup A.doc

theorem AppSetup.edgeGroup_wellFormed (h : A.Sound ret) {t v G : ℕ}
    (hserves : (A.graph ret).Serves t v G) (pen : ℕ → C) :
    let b : EdgeCandidateGroup Edge C := (((A.graph ret).groups G).nodes.map fun n =>
      (⟨n, pen n⟩ : NodeCandidate ℕ C)).flatMap fun n =>
        ((A.transit ret).adjListOut n.nd).map fun e => ⟨e, n.pen⟩
    b ≠ [] ∧ (b.map EdgeCandidate.e).Nodup := by
  have hnodup : ((A.graph ret).groups G).nodes.Nodup := (A.readGroups_nodup h G).1
  have hout : ∀ n e, e ∈ (A.transit ret).adjListOut n ↔
      e ∈ (A.graph ret).g.edges ∧ e.getFrom = n := fun n e => DirGraph.mem_getAdjListOut
  dsimp only
  constructor
  · obtain ⟨-, -, e, he, hfrom⟩ := hserves.nodes v hserves.node
    refine List.ne_nil_of_mem (a := ⟨e, pen v⟩) (List.mem_flatMap.2 ⟨⟨v, pen v⟩, ?_, ?_⟩)
    · exact List.mem_map_of_mem hserves.node
    · exact List.mem_map_of_mem ((hout v e).2 ⟨he, hfrom⟩)
  · have hmap : ∀ ns : List ℕ, ((ns.map fun n => (⟨n, pen n⟩ : NodeCandidate ℕ C)).flatMap fun n =>
        ((A.transit ret).adjListOut n.nd).map fun e => (⟨e, n.pen⟩ : EdgeCandidate Edge C)).map
          EdgeCandidate.e = ns.flatMap (A.transit ret).adjListOut := fun ns => by
      rw [List.map_flatMap, List.flatMap_map]
      simp only [List.map_map, Function.comp_def, List.map_id']
    rw [hmap, List.nodup_flatMap]
    refine ⟨fun n _ => (A.graph_nodup).filter _, hnodup.imp fun {n m} hne e hn hm => hne ?_⟩
    exact ((hout n e).1 hn).2.symm.trans ((hout m e).1 hm).2

theorem AppSetup.stopCandidates_spec (h : A.Sound ret) {D : Type} {f : Feed D} {trip : Trip}
    {st : StopTime D} (hkey : st.stopId ∈ ret.keys) {ncg : List (NodeCandidate ℕ C)}
    (hncg : stopCandidates f (A.fStops ret) (A.groups ret) trip st = .ok ncg) :
    ∃ v G, (A.graph ret).Serves (A.addr st.stopId) v G ∧
      ncg = ((A.graph ret).groups G).nodes.map fun n => ⟨n, A.penalty ret st.stopId n⟩ := by
  obtain ⟨v, G, -, hserves, hcands⟩ := A.candidates h hkey
  refine ⟨v, G, hserves, ?_⟩
  unfold stopCandidates at hncg
  split at hncg
  · cases hncg
  · rw [hcands, ok_bind] at hncg
    split at hncg
    · cases hncg
    · exact (Except.ok.inj hncg).symm

end run

section sample

def ringApp : AppSetup ℚ where
  osm := railSetup
  doc := ringTrack
  addr k := if k = "platform".toList then 1 else 0
  idOf n := if n = 1 then "platform".toList else "entrance".toList
  pens := ⟨1, 1, 1⟩

end sample

end Pfaedle.App

import Pfaedle.TripClusters

set_option autoImplicit false

/-!
# Snapped stops and looked up stops

`write_mot_stops` collects the stops that are snapped to the graph; the shape builder looks up the
stops of the trips that were clustered.
-/
namespace Pfaedle.ShapeBuilder

open Gtfs

section motStops
variable {D N : Type} (f : Feed D)

abbrev FeedStops (N : Type) := SortedMap Text (Option N)

def routeTypeSection (a b : List ℤ) : List ℤ := a.filter fun mot => mot ∈ b

/-- The stop that is snapped for a stop time: an entrance is replaced by its parent station. -/
def snappedStop (st : StopTime D) : Option Text :=
  match stopOf f st with
  | none => none
  | some stop =>
    if stop.locationType = StopLocationType.entranceExit ∧ stop.parentStation ≠ [] then
      match parentStation f stop with
      | some _ => some stop.parentStation
      | none => some st.stopId
    else some st.stopId

theorem snappedStop_congr {st st' : StopTime D} (h : st.stopId = st'.stopId) :
    snappedStop f st = snappedStop f st' := by
  rw [snappedStop, snappedStop, stopOf, stopOf, h]

def writeMotStop (ret : FeedStops N) (st : StopTime D) : FeedStops N :=
  match snappedStop f st with
  | none => ret
  | some key => ret.set key none

def writeMotStops (mots : List ℤ) (tid : Text) : Option (FeedStops N) :=
  f.trips.values.foldlM (fun ret t =>
    if tid ≠ [] ∧ t.tripId ≠ tid then some ret
    else
      match routeOf f t with
      | none => some ret
      | some r =>
        if r.routeType ∈ mots then do
          let sts ← stopTimes f t
          some (sts.foldl (writeMotStop f) ret)
        else some ret) .empty

end motStops

section candidates
variable {D N C : Type} (f : Feed D)

structure NodeCandidate (N C : Type) where
  nd : N
  pen : C

structure StationGroup (N C : Type) where
  nodes : List N
  stops : List Text
  stopNodePens : SortedMap Text (List (NodeCandidate N C))

def writePenalties (getPenalty : Text → N → C) (g : StationGroup N C) : StationGroup N C :=
  if g.stopNodePens.entries ≠ [] then g
  else
    { g with
      stopNodePens := g.stops.foldl (fun pens s =>
        g.nodes.foldl (fun pens n =>
          pens.alter s fun old => old.getD [] ++ [⟨n, getPenalty s n⟩]) pens) g.stopNodePens }

/-- The exceptions of `get_node_candidate_route`. -/
inductive RouteException where
  | outOfRange
  | badOptionalAccess
  | runtimeError (what : Text)

variable (stops : FeedStops N) (groups : N → StationGroup N C)

def getNodeCandidates (s : Text) : Except RouteException (List (NodeCandidate N C)) :=
  match stops.find? s with
  | none => .ok []
  | some none => .ok []
  | some (some n) =>
    match (groups n).stopNodePens.find? s with
    | none => .error .outOfRange
    | some ncg => .ok ncg

def stopCandidates (trip : Trip) (st : StopTime D) :
    Except RouteException (List (NodeCandidate N C)) :=
  match stopOf f st with
  | none => .error .badOptionalAccess
  | some stop => do
    let ncg ← getNodeCandidates stops groups st.stopId
    if ncg.isEmpty then
      .error (.runtimeError ("No node candidate found for station '".toList ++ stop.stopName ++
        "' on trip '".toList ++ trip.tripId ++ "'".toList))
    else .ok ncg

def getNodeCandidateRoute (trip : Trip) :
    Except RouteException (List (List (NodeCandidate N C))) :=
  match stopTimes f trip with
  | none => .error .outOfRange
  | some sts => sts.mapM (stopCandidates f stops groups trip)

end candidates

section spec
variable {D N C : Type} (f : Feed D)

def Visited (mots : List ℤ) (st : StopTime D) : Prop :=
  ∃ t ∈ f.trips.values, (∃ r, routeOf f t = some r ∧ r.routeType ∈ mots) ∧
    st ∈ f.stopTimes ∧ st.tripId = t.tripId

/-- Every stop of `write_mot_stops` has a node, and the group of the node has the stop and its
candidates. -/
structure Completed (mots : List ℤ) (stops : FeedStops N) (groups : N → StationGroup N C) :
    Prop where
  keys : ∃ ret : FeedStops N, writeMotStops f mots [] = some ret ∧ stops.keys = ret.keys
  snapped : ∀ key ∈ stops.keys, ∃ n, stops.find? key = some (some n) ∧
    key ∈ (groups n).stops ∧ n ∈ (groups n).nodes ∧
    ∃ getPenalty g, g.stopNodePens = .empty ∧ groups n = writePenalties getPenalty g

/-- Every stop time of the trip gets candidates. -/
def Matched (stops : FeedStops N) (groups : N → StationGroup N C) (trip : Trip) : Prop :=
  ∃ ncr, getNodeCandidateRoute f stops groups trip = .ok ncr ∧
    List.Forall₂ (fun _ ncg => ncg ≠ []) ((stopTimes f trip).getD []) ncr

def renameStops (names : Text → Text → Text) : Feed D :=
  { f with stops := f.stops.map fun key s => { s with stopName := names key s.stopName } }

end spec

section keys
variable {D N : Type} {f : Feed D}

theorem mem_keys_writeMotStop {ret : FeedStops N} {sts : List (StopTime D)} {key : Text} :
    key ∈ (sts.foldl (writeMotStop f) ret).keys ↔
      key ∈ ret.keys ∨ ∃ st ∈ sts, snappedStop f st = some key := by
  induction sts generalizing ret with
  | nil => simp
  | cons st sts ih =>
    rw [List.foldl_cons, ih, List.exists_mem_cons_iff, ← or_assoc]
    refine or_congr_left ?_
    rw [writeMotStop]
    cases hkey : snappedStop f st with
    | none => simp
    | some k =>
      change key ∈ (SortedMap.alter ret k _).keys ↔ _
      rw [SortedMap.mem_keys_alter, Option.some.injEq, or_comm, eq_comm]

theorem writeMotStops_keys (h : Resolved f) (mots : List ℤ) :
    ∃ ret : FeedStops N, writeMotStops f mots [] = some ret ∧
      ∀ key, key ∈ ret.keys ↔ ∃ st, Visited f mots st ∧ snappedStop f st = some key := by
  have hfold : ∀ {trips : List Trip} (ret : FeedStops N), (∀ t ∈ trips, t ∈ f.trips.values) →
      ∃ ret', trips.foldlM (fun ret t =>
        if ([] : Text) ≠ [] ∧ t.tripId ≠ [] then some ret
        else
          match routeOf f t with
          | none => some ret
          | some r =>
            if r.routeType ∈ mots then do
              let sts ← stopTimes f t
              some (sts.foldl (writeMotStop f) ret)
            else some ret) ret = some ret' ∧
        ∀ key, key ∈ ret'.keys ↔ key ∈ ret.keys ∨ ∃ t ∈ trips,
          (∃ r, routeOf f t = some r ∧ r.routeType ∈ mots) ∧
            ∃ sts, stopTimes f t = some sts ∧ ∃ st ∈ sts, snappedStop f st = some key := by
    intro trips ret htrips
    induction trips generalizing ret with
    | nil => exact ⟨ret, rfl, fun key => by simp⟩
    | cons t trips ih =>
      have ht := htrips t List.mem_cons_self
      obtain ⟨r, hr⟩ := Option.isSome_iff_exists.1 (h.routes t ht)
      obtain ⟨sts, hsts⟩ := h.stopTimes_some ht
      rw [List.foldlM_cons, if_neg fun hh => hh.1 rfl, hr]
      simp only [Option.bind_eq_bind]
      by_cases hmot : r.routeType ∈ mots
      · obtain ⟨ret', hret', hkeys⟩ :=
          ih (sts.foldl (writeMotStop f) ret) fun x hx => htrips x (List.mem_cons_of_mem _ hx)
        refine ⟨ret', ?_, fun key => ?_⟩
        · rw [if_pos hmot, hsts]
          exact hret'
        · rw [hkeys, mem_keys_writeMotStop, List.exists_mem_cons_iff, or_assoc]
          refine or_congr_right (or_congr_left ⟨fun hst => ?_, ?_⟩)
          · exact ⟨⟨r, hr, hmot⟩, sts, hsts, hst⟩
          · rintro ⟨-, sts', hsts', hst⟩
            cases hsts.symm.trans hsts'
            exact hst
      · obtain ⟨ret', hret', hkeys⟩ := ih ret fun x hx => htrips x (List.mem_cons_of_mem _ hx)
        refine ⟨ret', ?_, fun key => ?_⟩
        · rw [if_neg hmot]
          exact hret'
        · rw [hkeys, List.exists_mem_cons_iff]
          refine or_congr_right ⟨Or.inr, fun hh => hh.resolve_left ?_⟩
          rintro ⟨⟨r', hr', hmot'⟩, -⟩
          cases hr.symm.trans hr'
          exact hmot hmot'
  obtain ⟨ret, hret, hkeys⟩ := hfold .empty fun _ ht => ht
  refine ⟨ret, hret, fun key => (hkeys key).trans ⟨fun hh => ?_, ?_⟩⟩
  · obtain ⟨t, ht, hr, sts, hsts, st, hst, hkey⟩ := hh.resolve_left List.not_mem_nil
    obtain ⟨hmem, hid⟩ := (mem_stopTimes hsts).2 st hst
    exact ⟨st, ⟨t, ht, hr, hmem, hid⟩, hkey⟩
  · rintro ⟨st, ⟨t, ht, hr, hmem, hid⟩, hkey⟩
    obtain ⟨sts, hsts⟩ := h.stopTimes_some ht
    exact Or.inr ⟨t, ht, hr, sts, hsts, st, mem_of_stopTimes hsts hmem hid, hkey⟩

end keys

section lookups
variable {D N C : Type} {f : Feed D}

def HasCandidates (pens : SortedMap Text (List (NodeCandidate N C))) (key : Text) : Prop :=
  ∃ ncg, pens.find? key = some ncg ∧ ncg ≠ []

theorem hasCandidates_alter {pens : SortedMap Text (List (NodeCandidate N C))} {key s : Text}
    (c : NodeCandidate N C) (h : HasCandidates pens key ∨ s = key) :
    HasCandidates (pens.alter s fun old => old.getD [] ++ [c]) key := by
  rw [HasCandidates, SortedMap.find?_alter]
  by_cases hs : key = s
  · rw [if_pos hs]
    exact ⟨_, rfl, List.append_ne_nil_of_right_ne_nil _ (List.cons_ne_nil _ _)⟩
  · rw [if_neg hs]
    exact h.resolve_right fun heq => hs heq.symm

theorem hasCandidates_nodes {getPenalty : Text → N → C} {nodes : List N} {key s : Text}
    {pens : SortedMap Text (List (NodeCandidate N C))}
    (h : HasCandidates pens key ∨ s = key ∧ nodes ≠ []) :
    HasCandidates (nodes.foldl (fun pens n =>
      pens.alter s fun old => old.getD [] ++ [⟨n, getPenalty s n⟩]) pens) key := by
  induction nodes generalizing pens with
  | nil => exact h.resolve_right fun hh => hh.2 rfl
  | cons n nodes ih =>
    exact ih (Or.inl (hasCandidates_alter _ (h.imp_right And.left)))

theorem writePenalties_hasCandidates {getPenalty : Text → N → C} {g : StationGroup N C} {n : N}
    {key : Text} (hempty : g.stopNodePens = .empty) (hkey : key ∈ g.stops) (hn : n ∈ g.nodes) :
    HasCandidates (writePenalties getPenalty g).stopNodePens key := by
  have hstops : ∀ {stops : List Text} {pens : SortedMap Text (List (NodeCandidate N C))},
      HasCandidates pens key ∨ key ∈ stops → HasCandidates (stops.foldl (fun pens s =>
        g.nodes.foldl (fun pens n =>
          pens.alter s fun old => old.getD [] ++ [⟨n, getPenalty s n⟩]) pens) pens) key := by
    intro stops pens h
    induction stops generalizing pens with
    | nil => exact h.resolve_right List.not_mem_nil
    | cons s stops ih =>
      refine ih ?_
      rw [List.mem_cons] at h
      rcases h with h | h | h
      · exact Or.inl (hasCandidates_nodes (Or.inl h))
      · exact Or.inl (hasCandidates_nodes (Or.inr ⟨h.symm, List.ne_nil_of_mem hn⟩))
      · exact Or.inr h
  rw [writePenalties, if_neg fun h => h (by rw [hempty]; rfl)]
  exact hstops (Or.inr hkey)

theorem writePenalties_fields (getPenalty : Text → N → C) (g : StationGroup N C) :
    (writePenalties getPenalty g).stops = g.stops ∧
      (writePenalties getPenalty g).nodes = g.nodes := by
  rw [writePenalties]
  split_ifs <;> exact ⟨rfl, rfl⟩

theorem Completed.candidates {mots : List ℤ} {stops : FeedStops N}
    {groups : N → StationGroup N C} (h : Completed f mots stops groups) (key : Text) :
    ∃ ncg, getNodeCandidates stops groups key = .ok ncg ∧ (ncg ≠ [] ↔ key ∈ stops.keys) := by
  by_cases hkey : key ∈ stops.keys
  · obtain ⟨n, hn, hstops, hnodes, getPenalty, g, hempty, hg⟩ := h.snapped key hkey
    obtain ⟨hsame, hsame'⟩ := writePenalties_fields getPenalty g
    rw [hg, hsame] at hstops
    rw [hg, hsame'] at hnodes
    obtain ⟨ncg, hncg, hne⟩ := writePenalties_hasCandidates hempty hstops hnodes
    refine ⟨ncg, ?_, fun _ => hkey, fun _ => hne⟩
    rw [getNodeCandidates, hn]
    dsimp only
    rw [hg, hncg]
  · refine ⟨[], ?_, fun hne => absurd rfl hne, fun hmem => absurd hmem hkey⟩
    rw [getNodeCandidates, (SortedMap.find?_eq_none_iff stops key).2 hkey]

/-- A trip is matched exactly if all its stops were collected. -/
theorem Completed.matched_iff {f₀ : Feed D} {mots : List ℤ} {stops : FeedStops N}
    {groups : N → StationGroup N C} (h : Completed f₀ mots stops groups) {trip : Trip}
    {sts : List (StopTime D)} (hsts : stopTimes f trip = some sts)
    (hstops : ∀ st ∈ sts, (stopOf f st).isSome) :
    Matched f stops groups trip ↔ ∀ st ∈ sts, st.stopId ∈ stops.keys := by
  rw [Matched, getNodeCandidateRoute, hsts, Option.getD_some]
  dsimp only
  constructor
  · rintro ⟨ncr, hncr, hne⟩ st hst
    obtain ⟨ncg, -, hstep⟩ := forall₂_mem_left (mapM_ok_iff.1 hncr) hst
    obtain ⟨stop, hstop⟩ := Option.isSome_iff_exists.1 (hstops st hst)
    obtain ⟨ncg', hcands, hiff⟩ := h.candidates st.stopId
    rw [stopCandidates, hstop] at hstep
    dsimp only at hstep
    rw [hcands, ok_bind] at hstep
    split_ifs at hstep with hempty
    exact hiff.1 fun hnil => hempty (hnil ▸ rfl)
  · intro hkeys
    have hall : ∀ st ∈ sts, ∃ ncg, stopCandidates f stops groups trip st = .ok ncg ∧ ncg ≠ [] := by
      intro st hst
      obtain ⟨stop, hstop⟩ := Option.isSome_iff_exists.1 (hstops st hst)
      obtain ⟨ncg, hcands, hiff⟩ := h.candidates st.stopId
      have hne := hiff.2 (hkeys st hst)
      refine ⟨ncg, ?_, hne⟩
      rw [stopCandidates, hstop]
      dsimp only
      rw [hcands, ok_bind, if_neg fun hempty => hne (List.isEmpty_iff.1 hempty)]
    clear hsts hstops hkeys
    induction sts with
    | nil => exact ⟨[], rfl, List.Forall₂.nil⟩
    | cons st sts ih =>
      obtain ⟨ncg, hncg, hne⟩ := hall st List.mem_cons_self
      obtain ⟨ncr, hncr, hall'⟩ := ih fun x hx => hall x (List.mem_cons_of_mem _ hx)
      exact ⟨ncg :: ncr, mapM_ok_iff.2 (.cons hncg (mapM_ok_iff.1 hncr)), .cons hne hall'⟩

end lookups

section matching
variable {D N C : Type} {f : Feed D}

/-- The stop time is at an entrance that is snapped as its parent station. -/
def Redirected (f : Feed D) (st : StopTime D) : Prop := snappedStop f st ≠ some st.stopId

theorem stopOf_renameStops (names : Text → Text → Text) (st : StopTime D) :
    stopOf (renameStops f names) st =
      (stopOf f st).map fun s => { s with stopName := names st.stopId s.stopName } :=
  SortedMap.find?_map _ _ _

theorem parentStation_renameStops (names : Text → Text → Text) (s : Stop D) :
    parentStation (renameStops f names) s = (parentStation f s).map fun p =>
      { p with stopName := names s.parentStation p.stopName } :=
  SortedMap.find?_map _ _ _

theorem Resolved.renameStops (h : Resolved f) (names : Text → Text → Text) :
    Resolved (renameStops f names) where
  stops st hst := by
    rw [stopOf_renameStops, Option.isSome_map]
    exact h.stops st hst
  routes := h.routes
  parents s hs hparent := by
    rw [parentStation_renameStops, Option.isSome_map]
    obtain ⟨e, he, rfl⟩ := List.mem_map.1 hs
    obtain ⟨e', he', rfl⟩ := List.mem_map.1 he
    exact h.parents e'.2 (List.mem_map_of_mem he') hparent
  stopTimes := h.stopTimes

theorem isClustered_type {B : Builder D} {mots : List ℤ} {trip : Trip}
    (h : isClustered B f mots trip = true) :
    ∃ r, routeOf f trip = some r ∧ r.routeType ∈ routeTypeSection B.routeTypes mots := by
  obtain ⟨-, _, -, -, r, hr, hmots, htypes⟩ := isClustered_iff.1 h
  exact ⟨r, hr, List.mem_filter.2 ⟨htypes, decide_eq_true hmots⟩⟩

/-- All clustered trips are matched exactly if no stop of theirs was collected under another one,
unless a parent station takes its place. -/
theorem clusters_matched_iff (h : Resolved f) (B : Builder D) (mots : List ℤ)
    (names : Text → Text → Text) {stops : FeedStops N} {groups : N → StationGroup N C}
    (hcompleted : Completed f (routeTypeSection B.routeTypes mots) stops groups) :
    ∃ clusters, clusterTrips B (renameStops f names) mots = some clusters ∧
      ((∀ g ∈ clusters, ∀ trip ∈ g, Matched (renameStops f names) stops groups trip) ↔
        ∀ trip ∈ f.trips.values, isClustered B f mots trip = true →
          ∀ st ∈ f.stopTimes, st.tripId = trip.tripId → Redirected f st →
            ∃ st', Visited f (routeTypeSection B.routeTypes mots) st' ∧ Redirected f st' ∧
              snappedStop f st' = some st.stopId) := by
  have hrenamed := h.renameStops names
  obtain ⟨clusters, hclusters, -, -⟩ := clusterTrips_perm (B := B) hrenamed mots
  refine ⟨clusters, hclusters, ?_⟩
  obtain ⟨ret, hret, hkeys⟩ := writeMotStops_keys (N := N) h (routeTypeSection B.routeTypes mots)
  obtain ⟨ret', hret', hsame⟩ := hcompleted.keys
  cases hret.symm.trans hret'
  have hclustered : (∀ g ∈ clusters, ∀ trip ∈ g, Matched (renameStops f names) stops groups trip) ↔
      ∀ trip ∈ f.trips.values, isClustered B f mots trip = true →
        Matched (renameStops f names) stops groups trip := by
    constructor
    · intro hall trip ht hc
      obtain ⟨g, hg, htrip⟩ := (mem_clusterTrips hrenamed hclusters trip).2 ⟨ht, hc⟩
      exact hall g hg trip htrip
    · intro hall g hg trip htrip
      obtain ⟨ht, hc⟩ := (mem_clusterTrips hrenamed hclusters trip).1 ⟨g, hg, htrip⟩
      exact hall trip ht hc
  rw [hclustered]
  refine forall₃_congr fun trip ht hc => ?_
  obtain ⟨sts, hsts⟩ := h.stopTimes_some ht
  obtain ⟨r, hr, htype⟩ := isClustered_type hc
  have hsome : ∀ st ∈ sts, (stopOf (renameStops f names) st).isSome := fun st hst =>
    hrenamed.stops st ((mem_stopTimes hsts).2 st hst).1
  have hrenamedTimes : stopTimes (renameStops f names) trip = some sts := hsts
  rw [hcompleted.matched_iff hrenamedTimes hsome]
  constructor
  · intro hall st hst hid hredirected
    have hkey := hall st (mem_of_stopTimes hsts hst hid)
    rw [hsame] at hkey
    obtain ⟨st', hvisited, hsnapped⟩ := (hkeys st.stopId).1 hkey
    refine ⟨st', hvisited, fun hself => ?_, hsnapped⟩
    have hstop : st'.stopId = st.stopId := Option.some.inj (hself.symm.trans hsnapped)
    refine hredirected ?_
    rw [← snappedStop_congr f hstop, hself, hstop]
  · intro hall st hst
    obtain ⟨hmem, hid⟩ := (mem_stopTimes hsts).2 st hst
    rw [hsame, hkeys]
    by_cases hredirected : Redirected f st
    · obtain ⟨st', hvisited, -, hsnapped⟩ := hall st hmem hid hredirected
      exact ⟨st', hvisited, hsnapped⟩
    · exact ⟨st, ⟨trip, ht, ⟨r, hr, htype⟩, hmem, hid⟩, not_not.1 hredirected⟩

end matching

section sample

/-- A bus trip from a station entrance, or whatever `locationType` says, to a platform. -/
def entranceFeed (locationType : ℤ) : Feed ℤ :=
  let stop (id parent : String) (type : ℤ) : Stop ℤ :=
    ⟨id.toList, id.toList, true, 0, 0, [], parent.toList, [], [], [], type, [], [], [], []⟩
  let stopTime (id : String) (sequence : ℕ) : StopTime ℤ :=
    ⟨"trip".toList, id.toList, sequence, Time.default, Time.default, [], 0, 0, 0, 1⟩
  { Feed.empty with
    stops := SortedMap.empty.insertAll [("entrance".toList, stop "entrance" "station" locationType),
      ("platform".toList, stop "platform" "" 0), ("station".toList, stop "station" "" 1)]
    routes := SortedMap.empty.insertAll
      [("bus".toList, ⟨"bus".toList, RouteType.bus, [], "1".toList, [], [], [], [], [], 0⟩)]
    trips := SortedMap.empty.insertAll
      [("trip".toList, ⟨"bus".toList, [], "trip".toList, [], [], 0, [], [], 0, 0⟩)]
    stopTimes := [stopTime "entrance" 0, stopTime "platform" 1] }

def busBuilder : Builder ℤ := ⟨false, [RouteType.bus], id, id, id, fun _ _ => true⟩

def ownNodes (ret : FeedStops Text) : FeedStops Text := ret.map fun key _ => some key

def ownGroups (n : Text) : StationGroup Text ℤ :=
  writePenalties (fun _ _ => 0) ⟨[n], [n], .empty⟩

theorem ownNodes_completed {D : Type} {f : Feed D} {mots : List ℤ} {ret : FeedStops Text}
    (h : writeMotStops f mots [] = some ret) : Completed f mots (ownNodes ret) ownGroups where
  keys := ⟨ret, h, by
    rw [SortedMap.keys, SortedMap.keys, ownNodes, SortedMap.map, List.map_map]
    rfl⟩
  snapped key hkey := by
    obtain ⟨e, he, rfl⟩ := List.mem_map.1 hkey
    obtain ⟨e', he', rfl⟩ := List.mem_map.1 he
    obtain ⟨hstops, hnodes⟩ := writePenalties_fields (fun _ _ => (0 : ℤ))
      ⟨[e'.1], [e'.1], .empty⟩
    refine ⟨e'.1, (SortedMap.find?_eq_some_iff _ _ _).2 he, ?_, ?_, _, _, rfl, rfl⟩
    · rw [ownGroups, hstops]
      exact List.mem_singleton_self _
    · rw [ownGroups, hnodes]
      exact List.mem_singleton_self _

set_option maxRecDepth 4000 in
theorem clusters_matched_platform : ∃ stops clusters,
    Completed (entranceFeed 0) [RouteType.bus] stops ownGroups ∧
      clusterTrips busBuilder (renameStops (entranceFeed 0) fun _ name => name) [RouteType.bus] =
        some clusters ∧
      ∀ g ∈ clusters, ∀ trip ∈ g,
        Matched (renameStops (entranceFeed 0) fun _ name => name) stops ownGroups trip := by
  have hresolved : Resolved (entranceFeed 0) := by decide
  obtain ⟨ret, hret, -⟩ := writeMotStops_keys (N := Text) hresolved [RouteType.bus]
  obtain ⟨clusters, hclusters, hiff⟩ := clusters_matched_iff hresolved busBuilder [RouteType.bus]
    (fun _ name => name) (ownNodes_completed hret)
  refine ⟨_, clusters, ownNodes_completed hret, hclusters, hiff.2 ?_⟩
  have hstays : ∀ st ∈ (entranceFeed 0).stopTimes,
      snappedStop (entranceFeed 0) st = some st.stopId := by decide
  exact fun _ _ _ st hst _ hredirected => absurd (hstays st hst) hredirected

set_option maxRecDepth 4000 in
/-- The parent station of the entrance was collected, the entrance is looked up. -/
theorem clusters_not_matched : ∃ stops clusters,
    Resolved (entranceFeed StopLocationType.entranceExit) ∧
      Completed (entranceFeed StopLocationType.entranceExit) [RouteType.bus] stops ownGroups ∧
      clusterTrips busBuilder (entranceFeed StopLocationType.entranceExit) [RouteType.bus] =
        some clusters ∧
      ∃ g ∈ clusters, ∃ trip ∈ g,
        ¬ Matched (entranceFeed StopLocationType.entranceExit) stops ownGroups trip := by
  have hresolved : Resolved (entranceFeed StopLocationType.entranceExit) := by decide
  have hkeys : (writeMotStops (N := Text) (entranceFeed StopLocationType.entranceExit)
      [RouteType.bus] []).map SortedMap.keys = some ["platform".toList, "station".toList] := by
    decide
  obtain ⟨ret, hret, hret'⟩ := Option.map_eq_some_iff.1 hkeys
  have hcompleted := ownNodes_completed hret
  obtain ⟨clusters, hclusters, -⟩ := clusterTrips_perm (B := busBuilder) hresolved [RouteType.bus]
  have htrip : ∃ trip ∈ (entranceFeed StopLocationType.entranceExit).trips.values,
      isClustered busBuilder (entranceFeed StopLocationType.entranceExit) [RouteType.bus] trip ∧
      ∃ st ∈ (stopTimes (entranceFeed StopLocationType.entranceExit) trip).getD [],
        st.stopId = "entrance".toList := by decide
  obtain ⟨trip, ht, hc, st, hst, hid⟩ := htrip
  obtain ⟨g, hg, hmem⟩ := (mem_clusterTrips hresolved hclusters trip).2 ⟨ht, hc⟩
  refine ⟨_, clusters, hresolved, hcompleted, hclusters, g, hg, trip, hmem, fun hmatched => ?_⟩
  obtain ⟨sts, hsts⟩ := hresolved.stopTimes_some ht
  rw [hsts] at hst
  have hkey := (hcompleted.matched_iff hsts fun x hx =>
    hresolved.stops x ((mem_stopTimes hsts).2 x hx).1).1 hmatched st hst
  obtain ⟨ret', hret'', hsame⟩ := hcompleted.keys
  cases hret.symm.trans hret''
  rw [hsame, hret', hid] at hkey
  exact absurd hkey (by decide)

end sample

end Pfaedle.ShapeBuilder

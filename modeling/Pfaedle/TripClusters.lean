import Pfaedle.GtfsFeed

set_option autoImplicit false

/-!
# `router::shape_builder::cluster_trips`

A reference to a record of the feed is the key of the record in its map.
-/
namespace Pfaedle.ShapeBuilder

open Gtfs

section records
variable {D : Type} (f : Feed D)

def stopTimes (trip : Trip) : Option (List (StopTime D)) :=
  let sts := f.stopTimes.filter fun st => st.tripId = trip.tripId
  if sts = [] then none else some sts

def routeOf (trip : Trip) : Option Route := f.routes.find? trip.routeId

def shapeOf (trip : Trip) : Option (Shape D) := f.shapes.find? trip.shapeId

def stopOf (st : StopTime D) : Option (Stop D) := f.stops.find? st.stopId

def parentStation (stop : Stop D) : Option (Stop D) := f.stops.find? stop.parentStation

/-- Every reference of the feed is to a record that it has. -/
structure Resolved : Prop where
  stops : ∀ st ∈ f.stopTimes, (stopOf f st).isSome
  routes : ∀ t ∈ f.trips.values, (routeOf f t).isSome
  parents : ∀ s ∈ f.stops.values, s.parentStation ≠ [] → (parentStation f s).isSome
  stopTimes : ∀ t ∈ f.trips.values, ∃ st ∈ f.stopTimes, st.tripId = t.tripId

instance : Decidable (Resolved f) :=
  decidable_of_iff ((∀ st ∈ f.stopTimes, (stopOf f st).isSome) ∧
    (∀ t ∈ f.trips.values, (routeOf f t).isSome) ∧
    (∀ s ∈ f.stops.values, s.parentStation ≠ [] → (parentStation f s).isSome) ∧
    ∀ t ∈ f.trips.values, ∃ st ∈ f.stopTimes, st.tripId = t.tripId)
    ⟨fun h => ⟨h.1, h.2.1, h.2.2.1, h.2.2.2⟩,
      fun h => ⟨h.stops, h.routes, h.parents, h.stopTimes⟩⟩

end records

section builder

/-- What `shape_builder` takes from its configurations. -/
structure Builder (D : Type) where
  dropShapes : Bool
  routeTypes : List ℤ
  lineNorm : Text → Text
  statNorm : Text → Text
  trackNorm : Text → Text
  /-- The web mercator distance of two positions, latitude first, is at most one meter. -/
  near : D × D → D × D → Bool

structure RoutingAttributes where
  shortName : Text
  frm : Text
  to_ : Text
  deriving DecidableEq

structure Clusters where
  ret : List (List Trip)
  clusterIdx : SortedMap (Text ×ₗ Text) (List ℕ)

variable {D : Type} (B : Builder D) (f : Feed D)

def getRAttrs (trip : Trip) : Option RoutingAttributes := do
  let route ← routeOf f trip
  let short := B.lineNorm route.routeShortName
  let sts ← stopTimes f trip
  let first ← sts.head? >>= stopOf f
  let last ← sts.getLast? >>= stopOf f
  some { shortName := if short = [] then B.lineNorm route.routeLongName else short
         frm := B.statNorm first.stopName
         to_ := B.statNorm last.stopName }

def stopsEqual (a b : StopTime D) : Option Bool := do
  let stopA ← stopOf f a
  let stopB ← stopOf f b
  some (a.stopId == b.stopId ||
    B.statNorm stopA.stopName == B.statNorm stopB.stopName &&
    B.trackNorm stopA.platformCode == B.trackNorm stopB.platformCode &&
    B.near (stopA.stopLat, stopA.stopLon) (stopB.stopLat, stopB.stopLon))

def allEqual : List (StopTime D) → List (StopTime D) → Option Bool
  | a :: as, b :: bs => do if ← stopsEqual B f a b then allEqual as bs else some false
  | _, _ => some true

def routingEqual (a b : Trip) : Option Bool := do
  let as ← stopTimes f a
  let bs ← stopTimes f b
  if as.length ≠ bs.length then some false
  else
    let attrsA ← getRAttrs B f a
    let attrsB ← getRAttrs B f b
    if attrsA ≠ attrsB then some false else allEqual B f as bs

def hasShape (trip : Trip) : Bool := (shapeOf f trip).any fun shape => !shape.points.isEmpty

/-- The first of the clusters `is` that the trip belongs to. -/
def findCluster (ret : List (List Trip)) (trip : Trip) : List ℕ → Option (Option ℕ)
  | [] => some none
  | i :: is => do
    let first ← ret[i]? >>= List.head?
    if ← routingEqual B f first trip then some (some i) else findCluster ret trip is

def clusterTrip (mots : List ℤ) (c : Clusters) (trip : Trip) : Option Clusters := do
  if hasShape f trip && !B.dropShapes then some c
  else
    let sts ← stopTimes f trip
    if sts.length < 2 then some c
    else
      match routeOf f trip with
      | none => some c
      | some r =>
        if r.routeType ∉ mots ∨ r.routeType ∉ B.routeTypes then some c
        else
          let first ← sts.head?
          let last ← sts.getLast?
          let _ ← stopOf f first
          let _ ← stopOf f last
          let pair := toLex (first.stopId, last.stopId)
          let idx := c.clusterIdx.alter pair fun old => old.getD []
          match ← findCluster B f c.ret trip ((c.clusterIdx.find? pair).getD []) with
          | some i => some ⟨c.ret.modify i (· ++ [trip]), idx⟩
          | none =>
            let _ ← getRAttrs B f trip
            some ⟨c.ret ++ [[trip]], idx.alter pair fun old => old.getD [] ++ [c.ret.length]⟩

def clusterTrips (mots : List ℤ) : Option (List (List Trip)) :=
  Clusters.ret <$> f.trips.values.foldlM (clusterTrip B f mots) ⟨[], .empty⟩

/-- The conditions under which `cluster_trips` does not skip a trip. -/
def isClustered (mots : List ℤ) (trip : Trip) : Bool :=
  !(hasShape f trip && !B.dropShapes) && (stopTimes f trip).any (fun sts => 2 ≤ sts.length) &&
    (routeOf f trip).any fun r => r.routeType ∈ mots ∧ r.routeType ∈ B.routeTypes

end builder

section resolved
variable {D : Type} {B : Builder D} {f : Feed D}

theorem mem_stopTimes {trip : Trip} {sts : List (StopTime D)} (h : stopTimes f trip = some sts) :
    sts ≠ [] ∧ ∀ st ∈ sts, st ∈ f.stopTimes ∧ st.tripId = trip.tripId := by
  rw [stopTimes] at h
  split_ifs at h with hnil
  cases h
  refine ⟨hnil, fun st hst => ?_⟩
  obtain ⟨hmem, hid⟩ := List.mem_filter.1 hst
  exact ⟨hmem, of_decide_eq_true hid⟩

theorem mem_of_stopTimes {trip : Trip} {sts : List (StopTime D)} (h : stopTimes f trip = some sts)
    {st : StopTime D} (hst : st ∈ f.stopTimes) (hid : st.tripId = trip.tripId) : st ∈ sts := by
  rw [stopTimes] at h
  split_ifs at h
  cases h
  exact List.mem_filter.2 ⟨hst, decide_eq_true hid⟩

theorem Resolved.stopTimes_some (h : Resolved f) {trip : Trip} (ht : trip ∈ f.trips.values) :
    ∃ sts, ShapeBuilder.stopTimes f trip = some sts := by
  obtain ⟨st, hst, htrip⟩ := h.stopTimes trip ht
  have hmem : st ∈ f.stopTimes.filter fun st => st.tripId = trip.tripId :=
    List.mem_filter.2 ⟨hst, decide_eq_true htrip⟩
  exact ⟨_, if_neg (List.ne_nil_of_mem hmem)⟩

theorem Resolved.stop_some (h : Resolved f) {trip : Trip} {sts : List (StopTime D)}
    (hsts : ShapeBuilder.stopTimes f trip = some sts) {st : StopTime D} (hst : st ∈ sts) :
    ∃ s, stopOf f st = some s :=
  Option.isSome_iff_exists.1 (h.stops st ((mem_stopTimes hsts).2 st hst).1)

theorem Resolved.ends (h : Resolved f) {trip : Trip} {sts : List (StopTime D)}
    (hsts : ShapeBuilder.stopTimes f trip = some sts) :
    (∃ first, sts.head? = some first ∧ ∃ s, stopOf f first = some s) ∧
      ∃ last, sts.getLast? = some last ∧ ∃ s, stopOf f last = some s := by
  have hne := (mem_stopTimes hsts).1
  exact ⟨⟨_, List.head?_eq_some_head hne, h.stop_some hsts (List.head_mem hne)⟩,
    ⟨_, List.getLast?_eq_some_getLast hne, h.stop_some hsts (List.getLast_mem hne)⟩⟩

theorem Resolved.rAttrs (h : Resolved f) {trip : Trip} (ht : trip ∈ f.trips.values) :
    ∃ attrs, getRAttrs B f trip = some attrs := by
  obtain ⟨route, hroute⟩ := Option.isSome_iff_exists.1 (h.routes trip ht)
  obtain ⟨sts, hsts⟩ := h.stopTimes_some ht
  obtain ⟨⟨first, hfirst, s, hs⟩, last, hlast, s', hs'⟩ := h.ends hsts
  rw [getRAttrs, hroute, hsts]
  simp only [Option.bind_eq_bind, Option.bind_some, hfirst, hlast, hs, hs']
  exact ⟨_, rfl⟩

theorem Resolved.allEqual (h : Resolved f) {as bs : List (StopTime D)}
    (has : ∀ a ∈ as, a ∈ f.stopTimes) (hbs : ∀ b ∈ bs, b ∈ f.stopTimes) :
    ∃ b, ShapeBuilder.allEqual B f as bs = some b := by
  induction as generalizing bs with
  | nil => exact ⟨true, rfl⟩
  | cons a as ih =>
    cases bs with
    | nil => exact ⟨true, rfl⟩
    | cons b bs =>
      obtain ⟨stopA, hstopA⟩ := Option.isSome_iff_exists.1 (h.stops a (has a List.mem_cons_self))
      obtain ⟨stopB, hstopB⟩ := Option.isSome_iff_exists.1 (h.stops b (hbs b List.mem_cons_self))
      obtain ⟨rest, hrest⟩ := ih (fun x hx => has x (List.mem_cons_of_mem _ hx))
        fun x hx => hbs x (List.mem_cons_of_mem _ hx)
      rw [ShapeBuilder.allEqual, stopsEqual, hstopA, hstopB, hrest]
      simp only [Option.bind_eq_bind, Option.bind_some]
      split_ifs
      · exact ⟨rest, rfl⟩
      · exact ⟨false, rfl⟩

theorem Resolved.routingEqual (h : Resolved f) {a b : Trip} (ha : a ∈ f.trips.values)
    (hb : b ∈ f.trips.values) : ∃ e, ShapeBuilder.routingEqual B f a b = some e := by
  obtain ⟨as, has⟩ := h.stopTimes_some ha
  obtain ⟨bs, hbs⟩ := h.stopTimes_some hb
  obtain ⟨attrsA, hattrsA⟩ := h.rAttrs (B := B) ha
  obtain ⟨attrsB, hattrsB⟩ := h.rAttrs (B := B) hb
  obtain ⟨e, he⟩ := h.allEqual (B := B) (fun x hx => ((mem_stopTimes has).2 x hx).1)
    fun x hx => ((mem_stopTimes hbs).2 x hx).1
  rw [ShapeBuilder.routingEqual, has, hbs, hattrsA, hattrsB]
  simp only [Option.bind_eq_bind, Option.bind_some, he]
  split_ifs <;> exact ⟨_, rfl⟩

end resolved

section clusters
variable {D : Type} {B : Builder D} {f : Feed D}

/-- Clusters are never empty, and the index only names clusters that exist. -/
structure Clusters.Valid (f : Feed D) (c : Clusters) : Prop where
  ne_nil : ∀ g ∈ c.ret, g ≠ []
  trips : ∀ g ∈ c.ret, ∀ t ∈ g, t ∈ f.trips.values
  idx : ∀ pair is, c.clusterIdx.find? pair = some is → ∀ i ∈ is, i < c.ret.length

theorem findCluster_spec (h : Resolved f) {ret : List (List Trip)} (hne : ∀ g ∈ ret, g ≠ [])
    (htrips : ∀ g ∈ ret, ∀ t ∈ g, t ∈ f.trips.values) {trip : Trip} (ht : trip ∈ f.trips.values)
    {is : List ℕ} (his : ∀ i ∈ is, i < ret.length) :
    ∃ found, findCluster B f ret trip is = some found ∧ ∀ i, found = some i → i < ret.length := by
  induction is with
  | nil => exact ⟨none, rfl, fun i hi => (by cases hi)⟩
  | cons i is ih =>
    have hi := his i List.mem_cons_self
    have hmem : ret[i] ∈ ret := List.getElem_mem hi
    have hfirst : ret[i]? >>= List.head? = some ((ret[i]).head (hne _ hmem)) := by
      rw [List.getElem?_eq_getElem hi]
      exact List.head?_eq_some_head (hne _ hmem)
    obtain ⟨e, he⟩ := h.routingEqual (B := B) (htrips _ hmem _ (List.head_mem (hne _ hmem))) ht
    obtain ⟨found, hfound, hlt⟩ := ih fun j hj => his j (List.mem_cons_of_mem _ hj)
    rw [findCluster, hfirst]
    simp only [Option.bind_eq_bind, Option.bind_some, he, hfound]
    split_ifs
    · exact ⟨some i, rfl, fun j hj => (Option.some.inj hj) ▸ hi⟩
    · exact ⟨found, rfl, hlt⟩

theorem flatten_modify_perm {T : Type} {l : List (List T)} {i : ℕ} (hi : i < l.length) (t : T) :
    (l.modify i (· ++ [t])).flatten.Perm (t :: l.flatten) := by
  induction l generalizing i with
  | nil => exact absurd hi (Nat.not_lt_zero i)
  | cons g l ih =>
    cases i with
    | zero =>
      rw [List.modify_zero_cons, List.flatten_cons, List.flatten_cons, List.append_assoc]
      exact List.perm_middle
    | succ i =>
      rw [List.modify_succ_cons, List.flatten_cons, List.flatten_cons]
      exact ((ih (Nat.lt_of_succ_lt_succ hi)).append_left g).trans List.perm_middle

theorem mem_modify {T : Type} {l : List T} {i : ℕ} {g : T → T} {x : T} (h : x ∈ l.modify i g) :
    x ∈ l ∨ ∃ y ∈ l, x = g y := by
  obtain ⟨j, hj⟩ := List.mem_iff_getElem?.1 h
  rw [List.getElem?_modify, Option.map_eq_map, Option.map_eq_some_iff] at hj
  obtain ⟨y, hy, hx⟩ := hj
  have hmem := List.mem_of_getElem? hy
  split_ifs at hx
  · exact Or.inr ⟨y, hmem, hx.symm⟩
  · exact Or.inl (hx ▸ hmem)

theorem Clusters.Valid.lt {c : Clusters} (h : c.Valid f) {pair : Text ×ₗ Text} {i : ℕ}
    (hi : i ∈ (c.clusterIdx.find? pair).getD []) : i < c.ret.length := by
  cases hfind : c.clusterIdx.find? pair with
  | none =>
    rw [hfind] at hi
    exact absurd hi List.not_mem_nil
  | some is =>
    rw [hfind] at hi
    exact h.idx pair is hfind i hi

theorem Clusters.Valid.opened {c : Clusters} (h : c.Valid f) (pair : Text ×ₗ Text) :
    Clusters.Valid f ⟨c.ret, c.clusterIdx.alter pair fun old => old.getD []⟩ := by
  refine ⟨h.ne_nil, h.trips, fun pair' is his i hi => ?_⟩
  rw [SortedMap.find?_alter] at his
  split_ifs at his
  · cases his
    exact h.lt hi
  · exact h.idx pair' is his i hi

theorem Clusters.Valid.joined {c : Clusters} (h : c.Valid f) {i : ℕ} {trip : Trip}
    (ht : trip ∈ f.trips.values) :
    Clusters.Valid f ⟨c.ret.modify i (· ++ [trip]), c.clusterIdx⟩ := by
  refine ⟨fun g hg => ?_, fun g hg t htg => ?_, fun pair is his j hj => ?_⟩
  · rcases mem_modify hg with hold | ⟨g', -, rfl⟩
    · exact h.ne_nil g hold
    · exact List.append_ne_nil_of_right_ne_nil _ (List.cons_ne_nil _ _)
  · rcases mem_modify hg with hold | ⟨g', hg', rfl⟩
    · exact h.trips g hold t htg
    · cases List.mem_append.1 htg with
      | inl hmem => exact h.trips g' hg' t hmem
      | inr hmem => exact List.mem_singleton.1 hmem ▸ ht
  · rw [List.length_modify]
    exact h.idx pair is his j hj

theorem Clusters.Valid.created {c : Clusters} (h : c.Valid f) {trip : Trip}
    (ht : trip ∈ f.trips.values) (pair : Text ×ₗ Text) :
    Clusters.Valid f ⟨c.ret ++ [[trip]],
      c.clusterIdx.alter pair fun old => old.getD [] ++ [c.ret.length]⟩ := by
  refine ⟨fun g hg => ?_, fun g hg t htg => ?_, fun pair' is his j hj => ?_⟩
  · cases List.mem_append.1 hg with
    | inl hold => exact h.ne_nil g hold
    | inr hnew => exact List.mem_singleton.1 hnew ▸ List.cons_ne_nil _ _
  · cases List.mem_append.1 hg with
    | inl hold => exact h.trips g hold t htg
    | inr hnew =>
      rw [List.mem_singleton.1 hnew] at htg
      exact List.mem_singleton.1 htg ▸ ht
  · rw [List.length_append, List.length_singleton]
    rw [SortedMap.find?_alter] at his
    split_ifs at his
    · cases his
      cases List.mem_append.1 hj with
      | inl hmem => exact Nat.lt_succ_of_lt (h.lt hmem)
      | inr hmem => exact List.mem_singleton.1 hmem ▸ Nat.lt_succ_self _
    · exact Nat.lt_succ_of_lt (h.idx pair' is his j hj)

theorem isClustered_iff {mots : List ℤ} {t : Trip} :
    isClustered B f mots t = true ↔ (hasShape f t && !B.dropShapes) = false ∧
      ∃ sts, stopTimes f t = some sts ∧ 2 ≤ sts.length ∧
        ∃ r, routeOf f t = some r ∧ r.routeType ∈ mots ∧ r.routeType ∈ B.routeTypes := by
  unfold isClustered
  rw [Bool.and_eq_true, Bool.and_eq_true, Bool.not_eq_true', Option.any_eq_true,
    Option.any_eq_true]
  simp only [decide_eq_true_eq]
  tauto

theorem isClustered_short {mots : List ℤ} {trip : Trip} {sts : List (StopTime D)}
    (hsts : stopTimes f trip = some sts) (hlength : sts.length < 2) :
    isClustered B f mots trip = false := by
  rw [isClustered, hsts, Option.any_some, decide_eq_false (Nat.not_le_of_lt hlength),
    Bool.and_false, Bool.false_and]

theorem isClustered_typeless {mots : List ℤ} {trip : Trip} {r : Route}
    (hroute : routeOf f trip = some r)
    (htype : r.routeType ∉ mots ∨ r.routeType ∉ B.routeTypes) :
    isClustered B f mots trip = false := by
  have hnot : ¬ (r.routeType ∈ mots ∧ r.routeType ∈ B.routeTypes) := fun hh =>
    htype.elim (fun hm => hm hh.1) fun hm => hm hh.2
  rw [isClustered, hroute, Option.any_some, decide_eq_false hnot, Bool.and_false]

theorem clusterTrip_spec (h : Resolved f) (mots : List ℤ) {c : Clusters} (hc : c.Valid f)
    {trip : Trip} (ht : trip ∈ f.trips.values) :
    ∃ c', clusterTrip B f mots c trip = some c' ∧ c'.Valid f ∧
      c'.ret.flatten.Perm
        (if isClustered B f mots trip then trip :: c.ret.flatten else c.ret.flatten) := by
  have hskip : isClustered B f mots trip = false →
      ∃ c', some c = some c' ∧ c'.Valid f ∧ c'.ret.flatten.Perm
        (if isClustered B f mots trip then trip :: c.ret.flatten else c.ret.flatten) := by
    intro hnot
    rw [hnot, if_neg Bool.false_ne_true]
    exact ⟨c, rfl, hc, List.Perm.refl _⟩
  obtain ⟨sts, hsts⟩ := h.stopTimes_some ht
  obtain ⟨route, hroute⟩ := Option.isSome_iff_exists.1 (h.routes trip ht)
  obtain ⟨⟨first, hfirst, s, hs⟩, last, hlast, s', hs'⟩ := h.ends hsts
  rw [clusterTrip, hsts, hroute]
  simp only [Option.bind_eq_bind, Option.bind_some, hfirst, hlast, hs, hs']
  by_cases hshape : (hasShape f trip && !B.dropShapes) = true
  · rw [if_pos hshape]
    exact hskip (by rw [isClustered, hshape]; rfl)
  rw [if_neg hshape]
  by_cases hlength : sts.length < 2
  · rw [if_pos hlength]
    exact hskip (isClustered_short hsts hlength)
  rw [if_neg hlength]
  by_cases htype : route.routeType ∉ mots ∨ route.routeType ∉ B.routeTypes
  · rw [if_pos htype]
    exact hskip (isClustered_typeless hroute htype)
  · rw [if_neg htype]
    have hclustered : isClustered B f mots trip = true := by
      rw [not_or, not_not, not_not] at htype
      exact isClustered_iff.2 ⟨(Bool.not_eq_true _).mp hshape, sts, hsts,
        Nat.le_of_not_lt hlength, route, hroute, htype⟩
    rw [hclustered, if_pos rfl]
    have hopened := hc.opened (toLex (first.stopId, last.stopId))
    obtain ⟨found, hfound, hlt⟩ := findCluster_spec (B := B) h hc.ne_nil hc.trips ht
      fun _ hi => hc.lt hi
    rw [hfound, Option.bind_some]
    cases found with
    | some i => exact ⟨_, rfl, hopened.joined ht, flatten_modify_perm (hlt i rfl) trip⟩
    | none =>
      obtain ⟨attrs, hattrs⟩ := h.rAttrs (B := B) ht
      rw [hattrs]
      refine ⟨_, rfl, hopened.created ht _, ?_⟩
      rw [List.flatten_append]
      exact List.perm_append_comm

theorem foldlM_clusterTrip (h : Resolved f) (mots : List ℤ) {trips : List Trip} {c : Clusters}
    (hc : c.Valid f) (htrips : ∀ t ∈ trips, t ∈ f.trips.values) :
    ∃ c', trips.foldlM (clusterTrip B f mots) c = some c' ∧ c'.Valid f ∧
      c'.ret.flatten.Perm (trips.filter (isClustered B f mots) ++ c.ret.flatten) := by
  induction trips generalizing c with
  | nil => exact ⟨c, rfl, hc, List.Perm.refl _⟩
  | cons t trips ih =>
    obtain ⟨c₁, hc₁, hvalid, hperm⟩ :=
      clusterTrip_spec (B := B) h mots hc (htrips t List.mem_cons_self)
    obtain ⟨c₂, hc₂, hvalid₂, hperm₂⟩ := ih hvalid fun x hx => htrips x (List.mem_cons_of_mem _ hx)
    refine ⟨c₂, ?_, hvalid₂, ?_⟩
    · rw [List.foldlM_cons, hc₁]
      exact hc₂
    · refine hperm₂.trans ((hperm.append_left _).trans ?_)
      rw [List.filter_cons]
      split_ifs
      · exact List.perm_middle
      · exact List.Perm.refl _

theorem clusterTrips_perm (h : Resolved f) (mots : List ℤ) :
    ∃ clusters, clusterTrips B f mots = some clusters ∧ (∀ g ∈ clusters, g ≠ []) ∧
      clusters.flatten.Perm (f.trips.values.filter (isClustered B f mots)) := by
  have hstart : Clusters.Valid f ⟨[], .empty⟩ :=
    ⟨fun g hg => absurd hg List.not_mem_nil, fun g hg => absurd hg List.not_mem_nil,
      fun pair is his => (by cases his)⟩
  obtain ⟨c, hc, hvalid, hperm⟩ := foldlM_clusterTrip (B := B) h mots hstart fun _ ht => ht
  refine ⟨c.ret, by rw [clusterTrips, hc]; rfl, hvalid.ne_nil, ?_⟩
  rwa [List.flatten_nil, List.append_nil] at hperm

end clusters

section clustered
variable {D : Type} {B : Builder D} {f : Feed D}

theorem findCluster_equal {ret : List (List Trip)} {t : Trip} {is : List ℕ} {i : ℕ}
    (h : findCluster B f ret t is = some (some i)) :
    i ∈ is ∧ ∃ first, ret[i]? >>= List.head? = some first ∧
      routingEqual B f first t = some true := by
  induction is with
  | nil => cases h
  | cons j is ih =>
    rw [findCluster] at h
    obtain ⟨first, hfirst, h⟩ := Option.bind_eq_some_iff.1 h
    obtain ⟨equal, hequal, h⟩ := Option.bind_eq_some_iff.1 h
    split_ifs at h with htrue
    · cases h
      exact ⟨List.mem_cons_self, first, hfirst, hequal.trans (congrArg some htrue)⟩
    · obtain ⟨hi, hfound⟩ := ih h
      exact ⟨List.mem_cons_of_mem _ hi, hfound⟩

theorem findCluster_lt {ret : List (List Trip)} {trip : Trip} {is : List ℕ} {i : ℕ}
    (h : findCluster B f ret trip is = some (some i)) : i < ret.length := by
  obtain ⟨-, first, hfirst, -⟩ := findCluster_equal h
  obtain ⟨g, hg, -⟩ := Option.bind_eq_some_iff.1 hfirst
  exact (List.getElem?_eq_some_iff.1 hg).1

theorem clusterTrip_some {mots : List ℤ} {c c' : Clusters} {trip : Trip}
    (h : clusterTrip B f mots c trip = some c') (hne : ∀ g ∈ c.ret, g ≠ []) :
    (∀ g ∈ c'.ret, g ≠ []) ∧ c'.ret.flatten.Perm
      (if isClustered B f mots trip then trip :: c.ret.flatten else c.ret.flatten) := by
  have hskip : isClustered B f mots trip = false → some c = some c' →
      (∀ g ∈ c'.ret, g ≠ []) ∧ c'.ret.flatten.Perm
        (if isClustered B f mots trip then trip :: c.ret.flatten else c.ret.flatten) := by
    intro hnot hc
    cases hc
    rw [hnot, if_neg Bool.false_ne_true]
    exact ⟨hne, List.Perm.refl _⟩
  rw [clusterTrip] at h
  split_ifs at h with hshape
  · exact hskip (by rw [isClustered, hshape]; rfl) h
  obtain ⟨sts, hsts, h⟩ := Option.bind_eq_some_iff.1 h
  split_ifs at h with hlength
  · exact hskip (isClustered_short hsts hlength) h
  cases hroute : routeOf f trip with
  | none =>
    rw [hroute] at h
    exact hskip (by rw [isClustered, hroute, Option.any_none, Bool.and_false]) h
  | some r =>
    rw [hroute] at h
    dsimp only at h
    split_ifs at h with htype
    · exact hskip (isClustered_typeless hroute htype) h
    · have hclustered : isClustered B f mots trip = true := by
        rw [not_or, not_not, not_not] at htype
        exact isClustered_iff.2 ⟨(Bool.not_eq_true _).mp hshape, sts, hsts,
          Nat.le_of_not_lt hlength, r, hroute, htype⟩
      rw [hclustered, if_pos rfl]
      obtain ⟨first, -, h⟩ := Option.bind_eq_some_iff.1 h
      obtain ⟨last, -, h⟩ := Option.bind_eq_some_iff.1 h
      obtain ⟨s, -, h⟩ := Option.bind_eq_some_iff.1 h
      obtain ⟨s', -, h⟩ := Option.bind_eq_some_iff.1 h
      obtain ⟨found, hfound, h⟩ := Option.bind_eq_some_iff.1 h
      cases found with
      | some i =>
        cases h
        refine ⟨fun g hg => ?_, flatten_modify_perm (findCluster_lt hfound) trip⟩
        rcases mem_modify hg with hold | ⟨g', -, rfl⟩
        · exact hne g hold
        · exact List.append_ne_nil_of_right_ne_nil _ (List.cons_ne_nil _ _)
      | none =>
        obtain ⟨attrs, -, h⟩ := Option.bind_eq_some_iff.1 h
        cases h
        refine ⟨fun g hg => ?_, ?_⟩
        · cases List.mem_append.1 hg with
          | inl hold => exact hne g hold
          | inr hnew => exact List.mem_singleton.1 hnew ▸ List.cons_ne_nil _ _
        · rw [List.flatten_append]
          exact List.perm_append_comm

theorem foldlM_clusterTrip_some {mots : List ℤ} {trips : List Trip} {c c' : Clusters}
    (h : trips.foldlM (clusterTrip B f mots) c = some c') (hne : ∀ g ∈ c.ret, g ≠ []) :
    (∀ g ∈ c'.ret, g ≠ []) ∧
      c'.ret.flatten.Perm (trips.filter (isClustered B f mots) ++ c.ret.flatten) := by
  induction trips generalizing c with
  | nil =>
    cases h
    exact ⟨hne, List.Perm.refl _⟩
  | cons t trips ih =>
    rw [List.foldlM_cons] at h
    obtain ⟨c₁, hc₁, h⟩ := Option.bind_eq_some_iff.1 h
    obtain ⟨hne₁, hperm₁⟩ := clusterTrip_some hc₁ hne
    obtain ⟨hne', hperm'⟩ := ih h hne₁
    refine ⟨hne', hperm'.trans ((hperm₁.append_left _).trans ?_)⟩
    rw [List.filter_cons]
    split_ifs
    · exact List.perm_middle
    · exact List.Perm.refl _

/-- The clusters hold the trips that are not skipped, each of them once. -/
theorem clusterTrips_some {mots : List ℤ} {clusters : List (List Trip)}
    (h : clusterTrips B f mots = some clusters) :
    (∀ g ∈ clusters, g ≠ []) ∧
      clusters.flatten.Perm (f.trips.values.filter (isClustered B f mots)) := by
  rw [clusterTrips] at h
  obtain ⟨c, hc, rfl⟩ := Option.map_eq_some_iff.1 h
  obtain ⟨hne, hperm⟩ := foldlM_clusterTrip_some hc fun g hg => absurd hg List.not_mem_nil
  exact ⟨hne, by rwa [List.flatten_nil, List.append_nil] at hperm⟩

end clustered

section clusters
variable {D : Type} {B : Builder D} {f : Feed D}

theorem mem_clusterTrips (h : Resolved f) {mots : List ℤ} {clusters : List (List Trip)}
    (hclusters : clusterTrips B f mots = some clusters) (trip : Trip) :
    (∃ g ∈ clusters, trip ∈ g) ↔ trip ∈ f.trips.values ∧ isClustered B f mots trip = true := by
  obtain ⟨clusters', hc, -, hperm⟩ := clusterTrips_perm (B := B) h mots
  cases hclusters.symm.trans hc
  rw [← List.mem_flatten, hperm.mem_iff, List.mem_filter]

end clusters

end Pfaedle.ShapeBuilder

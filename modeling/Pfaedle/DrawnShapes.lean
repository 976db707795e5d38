import Pfaedle.FeedRun

set_option autoImplicit false

/-!
# New shapes have points

The writer lists the points of the shapes, so a shape without points is not in its table. A shape of
`get_gtfs_shape` has points, all of them under its own id.
-/
namespace Pfaedle.ShapeBuilder
open Gtfs Router

section points
variable {N E C : Type} [Field C] [LinearOrder C]
variable {S : Setting N E C} {P : Polylines E C} {R : Rendering E C} {id : Text} {st : Trace C}

structure Pointed (id : Text) (points : List (ShapePoint C)) : Prop where
  ne_nil : points ≠ []
  shapeId : ∀ p ∈ points, p.shapeId = id

def Drawable (id : Text) (st : Trace C) : Prop := Unstarted st ∨ Pointed id st.points

theorem Pointed.emit (h : Pointed id st.points) (cur : C × C) :
    Pointed id (emit R id st cur).points := by
  unfold ShapeBuilder.emit
  split
  · refine ⟨by simp, ?_⟩
    intro p hp
    rcases List.mem_append.1 hp with hp | hp
    · exact h.shapeId p hp
    · rw [List.mem_singleton.1 hp]
  · exact h

theorem reach_points (cur : C × C) : (reach S st cur).points = st.points := by
  unfold reach
  split <;> rfl

theorem Pointed.visitPoint (h : Pointed id st.points) (cur : C × C) :
    Pointed id (visitPoint S R id st cur).points :=
  Pointed.emit (by rwa [reach_points]) cur

variable [IsStrictOrderedRing C]

theorem Unstarted.pointed (h : Unstarted st) (cur : C × C) :
    Pointed id (ShapeBuilder.visitPoint S R id st cur).points := by
  have hneg : ¬ -0.5 < st.dist := by
    rw [h.dist]
    norm_num
  unfold ShapeBuilder.visitPoint reach ShapeBuilder.emit
  rw [if_neg hneg]
  dsimp only
  rw [h.lastDist, if_pos (by norm_num), h.points]
  exact ⟨by simp, by simp⟩

theorem Drawable.visitPoint (h : Drawable id st) (cur : C × C) :
    Pointed id (ShapeBuilder.visitPoint S R id st cur).points := by
  cases h with
  | inl hnew => exact hnew.pointed cur
  | inr hold => exact hold.visitPoint cur

theorem Drawable.foldl_points {line : List (C × C)} (hline : line ≠ []) (h : Drawable id st) :
    Pointed id (line.foldl (ShapeBuilder.visitPoint S R id) st).points := by
  induction line generalizing st with
  | nil => exact absurd rfl hline
  | cons p line ih =>
    have hstep : Pointed id (ShapeBuilder.visitPoint S R id st p).points := h.visitPoint p
    by_cases hnil : line = []
    · rw [hnil]
      exact hstep
    · exact ih hnil (Or.inr hstep)

variable [DecidableEq N]

theorem Drawable.visitEdge (hgeom : ∀ e, P.geom e ≠ []) (h : Drawable id st) (e : E)
    (node : Option N) : Pointed id (visitEdge S P R id (st, node) e).1.points := by
  have hspeed : Drawable id { st with lastSpeed := R.maxSpeed e - 10 } := by
    cases h with
    | inl hnew => exact Or.inl ⟨hnew.points, hnew.seq, hnew.dist, hnew.lastDist⟩
    | inr hold => exact Or.inr hold
  refine hspeed.foldl_points ?_
  split
  · exact hgeom e
  · simpa using hgeom e

theorem Drawable.foldl_edges (hgeom : ∀ e, P.geom e ≠ []) {es : List E} (hes : es ≠ [])
    (h : Drawable id st) (node : Option N) :
    Pointed id (es.foldl (ShapeBuilder.visitEdge S P R id) (st, node)).1.points := by
  induction es generalizing st node with
  | nil => exact absurd rfl hes
  | cons e es ih =>
    have hstep : Pointed id (ShapeBuilder.visitEdge S P R id (st, node) e).1.points :=
      h.visitEdge hgeom e node
    rw [List.foldl_cons]
    by_cases hnil : es = []
    · rw [hnil]
      exact hstep
    · exact ih hnil (Or.inr hstep) _

theorem Drawable.visitHop (hgeom : ∀ e, P.geom e ≠ []) (h : Drawable id st)
    {hop : EdgeListHop N E C} {st' : Trace C} (hvisit : visitHop S P R id st hop = some st') :
    Pointed id st'.points := by
  unfold ShapeBuilder.visitHop at hvisit
  split_ifs at hvisit with hnil
  · obtain ⟨start, -, hvisit⟩ := Option.bind_eq_some_iff.1 hvisit
    obtain ⟨end_, -, hvisit⟩ := Option.bind_eq_some_iff.1 hvisit
    rw [← Option.some.inj hvisit]
    have hend : Pointed id (travel S (ShapeBuilder.visitPoint S R id st (S.g.geom start))
        (S.g.geom end_)).points := h.visitPoint (S.g.geom start)
    exact hend.emit (R := R) (S.g.geom end_)
  · rw [← Option.some.inj hvisit]
    exact h.foldl_edges hgeom (by simpa using hnil) hop.start

theorem Drawable.foldlM_hops (hgeom : ∀ e, P.geom e ≠ []) {hops : List (EdgeListHop N E C)}
    {x y : Trace C × HopVectors C} (h : Drawable id x.1)
    (hrun : hops.foldlM (shapeRound S P R id) x = some y) :
    Drawable id y.1 ∧ (hops ≠ [] → Pointed id y.1.points) := by
  induction hops generalizing x with
  | nil =>
    cases hrun
    exact ⟨h, fun hne => absurd rfl hne⟩
  | cons hop hops ih =>
    rw [List.foldlM_cons] at hrun
    obtain ⟨z, hround, hrun⟩ := Option.bind_eq_some_iff.1 hrun
    obtain ⟨st', hvisit, hz⟩ := Option.bind_eq_some_iff.1 hround
    have hstep : Pointed id z.1.points := by
      rw [← Option.some.inj hz]
      exact h.visitHop hgeom hvisit
    obtain ⟨hlast, hpointed⟩ := ih (Or.inr hstep) hrun
    refine ⟨hlast, fun _ => ?_⟩
    by_cases hnil : hops = []
    · rw [hnil] at hrun
      cases hrun
      exact hstep
    · exact hpointed hnil

section
omit [IsStrictOrderedRing C]

theorem visitHop_isSome (id id' : Text) (st st' : Trace C) (hop : EdgeListHop N E C) :
    (visitHop S P R id st hop).isSome = (visitHop S P R id' st' hop).isSome := by
  unfold visitHop
  split_ifs
  · cases hop.start with
    | none => rfl
    | some start => cases hop.end_ <;> rfl
  · rfl

theorem foldlM_shapeRound_isSome {id' : Text} {hops : List (EdgeListHop N E C)}
    {x : Trace C × HopVectors C} (y : Trace C × HopVectors C)
    (h : (hops.foldlM (shapeRound S P R id) x).isSome) :
    (hops.foldlM (shapeRound S P R id') y).isSome := by
  induction hops generalizing x y with
  | nil => rfl
  | cons hop hops ih =>
    obtain ⟨z, hz⟩ := Option.isSome_iff_exists.1 h
    rw [List.foldlM_cons] at hz
    obtain ⟨x', hround, hrest⟩ := Option.bind_eq_some_iff.1 hz
    obtain ⟨st, hvisit, -⟩ := Option.bind_eq_some_iff.1 hround
    have hsome : (visitHop S P R id' y.1 hop).isSome := by
      rw [visitHop_isSome id' id y.1 x.1, hvisit]
      rfl
    obtain ⟨st', hvisit'⟩ := Option.isSome_iff_exists.1 hsome
    rw [List.foldlM_cons, shapeRound, hvisit']
    exact ih _ (Option.isSome_of_mem hrest)

theorem getGtfsShape_isSome {id' : Text} {sts : List (StopTime C)} {hops : List (EdgeListHop N E C)}
    (h : (getGtfsShape S P R id sts hops).isSome) :
    (getGtfsShape S P R id' sts hops).isSome := by
  unfold getGtfsShape at h ⊢
  split_ifs at h ⊢ with hlen
  · obtain ⟨x, hx⟩ := Option.isSome_iff_exists.1 h
    obtain ⟨y, hrun, -⟩ := Option.bind_eq_some_iff.1 hx
    have hsome : (hops.foldlM (shapeRound S P R id') (startTrace, ⟨[0], [], [0]⟩)).isSome :=
      foldlM_shapeRound_isSome _ (Option.isSome_of_mem hrun)
    obtain ⟨z, hz⟩ := Option.isSome_iff_exists.1 hsome
    rw [hz]
    rfl
  · exact h

end

theorem getGtfsShape_pointed (hgeom : ∀ e, P.geom e ≠ []) {sts : List (StopTime C)}
    {hops : List (EdgeListHop N E C)} {s : Shape C} {v : HopVectors C} (hlong : 2 ≤ sts.length)
    (h : getGtfsShape S P R id sts hops = some (s, v)) : Pointed id s.points := by
  unfold getGtfsShape at h
  split_ifs at h with hlen
  obtain ⟨y, hrun, hy⟩ := Option.bind_eq_some_iff.1 h
  cases hy
  have hstart : Drawable id (startTrace : Trace C) := Or.inl ⟨rfl, rfl, rfl, rfl⟩
  refine (hstart.foldlM_hops hgeom hrun).2 ?_
  intro hnil
  simp [hnil] at hlen
  omega

end points

section tracking
variable {D C : Type} {f g h : Feed D}

def unshaped (t : Trip) : Trip := { t with shapeId := [] }

/-- Two feeds differ in their shapes, in what the trips refer to and in the times, not in the
number of the times. -/
structure Tracks (f g : Feed D) : Prop where
  routes : g.routes = f.routes
  trips : ∀ id, (g.trips.find? id).map unshaped = (f.trips.find? id).map unshaped
  times : ∀ id, (listedTimes g id).length = (listedTimes f id).length

theorem Tracks.trans (hfg : Tracks f g) (hgh : Tracks g h) : Tracks f h :=
  ⟨hgh.routes.trans hfg.routes, fun id => (hgh.trips id).trans (hfg.trips id),
    fun id => (hgh.times id).trans (hfg.times id)⟩

theorem Tracks.of_same (hroutes : g.routes = f.routes) (htrips : g.trips = f.trips)
    (htimes : g.stopTimes = f.stopTimes) : Tracks f g where
  routes := hroutes
  trips id := by rw [htrips]
  times id := by rw [listedTimes_eq, listedTimes_eq, htimes]

theorem Tracks.refl (f : Feed D) : Tracks f f := .of_same rfl rfl rfl

theorem setShape_tracks {K : CostArithmetic C} {interpolateTimes : Bool} {t : Text} {s : Shape D}
    {dists : List D} {costs : List C}
    (hset : setShape K interpolateTimes t s dists costs f = some g) :
    Tracks f g := by
  obtain ⟨-, hsts, hothers, hg⟩ := setShape_spec hset
  refine ⟨by rw [hg], fun id => ?_, fun id => ?_⟩
  · rw [hg]
    dsimp only
    rw [SortedMap.find?_map, Option.map_map]
    refine congrArg (Option.map · (f.trips.find? id)) ?_
    funext t'
    change unshaped (if id = t then _ else t') = unshaped t'
    split_ifs <;> rfl
  · by_cases hid : id = t
    · rw [hid]
      exact (interpolated_spec hsts).1.length_eq.symm
    · rw [hothers id hid]

theorem releaseShape_feed (r : Replacement D) (t : Trip) :
    (releaseShape r t).feed = r.feed ∨
      (releaseShape r t).feed = (r.eraseShape t.shapeId).feed := by
  unfold releaseShape
  split
  · exact Or.inl rfl
  · split_ifs
    · dsimp only
      split_ifs
      · exact Or.inr rfl
      · exact Or.inl rfl
    · exact Or.inl rfl

def FormedId (f : Feed D) (id : Text) : Prop :=
  ∃ t ∈ f.trips.values, ∃ n, id = shapeIdFor f t n

theorem Tracks.shapeIdFor (hfg : Tracks f g) (t : Trip) (n : ℕ) :
    shapeIdFor g t n = shapeIdFor f t n := by
  unfold ShapeBuilder.shapeIdFor routeOf
  rw [hfg.routes]

theorem Tracks.stopTimes_length (hfg : Tracks f g) {t : Trip} {sts : List (StopTime D)}
    (hsts : stopTimes g t = some sts) :
    ∃ sts', stopTimes f t = some sts' ∧ sts'.length = sts.length := by
  rw [stopTimes_eq_listedTimes] at hsts
  split_ifs at hsts with hnil
  have hlen := hfg.times t.tripId
  cases hsts
  refine ⟨listedTimes f t.tripId, ?_, hlen.symm⟩
  rw [stopTimes_eq_listedTimes, if_neg]
  intro hnil'
  rw [hnil', List.length_nil, List.length_eq_zero_iff] at hlen
  exact hnil hlen

end tracking

section replacing
variable {N E C : Type} [DecidableEq N] [Field C] [LinearOrder C]
variable {f : Feed C} {r r' : Replacement C} {K : CostArithmetic C} {interpolateTimes : Bool}
variable {net : App.Network N E C} {shp : Shape C × GtfsShape C C} {t : Trip}

/-- Every shape has points, and its id is an old one or one of `get_free_shapeId`. -/
def ShapesFrom (f g : Feed C) : Prop :=
  ∀ id s, g.shapes.find? id = some s →
    Pointed id s.points ∧ (id ∈ f.shapes.keys ∨ FormedId f id)

structure Drawing (f : Feed C) (r : Replacement C) : Prop where
  tracks : Tracks f r.feed
  shapes : ShapesFrom f r.feed

def NewShape (f : Feed C) (s : Shape C) : Prop := Pointed s.shapeId s.points ∧ FormedId f s.shapeId

section
omit [Field C] [LinearOrder C]

theorem Drawing.releaseShape (h : Drawing f r) (t : Trip) : Drawing f (releaseShape r t) := by
  rcases releaseShape_feed r t with hsame | herased
  · exact ⟨hsame ▸ h.tracks, hsame ▸ h.shapes⟩
  · refine ⟨herased ▸ h.tracks.trans (.of_same rfl rfl rfl), fun id s hfind => h.shapes id s ?_⟩
    rw [herased] at hfind
    change (SortedMap.erase _ _).find? id = _ at hfind
    rw [SortedMap.find?_erase] at hfind
    split_ifs at hfind
    exact hfind

theorem Drawing.replaceTrip (hshp : NewShape f shp.1) (h : Drawing f r)
    (hstep : replaceTrip K interpolateTimes shp r t = some r') : Drawing f r' := by
  unfold ShapeBuilder.replaceTrip at hstep
  obtain ⟨t', -, hstep⟩ := Option.bind_eq_some_iff.1 hstep
  obtain ⟨g, hset, hr'⟩ := Option.bind_eq_some_iff.1 hstep
  cases hr'
  have hreleased := h.releaseShape t'
  refine ⟨hreleased.tracks.trans (setShape_tracks hset), fun id s hfind => ?_⟩
  obtain ⟨-, -, -, hg⟩ := setShape_spec hset
  rw [hg] at hfind
  change (SortedMap.insert _ _ _).find? id = _ at hfind
  rw [SortedMap.find?_insert] at hfind
  split_ifs at hfind with hid
  · -- a shape that is there already is not overwritten
    cases hold : (ShapeBuilder.releaseShape r t').feed.shapes.find? shp.1.shapeId with
    | none =>
      rw [hold] at hfind
      cases hfind
      rw [hid]
      exact ⟨hshp.1, Or.inr hshp.2⟩
    | some old =>
      rw [hold] at hfind
      cases hfind
      rw [hid]
      exact hreleased.shapes _ _ hold
  · exact hreleased.shapes id s hfind

theorem Drawing.replaceTrips (hshp : NewShape f shp.1) {cluster : List Trip} (h : Drawing f r)
    (hrun : cluster.foldlM (ShapeBuilder.replaceTrip K interpolateTimes shp) r = some r') :
    Drawing f r' := by
  induction cluster generalizing r with
  | nil =>
    cases hrun
    exact h
  | cons t cluster ih =>
    rw [List.foldlM_cons] at hrun
    obtain ⟨r₁, hstep, hrun⟩ := Option.bind_eq_some_iff.1 hrun
    exact ih (h.replaceTrip hshp hstep) hrun

end

variable [IsStrictOrderedRing C]

theorem gtfsShape_pointed {g : Feed C} {m : GtfsShape C C} (hm : net.gtfsShape g t = some m)
    (hlong : ∀ sts, stopTimes g t = some sts → 2 ≤ sts.length) (id : Text) :
    Pointed id (m.points id) := by
  unfold App.Network.gtfsShape at hm
  obtain ⟨hops, -, hm⟩ := Option.bind_eq_some_iff.1 hm
  obtain ⟨sts, hsts, hm⟩ := Option.bind_eq_some_iff.1 hm
  obtain ⟨⟨s₀, v⟩, hdrawn, hm⟩ := Option.bind_eq_some_iff.1 hm
  cases hm
  have hsome : (getGtfsShape net.setting net.lines net.rendering id sts hops).isSome :=
    getGtfsShape_isSome (Option.isSome_of_mem hdrawn)
  obtain ⟨⟨s, v'⟩, hs⟩ := Option.isSome_iff_exists.1 hsome
  dsimp only
  rw [hs]
  exact getGtfsShape_pointed net.drawn (hlong sts hsts) hs

variable {B : Builder C} {mots : List ℤ}

theorem Drawing.buildShape (h : Drawing f r) (hmem : t ∈ f.trips.values)
    (hclustered : isClustered B f mots t = true)
    (hbuild : buildShape net.gtfsShape r t = some (shp, r')) :
    NewShape f shp.1 ∧ Drawing f r' := by
  unfold ShapeBuilder.buildShape at hbuild
  obtain ⟨m, hm, hbuild⟩ := Option.bind_eq_some_iff.1 hbuild
  obtain ⟨⟨id, n⟩, hid, hbuild⟩ := Option.bind_eq_some_iff.1 hbuild
  cases hbuild
  obtain ⟨-, -, hformed⟩ := findFreeId_spec hid
  obtain ⟨-, sts, hsts, hlong, -⟩ := isClustered_iff.1 hclustered
  refine ⟨⟨gtfsShape_pointed hm ?_ id, t, hmem, n, ?_⟩, ⟨h.tracks, h.shapes⟩⟩
  · intro sts' hsts'
    obtain ⟨sts'', hsame, hlen⟩ := h.tracks.stopTimes_length hsts'
    rw [hsts] at hsame
    cases hsame
    omega
  · rw [hformed, h.tracks.shapeIdFor]

theorem Drawing.matchCluster {cluster : List Trip} (h : Drawing f r)
    (hall : ∀ t ∈ cluster, t ∈ f.trips.values ∧ isClustered B f mots t = true)
    (hrun : matchCluster net.gtfsShape K interpolateTimes r cluster = some r') : Drawing f r' := by
  unfold ShapeBuilder.matchCluster at hrun
  obtain ⟨first, hfirst, hrun⟩ := Option.bind_eq_some_iff.1 hrun
  obtain ⟨⟨shp, r₁⟩, hbuild, hrun⟩ := Option.bind_eq_some_iff.1 hrun
  obtain ⟨hmem, hclustered⟩ := hall first (List.mem_of_mem_head? hfirst)
  obtain ⟨hnew, hbuilt⟩ := h.buildShape hmem hclustered hbuild
  exact hbuilt.replaceTrips hnew hrun

theorem Drawing.matchClusters {clusters : List (List Trip)} (h : Drawing f r)
    (hall : ∀ t ∈ clusters.flatten, t ∈ f.trips.values ∧ isClustered B f mots t = true)
    (hrun : clusters.foldlM (ShapeBuilder.matchCluster net.gtfsShape K interpolateTimes) r =
      some r') : Drawing f r' := by
  induction clusters generalizing r with
  | nil =>
    cases hrun
    exact h
  | cons cluster clusters ih =>
    rw [List.foldlM_cons] at hrun
    obtain ⟨r₁, hcluster, hrun⟩ := Option.bind_eq_some_iff.1 hrun
    rw [List.flatten_cons] at hall
    have hstep : Drawing f r₁ :=
      h.matchCluster (fun t ht => hall t (List.mem_append_left _ ht)) hcluster
    exact ih hstep (fun t ht => hall t (List.mem_append_right _ ht)) hrun

theorem getShape_drawing {shuffle : List (List Trip) → List (List Trip)}
    (hshuffle : ∀ l, (shuffle l).Perm l)
    (hpointed : ∀ id s, f.shapes.find? id = some s → Pointed id s.points) {g : Feed C}
    (hg : getShape net.gtfsShape K interpolateTimes B mots shuffle f = some g) :
    Tracks f g ∧ ShapesFrom f g := by
  unfold getShape at hg
  obtain ⟨clusters, hclusters, hg⟩ := Option.bind_eq_some_iff.1 hg
  obtain ⟨r, hrun, hg⟩ := Option.bind_eq_some_iff.1 hg
  cases hg
  have hstart : Drawing f (.start f) := by
    refine ⟨Tracks.refl f, fun id s hfind => ⟨hpointed id s hfind, Or.inl ?_⟩⟩
    rw [← SortedMap.find?_isSome_iff]
    exact Option.isSome_of_mem hfind
  have hall : ∀ t ∈ (shuffle clusters).flatten,
      t ∈ f.trips.values ∧ isClustered B f mots t = true := by
    intro t ht
    have hmem := ((clusterTrips_some hclusters).2.mem_iff).1
      (((hshuffle clusters).flatten.mem_iff).1 ht)
    exact List.mem_filter.1 hmem
  have hdone := hstart.matchClusters hall hrun
  exact ⟨hdone.tracks, hdone.shapes⟩

omit [IsStrictOrderedRing C] in
theorem getShape_skipped {shuffle : List (List Trip) → List (List Trip)}
    (hshuffle : ∀ l, (shuffle l).Perm l) (hf : Keyed f) {g : Feed C}
    (hg : getShape net.gtfsShape K interpolateTimes B mots shuffle f = some g) {id : Text}
    (ht : f.trips.find? id = some t) (hskipped : isClustered B f mots t = false) :
    g.trips.find? id = some t := by
  unfold getShape at hg
  obtain ⟨clusters, hclusters, hg⟩ := Option.bind_eq_some_iff.1 hg
  obtain ⟨r, hrun, hg⟩ := Option.bind_eq_some_iff.1 hg
  cases hg
  have hperm := clusters_perm hclusters (hshuffle clusters)
  obtain ⟨-, hdone⟩ := foldlM_matchCluster ((replacing_start hf).perm hperm) hrun
  have hsame : r.feed.trips.find? id = f.trips.find? id := by
    refine hdone.others id fun t' ht' heq => ?_
    have hmem := ((clusterTrips_some hclusters).2.mem_iff).1
      (((hshuffle clusters).flatten.mem_iff).1 ht')
    obtain ⟨hmem, hclustered⟩ := List.mem_filter.1 hmem
    have hfind := hf.find?_of_mem hmem
    rw [← heq, ht] at hfind
    rw [Option.some.inj hfind, hclustered] at hskipped
    cases hskipped
  rw [hsame, ht]

end replacing

end Pfaedle.ShapeBuilder

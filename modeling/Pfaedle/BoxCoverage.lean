import Pfaedle.ShapeReferences

set_option autoImplicit false

/-!
# What the box of a pass covers

`get_gtfs_box` chooses the trips by itself, before the stops are renamed and without the guards of
`cluster_trips`. The OSM data is cut to the box, so it has to reach around every trip that is
clustered afterwards.
-/
namespace Pfaedle.App
open Gtfs Router BoundingBoxes ShapeBuilder

section boxes
variable {C : Type} [Field C] [LinearOrder C] {a b r : Box C} {p q : C × C}

/-- The box between two points, which may lie in any order, with a margin around it. -/
def between (padding : C) (p q : C × C) : Box C := pad ⟨p ⊓ q, p ⊔ q⟩ padding

theorem pad_inside [IsStrictOrderedRing C] (h : a.Inside b) (padding : C) : (pad a padding).Inside
    (pad b padding) :=
  ⟨⟨sub_le_sub_right h.1.1 _, sub_le_sub_right h.1.2 _⟩,
    ⟨add_le_add_left h.2.1 _, add_le_add_left h.2.2 _⟩⟩

theorem between_inside [IsStrictOrderedRing C] (hp : r.Has p) (hq : r.Has q) (padding : C) :
    (between padding p q).Inside (pad r padding) :=
  pad_inside ⟨le_inf hp.1 hq.1, sup_le hp.2 hq.2⟩ padding

theorem pad_valid [IsStrictOrderedRing C] (h : a.Valid) {padding : C} (hpadding : 0 ≤ padding) :
    (pad a padding).Valid :=
  ⟨by have := h.1; simp only [pad]; linarith, by have := h.2; simp only [pad]; linarith⟩

theorem near_of_inside [IsStrictOrderedRing C] (h : a.Inside b) (hp : a.Near p) : b.Near p := by
  obtain ⟨⟨hleft, hlower⟩, hright, hupper⟩ := h
  obtain ⟨⟨hp₁, hp₂⟩, hp₃, hp₄⟩ := hp
  exact ⟨⟨by linarith, by linarith⟩, by linarith, by linarith⟩

omit [Field C] in
theorem extendBox_within (hvalid : a.Valid) (ha : a.Inside r) (hb : b.Inside r) :
    (extendBox a b).Inside r :=
  extendBox_inside.2 ⟨hb, ⟨ha.1, le_trans hvalid ha.2⟩, le_trans ha.1 hvalid, ha.2⟩

theorem insertBox_within {boxes : List (Box C)} (hboxes : ∀ k ∈ boxes, k.Inside r)
    (hvalid : a.Valid) (ha : a.Inside r) : ∀ k ∈ insertBox boxes a, k.Inside r := by
  intro k hk
  rw [insertBox] at hk
  cases hbest : bestChild a boxes with
  | none =>
    rw [hbest] at hk
    cases List.mem_append.1 hk with
    | inl hold => exact hboxes k hold
    | inr hnew =>
      rw [List.mem_singleton.1 hnew]
      exact extendBox_within hvalid ha ha
  | some i =>
    rw [hbest] at hk
    cases BoundingBoxes.mem_modify hk with
    | inl hold => exact hboxes k hold
    | inr hnew =>
      obtain ⟨k', hk', rfl⟩ := hnew
      exact extendBox_within hvalid ha (hboxes k' (List.mem_of_getElem? hk'))

theorem foldl_add_within (boxes : List (Box C)) {b : BoundingBox C} {kept added : List (Box C)}
    (h : Answers b kept added) (hkept : ∀ k ∈ kept, k.Inside r)
    (hboxes : ∀ box ∈ boxes, (pad box (b.padding / 83000)).Valid ∧
      (pad box (b.padding / 83000)).Inside r) :
    ∃ kept', Answers (boxes.foldl BoundingBox.add b) kept'
        (added ++ boxes.map fun box => pad box (b.padding / 83000)) ∧
      ∀ k ∈ kept', k.Inside r := by
  induction boxes generalizing b kept added with
  | nil =>
    rw [List.map_nil, List.append_nil]
    exact ⟨kept, h, hkept⟩
  | cons box boxes ih =>
    obtain ⟨hvalid, hin⟩ := hboxes box List.mem_cons_self
    have hrest := ih (h.add box) (insertBox_within hkept hvalid hin) fun x hx =>
      hboxes x (List.mem_cons_of_mem _ hx)
    rwa [List.append_assoc] at hrest

end boxes

section trips
variable {C : Type} [Field C] [LinearOrder C] (f : Feed C)

def StopsAt (t : Trip) (p : C × C) : Prop :=
  ∃ sts, stopTimes f t = some sts ∧
    ∃ st ∈ sts, ∃ s, stopOf f st = some s ∧ (s.stopLon, s.stopLat) = p

/-- The box contains everything that is between two stops of the trip or within the margin of
it. -/
def Covered (margin : C) (box : BoundingBox C) (t : Trip) : Prop :=
  ∀ p q, StopsAt f t p → StopsAt f t q → ∀ x, (between margin p q).Has x → box.contains x = true

def boxed (mots : List ℤ) (tid : Text) (dropShapes : Bool) (t : Trip) : Bool :=
  looksAt f tid dropShapes t && (manyTimes f t && routed f mots t)

def tripBox (fresh : Box C) (t : Trip) : Box C :=
  ((stopTimes f t).getD []).foldl (extendStop f) fresh

variable {f} {g : Feed C} {mots : List ℤ} {tid : Text} {dropShapes : Bool} {fresh r : Box C}
variable {padding : C} {box : BoundingBox C} {t : Trip}

section
omit [Field C]

theorem extendStop_inside {cur : Box C} {st : StopTime C} :
    (extendStop f cur st).Inside r ↔
      cur.Inside r ∧ ∀ s, stopOf f st = some s → r.Has (s.stopLon, s.stopLat) := by
  unfold extendStop
  cases stopOf f st with
  | none => simp
  | some s => simp [extendPoint_inside]

theorem foldl_extendStop_inside {cur : Box C} {sts : List (StopTime C)} :
    (sts.foldl (extendStop f) cur).Inside r ↔
      cur.Inside r ∧ ∀ st ∈ sts, ∀ s, stopOf f st = some s → r.Has (s.stopLon, s.stopLat) := by
  induction sts generalizing cur with
  | nil => simp
  | cons st sts ih => rw [List.foldl_cons, ih, extendStop_inside, List.forall_mem_cons, and_assoc]

/-- The box of a trip is the least one around its stops. -/
theorem tripBox_inside :
    (tripBox f fresh t).Inside r ↔ fresh.Inside r ∧ ∀ p, StopsAt f t p → r.Has p := by
  unfold tripBox
  rw [foldl_extendStop_inside]
  refine and_congr_right fun _ => ⟨?_, fun h st hst s hs => ?_⟩
  · rintro h p ⟨sts, hsts, st, hst, s, hs, rfl⟩
    rw [hsts] at h
    exact h st hst s hs
  · cases hsts : stopTimes f t with
    | none =>
      rw [hsts] at hst
      exact absurd hst List.not_mem_nil
    | some sts =>
      rw [hsts] at hst
      exact h _ ⟨sts, hsts, st, hst, s, hs, rfl⟩

theorem tripBox_has {p : C × C} (hp : StopsAt f t p) : (tripBox f fresh t).Has p :=
  (tripBox_inside.1 (Box.Inside.refl _)).2 p hp

end

theorem getGtfsBox_boxes (h : getGtfsBox f mots tid dropShapes fresh
    (newBoundingBox fresh padding) = some box) :
    box = ((f.trips.values.filter (boxed f mots tid dropShapes)).map (tripBox f fresh)).foldl
      BoundingBox.add (newBoundingBox fresh padding) := by
  rw [List.foldl_map]
  exact ((getGtfsBox_eq_some f mots tid dropShapes fresh _ box).1 h).2

variable [IsStrictOrderedRing C]

theorem getGtfsBox_covered (h : getGtfsBox f mots tid dropShapes fresh
    (newBoundingBox fresh padding) = some box) (ht : t ∈ f.trips.values)
    (hboxed : boxed f mots tid dropShapes t = true) : Covered f (padding / 83000) box t := by
  rw [getGtfsBox_boxes h]
  obtain ⟨kept, hanswers⟩ := foldl_add
    ((f.trips.values.filter (boxed f mots tid dropShapes)).map (tripBox f fresh))
    (Answers.new fresh padding)
  intro p q hp hq x hx
  have hmem := List.mem_map_of_mem (f := tripBox f fresh) (List.mem_filter.2 ⟨ht, hboxed⟩)
  obtain ⟨leaf, hleaf, hin⟩ := hanswers.covers_leafs
    (List.mem_map_of_mem (f := fun box => pad box (padding / 83000)) hmem)
  have hinside := (between_inside (tripBox_has hp) (tripBox_has hq) (padding / 83000)).trans hin
  exact (hanswers.contains_iff x).2 ⟨leaf, hleaf, (hinside.has hx).near⟩

theorem getGtfsBox_within (hpadding : 0 ≤ padding) (h : getGtfsBox f mots tid dropShapes fresh
    (newBoundingBox fresh padding) = some box) (hfresh : fresh.Inside r)
    (hempty : ∀ p, ¬ fresh.Near p)
    (hstops : ∀ t ∈ f.trips.values, boxed f mots tid dropShapes t = true →
      (∃ p, StopsAt f t p) ∧ ∀ p, StopsAt f t p → r.Has p) (x : C × C)
    (hx : box.contains x = true) : (pad r (padding / 83000)).Near x := by
  have hpad : 0 ≤ padding / 83000 := div_nonneg hpadding (by norm_num)
  rw [getGtfsBox_boxes h] at hx
  have hboxes : ∀ b ∈ (f.trips.values.filter (boxed f mots tid dropShapes)).map (tripBox f fresh),
      (pad b (padding / 83000)).Valid ∧
        (pad b (padding / 83000)).Inside (pad r (padding / 83000)) := by
    intro b hb
    obtain ⟨t, ht, rfl⟩ := List.mem_map.1 hb
    rw [List.mem_filter] at ht
    obtain ⟨⟨p, hp⟩, hall⟩ := hstops t ht.1 ht.2
    have hhas : (tripBox f fresh t).Has p := tripBox_has hp
    exact ⟨pad_valid (le_trans hhas.1 hhas.2) hpad,
      pad_inside (tripBox_inside.2 ⟨hfresh, hall⟩) _⟩
  obtain ⟨kept, hanswers, hwithin⟩ := foldl_add_within _ (Answers.new fresh padding)
    (fun k hk => absurd hk List.not_mem_nil) hboxes
  obtain ⟨leaf, hleaf, hnear⟩ := (hanswers.contains_iff x).1 hx
  rw [BoundingBox.getLeafs, hanswers.keeps.leafs] at hleaf
  split_ifs at hleaf with hkept
  · generalize (f.trips.values.filter (boxed f mots tid dropShapes)).map (tripBox f fresh) =
      boxes at hleaf hanswers
    cases boxes with
    | nil =>
      rw [List.mem_singleton.1 hleaf] at hnear
      exact absurd hnear (hempty x)
    | cons b boxes =>
      obtain ⟨k, hk, -⟩ := hanswers.covers _ (List.mem_append_right _ List.mem_cons_self)
      rw [hkept] at hk
      exact absurd hk List.not_mem_nil
  · exact near_of_inside (hwithin leaf hleaf) hnear

end trips

section passes
variable {C : Type} [Field C] [LinearOrder C] {f g : Feed C} {cfg : Config} {mot : MotOptions}

section
omit [Field C] [LinearOrder C]

theorem renameStop_placed {e : Text × Option Station} (h : renameStop cfg mot f e = some g)
    (id : Text) : (g.stops.find? id).map (fun s => (s.stopLon, s.stopLat)) =
      (f.stops.find? id).map fun s => (s.stopLon, s.stopLat) := by
  unfold renameStop at h
  split at h
  · rw [Option.some.inj h]
  · obtain ⟨stop, hstop, h⟩ := Option.bind_eq_some_iff.1 h
    rw [← Option.some.inj h]
    dsimp only
    rw [SortedMap.find?_set]
    by_cases hid : id = e.1
    · rw [if_pos hid, hid, hstop]
      rfl
    · rw [if_neg hid]

theorem renameStops_placed {es : List (Text × Option Station)}
    (h : es.foldlM (renameStop cfg mot) f = some g) (id : Text) :
    (g.stops.find? id).map (fun s => (s.stopLon, s.stopLat)) =
      (f.stops.find? id).map fun s => (s.stopLon, s.stopLat) := by
  induction es generalizing f with
  | nil =>
    cases h
    rfl
  | cons e es ih =>
    rw [List.foldlM_cons] at h
    obtain ⟨f', hstep, h⟩ := Option.bind_eq_some_iff.1 h
    rw [ih h, renameStop_placed hstep]

theorem renameStops_stopsAt {es : List (Text × Option Station)}
    (h : es.foldlM (renameStop cfg mot) f = some g) (t : Trip) (p : C × C) :
    StopsAt g t p ↔ StopsAt f t p := by
  have hplaced : ∀ st, (∃ s, stopOf g st = some s ∧ (s.stopLon, s.stopLat) = p) ↔
      ∃ s, stopOf f st = some s ∧ (s.stopLon, s.stopLat) = p := by
    intro st
    rw [← Option.map_eq_some_iff, ← Option.map_eq_some_iff, ShapeBuilder.stopOf,
      ShapeBuilder.stopOf, renameStops_placed h]
  have htimes : stopTimes g t = stopTimes f t := by
    rw [renameStops_same h]
    rfl
  simp only [StopsAt, hplaced, htimes]

theorem boxed_of_routable {t : Trip} (hroutable : routable f cfg.routeTypes mot.routeTypes t = true)
    (hasked : asked cfg.shapeTripId t = true)
    (hshape : cfg.shapeTripId = [] → (hasShape f t && !cfg.dropShapes) = false) :
    boxed f cfg.routeTypes cfg.shapeTripId cfg.dropShapes t = true := by
  unfold routable at hroutable
  rw [Bool.and_eq_true, Option.any_eq_true (p := fun r : Route => _)] at hroutable
  obtain ⟨hmany, r, hr, htype⟩ := hroutable
  have hrouted : routed f cfg.routeTypes t = true := by
    rw [routed, hr]
    exact decide_eq_true (of_decide_eq_true htype).1
  unfold boxed looksAt manyTimes
  rw [hasked, hmany, hrouted]
  by_cases hid : cfg.shapeTripId = []
  · simp [hid, hshape hid]
  · simp [hid]

end

variable [IsStrictOrderedRing C] {M : Elementary C} {fresh : Box C} {box : BoundingBox C}

/-- The box of a pass reaches around every trip that is clustered afterwards, and around the only
trip, but not further than the stops of the trips that it is made for. -/
theorem passBox_covers {fStops : FeedStops Station}
    (hbox : getGtfsBox f cfg.routeTypes cfg.shapeTripId cfg.dropShapes fresh
      (newBoundingBox fresh boxPadding) = some box)
    (hrenamed : fStops.entries.foldlM (renameStop cfg mot) f = some g) :
    (cfg.shapeTripId = [] → ∀ clusters,
      clusterTrips (passBuilder cfg mot M) g cfg.routeTypes = some clusters →
        ∀ cluster ∈ clusters, ∀ t ∈ cluster, Covered g (boxPadding / 83000) box t) ∧
      (cfg.shapeTripId ≠ [] → ∀ t ∈ g.trips.values, t.tripId = cfg.shapeTripId →
        routable g cfg.routeTypes mot.routeTypes t = true → Covered g (boxPadding / 83000) box t) ∧
      ∀ r : Box C, fresh.Inside r → (∀ p, ¬ fresh.Near p) →
        (∀ t ∈ g.trips.values,
          boxed g cfg.routeTypes cfg.shapeTripId cfg.dropShapes t = true →
            (∃ p, StopsAt g t p) ∧ ∀ p, StopsAt g t p → r.Has p) →
        ∀ x, box.contains x = true → (pad r (boxPadding / 83000)).Near x := by
  have htrips : g.trips = f.trips := by rw [renameStops_same hrenamed]
  have hrouted : ∀ t, routable g cfg.routeTypes mot.routeTypes t =
      routable f cfg.routeTypes mot.routeTypes t := by
    intro t
    rw [renameStops_same hrenamed]
    rfl
  have hboxed : ∀ t, boxed g cfg.routeTypes cfg.shapeTripId cfg.dropShapes t =
      boxed f cfg.routeTypes cfg.shapeTripId cfg.dropShapes t := by
    intro t
    rw [renameStops_same hrenamed]
    rfl
  have hcovered : ∀ t ∈ f.trips.values,
      boxed f cfg.routeTypes cfg.shapeTripId cfg.dropShapes t = true →
        Covered g (boxPadding / 83000) box t := by
    intro t ht hadded p q hp hq
    rw [renameStops_stopsAt hrenamed] at hp hq
    exact getGtfsBox_covered hbox ht hadded p q hp hq
  refine ⟨fun hid clusters hclusters cluster hcluster t ht => ?_, fun hid t ht htid hroutable => ?_,
    fun r hfresh hempty hstops x hx => ?_⟩
  · have hmem := ((clusterTrips_some hclusters).2.mem_iff).1
      (List.mem_flatten.2 ⟨cluster, hcluster, ht⟩)
    rw [List.mem_filter, isClustered_routable, Bool.and_eq_true, Bool.not_eq_true'] at hmem
    obtain ⟨ht, hshape, hroutable⟩ := hmem
    change (hasShape g t && !cfg.dropShapes) = false at hshape
    change routable g cfg.routeTypes mot.routeTypes t = true at hroutable
    rw [htrips] at ht
    refine hcovered t ht ?_
    rw [← hboxed]
    exact boxed_of_routable hroutable (by simp [asked, hid]) fun _ => hshape
  · rw [htrips] at ht
    refine hcovered t ht ?_
    rw [← hboxed]
    exact boxed_of_routable hroutable (by simp [asked, htid]) fun h => absurd h hid
  · rw [htrips] at hstops
    simp only [hboxed, renameStops_stopsAt hrenamed] at hstops
    exact getGtfsBox_within (by norm_num [boxPadding]) hbox hfresh hempty hstops x hx

end passes

section sample

def twoPlaces : Feed ℚ :=
  let stop (id : String) (lat lon : ℚ) : Stop ℚ :=
    ⟨id.toList, id.toList, true, lat, lon, [], [], [], [], [], 0, [], [], [], []⟩
  { twoTrips with
    stops := SortedMap.empty.insertAll [("p".toList, stop "p" 48 7), ("q".toList, stop "q" 47 8)] }

/-- A point between the two stops is in the box, also after one of them got a new name. -/
theorem passBox_covers_twoPlaces :
    let fStops : FeedStops Station := SortedMap.empty.set "p".toList (some ⟨"Platz".toList, true⟩)
    ∃ box g, getGtfsBox twoPlaces plainConfig.routeTypes [] false doubleMinbox
        (newBoundingBox doubleMinbox boxPadding) = some box ∧
      fStops.entries.foldlM (renameStop plainConfig busPass.1) twoPlaces = some g ∧
      ∃ clusters, clusterTrips (passBuilder plainConfig busPass.1 atOrigin) g
        plainConfig.routeTypes = some clusters ∧ clusters.flatten = twoPlaces.trips.values ∧
      ∀ cluster ∈ clusters, ∀ t ∈ cluster, Covered g (boxPadding / 83000) box t := by
  intro fStops
  have hbox : (getGtfsBox twoPlaces plainConfig.routeTypes [] false doubleMinbox
      (newBoundingBox doubleMinbox boxPadding)).isSome = true := by
    decide +kernel
  have hclusters : ((fStops.entries.foldlM (renameStop plainConfig busPass.1) twoPlaces).bind
      fun g => clusterTrips (passBuilder plainConfig busPass.1 atOrigin) g
        plainConfig.routeTypes).any (fun clusters =>
          clusters.flatten = twoPlaces.trips.values) = true := by
    decide +kernel
  obtain ⟨box, hbox⟩ := Option.isSome_iff_exists.1 hbox
  obtain ⟨clusters, hrun, hall⟩ := (Option.any_eq_true _ _).1 hclusters
  obtain ⟨g, hg, hclustered⟩ := Option.bind_eq_some_iff.1 hrun
  exact ⟨box, g, hbox, hg, clusters, hclustered, of_decide_eq_true hall,
    (passBox_covers (M := atOrigin) hbox hg).1 rfl clusters hclustered⟩

end sample

end Pfaedle.App

import Pfaedle.DrawnShapes
import Pfaedle.FeedProcessing
import Pfaedle.InterpolatedTimes
import Pfaedle.ProducedFeed

set_option autoImplicit false

/-!
# The shapes that the written trips refer to

A pass gives a shape to every trip that it is made for, keeps the shapes that the other trips have,
and leaves a trip without a shape as it is. So a reference dangles in the output if it dangles in
the feed that the passes start with, and no pass is made for its trip.
-/
namespace Pfaedle.App
open Gtfs Router BoundingBoxes ShapeBuilder

section references
variable {C : Type} {f g h : Feed C}

def Refers (f : Feed C) (id : Text) : Prop :=
  ∃ t, f.trips.find? id = some t ∧ (shapeOf f t).isSome

/-- `cluster_trips` looks no further at a trip that is too short or of another route type. -/
def routable (f : Feed C) (mots routeTypes : List ℤ) (t : Trip) : Bool :=
  (stopTimes f t).any (fun sts => 2 ≤ sts.length) &&
    (ShapeBuilder.routeOf f t).any fun r => r.routeType ∈ mots ∧ r.routeType ∈ routeTypes

structure Intact (f : Feed C) : Prop where
  keyed : Keyed f
  pointed : ∀ id s, f.shapes.find? id = some s → Pointed id s.points

theorem isClustered_routable {B : Builder C} {mots : List ℤ} {t : Trip} :
    isClustered B f mots t =
      (!(hasShape f t && !B.dropShapes) && routable f mots B.routeTypes t) :=
  Bool.and_assoc ..

theorem any_long (t : Trip) : (stopTimes f t).any (fun sts => 2 ≤ sts.length) =
    decide (2 ≤ (listedTimes f t.tripId).length) := by
  rw [stopTimes_eq_listedTimes]
  split_ifs with hnil
  · simp [hnil]
  · rfl

theorem unshaped_eq {t t' : Trip} (h : unshaped t' = unshaped t) :
    t'.routeId = t.routeId ∧ t'.tripId = t.tripId := by
  have hroute : (unshaped t').routeId = (unshaped t).routeId := by rw [h]
  have htrip : (unshaped t').tripId = (unshaped t).tripId := by rw [h]
  exact ⟨hroute, htrip⟩

theorem routable_tracks (hfg : Tracks f g) {t t' : Trip} (h : unshaped t' = unshaped t)
    (mots routeTypes : List ℤ) : routable g mots routeTypes t' = routable f mots routeTypes t := by
  obtain ⟨hroute, htrip⟩ := unshaped_eq h
  unfold routable
  rw [any_long, any_long, htrip, hfg.times, ShapeBuilder.routeOf, ShapeBuilder.routeOf,
    hroute, hfg.routes]

theorem find?_tracks (hfg : Tracks f g) {id : Text} {t' : Trip} (ht' : g.trips.find? id = some t') :
    ∃ t, f.trips.find? id = some t ∧ unshaped t' = unshaped t := by
  have hmap := hfg.trips id
  rw [ht', Option.map_some] at hmap
  obtain ⟨t, ht, heq⟩ := Option.map_eq_some_iff.1 hmap.symm
  exact ⟨t, ht, heq.symm⟩

theorem find?_tracked (hfg : Tracks f g) {id : Text} {t : Trip} (ht : f.trips.find? id = some t) :
    ∃ t', g.trips.find? id = some t' ∧ unshaped t' = unshaped t := by
  have hmap := hfg.trips id
  rw [ht, Option.map_some] at hmap
  exact Option.map_eq_some_iff.1 hmap

theorem formedId_tracks (hfg : Tracks f g) {id : Text} (hid : FormedId g id) : FormedId f id := by
  obtain ⟨t', ht', n, rfl⟩ := hid
  obtain ⟨⟨key, t''⟩, hentry, rfl⟩ := List.mem_map.1 ht'
  have hfind := (SortedMap.find?_eq_some_iff _ _ _).2 hentry
  obtain ⟨t, ht, heq⟩ := find?_tracks hfg hfind
  obtain ⟨hroute, htrip⟩ := unshaped_eq heq
  refine ⟨t, List.mem_map.2 ⟨(key, t), (SortedMap.find?_eq_some_iff _ _ _).1 ht, rfl⟩, n, ?_⟩
  rw [hfg.shapeIdFor]
  unfold shapeIdFor ShapeBuilder.routeOf
  rw [hroute, htrip]

structure Passed (mots : List ℤ) (passes : List (List ℤ)) (f g : Feed C) : Prop where
  tracks : Tracks f g
  intact : Intact g
  ids : ∀ id ∈ g.shapes.keys, id ∈ f.shapes.keys ∨ FormedId f id
  keeps : ∀ id, Refers f id → Refers g id
  matched : ∀ id t, f.trips.find? id = some t →
    (∃ routeTypes ∈ passes, routable f mots routeTypes t = true) → Refers g id
  skipped : ∀ id t, f.trips.find? id = some t →
    (∀ routeTypes ∈ passes, routable f mots routeTypes t = false) → g.trips.find? id = some t

variable {mots : List ℤ} {passes passes' : List (List ℤ)}

theorem Passed.refl (hf : Intact f) : Passed mots [] f f where
  tracks := Tracks.refl f
  intact := hf
  ids _ hid := Or.inl hid
  keeps _ h := h
  matched _ _ _ := by simp
  skipped _ _ ht _ := ht

theorem Passed.trans (hfg : Passed mots passes f g) (hgh : Passed mots passes' g h) :
    Passed mots (passes ++ passes') f h where
  tracks := hfg.tracks.trans hgh.tracks
  intact := hgh.intact
  ids id hid := by
    rcases hgh.ids id hid with hold | hformed
    · exact hfg.ids id hold
    · exact Or.inr (formedId_tracks hfg.tracks hformed)
  keeps id href := hgh.keeps id (hfg.keeps id href)
  matched id t ht := by
    rintro ⟨routeTypes, hmem, hroutable⟩
    rcases List.mem_append.1 hmem with hmem | hmem
    · exact hgh.keeps id (hfg.matched id t ht ⟨routeTypes, hmem, hroutable⟩)
    · obtain ⟨t', ht', heq⟩ := find?_tracked hfg.tracks ht
      refine hgh.matched id t' ht' ⟨routeTypes, hmem, ?_⟩
      rw [routable_tracks hfg.tracks heq, hroutable]
  skipped id t ht hnone := by
    have hkept := hfg.skipped id t ht fun routeTypes hmem =>
      hnone routeTypes (List.mem_append_left _ hmem)
    refine hgh.skipped id t hkept fun routeTypes hmem => ?_
    rw [routable_tracks hfg.tracks rfl]
    exact hnone routeTypes (List.mem_append_right _ hmem)

end references

section passes
variable {N E C : Type} [DecidableEq N] [Field C] [LinearOrder C]
variable {cfg : Config} {mot : MotOptions} {M : Elementary C} {K : CostArithmetic C} {fresh : Box C}
variable {f g : Feed C} {singleTrip : Option Trip} {pass : MotOptions × Surroundings N E C}
variable {configs : List (MotOptions × Surroundings N E C)}

omit [Field C] [LinearOrder C] in
theorem renameStop_same {e : Text × Option Station} (h : renameStop cfg mot f e = some g) :
    g = { f with stops := g.stops } := by
  unfold renameStop at h
  split at h
  · rw [← Option.some.inj h]
  · obtain ⟨stop, -, h⟩ := Option.bind_eq_some_iff.1 h
    rw [← Option.some.inj h]

omit [Field C] [LinearOrder C] in
theorem renameStops_same {es : List (Text × Option Station)}
    (h : es.foldlM (renameStop cfg mot) f = some g) : g = { f with stops := g.stops } := by
  induction es generalizing f with
  | nil =>
    cases h
    rfl
  | cons e es ih =>
    rw [List.foldlM_cons] at h
    obtain ⟨f', hstep, h⟩ := Option.bind_eq_some_iff.1 h
    rw [ih h, renameStop_same hstep]

/-- A pass for a single trip does not come back, unless it is skipped. -/
theorem runPass_cases (h : Completes (runPass cfg M K fresh singleTrip f pass) g) :
    g = f ∧ skipped cfg pass.1 f singleTrip = true ∨
      singleTrip = none ∧ ∃ stops net, getShape (Network.gtfsShape (N := N) (E := E) net) K
        cfg.interpolateTimes (passBuilder cfg pass.1 M) cfg.routeTypes pass.2.shuffle
        { f with stops := stops } = some g := by
  unfold runPass at h
  split_ifs at h with hskipped
  · rw [completes_pure] at h
    exact Or.inl ⟨h.symm, hskipped⟩
  · simp only [completes_bind, completes_lift] at h
    obtain ⟨fStops, -, box, -, h⟩ := h
    generalize (if fStops.entries.isEmpty = true then (fStops, pass.2.emptyGraph)
      else pass.2.readOsm box fStops) = snapped at h
    obtain ⟨f', hrename, h⟩ := h
    cases singleTrip with
    | some t => simp at h
    | none =>
      rw [renameStops_same hrename] at h
      simp only [completes_lift] at h
      exact Or.inr ⟨rfl, _, snapped.2, h⟩

omit [Field C] [LinearOrder C] in
theorem routable_skipped (h : skipped cfg mot f none = true) (t : Trip) :
    routable f cfg.routeTypes mot.routeTypes t = false := by
  have hnone : routeTypeSection mot.routeTypes cfg.routeTypes = [] := by
    simpa [skipped] using h
  have hfar : ∀ r : Route, ¬ (r.routeType ∈ cfg.routeTypes ∧ r.routeType ∈ mot.routeTypes) := by
    intro r hr
    have hmem : r.routeType ∈ routeTypeSection mot.routeTypes cfg.routeTypes := by
      simp [routeTypeSection, hr]
    simp [hnone] at hmem
  unfold routable
  simp [hfar]

variable [IsStrictOrderedRing C]

theorem getShape_passed {net : Network N E C} {shuffle : List (List Trip) → List (List Trip)}
    (hshuffle : ∀ l, (shuffle l).Perm l) (hf : Intact f)
    (hg : getShape net.gtfsShape K cfg.interpolateTimes (passBuilder cfg mot M) cfg.routeTypes
      shuffle f = some g) : Passed cfg.routeTypes [mot.routeTypes] f g := by
  obtain ⟨htracks, hshapes⟩ := getShape_drawing hshuffle hf.pointed hg
  have hsafe : SafeReplacement net.gtfsShape K cfg.interpolateTimes f (passBuilder cfg mot M)
      cfg.routeTypes shuffle := getShape_safe _ _ hshuffle hf.keyed
  obtain ⟨hkeeps, clusters, hclusters, hshaped⟩ := hsafe.2 g hg
  have hrefers : ∀ id, Refers f id → Refers g id := by
    rintro id ⟨t, ht, hshape⟩
    exact hkeeps id t ht hshape
  have hskipped : ∀ id t, f.trips.find? id = some t →
      routable f cfg.routeTypes mot.routeTypes t = false → g.trips.find? id = some t := by
    intro id t ht hnot
    refine getShape_skipped hshuffle hf.keyed hg ht ?_
    rw [isClustered_routable]
    change (_ && routable f cfg.routeTypes mot.routeTypes t) = false
    rw [hnot, Bool.and_false]
  refine ⟨htracks, ⟨getShape_keyed hshuffle hf.keyed hg, fun id s hs => (hshapes id s hs).1⟩,
    fun id hid => ?_, hrefers, fun id t ht hmade => ?_, fun id t ht hnone => ?_⟩
  · obtain ⟨s, hs⟩ := Option.isSome_iff_exists.1 ((SortedMap.find?_isSome_iff _ _).2 hid)
    exact (hshapes id s hs).2
  · obtain ⟨routeTypes, hmem, hroutable⟩ := hmade
    rw [List.mem_singleton.1 hmem] at hroutable
    by_cases hhas : (shapeOf f t).isSome
    · exact hrefers id ⟨t, ht, hhas⟩
    · have hno : hasShape f t = false := by
        rw [Option.not_isSome_iff_eq_none] at hhas
        rw [hasShape, hhas]
        rfl
      have hclustered : isClustered (passBuilder cfg mot M) f cfg.routeTypes t = true := by
        rw [isClustered_routable, hno]
        exact hroutable
      have hkey := hf.keyed.trips id t ht
      have hin : t ∈ clusters.flatten := by
        rw [(clusterTrips_some hclusters).2.mem_iff, List.mem_filter]
        exact ⟨List.mem_map.2 ⟨(id, t), (SortedMap.find?_eq_some_iff _ _ _).1 ht, rfl⟩, hclustered⟩
      obtain ⟨cluster, hcluster, htc⟩ := List.mem_flatten.1 hin
      obtain ⟨r, shp, r₁, -, hshp, hall⟩ := hshaped cluster hcluster
      refine ⟨_, hkey ▸ hall t htc, ?_⟩
      rw [shapeOf, hshp]
      rfl
  · exact hskipped id t ht (hnone _ (List.mem_singleton_self _))

theorem runPass_passed (hf : Intact f) (h : Completes (runPass cfg M K fresh none f pass) g) :
    Passed cfg.routeTypes [pass.1.routeTypes] f g := by
  rcases runPass_cases h with ⟨rfl, hskipped⟩ | ⟨-, stops, net, hg⟩
  · have hnot := routable_skipped hskipped
    refine ⟨Tracks.refl g, hf, fun id hid => Or.inl hid, fun id hid => hid, fun id t _ hmade => ?_,
      fun id t ht _ => ht⟩
    obtain ⟨routeTypes, hmem, hroutable⟩ := hmade
    rw [List.mem_singleton.1 hmem, hnot t] at hroutable
    cases hroutable
  · -- nothing but the stops has changed
    have hrenamed : Intact { f with stops := stops } :=
      ⟨⟨hf.keyed.trips, hf.keyed.shapes⟩, hf.pointed⟩
    have hpassed := getShape_passed pass.2.shuffle_perm hrenamed hg
    have hsame : Passed cfg.routeTypes [] f { f with stops := stops } :=
      ⟨.of_same rfl rfl rfl, hrenamed, fun id hid => Or.inl hid, fun id hid => hid,
        fun id t _ => by simp, fun id t ht _ => ht⟩
    exact hsame.trans hpassed

theorem runPasses_passed (hf : Intact f)
    (h : Completes (configs.foldlM (runPass cfg M K fresh none) f) g) :
    Passed cfg.routeTypes (configs.map fun pass => pass.1.routeTypes) f g := by
  induction configs generalizing f with
  | nil =>
    rw [List.foldlM_nil, completes_pure] at h
    rw [← h]
    exact .refl hf
  | cons pass configs ih =>
    rw [List.foldlM_cons, completes_bind] at h
    obtain ⟨f', hstep, h⟩ := h
    have hpass := runPass_passed hf hstep
    exact hpass.trans (ih hpass.intact h)

omit [IsStrictOrderedRing C] in
theorem runPasses_single {t : Trip}
    (h : Completes (configs.foldlM (runPass cfg M K fresh (some t)) f) g) : g = f := by
  induction configs generalizing f with
  | nil =>
    rw [List.foldlM_nil, completes_pure] at h
    exact h.symm
  | cons pass configs ih =>
    rw [List.foldlM_cons, completes_bind] at h
    obtain ⟨f', hstep, h⟩ := h
    rcases runPass_cases hstep with ⟨rfl, -⟩ | ⟨hnone, -⟩
    · exact ih h
    · cases hnone

end passes

section tables
variable {C : Type} {R : Doubles C} {unreturned : String → Result} {f : Feed C}

/-- The trips refer to shapes that the table of the shapes has points of. -/
def NoDangling (f : Feed C) : Prop :=
  ∀ t ∈ f.trips.values, t.shapeId ≠ [] →
    ∃ p ∈ f.shapes.values.flatMap Shape.points, p.shapeId = t.shapeId

instance (f : Feed C) : Decidable (NoDangling f) :=
  inferInstanceAs (Decidable (∀ t ∈ f.trips.values, t.shapeId ≠ [] →
    ∃ p ∈ f.shapes.values.flatMap Shape.points, p.shapeId = t.shapeId))

structure HoldsTables (R : Doubles C) (f : Feed C) (files : Files) : Prop where
  trips : files "trips.txt" = some (writeJoined (tripsHeader.map String.toList) ++
    (f.trips.values.map tripFields).flatMap writeJoined)
  shapes : files "shapes.txt" = some (writeJoined (shapesHeader.map String.toList) ++
    ((f.shapes.values.flatMap Shape.points).map (shapePointFields R)).flatMap writeJoined)

variable {file : String} {header : List String} {rows : List (List Text)}
variable {rest : Directory → Result × Directory} {dir dir' : Directory} {res : Result}

theorem writeTable_passed
    (h : writeTable true (writeCsv file header rows) rest dir = (res, dir'))
    (hok : res.code = .ok) :
    ∃ dir₁, rest dir₁ = (res, dir') ∧ dir₁.files = Function.update dir.files file
      (some (writeJoined (header.map String.toList) ++ rows.flatMap writeJoined)) := by
  unfold writeTable writeCsv at h
  rw [if_pos rfl] at h
  by_cases hclosed : dir.isOpen = false
  · rw [if_pos hclosed] at h
    change ((_, dir) : Result × Directory) = _ at h
    rw [← (Prod.mk.inj h).1] at hok
    cases hok
  · rw [if_neg hclosed] at h
    exact ⟨_, h, rfl⟩

theorem writeTable_unwritten
    (h : writeTable true (writeNothing unreturned file) rest dir = (res, dir'))
    (hok : res.code = .ok) :
    rest dir = (res, dir') := by
  unfold writeTable writeNothing at h
  rw [if_pos rfl] at h
  dsimp only at h
  split_ifs at h with hcode
  · rw [← (Prod.mk.inj h).1] at hok
    exact absurd hok hcode
  · exact h

theorem write_holdsTables (h : write R unreturned .default f dir = (res, dir'))
    (hok : res.code = .ok) : HoldsTables R f dir'.files := by
  obtain ⟨d₁, h, h₁⟩ := writeTable_passed h hok
  obtain ⟨d₂, h, h₂⟩ := writeTable_passed h hok
  obtain ⟨d₃, h, h₃⟩ := writeTable_passed h hok
  obtain ⟨d₄, h, h₄⟩ := writeTable_passed h hok
  obtain ⟨d₅, h, h₅⟩ := writeTable_passed h hok
  have h := writeTable_unwritten h hok
  have h := writeTable_unwritten h hok
  obtain ⟨d₆, h, h₆⟩ := writeTable_passed h hok
  have h := writeTable_unwritten h hok
  have h := writeTable_unwritten h hok
  have h := writeTable_unwritten h hok
  have h := writeTable_unwritten h hok
  have h := writeTable_unwritten h hok
  have hdir : d₆ = dir' := (Prod.mk.inj h).2
  refine ⟨?_, ?_⟩
  · rw [← hdir, h₆, h₅, h₄]
    simp
  · rw [← hdir, h₆]
    simp [List.map_flatMap]

theorem points_of_shape (hf : Intact f) {id : Text} {s : Shape C}
    (hs : f.shapes.find? id = some s) :
    ∃ p ∈ f.shapes.values.flatMap Shape.points, p.shapeId = id := by
  obtain ⟨hne, hids⟩ := hf.pointed id s hs
  obtain ⟨p, hp⟩ := List.exists_mem_of_ne_nil _ hne
  have hmem : s ∈ f.shapes.values :=
    List.mem_map.2 ⟨(id, s), (SortedMap.find?_eq_some_iff _ _ _).1 hs, rfl⟩
  exact ⟨p, List.mem_flatMap.2 ⟨s, hmem, hp⟩, hids p hp⟩

theorem shape_of_point (hf : Intact f) {p : ShapePoint C}
    (hp : p ∈ f.shapes.values.flatMap Shape.points) : (f.shapes.find? p.shapeId).isSome := by
  obtain ⟨s, hs, hp⟩ := List.mem_flatMap.1 hp
  obtain ⟨⟨id, s'⟩, hentry, rfl⟩ := List.mem_map.1 hs
  have hfind := (SortedMap.find?_eq_some_iff _ _ _).2 hentry
  rw [(hf.pointed id s' hfind).shapeId p hp, hfind]
  rfl

theorem read_intact {files : Files} {config : ReadConfig}
    (hread : read R files config .empty = some (res, f)) (hok : res.code = .ok) : Intact f := by
  refine ⟨read_keyed hread hok, fun id s hs => ?_⟩
  have hshapes := (read_ok R files hread hok).shapes
  rw [Loaded] at hshapes
  split_ifs at hshapes
  · obtain ⟨es, -, hes⟩ := hshapes
    have hentry := (SortedMap.find?_eq_some_iff _ _ _).1 hs
    rw [hes] at hentry
    have hall : ∀ pt ∈ es, True := fun _ _ => trivial
    obtain ⟨-, hne, hids⟩ :=
      shapes_foldl_addPoint hall (fun e he => absurd he List.not_mem_nil) _ hentry
    exact ⟨hne, fun pt hpt => (hids pt hpt).1⟩
  · rw [hshapes] at hs
    cases hs

theorem read_shapeless {files : Files} {cfg : Config} (heval : cfg.evaluate = false)
    (hread : read R files cfg.readConfig .empty = some (res, f)) (hok : res.code = .ok) :
    f.shapes = .empty := by
  have hshapes := (read_ok R files hread hok).shapes
  rwa [Loaded, if_neg] at hshapes
  change ¬ cfg.evaluate = true
  rw [heval]
  exact Bool.false_ne_true

/-- The feed of a directory, with all its tables, has no dangling reference. -/
def ClosedInput (R : Doubles C) (files : Files) : Prop :=
  ∃ res f, read R files .default .empty = some (res, f) ∧ res.code = .ok ∧ NoDangling f

end tables

section run
variable {N E C : Type} [DecidableEq N] [DecidableEq E] [Field C] [LinearOrder C]
variable {R : Doubles C} {unreturned : String → Result} {disk : Text → Files}
variable {out : Text → Directory} {cfg : Config} {configs : List (MotOptions × Surroundings N E C)}
variable {M : Elementary C} {K : CostArithmetic C} {fresh : Box C} {f g : Feed C} {dir : Directory}

/-- The shapes are read, or a pass is made for every trip that refers to one. -/
def Covers (cfg : Config) (configs : List (MotOptions × Surroundings N E C)) (f : Feed C) : Prop :=
  ∀ t ∈ f.trips.values, t.shapeId ≠ [] → cfg.evaluate = true ∨
    cfg.shapeTripId = [] ∧
      ∃ pass ∈ configs, routable f cfg.routeTypes pass.1.routeTypes t = true

instance : Decidable (Covers cfg configs f) :=
  inferInstanceAs (Decidable (∀ t ∈ f.trips.values, t.shapeId ≠ [] → cfg.evaluate = true ∨
    cfg.shapeTripId = [] ∧
      ∃ pass ∈ configs, routable f cfg.routeTypes pass.1.routeTypes t = true))

variable [IsStrictOrderedRing C]

section
omit [DecidableEq E]

theorem Written.passed (hf : Intact f)
    (h : Written R unreturned disk out cfg configs M K fresh f g dir) :
    Passed cfg.routeTypes
      (if cfg.shapeTripId = [] then configs.map fun pass => pass.1.routeTypes else []) f g := by
  obtain ⟨singleTrip, hsingle, hpasses⟩ := h.passes
  cases singleTrip with
  | none =>
    rw [if_pos (hsingle.1 rfl)]
    exact runPasses_passed hf hpasses
  | some t =>
    have hid : cfg.shapeTripId ≠ [] := fun hid => by cases hsingle.2 hid
    rw [if_neg hid, runPasses_single hpasses]
    exact .refl hf

theorem Written.noDangling (hinput : ClosedInput R (disk (cfg.feedPaths.headD [])))
    (h : Written R unreturned disk out cfg configs M K fresh f g dir)
    (hcovers : Covers cfg configs f) : NoDangling g := by
  obtain ⟨res, hread, hok⟩ := h.read
  have hf := read_intact hread hok
  have hpassed := h.passed hf
  intro t' ht' hne
  obtain ⟨⟨id, t''⟩, hentry, rfl⟩ := List.mem_map.1 ht'
  have hfind := (SortedMap.find?_eq_some_iff _ _ _).2 hentry
  obtain ⟨t, ht, hsame⟩ := find?_tracks hpassed.tracks hfind
  have hmem : t ∈ f.trips.values :=
    List.mem_map.2 ⟨(id, t), (SortedMap.find?_eq_some_iff _ _ _).1 ht, rfl⟩
  suffices hrefers : Refers g id by
    obtain ⟨t₁, ht₁, hshape⟩ := hrefers
    rw [hfind] at ht₁
    cases ht₁
    obtain ⟨s, hs⟩ := Option.isSome_iff_exists.1 hshape
    exact points_of_shape hpassed.intact hs
  by_cases hempty : t.shapeId = []
  · -- only a pass can have given it a shape
    by_contra hnot
    have hkept := hpassed.skipped id t ht fun routeTypes hpass => by
      by_contra hroutable
      rw [Bool.not_eq_false] at hroutable
      exact hnot (hpassed.matched id t ht ⟨routeTypes, hpass, hroutable⟩)
    rw [hfind] at hkept
    cases hkept
    exact hne hempty
  · rcases hcovers t hmem hempty with heval | ⟨hall, pass, hpass, hroutable⟩
    · obtain ⟨res₀, f₀, hread₀, -, hclosed⟩ := hinput
      have hconfig : cfg.readConfig = .default := by
        rw [Config.readConfig, heval]
        rfl
      rw [hconfig, hread₀] at hread
      cases hread
      obtain ⟨p, hp, hpid⟩ := hclosed t hmem hempty
      have hshape := shape_of_point hf hp
      rw [hpid] at hshape
      exact hpassed.keeps id ⟨t, ht, hshape⟩
    · refine hpassed.matched id t ht ⟨pass.1.routeTypes, ?_, hroutable⟩
      rw [if_pos hall]
      exact List.mem_map.2 ⟨pass, hpass, rfl⟩

theorem Written.covers (h : Written R unreturned disk out cfg configs M K fresh f g dir)
    (hids : ∀ t ∈ f.trips.values, ¬ FormedId f t.shapeId) (hclosed : NoDangling g) :
    Covers cfg configs f := by
  obtain ⟨res, hread, hok⟩ := h.read
  have hf := read_intact hread hok
  have hpassed := h.passed hf
  intro t hmem hne
  by_contra hnot
  rw [not_or, Bool.not_eq_true] at hnot
  have ht := hf.keyed.find?_of_mem hmem
  have hkept := hpassed.skipped t.tripId t ht fun routeTypes hpass => by
    by_contra hroutable
    rw [Bool.not_eq_false] at hroutable
    split_ifs at hpass with hall
    · obtain ⟨pass, hmade, rfl⟩ := List.mem_map.1 hpass
      exact hnot.2 ⟨hall, pass, hmade, hroutable⟩
    · cases hpass
  have hentry := (SortedMap.find?_eq_some_iff _ _ _).1 hkept
  obtain ⟨p, hp, hpid⟩ := hclosed t (List.mem_map.2 ⟨_, hentry, rfl⟩) hne
  have hshape := shape_of_point hpassed.intact hp
  rw [hpid, SortedMap.find?_isSome_iff] at hshape
  rcases hpassed.ids t.shapeId hshape with hold | hformed
  · rw [read_shapeless hnot.1 hread hok] at hold
    cases hold
  · exact hids t hmem hformed

/-- The output has no dangling reference if the shapes are read or a pass is made for every trip
with a shape. Otherwise it has one, unless the id is one that a new shape may get. -/
theorem run_noDangling_iff (hinput : ClosedInput R (disk (cfg.feedPaths.headD [])))
    (hrun : run R unreturned disk out cfg configs M K fresh = some (.ok (g, dir))) :
    HoldsTables R g dir.files ∧
      ∃ res f, read R (disk (cfg.feedPaths.headD [])) cfg.readConfig .empty = some (res, f) ∧
        (Covers cfg configs f → NoDangling g) ∧
        ((∀ t ∈ f.trips.values, ¬ FormedId f t.shapeId) →
          (NoDangling g ↔ Covers cfg configs f)) := by
  obtain ⟨f, h⟩ := run_written hrun
  obtain ⟨res, hwrite, hok⟩ := h.write
  obtain ⟨res', hread, -⟩ := h.read
  refine ⟨write_holdsTables hwrite hok, res', f, hread, h.noDangling hinput, fun hids => ?_⟩
  exact ⟨h.covers hids, h.noDangling hinput⟩

end

end run

section sample

def shapedFiles (routeType : String) : Files := fun filename =>
  if filename = "agency.txt" then
    some "agency_id,agency_name,agency_url,agency_timezone
A,A,u,z
".toList
  else if filename = "stops.txt" then
    some "stop_id,stop_name,stop_lat,stop_lon
P,P,1,1
Q,Q,2,2
".toList
  else if filename = "routes.txt" then
    some ("route_id,route_short_name,route_type
R,1,".toList ++ routeType.toList ++ ['\n'])
  else if filename = "trips.txt" then
    some "route_id,service_id,trip_id,shape_id
R,W,T,S
".toList
  else if filename = "stop_times.txt" then
    some "trip_id,stop_id,stop_sequence,arrival_time,departure_time
T,P,1,,
T,Q,2,,
".toList
  else if filename = "shapes.txt" then
    some "shape_id,shape_pt_lat,shape_pt_lon,shape_pt_sequence
S,1,1,1
S,2,2,2
".toList
  else none

def oneEdge : Network (Fin 4) (Fin 4) ℚ where
  setting := forkSetting false true
  lines := forkLines
  rendering := ⟨fun p => p, fun _ => 60⟩
  route _ _ :=
    let e := Fin.last 3
    some [⟨[e], 2, some (fork.getFrom e), some (fork.getTo e)⟩]
  drawn := by decide

def busPass : MotOptions × Surroundings (Fin 4) (Fin 4) ℚ :=
  (⟨[RouteType.bus], id, id, id⟩,
    ⟨oneEdge, fun _ fStops => (fStops, oneEdge), id, fun clusters => .refl clusters⟩)

def plainConfig : Config where
  feedPaths := ["in".toList]
  osmPath := "osm".toList
  writeOsm := []
  writeOverpass := false
  inPlace := false
  outputPath := "out".toList
  evaluate := false
  dropShapes := false
  importOsmStops := false
  interpolateTimes := false
  shapeTripId := []
  routeTypes := [RouteType.tram, RouteType.bus]

def busRun (routeType : String) : Run (Feed ℚ × Directory) :=
  run wholeDegrees (fun _ => .ok) (fun _ => shapedFiles routeType)
    (fun path => ⟨path, true, fun _ => none⟩) plainConfig [busPass] atOrigin (exactCosts ℚ)
    doubleMinbox

/-- The tram keeps its reference, and the table of the shapes is empty. -/
theorem run_dangles : ClosedInput wholeDegrees (shapedFiles "0") ∧
    ∃ g dir, busRun "0" = some (.ok (g, dir)) ∧ ¬ NoDangling g := by
  constructor
  · have hread : (read wholeDegrees (shapedFiles "0") .default .empty).any
        (fun x => x.1.code = .ok ∧ NoDangling x.2) = true := by
      decide +kernel
    obtain ⟨x, hx, hclosed⟩ := (Option.any_eq_true _ _).1 hread
    exact ⟨x.1, x.2, hx, of_decide_eq_true hclosed⟩
  · have hrun : ((busRun "0").run.bind Except.toOption).any
        (fun x => ¬ NoDangling x.1) = true := by
      decide +kernel
    obtain ⟨x, hx, hdangles⟩ := (Option.any_eq_true _ _).1 hrun
    obtain ⟨y, hy, hok⟩ := Option.bind_eq_some_iff.1 hx
    cases y with
    | error code => cases hok
    | ok z =>
      cases hok
      exact ⟨x.1, x.2, hy, of_decide_eq_true hdangles⟩

/-- The bus gets a new shape. -/
theorem run_noDangling_bus :
    ∃ g dir, busRun "3" = some (.ok (g, dir)) ∧ NoDangling g ∧
      g.trips.values.map Trip.shapeId = ["shp_R_3_1".toList] := by
  have hclosed : (read wholeDegrees (shapedFiles "3") .default .empty).any
      (fun x => x.1.code = .ok ∧ NoDangling x.2) = true := by
    decide +kernel
  obtain ⟨x, hx, hfeed⟩ := (Option.any_eq_true _ _).1 hclosed
  have hinput : ClosedInput wholeDegrees (shapedFiles "3") :=
    ⟨x.1, x.2, hx, of_decide_eq_true hfeed⟩
  have hcovers : (read wholeDegrees (shapedFiles "3") plainConfig.readConfig .empty).all
      (fun x => Covers plainConfig [busPass] x.2) = true := by
    decide +kernel
  have hrun : ((busRun "3").run.bind Except.toOption).any
      (fun x => x.1.trips.values.map Trip.shapeId = ["shp_R_3_1".toList]) = true := by
    decide +kernel
  obtain ⟨x', hx', hids⟩ := (Option.any_eq_true _ _).1 hrun
  obtain ⟨y, hy, hok⟩ := Option.bind_eq_some_iff.1 hx'
  cases y with
  | error code => cases hok
  | ok z =>
    cases hok
    unfold busRun at hy
    change run _ _ _ _ _ _ _ _ _ = some (.ok (x'.1, x'.2)) at hy
    obtain ⟨-, res, f, hread, hclosed, -⟩ := run_noDangling_iff hinput hy
    have hf := (Option.all_eq_true _ _).1 hcovers (res, f) hread
    exact ⟨x'.1, x'.2, hy, hclosed (of_decide_eq_true hf), of_decide_eq_true hids⟩

end sample

end Pfaedle.App

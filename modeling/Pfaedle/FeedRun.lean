import Pfaedle.ClusterPartition
import Pfaedle.FeedWritter
import Pfaedle.GtfsShape
import Pfaedle.ShapeReplacement

set_option autoImplicit false

/-!
# `app::run`

From the feed that is read over the passes of the configurations to the feed that is written. What
the OSM data and the router give to a pass is a parameter.
-/
namespace Pfaedle.App
open Gtfs Router BoundingBoxes ShapeBuilder

section types

inductive RetCode where
  | success
  | noInputFeed
  | multFeedsNotAlwd
  | tripNotFound
  | gtfsParseErr
  | noOsmInput
  | gtfsWriteErr
  | noMotCfg
  deriving DecidableEq

/-- A part of `run`: `none` if it throws, and an error if `run` returns before it has written its
output. -/
abbrev Run (A : Type) := ExceptT RetCode Option A

/-- The fields of `config::config` that `run` looks at. -/
structure Config where
  feedPaths : List Text
  osmPath : Text
  writeOsm : Text
  writeOverpass : Bool
  inPlace : Bool
  outputPath : Text
  evaluate : Bool
  dropShapes : Bool
  importOsmStops : Bool
  interpolateTimes : Bool
  shapeTripId : Text
  routeTypes : List ℤ

structure MotOptions where
  routeTypes : List ℤ
  lineNorm : Text → Text
  statNorm : Text → Text
  trackNorm : Text → Text

structure Station where
  name : Text
  isFromOsm : Bool

/-- The transit graph of a pass and what the router finds in it. Its edges have polylines. -/
structure Network (N E C : Type) [LinearOrder C] where
  setting : Setting N E C
  lines : Polylines E C
  rendering : Rendering E C
  route : Feed C → Trip → Option (List (EdgeListHop N E C))
  drawn : ∀ e, lines.geom e ≠ []

/-- What `osm_builder::read` and `std::shuffle` do in a pass. -/
structure Surroundings (N E C : Type) [LinearOrder C] where
  emptyGraph : Network N E C
  readOsm : BoundingBox C → FeedStops Station → FeedStops Station × Network N E C
  shuffle : List (List Trip) → List (List Trip)
  shuffle_perm : ∀ clusters, (shuffle clusters).Perm clusters

def Config.outputDirectory (cfg : Config) : Text :=
  if cfg.feedPaths.length = 1 ∧ cfg.inPlace then cfg.feedPaths.headD [] else cfg.outputPath

def Config.readConfig (cfg : Config) : ReadConfig :=
  { ReadConfig.default with shapes := cfg.evaluate }

end types

section passes
variable {N E C : Type} [DecidableEq N] [DecidableEq E] [Field C] [LinearOrder C]

/-- `get_gtfs_shape` of the hops that the router finds for a trip. -/
def Network.gtfsShape (net : Network N E C) (f : Feed C) (t : Trip) : Option (GtfsShape C C) := do
  let hops ← net.route f t
  let sts ← stopTimes f t
  let drawnAs := fun id => getGtfsShape net.setting net.lines net.rendering id sts hops
  let (_, v) ← drawnAs []
  some { points := fun id => (drawnAs id).elim [] fun x => x.1.points
         hopDists := v.hopDists
         costs := v.costs }

variable (cfg : Config) (mot : MotOptions)

def renameStop (f : Feed C) (feedStop : Text × Option Station) : Option (Feed C) :=
  match feedStop.2 with
  | none => some f
  | some si => do
    let stop ← f.stops.find? feedStop.1
    let name := if cfg.importOsmStops && si.isFromOsm then si.name else stop.stopName
    some { f with stops := f.stops.set feedStop.1 { stop with stopName := mot.statNorm name } }

def passBuilder (M : Elementary C) : Builder C :=
  Builder.measured M
    { dropShapes := cfg.dropShapes
      routeTypes := mot.routeTypes
      lineNorm := mot.lineNorm
      statNorm := mot.statNorm
      trackNorm := mot.trackNorm
      near := fun _ _ => false }

/-- A pass does nothing if its route types are not asked for, or the only trip has none of them. -/
def skipped (f : Feed C) (singleTrip : Option Trip) : Bool :=
  let usedMots := routeTypeSection mot.routeTypes cfg.routeTypes
  usedMots.isEmpty ||
    singleTrip.any fun t => (routeOf f t).any fun r => r.routeType ∉ usedMots

def boxPadding : C := 2500

variable (M : Elementary C) (K : CostArithmetic C) (fresh : Box C)

def runPass (singleTrip : Option Trip) (f : Feed C) (pass : MotOptions × Surroundings N E C) :
    Run (Feed C) :=
  if skipped cfg pass.1 f singleTrip then return f
  else do
    let fStops ← writeMotStops f (routeTypeSection pass.1.routeTypes cfg.routeTypes) cfg.shapeTripId
    let box ← getGtfsBox f cfg.routeTypes cfg.shapeTripId cfg.dropShapes fresh
      (newBoundingBox fresh boxPadding)
    let (fStops, net) := if fStops.entries.isEmpty then (fStops, pass.2.emptyGraph)
      else pass.2.readOsm box fStops
    let f ← (fStops.entries.foldlM (renameStop cfg pass.1) f : Option (Feed C))
    match singleTrip with
    | some t =>
      let hops ← net.route f t
      let _ ← hopsLine net.setting net.lines hops
      throw .success
    | none =>
      getShape net.gtfsShape K cfg.interpolateTimes (passBuilder cfg pass.1 M) cfg.routeTypes
        pass.2.shuffle f

end passes

section run
variable {N E C : Type} [DecidableEq N] [DecidableEq E] [Field C] [LinearOrder C]
variable (R : Doubles C) (unreturned : String → Result) (disk : Text → Files)
variable (out : Text → Directory) (cfg : Config) (configs : List (MotOptions × Surroundings N E C))
variable (M : Elementary C) (K : CostArithmetic C) (fresh : Box C)

def loadFeed (path : Text) : Run (Feed C) := do
  let (res, f) ← read R (disk path) cfg.readConfig .empty
  if res.code ≠ .ok then throw .gtfsParseErr else return f

def loadFeeds : Run (List (Feed C)) :=
  if cfg.feedPaths.length = 1 ∨ cfg.writeOsm ≠ [] ∨ cfg.writeOverpass then
    cfg.feedPaths.mapM (loadFeed R disk cfg)
  else if 1 < cfg.feedPaths.length then throw .multFeedsNotAlwd
  else return []

def findSingleTrip (feeds : List (Feed C)) : Run (Option Trip) :=
  if cfg.shapeTripId = [] then return none
  else
    match feeds with
    | [] => throw .noInputFeed
    | f :: _ =>
      match f.trips.find? cfg.shapeTripId with
      | none => throw .tripNotFound
      | some t => return some t

/-- The feed that is written and the directory that it is written to; every other way to return is
an error, also one with the code `success`. -/
def run : Run (Feed C × Directory) :=
  if cfg.osmPath = [] ∧ cfg.writeOverpass = false then throw .noOsmInput
  else if configs.isEmpty then throw .noMotCfg
  else do
    let feeds ← loadFeeds R disk cfg
    let singleTrip ← findSingleTrip cfg feeds
    if cfg.writeOsm ≠ [] ∨ cfg.writeOverpass then
      let _ ← (feeds.foldlM
        (fun box f => getGtfsBox f cfg.routeTypes cfg.shapeTripId true fresh box)
        (newBoundingBox fresh boxPadding) : Option (BoundingBox C))
      throw .success
    else
      match feeds with
      | [] => throw .noInputFeed
      | f :: _ =>
        let f ← configs.foldlM (runPass cfg M K fresh singleTrip) f
        let (res, dir) := write R unreturned .default f (out cfg.outputDirectory)
        if res.code ≠ .ok then throw .gtfsWriteErr else return (f, dir)

end run

section steps
variable {A B : Type}

def Completes (x : Run A) (a : A) : Prop := x = some (.ok a)

@[simp] theorem completes_pure {a b : A} : Completes (pure a) b ↔ a = b := by
  change some (Except.ok a) = some (Except.ok b) ↔ a = b
  simp

@[simp] theorem completes_throw {code : RetCode} {a : A} : ¬ Completes (throw code) a := by
  change ¬ some (Except.error code) = some (Except.ok a)
  simp

@[simp] theorem completes_lift {x : Option A} {a : A} : Completes (liftM x) a ↔ x = some a := by
  change x.map Except.ok = some (Except.ok a) ↔ x = some a
  simp

@[simp] theorem completes_bind {x : Run A} {f : A → Run B} {b : B} :
    Completes (x >>= f) b ↔ ∃ a, Completes x a ∧ Completes (f a) b := by
  unfold Completes
  cases x with
  | none =>
    change none = _ ↔ _
    simp
  | some r =>
    cases r with
    | error code =>
      constructor
      · intro h
        cases h
      · rintro ⟨a, h, -⟩
        cases h
    | ok a =>
      constructor
      · exact fun h => ⟨a, rfl, h⟩
      · rintro ⟨a', h, hf⟩
        cases h
        exact hf

end steps

section results
variable {N E C : Type} [DecidableEq N] [Field C] [LinearOrder C]
variable {R : Doubles C} {unreturned : String → Result} {disk : Text → Files}
variable {out : Text → Directory} {cfg : Config} {configs : List (MotOptions × Surroundings N E C)}
variable {M : Elementary C} {K : CostArithmetic C} {fresh : Box C}

/-- The output is written after one feed was read and every pass was taken. -/
structure Written (R : Doubles C) (unreturned : String → Result) (disk : Text → Files)
    (out : Text → Directory) (cfg : Config) (configs : List (MotOptions × Surroundings N E C))
    (M : Elementary C) (K : CostArithmetic C) (fresh : Box C) (f g : Feed C) (dir : Directory) :
    Prop where
  read : ∃ res, read R (disk (cfg.feedPaths.headD [])) cfg.readConfig .empty = some (res, f) ∧
    res.code = .ok
  passes : ∃ singleTrip : Option Trip, (singleTrip = none ↔ cfg.shapeTripId = []) ∧
    Completes (configs.foldlM (runPass cfg M K fresh singleTrip) f) g
  write : ∃ res, write R unreturned .default g (out cfg.outputDirectory) = (res, dir) ∧
    res.code = .ok

section
omit [Field C] [LinearOrder C]

theorem loadFeed_completes {path : Text} {f : Feed C} (h : Completes (loadFeed R disk cfg path) f) :
    ∃ res, Gtfs.read R (disk path) cfg.readConfig .empty = some (res, f) ∧ res.code = .ok := by
  unfold loadFeed at h
  simp only [completes_bind, completes_lift] at h
  obtain ⟨⟨res, f'⟩, hread, h⟩ := h
  dsimp only at h
  split_ifs at h with hcode
  · exact absurd h completes_throw
  · rw [completes_pure] at h
    exact ⟨res, h ▸ hread, not_not.1 hcode⟩

theorem loadFeeds_completes {f : Feed C} {fs : List (Feed C)} (hosm : cfg.writeOsm = [])
    (hoverpass : cfg.writeOverpass = false) (h : Completes (loadFeeds R disk cfg) (f :: fs)) :
    ∃ res, Gtfs.read R (disk (cfg.feedPaths.headD [])) cfg.readConfig .empty = some (res, f) ∧
      res.code = .ok := by
  unfold loadFeeds at h
  simp only [hosm, hoverpass, ne_eq, not_true_eq_false, Bool.false_eq_true, or_false] at h
  split_ifs at h with hone hmany
  · obtain ⟨path, hpath⟩ := List.length_eq_one_iff.1 hone
    rw [hpath, List.mapM_cons] at h
    simp only [List.mapM_nil, completes_bind, completes_pure, List.cons.injEq] at h
    obtain ⟨f', hf', fs', -, rfl, -⟩ := h
    rw [hpath]
    exact loadFeed_completes hf'
  · exact absurd h completes_throw
  · rw [completes_pure] at h
    cases h

theorem findSingleTrip_completes {feeds : List (Feed C)} {singleTrip : Option Trip}
    (h : Completes (findSingleTrip cfg feeds) singleTrip) :
    singleTrip = none ↔ cfg.shapeTripId = [] := by
  unfold findSingleTrip at h
  split_ifs at h with hid
  · rw [completes_pure] at h
    exact ⟨fun _ => hid, fun _ => h.symm⟩
  · cases feeds with
    | nil => exact absurd h completes_throw
    | cons f fs =>
      dsimp only at h
      cases hfind : f.trips.find? cfg.shapeTripId with
      | none =>
        rw [hfind] at h
        exact absurd h completes_throw
      | some t =>
        rw [hfind] at h
        dsimp only at h
        rw [completes_pure] at h
        rw [← h]
        simp [hid]

end

theorem run_written {g : Feed C} {dir : Directory}
    (h : run R unreturned disk out cfg configs M K fresh = some (.ok (g, dir))) :
    ∃ f, Written R unreturned disk out cfg configs M K fresh f g dir := by
  have hrun : Completes (run R unreturned disk out cfg configs M K fresh) (g, dir) := h
  clear h
  unfold run at hrun
  split_ifs at hrun with hinput hmots hfilter
  · exact absurd hrun completes_throw
  · exact absurd hrun completes_throw
  · simp at hrun
  rw [not_or, not_not, Bool.not_eq_true] at hfilter
  rw [completes_bind] at hrun
  obtain ⟨feeds, hfeeds, hrun⟩ := hrun
  rw [completes_bind] at hrun
  obtain ⟨singleTrip, hsingle, hrun⟩ := hrun
  cases feeds with
  | nil => exact absurd hrun completes_throw
  | cons f fs =>
    dsimp only at hrun
    rw [completes_bind] at hrun
    obtain ⟨g', hpasses, hrun⟩ := hrun
    split_ifs at hrun with hcode
    · exact absurd hrun completes_throw
    · rw [completes_pure, Prod.mk.injEq] at hrun
      obtain ⟨rfl, hdir⟩ := hrun
      refine ⟨f, loadFeeds_completes hfilter.1 hfilter.2 hfeeds,
        ⟨singleTrip, findSingleTrip_completes hsingle, hpasses⟩, ⟨_, ?_, not_not.1 hcode⟩⟩
      rw [← hdir]

end results

end Pfaedle.App

import Pfaedle.MotConfigs

set_option autoImplicit false

/-!
# Sections that are merged

A section is merged into the first configuration that `operator==` takes for its own. The operator
leaves out some fields, and takes close numbers for equal.
-/
namespace Pfaedle.Config
open Osm

section equality
variable {C : Type} [Field C] [LinearOrder C]

def close (tol a b : C) : Prop := |a - b| < tol

instance (tol a b : C) : Decidable (close tol a b) := inferInstanceAs (Decidable (|a - b| < tol))

def readTolerance : C := 1 / (10 : ℕ)

def routingTolerance : C := 1 / (100 : ℕ)

def sameDistances (a b : List C) : Prop :=
  a.length = b.length ∧ ∀ p ∈ a.zip b, close readTolerance p.1 p.2

instance (a b : List C) : Decidable (sameDistances a b) :=
  inferInstanceAs (Decidable (_ ∧ ∀ p ∈ a.zip b, _))

def sameStationRules (a b : StationAttributeRules) : Prop :=
  a.nameRule = b.nameRule ∧ a.platformRule = b.platformRule

instance (a b : StationAttributeRules) : Decidable (sameStationRules a b) :=
  inferInstanceAs (Decidable (_ ∧ _))

def sameOptions (a b : OsmReadOptions C) : Bool :=
  decide (sameDistances a.maxSnapDistances b.maxSnapDistances) &&
  decide (a.noHupFilter = b.noHupFilter) && decide (a.keepFilter = b.keepFilter) &&
  decide (∀ i : Fin 8, i.val < 7 → a.levelFilters i = b.levelFilters i) &&
  decide (a.dropFilter = b.dropFilter) && decide (a.oneWayFilter = b.oneWayFilter) &&
  decide (a.oneWayFilterRev = b.oneWayFilterRev) && decide (a.twoWayFilter = b.twoWayFilter) &&
  decide (a.stationFilter = b.stationFilter) &&
  decide (a.stationBlockerFilter = b.stationBlockerFilter) &&
  decide (a.statGroupNAttrRules = b.statGroupNAttrRules) &&
  decide (a.statNormzer = b.statNormzer) && decide (a.lineNormzer = b.lineNormzer) &&
  decide (a.trackNormzer = b.trackNormzer) && decide (a.relLinerules = b.relLinerules) &&
  decide (sameStationRules a.statAttrRules b.statAttrRules) &&
  decide (a.maxSnapLevel = b.maxSnapLevel) &&
  decide (close readTolerance a.maxAngleSnapReach b.maxAngleSnapReach) &&
  decide (close readTolerance a.maxOsmStationDistance b.maxOsmStationDistance) &&
  decide (close readTolerance a.maxSnapFallbackHeurDistance b.maxSnapFallbackHeurDistance) &&
  decide (close readTolerance a.maxBlockDistance b.maxBlockDistance) &&
  decide (∀ i : Fin 7, close readTolerance (a.levelSnapPunishFac i) (b.levelSnapPunishFac i)) &&
  decide (close readTolerance a.fullTurnAngle b.fullTurnAngle) &&
  decide (a.restrPosRestr = b.restrPosRestr) && decide (a.restrNegRestr = b.restrNegRestr) &&
  decide (a.noRestrFilter = b.noRestrFilter)

def sameRouting (a b : ConfigRoutingOptions C) : Bool :=
  decide (close routingTolerance a.fullTurnPunishFac b.fullTurnPunishFac) &&
  decide (close routingTolerance a.fullTurnAngle b.fullTurnAngle) &&
  decide (close routingTolerance a.passThruStationsPunish b.passThruStationsPunish) &&
  decide (close routingTolerance a.oneWayPunishFac b.oneWayPunishFac) &&
  decide (close routingTolerance a.oneWayEdgePunish b.oneWayEdgePunish) &&
  decide (close routingTolerance a.lineUnmatchedPunishFact b.lineUnmatchedPunishFact) &&
  decide (close routingTolerance a.noLinesPunishFact b.noLinesPunishFact) &&
  decide (close routingTolerance a.platformUnmatchedPen b.platformUnmatchedPen) &&
  decide (close routingTolerance a.stationDistPenFactor b.stationDistPenFactor) &&
  decide (close routingTolerance a.nonOsmPen b.nonOsmPen) &&
  ((List.range 8).all fun i => decide (close routingTolerance (a.levelPunish i) (b.levelPunish i))) &&
  decide (a.popReachEdge = b.popReachEdge) && decide (a.noSelfHops = b.noSelfHops)

/-- `operator==` of `mot_config`; a key occurs once in `unproced`. -/
def MotConfig.same (a b : MotConfig C) : Bool :=
  decide (a.unproced.length = b.unproced.length) &&
  sameOptions a.osmBuildOpts b.osmBuildOpts && sameRouting a.routingOpts b.routingOpts &&
  a.unproced.all fun kv => b.unproced.lookup kv.1 == some kv.2

end equality

section parsing
variable {C : Type} [Field C] [LinearOrder C]

/-- The route types of a section go to the first configuration that is the same. -/
def addSection (cur : MotConfig C) : List (MotConfig C) → List (MotConfig C)
  | [] => [cur]
  | cfg :: configs =>
    if cfg.same cur then { cfg with routeTypes := cfg.routeTypes ∪ cur.routeTypes } :: configs
    else cfg :: addSection cur configs

def parseStep (V : Values C) (configs : List (MotConfig C)) (sec : ConfigSection) :
    Option (List (MotConfig C)) :=
  if sec.name = "" then some configs
  else (readSection V sec).map fun cur => addSection cur configs

def parse (V : Values C) (secs : List ConfigSection) : Option (List (MotConfig C)) :=
  secs.foldlM (parseStep V) []

end parsing

section meaning
variable {C : Type}

abbrev MotConfig.opts (cfg : MotConfig C) : OsmReadOptions C × ConfigRoutingOptions C :=
  (cfg.osmBuildOpts, cfg.routingOpts)

def Processed (configs : List (MotConfig C)) (mot : ℤ)
    (opts : OsmReadOptions C × ConfigRoutingOptions C) : Prop :=
  ∃ cfg ∈ configs, mot ∈ cfg.routeTypes ∧ cfg.opts = opts

def Own [Field C] [LinearOrder C] (V : Values C) (secs : List ConfigSection) (mot : ℤ)
    (opts : OsmReadOptions C × ConfigRoutingOptions C) : Prop :=
  ∃ sec ∈ secs, ∃ cur, readSection V sec = some cur ∧ mot ∈ cur.routeTypes ∧ cur.opts = opts

/-- The fields that `operator==` does not compare, or not exactly. -/
structure Unchecked (a b : MotConfig C) : Prop where
  lastLevel : a.osmBuildOpts.levelFilters 7 = b.osmBuildOpts.levelFilters 7
  edgePlatforms : a.osmBuildOpts.edgePlatformRules = b.osmBuildOpts.edgePlatformRules
  stationIds : a.osmBuildOpts.statAttrRules.idRule = b.osmBuildOpts.statAttrRules.idRule
  idNormzer : a.osmBuildOpts.idNormzer = b.osmBuildOpts.idNormzer
  snapDistances : a.osmBuildOpts.maxSnapDistances = b.osmBuildOpts.maxSnapDistances
  snapReach : a.osmBuildOpts.maxAngleSnapReach = b.osmBuildOpts.maxAngleSnapReach
  fallbackDistance :
    a.osmBuildOpts.maxSnapFallbackHeurDistance = b.osmBuildOpts.maxSnapFallbackHeurDistance
  blockDistance : a.osmBuildOpts.maxBlockDistance = b.osmBuildOpts.maxBlockDistance
  stationDistance : a.osmBuildOpts.maxOsmStationDistance = b.osmBuildOpts.maxOsmStationDistance
  snapPunish : a.osmBuildOpts.levelSnapPunishFac = b.osmBuildOpts.levelSnapPunishFac
  snapTurnAngle : a.osmBuildOpts.fullTurnAngle = b.osmBuildOpts.fullTurnAngle
  fullTurnPunish : a.routingOpts.fullTurnPunishFac = b.routingOpts.fullTurnPunishFac
  turnAngle : a.routingOpts.fullTurnAngle = b.routingOpts.fullTurnAngle
  passThru : a.routingOpts.passThruStationsPunish = b.routingOpts.passThruStationsPunish
  oneWay : a.routingOpts.oneWayPunishFac = b.routingOpts.oneWayPunishFac
  oneWayEdge : a.routingOpts.oneWayEdgePunish = b.routingOpts.oneWayEdgePunish
  lineUnmatched : a.routingOpts.lineUnmatchedPunishFact = b.routingOpts.lineUnmatchedPunishFact
  noLines : a.routingOpts.noLinesPunishFact = b.routingOpts.noLinesPunishFact
  platform : a.routingOpts.platformUnmatchedPen = b.routingOpts.platformUnmatchedPen
  stationPen : a.routingOpts.stationDistPenFactor = b.routingOpts.stationDistPenFactor
  nonOsm : a.routingOpts.nonOsmPen = b.routingOpts.nonOsmPen
  levelPunish : a.routingOpts.levelPunish = b.routingOpts.levelPunish

end meaning

section merging
variable {C : Type} [Field C] [LinearOrder C]

theorem levelFilters_eq {a b : Fin 8 → RuleMap} (hlow : ∀ i : Fin 8, i.val < 7 → a i = b i)
    (hlast : a 7 = b 7) : a = b := by
  funext i
  by_cases hi : i.val < 7
  · exact hlow i hi
  · obtain rfl : i = 7 := Fin.ext (by omega)
    exact hlast

/-- The fields that are compared and those that are not are all fields. -/
theorem readOptions_eq {a b : MotConfig C} (h : sameOptions a.osmBuildOpts b.osmBuildOpts = true)
    (hun : Unchecked a b) : a.osmBuildOpts = b.osmBuildOpts := by
  obtain ⟨_, aOsm, _, _⟩ := a
  obtain ⟨_, bOsm, _, _⟩ := b
  simp only [sameOptions, Bool.and_eq_true, decide_eq_true_iff, and_assoc] at h
  obtain ⟨-, hnoHup, hkeep, hlevels, hdrop, honeWay, honeWayRev, htwoWay, hstation, hblocker,
    hgroups, hstat, hline, htrack, hrel, ⟨hname, hplatform⟩, hlevel, -, -, -, -, -, -, hpos,
    hneg, hnoRestr⟩ := h
  have hfilters := levelFilters_eq hlevels hun.lastLevel
  have hrules : aOsm.statAttrRules = bOsm.statAttrRules := by
    cases ha : aOsm.statAttrRules
    cases hb : bOsm.statAttrRules
    have hid := hun.stationIds
    simp only [ha, hb] at hname hplatform hid
    rw [hname, hplatform, hid]
  have hid := hun.idNormzer
  have hedge := hun.edgePlatforms
  have hdist := hun.snapDistances
  have hreach := hun.snapReach
  have hfallback := hun.fallbackDistance
  have hblock := hun.blockDistance
  have hstationDist := hun.stationDistance
  have hpunish := hun.snapPunish
  have hangle := hun.snapTurnAngle
  clear hun hlevels hname hplatform
  cases aOsm
  cases bOsm
  simp only [OsmReadOptions.mk.injEq]
  exact ⟨hnoHup, hkeep, hfilters, hdrop, honeWay, honeWayRev, htwoWay, hstation, hblocker,
    hgroups, hstat, hline, htrack, hid, hrel, hrules, hedge, hlevel, hreach, hdist, hfallback,
    hblock, hstationDist, hpunish, hangle, hpos, hneg, hnoRestr⟩

theorem routingOptions_eq {a b : MotConfig C} (h : sameRouting a.routingOpts b.routingOpts = true)
    (hun : Unchecked a b) : a.routingOpts = b.routingOpts := by
  obtain ⟨_, _, aRouting, _⟩ := a
  obtain ⟨_, _, bRouting, _⟩ := b
  simp only [sameRouting, Bool.and_eq_true, decide_eq_true_iff, and_assoc] at h
  obtain ⟨-, -, -, -, -, -, -, -, -, -, -, hreach, hhops⟩ := h
  obtain ⟨-, -, -, -, -, -, -, -, -, -, -, hfull, hangle, hthru, hone, hedge, hline, hno, hplat,
    hstation, hosm, hlevel⟩ := hun
  obtain ⟨aBase, _, _⟩ := aRouting
  obtain ⟨bBase, _, _⟩ := bRouting
  cases aBase
  cases bBase
  simp only [ConfigRoutingOptions.mk.injEq, Router.RoutingOptions.mk.injEq]
  exact ⟨⟨hfull, hangle, hthru, hone, hedge, hline, hno, hplat, hlevel, hreach, hhops⟩, hstation,
    hosm⟩

theorem opts_eq_iff {a b : MotConfig C} (h : a.same b = true) :
    a.opts = b.opts ↔ Unchecked a b := by
  simp only [MotConfig.same, Bool.and_eq_true, and_assoc] at h
  obtain ⟨-, hosm, hrouting, -⟩ := h
  constructor
  · intro heq
    obtain ⟨aTypes, aOsm, aRouting, aUnproced⟩ := a
    obtain ⟨bTypes, bOsm, bRouting, bUnproced⟩ := b
    obtain ⟨rfl, rfl⟩ := Prod.mk.inj heq
    exact ⟨rfl, rfl, rfl, rfl, rfl, rfl, rfl, rfl, rfl, rfl, rfl, rfl, rfl, rfl, rfl, rfl, rfl,
      rfl, rfl, rfl, rfl, rfl⟩
  · intro hun
    exact Prod.ext (readOptions_eq hosm hun) (routingOptions_eq hrouting hun)

/-- What one section adds to the options of a route type. -/
theorem addSection_processed {cur : MotConfig C} {configs : List (MotConfig C)}
    (h : cur.routeTypes ≠ [] → ∀ cfg ∈ configs, cfg.same cur = true → cfg.opts = cur.opts)
    (mot : ℤ) (opts : OsmReadOptions C × ConfigRoutingOptions C) :
    Processed (addSection cur configs) mot opts ↔
      Processed configs mot opts ∨ mot ∈ cur.routeTypes ∧ cur.opts = opts := by
  unfold Processed
  induction configs with
  | nil =>
    simp only [addSection, List.mem_singleton, exists_eq_left, List.not_mem_nil, false_and,
      exists_false, false_or]
  | cons cfg configs ih =>
    rw [addSection]
    split
    · rename_i hsame
      simp only [List.exists_mem_cons_iff, List.mem_union_iff]
      by_cases hmot : mot ∈ cur.routeTypes
      · have heq : cfg.opts = cur.opts :=
          h (List.ne_nil_of_mem hmot) cfg List.mem_cons_self hsame
        change (mot ∈ cfg.routeTypes ∨ mot ∈ cur.routeTypes) ∧ cfg.opts = opts ∨ _ ↔ _
        simp only [hmot, or_true, true_and, heq]
        exact ⟨fun hor => hor.elim .inr fun hrest => .inl (.inr hrest),
          fun hor => hor.elim (fun hor => hor.imp_left And.right) .inl⟩
      · simp only [hmot, or_false, false_and, MotConfig.opts]
    · simp only [List.exists_mem_cons_iff]
      rw [ih fun hne cfg' hcfg' => h hne cfg' (List.mem_cons_of_mem _ hcfg'), or_assoc]

theorem addSection_origin {cur cfg : MotConfig C} {configs : List (MotConfig C)}
    (h : cfg ∈ addSection cur configs) :
    ∃ cfg' ∈ cur :: configs, ∃ types, cfg = { cfg' with routeTypes := types } := by
  induction configs with
  | nil => exact ⟨cfg, h, cfg.routeTypes, rfl⟩
  | cons head configs ih =>
    rw [addSection] at h
    split at h
    · cases List.mem_cons.1 h with
      | inl heq => exact ⟨head, List.mem_cons_of_mem _ List.mem_cons_self, _, heq⟩
      | inr hmem => exact ⟨cfg, List.mem_cons_of_mem _ (List.mem_cons_of_mem _ hmem), _, rfl⟩
    · cases List.mem_cons.1 h with
      | inl heq => exact ⟨cfg, heq ▸ List.mem_cons_of_mem _ List.mem_cons_self, _, rfl⟩
      | inr hmem =>
        obtain ⟨cfg', hcfg', types, heq⟩ := ih hmem
        refine ⟨cfg', ?_, types, heq⟩
        cases List.mem_cons.1 hcfg' with
        | inl hcur => exact hcur ▸ List.mem_cons_self
        | inr hrest => exact List.mem_cons_of_mem _ (List.mem_cons_of_mem _ hrest)

variable (V : Values C)

structure Merged (done : List ConfigSection) (configs : List (MotConfig C)) : Prop where
  origin : ∀ cfg ∈ configs, ∃ sec ∈ done, sec.name ≠ "" ∧ ∃ cur, readSection V sec = some cur ∧
    ∃ types, cfg = { cur with routeTypes := types }
  processed : ∀ mot opts, Processed configs mot opts ↔ Own V done mot opts

/-- The sections agree where `operator==` does not look, when it calls them the same. -/
def Agreeing (S : List ConfigSection) : Prop :=
  ∀ a ∈ S, ∀ b ∈ S, a.name ≠ b.name → a.name ≠ "" → ∀ ca cb : MotConfig C,
    readSection V a = some ca → readSection V b = some cb → cb.routeTypes ≠ [] →
      ca.same cb = true → Unchecked ca cb

variable {V}

theorem routeTypes_of_unnamed {sec : ConfigSection} {cur : MotConfig C} (hname : sec.name = "")
    (h : readSection V sec = some cur) : cur.routeTypes = [] := by
  rw [readSection] at h
  obtain ⟨osm, -, h⟩ := Option.bind_eq_some_iff.1 h
  obtain ⟨routing, -, h⟩ := Option.bind_eq_some_iff.1 h
  obtain ⟨types, htypes, h⟩ := Option.bind_eq_some_iff.1 h
  rw [← Option.some.inj h]
  rw [hname] at htypes
  exact (Option.some.inj htypes).symm

theorem own_append {done : List ConfigSection} {sec : ConfigSection} {mot : ℤ}
    {opts : OsmReadOptions C × ConfigRoutingOptions C} :
    Own V (done ++ [sec]) mot opts ↔ Own V done mot opts ∨
      ∃ cur, readSection V sec = some cur ∧ mot ∈ cur.routeTypes ∧ cur.opts = opts := by
  unfold Own
  simp only [List.mem_append, List.mem_singleton, or_and_right, exists_or, exists_eq_left]

theorem parseStep_merged {S done : List ConfigSection} {sec : ConfigSection}
    {configs configs' : List (MotConfig C)} (hagree : Agreeing V S) (hdone : ∀ a ∈ done, a ∈ S)
    (hsec : sec ∈ S) (hnew : ∀ a ∈ done, a.name ≠ sec.name) (hmerged : Merged V done configs)
    (h : parseStep V configs sec = some configs') : Merged V (done ++ [sec]) configs' := by
  rw [parseStep] at h
  split at h
  · rename_i hname
    obtain rfl := Option.some.inj h
    constructor
    · intro cfg hcfg
      obtain ⟨a, ha, hrest⟩ := hmerged.origin cfg hcfg
      exact ⟨a, List.mem_append_left _ ha, hrest⟩
    · intro mot opts
      rw [hmerged.processed, own_append]
      refine (or_iff_left ?_).symm
      intro hex
      obtain ⟨cur, hcur, hmot, -⟩ := hex
      rw [routeTypes_of_unnamed hname hcur] at hmot
      exact absurd hmot List.not_mem_nil
  · rename_i hname
    obtain ⟨cur, hcur, rfl⟩ := Option.map_eq_some_iff.1 h
    constructor
    · intro cfg hcfg
      obtain ⟨cfg', hcfg', types, rfl⟩ := addSection_origin hcfg
      cases List.mem_cons.1 hcfg' with
      | inl heq =>
        exact ⟨sec, List.mem_append_right _ (List.mem_singleton_self _), hname, cur, hcur, types,
          heq ▸ rfl⟩
      | inr hmem =>
        obtain ⟨a, ha, haname, ca, hca, types', rfl⟩ := hmerged.origin cfg' hmem
        exact ⟨a, List.mem_append_left _ ha, haname, ca, hca, types, rfl⟩
    · intro mot opts
      rw [addSection_processed, hmerged.processed, own_append]
      · simp only [hcur, Option.some.injEq, exists_eq_left']
      · intro hne cfg hcfg hsame
        obtain ⟨a, ha, haname, ca, hca, types, rfl⟩ := hmerged.origin cfg hcfg
        exact (opts_eq_iff (a := ca) hsame).2
          (hagree a (hdone a ha) sec hsec (hnew a ha) haname ca cur hca hcur hne hsame)

theorem run_merged {S done secs : List ConfigSection} {configs configs' : List (MotConfig C)}
    (hagree : Agreeing V S) (hin : ∀ a ∈ done ++ secs, a ∈ S)
    (hnodup : ((done ++ secs).map ConfigSection.name).Nodup) (hmerged : Merged V done configs)
    (h : secs.foldlM (parseStep V) configs = some configs') : Merged V (done ++ secs) configs' := by
  induction secs generalizing done configs with
  | nil =>
    obtain rfl := Option.some.inj h
    rwa [List.append_nil]
  | cons sec secs ih =>
    obtain ⟨next, hstep, hrest⟩ := Option.bind_eq_some_iff.1 h
    have happ : done ++ sec :: secs = (done ++ [sec]) ++ secs := by
      rw [List.append_assoc, List.singleton_append]
    have hnew : ∀ a ∈ done, a.name ≠ sec.name := by
      rw [List.map_append, List.map_cons] at hnodup
      intro a ha
      exact (List.nodup_append.1 hnodup).2.2 _ (List.mem_map_of_mem ha) _ List.mem_cons_self
    rw [happ] at hin hnodup ⊢
    refine ih hin hnodup (parseStep_merged hagree (fun a ha => ?_) ?_ hnew hmerged hstep) hrest
    · exact hin a (List.mem_append_left _ (List.mem_append_left _ ha))
    · exact hin sec (List.mem_append_left _ (List.mem_append_right _ (List.mem_singleton_self _)))

end merging

section main
variable {C : Type} [Field C] [LinearOrder C]

/-- Whatever sections there are besides, each route type keeps its own options, exactly when no
two sections of one name each that are called the same differ. -/
theorem sections_processed_iff (V : Values C) (S : List ConfigSection) :
    (∀ secs : List ConfigSection, (∀ sec ∈ secs, sec ∈ S) →
        (secs.map ConfigSection.name).Nodup → ∀ configs, parse V secs = some configs →
          ∀ mot opts, Processed configs mot opts ↔ Own V secs mot opts) ↔ Agreeing V S := by
  constructor
  · intro hall a ha b hb hne hname ca cb hca hcb htypes hsame
    obtain ⟨mot, hmot⟩ := List.exists_mem_of_ne_nil _ htypes
    have hbname : b.name ≠ "" := fun hempty => htypes (routeTypes_of_unnamed hempty hcb)
    have hparse : parse V [a, b] =
        some [{ ca with routeTypes := ca.routeTypes ∪ cb.routeTypes }] := by
      rw [parse, List.foldlM_cons, parseStep, if_neg hname, hca]
      change [b].foldlM (parseStep V) [ca] = _
      rw [List.foldlM_cons, parseStep, if_neg hbname, hcb]
      change some (addSection cb [ca]) = _
      rw [addSection, if_pos hsame]
    have hown : Own V [a, b] mot cb.opts :=
      ⟨b, List.mem_cons_of_mem _ List.mem_cons_self, cb, hcb, hmot, rfl⟩
    have hin : ∀ sec ∈ [a, b], sec ∈ S := by
      intro sec hsec
      rcases List.mem_pair.1 hsec with rfl | rfl
      · exact ha
      · exact hb
    have hnodup : ([a, b].map ConfigSection.name).Nodup :=
      List.nodup_cons.2 ⟨fun hmem => hne (List.mem_singleton.1 hmem), List.nodup_singleton _⟩
    obtain ⟨cfg, hcfg, -, hopts⟩ := (hall [a, b] hin hnodup _ hparse mot cb.opts).2 hown
    rw [List.mem_singleton.1 hcfg] at hopts
    exact (opts_eq_iff hsame).1 hopts
  · intro hagree secs hin hnodup configs hparse
    have hstart : Merged V [] ([] : List (MotConfig C)) := by
      constructor
      · exact fun cfg hcfg => absurd hcfg List.not_mem_nil
      · intro mot opts
        simp only [Processed, Own, List.not_mem_nil, false_and, exists_false]
    have hin : ∀ a ∈ [] ++ secs, a ∈ S := hin
    exact (run_merged hagree hin hnodup hstart hparse).processed

def wordValues : Values ℚ where
  strArr := split
  double _ := none
  doubleArr _ _ := none
  int _ := none
  bool _ := none
  atof _ := 0
  regex _ := true

def railSection : ConfigSection :=
  ⟨"rail", [("osm_filter_keep", "railway=rail"), ("osm_filter_lvl7", "service=siding")]⟩

def tramSection : ConfigSection := ⟨"tram", [("osm_filter_keep", "railway=rail")]⟩

/-- The trams have sidings of the last level, which only the trains asked for. -/
theorem sections_mixed :
    ∃ opts, Own wordValues [railSection, tramSection] Gtfs.RouteType.tram opts ∧
      ∀ configs, parse wordValues [railSection, tramSection] = some configs →
        ¬ Processed configs Gtfs.RouteType.tram opts := by
  have hread : (readSection wordValues tramSection).map
        (fun cur => (cur.routeTypes, (cur.osmBuildOpts.levelFilters 7).keys)) =
      some ([Gtfs.RouteType.tram], []) := by decide +kernel
  have hparse : (parse wordValues [railSection, tramSection]).map
        (fun configs => configs.all fun cfg =>
          (cfg.osmBuildOpts.levelFilters 7).keys = ["service"]) =
      some true := by decide +kernel
  obtain ⟨cur, hcur, hkeys⟩ := Option.map_eq_some_iff.1 hread
  obtain ⟨htypes, hnone⟩ := Prod.mk.inj hkeys
  refine ⟨cur.opts, ⟨tramSection, List.mem_cons_of_mem _ List.mem_cons_self, cur, hcur, ?_, rfl⟩,
    fun configs hconfigs hprocessed => ?_⟩
  · rw [htypes]
    exact List.mem_singleton_self _
  · obtain ⟨cfg, hcfg, -, hopts⟩ := hprocessed
    rw [hconfigs] at hparse
    have hservice := of_decide_eq_true (List.all_eq_true.1 (Option.some.inj hparse) cfg hcfg)
    rw [(Prod.mk.inj hopts).1, hnone] at hservice
    cases hservice

end main

end Pfaedle.Config

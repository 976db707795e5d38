import Pfaedle.ReadOptions

set_option autoImplicit false

/-!
# The keys that `get_kept_attribute_keys` keeps

What the reader decides about an element is decided on the attributes whose keys are kept. The keys
of the last level filter and the key `type` are not among them.
-/
namespace Pfaedle.KeptKeys
open Osm

def restrict (keys : List String) (attrs : AttributeMap) : AttributeMap :=
  attrs.filter fun kv => kv.1 ∈ keys

section decisions
variable {C : Type*} (norm : ReplRules → String → String) (iter : AttributeMap → AttributeMap)
  (o : OsmReadOptions C) (id : Osmid) (entRels : Osmid → List ℕ) (rels : List AttributeMap)
  (attrs : AttributeMap)

/-- What is decided about a node; a group rule reads one attribute. -/
structure NodeDecisions where
  keep : Bool
  drop : Bool
  station : Bool
  blocker : Bool
  names : List String
  platform : String
  stationId : String
  groups : List String
deriving DecidableEq

def nodeDecisions : NodeDecisions where
  keep := o.filter.keep iter attrs .node ≠ 0
  drop := o.filter.drop iter attrs .node ≠ 0
  station := o.filter.station iter attrs ≠ 0
  blocker := o.filter.blocker iter attrs ≠ 0
  names := getAttrMatchRanked o.statAttrRules.nameRule id attrs entRels rels (norm o.statNormzer)
  platform :=
    getAttrByFirstMatch o.statAttrRules.platformRule id attrs entRels rels (norm o.trackNormzer)
  stationId := getAttrByFirstMatch o.statAttrRules.idRule id attrs entRels rels (norm o.idNormzer)
  groups := o.statGroupNAttrRules.map fun rule => getAttribute rule.attr id attrs entRels rels

/-- What is decided about a way; a line has the names of its relation. -/
structure WayDecisions where
  keep : Bool
  drop : Bool
  oneway : Bool
  onewayrev : Bool
  level : ℕ
  maxspeed : Option String
  track : String
  lines : List (String × String × String)
deriving DecidableEq

def lineNames (rel : AttributeMap) : String × String × String :=
  (lineName o.relLinerules.sNameRule rel (norm o.lineNormzer),
    lineName o.relLinerules.fromNameRule rel (norm o.lineNormzer),
    lineName o.relLinerules.toNameRule rel (norm o.lineNormzer))

def wayDecisions : WayDecisions where
  keep := o.filter.keep iter attrs .way ≠ 0
  drop := o.filter.drop iter attrs .way ≠ 0
  oneway := o.filter.oneway iter attrs ≠ 0
  onewayrev := o.filter.onewayrev iter attrs ≠ 0
  level := o.filter.level attrs
  maxspeed := attrs.lookup "maxspeed"
  track := getAttrByFirstMatch o.edgePlatformRules id attrs entRels rels (norm o.trackNormzer)
  lines := ((entRels id).filterMap fun relId => rels[relId]?).map (lineNames norm o)

structure RelationDecisions where
  keep : Bool
  drop : Bool
  posRestr : Bool
  negRestr : Bool
deriving DecidableEq

def relationDecisions : RelationDecisions where
  keep := o.filter.keep iter attrs .rel ≠ 0
  drop := o.filter.drop iter attrs .rel ≠ 0
  posRestr := attrs.lookup "type" = some "restriction" ∧ o.filter.posRestr iter attrs ≠ 0
  negRestr := attrs.lookup "type" = some "restriction" ∧ o.filter.negRestr iter attrs ≠ 0

/-- A key that a filter or rule for ways has, the last level filter apart. -/
def WayKey (key : String) : Prop :=
  key ∈ o.keepFilter.keys ∨ key ∈ o.dropFilter.keys ∨ key ∈ o.oneWayFilter.keys ∨
    key ∈ o.oneWayFilterRev.keys ∨ key ∈ o.twoWayFilter.keys ∨
    (∃ i : Fin 8, i.val < 7 ∧ key ∈ (o.levelFilters i).keys) ∨ key = "maxspeed" ∨
    ∃ s ∈ o.edgePlatformRules, key ∈ s.ownKeys

def RelKey (key : String) : Prop :=
  (∃ rule ∈ o.statGroupNAttrRules, key ∈ rule.attr.relKeys) ∨ key ∈ o.keepFilter.keys ∨
    key ∈ o.dropFilter.keys ∨ key ∈ o.stationFilter.keys ∨ key ∈ o.restrPosRestr.keys ∨
    key ∈ o.restrNegRestr.keys ∨ key ∈ o.noRestrFilter.keys ∨ key ∈ ["from", "via", "to"] ∨
    key ∈ o.relLinerules.toNameRule ∨ key ∈ o.relLinerules.fromNameRule ∨
    key ∈ o.relLinerules.sNameRule ∨ (∃ s ∈ o.statAttrRules.nameRule, key ∈ s.relKeys) ∨
    (∃ s ∈ o.edgePlatformRules, key ∈ s.relKeys) ∨
    (∃ s ∈ o.statAttrRules.platformRule, key ∈ s.relKeys) ∨
    ∃ s ∈ o.statAttrRules.idRule, key ∈ s.relKeys

/-- No lower filter matches, and the last one matches only on keys that nothing else has. -/
def LevelLost : Prop :=
  (∀ i : Fin 8, i.val < 7 → o.filter.levelMatches attrs i = false) ∧
    (∃ kv ∈ attrs, anyValue (o.filter.levelRules 7) kv.1 kv.2 = true) ∧
    ∀ kv ∈ attrs, anyValue (o.filter.levelRules 7) kv.1 kv.2 = true → ¬ WayKey o kv.1

/-- A restriction, when no filter or rule has the key `type`. -/
def TypeLost : Prop :=
  ¬ RelKey o "type" ∧ attrs.lookup "type" = some "restriction" ∧
    (o.filter.posRestr iter attrs ≠ 0 ∨ o.filter.negRestr iter attrs ≠ 0)

end decisions

section restrict
variable {keys : List String} {attrs : AttributeMap}

theorem mem_restrict {kv : String × String} :
    kv ∈ restrict keys attrs ↔ kv ∈ attrs ∧ kv.1 ∈ keys := by
  rw [restrict, List.mem_filter, decide_eq_true_iff]

theorem restrict_cons (kv : String × String) : restrict keys (kv :: attrs) =
    if kv.1 ∈ keys then kv :: restrict keys attrs else restrict keys attrs := by
  simp only [restrict, List.filter_cons, decide_eq_true_iff]

theorem lookup_restrict {key : String} (h : key ∈ keys) :
    (restrict keys attrs).lookup key = attrs.lookup key := by
  induction attrs with
  | nil => rfl
  | cons kv attrs ih =>
    rw [restrict_cons]
    by_cases hkey : key = kv.1
    · obtain ⟨k, v⟩ := kv
      obtain rfl : key = k := hkey
      rw [if_pos h, List.lookup_cons_self, List.lookup_cons_self]
    · rw [lookup_cons_ne hkey]
      split
      · rw [lookup_cons_ne hkey, ih]
      · exact ih

theorem lookup_restrict_none {key : String} (h : key ∉ keys) :
    (restrict keys attrs).lookup key = none :=
  lookup_eq_none fun _ hkv heq => h (heq ▸ (mem_restrict.1 hkv).2)

variable {iter : AttributeMap → AttributeMap}

theorem contained_restrict (hiter : ∀ attrs, (iter attrs).Perm attrs) {m : RuleMap}
    (hkeys : ∀ key ∈ m.keys, key ∈ keys) (t : FilterType) :
    contained iter (restrict keys attrs) m.map t ≠ 0 ↔ contained iter attrs m.map t ≠ 0 := by
  rw [contained_ne_zero_iff m.map_used, contained_ne_zero_iff m.map_used]
  constructor
  · intro hex
    obtain ⟨kv, hkv, hrule⟩ := hex
    have hkv := (mem_restrict.1 ((hiter _).mem_iff.1 hkv)).1
    exact ⟨kv, (hiter _).mem_iff.2 hkv, hrule⟩
  · intro hex
    obtain ⟨kv, hkv, r, hr, happlies⟩ := hex
    have hkey : kv.1 ∈ m.keys := by
      by_contra hnot
      rw [m.map_eq_nil hnot] at hr
      exact absurd hr List.not_mem_nil
    refine ⟨kv, (hiter _).mem_iff.2 (mem_restrict.2 ⟨?_, hkeys _ hkey⟩), r, hr, happlies⟩
    exact (hiter _).mem_iff.1 hkv

structure RuleKept (s : DeepAttributeRule) (own rel : List String) : Prop where
  own : ∀ key ∈ s.ownKeys, key ∈ own
  rel : ∀ key ∈ s.relKeys, key ∈ rel

variable {relKeys : List String}

theorem getAttribute_restrict {s : DeepAttributeRule} (h : RuleKept s keys relKeys) (id : Osmid)
    (entRels : Osmid → List ℕ) (rels : List AttributeMap) :
    getAttribute s id (restrict keys attrs) entRels (rels.map (restrict relKeys)) =
      getAttribute s id attrs entRels rels := by
  obtain ⟨hown, hrel⟩ := h
  unfold getAttribute
  unfold DeepAttributeRule.ownKeys at hown
  unfold DeepAttributeRule.relKeys at hrel
  split
  · rename_i hempty
    rw [if_pos hempty] at hown
    rw [lookup_restrict (hown _ (List.mem_singleton_self _))]
  · rename_i hkey
    rw [if_neg hkey] at hrel
    have hfun : (fun relId : ℕ => (rels.map (restrict relKeys))[relId]?.bind fun rel =>
        if containedAttribute rel s.relRule.kv then rel.lookup s.attr else none) =
        fun relId => rels[relId]?.bind fun rel =>
          if containedAttribute rel s.relRule.kv then rel.lookup s.attr else none := by
      funext relId
      rw [List.getElem?_map]
      cases rels[relId]? with
      | none => rfl
      | some rel =>
        rw [Option.map_some, Option.bind_some, Option.bind_some, containedAttribute,
          containedAttribute, lookup_restrict (hrel _ List.mem_cons_self),
          lookup_restrict (hrel _ (List.mem_cons_of_mem _ List.mem_cons_self))]
    rw [hfun]

theorem getAttrMatchRanked_restrict {rule : List DeepAttributeRule}
    (h : ∀ s ∈ rule, RuleKept s keys relKeys) (id : Osmid) (entRels : Osmid → List ℕ)
    (rels : List AttributeMap) (norm : String → String) :
    getAttrMatchRanked rule id (restrict keys attrs) entRels (rels.map (restrict relKeys)) norm =
      getAttrMatchRanked rule id attrs entRels rels norm := by
  unfold getAttrMatchRanked
  congr 1
  refine List.map_congr_left fun s hs => ?_
  rw [getAttribute_restrict (h s hs)]

theorem lineName_restrict {rule : List String} (h : ∀ key ∈ rule, key ∈ keys)
    (norm : String → String) :
    lineName rule (restrict keys attrs) norm = lineName rule attrs norm := by
  unfold lineName
  rw [List.filterMap_congr fun r hr => lookup_restrict (h r hr)]

theorem guarded_ne_zero (a b : UInt64) : (if a ≠ 0 then 0 else b) ≠ 0 ↔ ¬ a ≠ 0 ∧ b ≠ 0 := by
  split
  · rename_i ha
    exact ⟨fun h => absurd rfl h, fun h => absurd ha h.1⟩
  · rename_i ha
    exact ⟨fun h => ⟨ha, h⟩, fun h => h.2⟩

theorem guarded_restrict (hiter : ∀ attrs, (iter attrs).Perm attrs) {veto m : RuleMap}
    (hveto : ∀ key ∈ veto.keys, key ∈ keys) (hkeys : ∀ key ∈ m.keys, key ∈ keys) (t : FilterType) :
    (if contained iter (restrict keys attrs) veto.map t ≠ 0 then 0
        else contained iter (restrict keys attrs) m.map t) ≠ 0 ↔
      (if contained iter attrs veto.map t ≠ 0 then 0 else contained iter attrs m.map t) ≠ 0 := by
  rw [guarded_ne_zero, guarded_ne_zero, contained_restrict hiter hveto,
    contained_restrict hiter hkeys]

end restrict

section elements
variable {C : Type*} {norm : ReplRules → String → String} {iter : AttributeMap → AttributeMap}
  (o : OsmReadOptions C) (id : Osmid) (entRels : Osmid → List ℕ) (rels : List AttributeMap)
  (attrs : AttributeMap)

theorem rulesKept {rule : List DeepAttributeRule} {own rel : List String}
    (hown : ∀ key ∈ rule.flatMap DeepAttributeRule.ownKeys, key ∈ own)
    (hrel : ∀ key ∈ rule.flatMap DeepAttributeRule.relKeys, key ∈ rel) :
    ∀ s ∈ rule, RuleKept s own rel := fun _ hs =>
  ⟨fun key hkey => hown key (List.mem_flatMap_of_mem hs hkey),
    fun key hkey => hrel key (List.mem_flatMap_of_mem hs hkey)⟩

theorem mem_ways (key : String) : key ∈ o.getKeptAttributeKeys.ways ↔ WayKey o key := by
  simp only [OsmReadOptions.getKeptAttributeKeys, WayKey, List.mem_append, List.mem_flatMap,
    List.mem_filter, List.mem_finRange, true_and, decide_eq_true_iff, List.mem_singleton, or_assoc]

theorem mem_rels (key : String) : key ∈ o.getKeptAttributeKeys.rels ↔ RelKey o key := by
  simp only [OsmReadOptions.getKeptAttributeKeys, RelKey, List.mem_append, List.mem_flatMap,
    or_assoc]

theorem kept_nodes {key : String}
    (h : key ∈ o.keepFilter.keys ∨ key ∈ o.dropFilter.keys ∨ key ∈ o.stationFilter.keys ∨
      key ∈ o.stationBlockerFilter.keys) : key ∈ o.getKeptAttributeKeys.nodes := by
  simp only [OsmReadOptions.getKeptAttributeKeys, List.mem_append]
  rcases h with h | h | h | h
  · simp only [h, or_true, true_or]
  · simp only [h, or_true, true_or]
  · simp only [h, or_true, true_or]
  · simp only [h, or_true, true_or]

theorem stationRules_kept {rule : List DeepAttributeRule}
    (h : rule = o.statAttrRules.nameRule ∨ rule = o.statAttrRules.platformRule ∨
      rule = o.statAttrRules.idRule) :
    ∀ s ∈ rule, RuleKept s o.getKeptAttributeKeys.nodes o.getKeptAttributeKeys.rels := by
  refine rulesKept (fun key hkey => ?_) fun key hkey => ?_
  · simp only [OsmReadOptions.getKeptAttributeKeys, List.mem_append]
    rcases h with rfl | rfl | rfl
    · simp only [hkey, or_true, true_or]
    · simp only [hkey, or_true, true_or]
    · simp only [hkey, or_true]
  · simp only [OsmReadOptions.getKeptAttributeKeys, List.mem_append]
    rcases h with rfl | rfl | rfl
    · simp only [hkey, or_true, true_or]
    · simp only [hkey, or_true, true_or]
    · simp only [hkey, or_true]

theorem groupRules_kept {rule : StationGroupNodeAttributeRule C}
    (h : rule ∈ o.statGroupNAttrRules) :
    RuleKept rule.attr o.getKeptAttributeKeys.nodes o.getKeptAttributeKeys.rels := by
  constructor
  · intro key hkey
    have hmem : key ∈ o.statGroupNAttrRules.flatMap fun i => i.attr.ownKeys :=
      List.mem_flatMap.2 ⟨rule, h, hkey⟩
    simp only [OsmReadOptions.getKeptAttributeKeys, List.mem_append, hmem, true_or]
  · intro key hkey
    have hmem : key ∈ o.statGroupNAttrRules.flatMap fun i => i.attr.relKeys :=
      List.mem_flatMap.2 ⟨rule, h, hkey⟩
    simp only [OsmReadOptions.getKeptAttributeKeys, List.mem_append, hmem, true_or]

theorem nodeDecisions_restrict (hiter : ∀ attrs, (iter attrs).Perm attrs) :
    nodeDecisions norm iter o id entRels (rels.map (restrict o.getKeptAttributeKeys.rels))
        (restrict o.getKeptAttributeKeys.nodes attrs) =
      nodeDecisions norm iter o id entRels rels attrs := by
  simp only [nodeDecisions, NodeDecisions.mk.injEq]
  refine ⟨?_, ?_, ?_, ?_, ?_, ?_, ?_, ?_⟩
  · exact decide_eq_decide.2 (contained_restrict hiter (fun _ h => kept_nodes o (.inl h)) .node)
  · exact decide_eq_decide.2
      (contained_restrict hiter (fun _ h => kept_nodes o (.inr (.inl h))) .node)
  · exact decide_eq_decide.2
      (contained_restrict hiter (fun _ h => kept_nodes o (.inr (.inr (.inl h)))) .node)
  · exact decide_eq_decide.2
      (contained_restrict hiter (fun _ h => kept_nodes o (.inr (.inr (.inr h)))) .node)
  · exact getAttrMatchRanked_restrict (stationRules_kept o (.inl rfl)) id entRels rels _
  · rw [getAttrByFirstMatch, getAttrByFirstMatch,
      getAttrMatchRanked_restrict (stationRules_kept o (.inr (.inl rfl)))]
  · rw [getAttrByFirstMatch, getAttrByFirstMatch,
      getAttrMatchRanked_restrict (stationRules_kept o (.inr (.inr rfl)))]
  · refine List.map_congr_left fun rule hrule => ?_
    exact getAttribute_restrict (groupRules_kept o hrule) id entRels rels

theorem edgeRules_kept : ∀ s ∈ o.edgePlatformRules,
    RuleKept s o.getKeptAttributeKeys.ways o.getKeptAttributeKeys.rels := by
  refine rulesKept (fun key hkey => ?_) fun key hkey => ?_
  · simp only [OsmReadOptions.getKeptAttributeKeys, List.mem_append, hkey, or_true]
  · simp only [OsmReadOptions.getKeptAttributeKeys, List.mem_append, hkey, or_true, true_or]

theorem anyValue_keys {m : RuleMap} {key v : String} (h : anyValue m.map key v = true) :
    key ∈ m.keys := by
  by_contra hnot
  rw [anyValue, m.map_eq_nil hnot] at h
  cases h

theorem kept_ways {key : String}
    (h : key ∈ o.keepFilter.keys ∨ key ∈ o.dropFilter.keys ∨ key ∈ o.oneWayFilter.keys ∨
      key ∈ o.oneWayFilterRev.keys ∨ key ∈ o.twoWayFilter.keys ∨
      ∃ i : Fin 8, i.val < 7 ∧ key ∈ (o.levelFilters i).keys) :
    key ∈ o.getKeptAttributeKeys.ways := by
  rw [mem_ways, WayKey]
  rcases h with h | h | h | h | h | h
  · exact .inl h
  · exact .inr (.inl h)
  · exact .inr (.inr (.inl h))
  · exact .inr (.inr (.inr (.inl h)))
  · exact .inr (.inr (.inr (.inr (.inl h))))
  · exact .inr (.inr (.inr (.inr (.inr (.inl h)))))

theorem maxspeed_kept : "maxspeed" ∈ o.getKeptAttributeKeys.ways := by
  rw [mem_ways]
  exact .inr (.inr (.inr (.inr (.inr (.inr (.inl rfl))))))

theorem levelMatches_lower {i : Fin 8} (hi : i.val < 7) :
    o.filter.levelMatches (restrict o.getKeptAttributeKeys.ways attrs) i =
      o.filter.levelMatches attrs i := by
  rw [Bool.eq_iff_iff, ReadFilter.levelMatches, ReadFilter.levelMatches, List.any_eq_true,
    List.any_eq_true]
  constructor
  · intro hex
    obtain ⟨kv, hkv, hval⟩ := hex
    exact ⟨kv, (mem_restrict.1 hkv).1, hval⟩
  · intro hex
    obtain ⟨kv, hkv, hval⟩ := hex
    have hkey := kept_ways o (.inr (.inr (.inr (.inr (.inr ⟨i, hi, anyValue_keys hval⟩)))))
    exact ⟨kv, mem_restrict.2 ⟨hkv, hkey⟩, hval⟩

theorem levels_split :
    List.finRange 8 = ((List.finRange 8).filter fun j => j.val < 7) ++ [7] := by decide

theorem lowerLevels_restrict :
    (((List.finRange 8).filter fun j => j.val < 7).find? fun i =>
        o.filter.levelMatches (restrict o.getKeptAttributeKeys.ways attrs) i) =
      ((List.finRange 8).filter fun j => j.val < 7).find? fun i =>
        o.filter.levelMatches attrs i := by
  rw [List.find?_filter, List.find?_filter]
  congr 1
  funext i
  by_cases hi : i.val < 7
  · rw [levelMatches_lower o attrs hi]
  · simp only [hi, decide_false, Bool.false_eq_true, false_and]

theorem level_of_none (h : ∀ i : Fin 8, i.val < 7 → o.filter.levelMatches attrs i = false) :
    o.filter.level attrs = if o.filter.levelMatches attrs 7 then 7 else 0 := by
  have hnone : (((List.finRange 8).filter fun j => j.val < 7).find? fun i =>
      o.filter.levelMatches attrs i) = none := by
    refine List.find?_eq_none.2 fun i hi => ?_
    rw [h i (of_decide_eq_true (List.mem_filter.1 hi).2)]
    exact Bool.false_ne_true
  rw [ReadFilter.level, levels_split, List.find?_append, hnone, Option.none_or,
    List.find?_singleton]
  split
  · rfl
  · rfl

theorem level_of_some {i : Fin 8} (hi : i.val < 7) (h : o.filter.levelMatches attrs i = true) :
    o.filter.level (restrict o.getKeptAttributeKeys.ways attrs) = o.filter.level attrs := by
  have hmem : i ∈ (List.finRange 8).filter fun j => j.val < 7 :=
    List.mem_filter.2 ⟨List.mem_finRange i, decide_eq_true hi⟩
  rw [ReadFilter.level, ReadFilter.level, levels_split, List.find?_append, List.find?_append,
    lowerLevels_restrict]
  cases hfind : ((List.finRange 8).filter fun j => j.val < 7).find? fun i =>
      o.filter.levelMatches attrs i with
  | none => exact absurd h (List.find?_eq_none.1 hfind i hmem)
  | some j => rfl

theorem lastLevel_lost :
    ((∃ kv ∈ attrs, anyValue (o.filter.levelRules 7) kv.1 kv.2 = true) ∧
      ∀ kv ∈ attrs, anyValue (o.filter.levelRules 7) kv.1 kv.2 = true → ¬ WayKey o kv.1) ↔
      o.filter.levelMatches attrs 7 = true ∧
        o.filter.levelMatches (restrict o.getKeptAttributeKeys.ways attrs) 7 = false := by
  rw [ReadFilter.levelMatches, ReadFilter.levelMatches, List.any_eq_true, List.any_eq_false]
  refine and_congr_right fun _ => ⟨fun h kv hkv hval => ?_, fun h kv hkv hval hkey => ?_⟩
  · exact h kv (mem_restrict.1 hkv).1 hval ((mem_ways o _).1 (mem_restrict.1 hkv).2)
  · exact h kv (mem_restrict.2 ⟨hkv, (mem_ways o _).2 hkey⟩) hval

theorem level_restrict_iff :
    o.filter.level (restrict o.getKeptAttributeKeys.ways attrs) = o.filter.level attrs ↔
      ¬ LevelLost o attrs := by
  by_cases hall : ∀ i : Fin 8, i.val < 7 → o.filter.levelMatches attrs i = false
  · have hlost : LevelLost o attrs ↔ o.filter.levelMatches attrs 7 = true ∧
        o.filter.levelMatches (restrict o.getKeptAttributeKeys.ways attrs) 7 = false := by
      rw [← lastLevel_lost, LevelLost]
      exact and_iff_right hall
    rw [hlost, level_of_none o attrs hall, level_of_none o _ fun i hi =>
      (levelMatches_lower o attrs hi).trans (hall i hi)]
    have hmono : o.filter.levelMatches (restrict o.getKeptAttributeKeys.ways attrs) 7 = true →
        o.filter.levelMatches attrs 7 = true := by
      rw [ReadFilter.levelMatches, ReadFilter.levelMatches, List.any_eq_true, List.any_eq_true]
      intro hex
      obtain ⟨kv, hkv, hval⟩ := hex
      exact ⟨kv, (mem_restrict.1 hkv).1, hval⟩
    cases hres : o.filter.levelMatches (restrict o.getKeptAttributeKeys.ways attrs) 7 with
    | true => simp only [hmono hres, if_true, Bool.true_eq_false, and_false, not_false_eq_true]
    | false =>
      cases hfull : o.filter.levelMatches attrs 7 with
      | true => decide
      | false => decide
  · obtain ⟨i, hi⟩ := not_forall.1 hall
    obtain ⟨hlow, hmatch⟩ := Classical.not_imp.1 hi
    have hsame := level_of_some o attrs hlow (Bool.of_not_eq_false hmatch)
    exact ⟨fun _ hlost => hall hlost.1, fun _ => hsame⟩

theorem lineNames_restrict (rel : AttributeMap) :
    lineNames norm o (restrict o.getKeptAttributeKeys.rels rel) = lineNames norm o rel := by
  have hs : ∀ key ∈ o.relLinerules.sNameRule, key ∈ o.getKeptAttributeKeys.rels := fun key h => by
    simp only [OsmReadOptions.getKeptAttributeKeys, List.mem_append, h, or_true, true_or]
  have hfrom : ∀ key ∈ o.relLinerules.fromNameRule, key ∈ o.getKeptAttributeKeys.rels :=
    fun key h => by
      simp only [OsmReadOptions.getKeptAttributeKeys, List.mem_append, h, or_true, true_or]
  have hto : ∀ key ∈ o.relLinerules.toNameRule, key ∈ o.getKeptAttributeKeys.rels :=
    fun key h => by
      simp only [OsmReadOptions.getKeptAttributeKeys, List.mem_append, h, or_true, true_or]
  rw [lineNames, lineNames, lineName_restrict hs, lineName_restrict hfrom, lineName_restrict hto]

theorem wayDecisions_restrict_iff (hiter : ∀ attrs, (iter attrs).Perm attrs) :
    wayDecisions norm iter o id entRels (rels.map (restrict o.getKeptAttributeKeys.rels))
        (restrict o.getKeptAttributeKeys.ways attrs) =
      wayDecisions norm iter o id entRels rels attrs ↔ ¬ LevelLost o attrs := by
  rw [← level_restrict_iff]
  constructor
  · intro h
    exact congrArg WayDecisions.level h
  · intro hlevel
    simp only [wayDecisions, WayDecisions.mk.injEq]
    refine ⟨?_, ?_, ?_, ?_, hlevel, ?_, ?_, ?_⟩
    · exact decide_eq_decide.2 (contained_restrict hiter (fun _ h => kept_ways o (.inl h)) .way)
    · exact decide_eq_decide.2
        (contained_restrict hiter (fun _ h => kept_ways o (.inr (.inl h))) .way)
    · exact decide_eq_decide.2 (guarded_restrict hiter
        (fun _ h => kept_ways o (.inr (.inr (.inr (.inr (.inl h))))))
        (fun _ h => kept_ways o (.inr (.inr (.inl h)))) .way)
    · exact decide_eq_decide.2 (guarded_restrict hiter
        (fun _ h => kept_ways o (.inr (.inr (.inr (.inr (.inl h))))))
        (fun _ h => kept_ways o (.inr (.inr (.inr (.inl h))))) .way)
    · exact lookup_restrict (maxspeed_kept o)
    · rw [getAttrByFirstMatch, getAttrByFirstMatch,
        getAttrMatchRanked_restrict (edgeRules_kept o)]
    · have hrel : (fun relId : ℕ => (rels.map (restrict o.getKeptAttributeKeys.rels))[relId]?) =
          fun relId => (rels[relId]?).map (restrict o.getKeptAttributeKeys.rels) :=
        funext fun relId => List.getElem?_map
      rw [hrel, ← List.map_filterMap, List.map_map]
      refine List.map_congr_left fun rel _ => ?_
      exact lineNames_restrict o rel

/-- The keys that are looked at on a relation itself, but for `type`. -/
theorem kept_rels {key : String}
    (h : key ∈ o.keepFilter.keys ∨ key ∈ o.dropFilter.keys ∨ key ∈ o.restrPosRestr.keys ∨
      key ∈ o.restrNegRestr.keys ∨ key ∈ o.noRestrFilter.keys) :
    key ∈ o.getKeptAttributeKeys.rels := by
  simp only [OsmReadOptions.getKeptAttributeKeys, List.mem_append]
  rcases h with h | h | h | h | h
  · simp only [h, or_true, true_or]
  · simp only [h, or_true, true_or]
  · simp only [h, or_true, true_or]
  · simp only [h, or_true, true_or]
  · simp only [h, or_true, true_or]

/-- A relation is read as a restriction in the same way, unless its `type` is lost. -/
theorem restr_restrict_iff (p q : Prop) [Decidable p] [Decidable q] :
    (decide ((restrict o.getKeptAttributeKeys.rels attrs).lookup "type" = some "restriction" ∧ p) =
          decide (attrs.lookup "type" = some "restriction" ∧ p) ∧
        decide ((restrict o.getKeptAttributeKeys.rels attrs).lookup "type" =
            some "restriction" ∧ q) =
          decide (attrs.lookup "type" = some "restriction" ∧ q)) ↔
      ¬ (¬ RelKey o "type" ∧ attrs.lookup "type" = some "restriction" ∧ (p ∨ q)) := by
  rw [← mem_rels]
  by_cases hkey : "type" ∈ o.getKeptAttributeKeys.rels
  · rw [lookup_restrict hkey]
    exact ⟨fun _ h => h.1 hkey, fun _ => ⟨rfl, rfl⟩⟩
  · rw [lookup_restrict_none hkey, decide_eq_decide, decide_eq_decide]
    have hnone : ¬ (none : Option String) = some "restriction" := nofun
    tauto

theorem relationDecisions_restrict_iff (hiter : ∀ attrs, (iter attrs).Perm attrs) :
    relationDecisions iter o (restrict o.getKeptAttributeKeys.rels attrs) =
      relationDecisions iter o attrs ↔ ¬ TypeLost iter o attrs := by
  have hkeep : o.filter.keep iter (restrict o.getKeptAttributeKeys.rels attrs) .rel ≠ 0 ↔
      o.filter.keep iter attrs .rel ≠ 0 :=
    contained_restrict hiter (fun _ h => kept_rels o (.inl h)) .rel
  have hdrop : o.filter.drop iter (restrict o.getKeptAttributeKeys.rels attrs) .rel ≠ 0 ↔
      o.filter.drop iter attrs .rel ≠ 0 :=
    contained_restrict hiter (fun _ h => kept_rels o (.inr (.inl h))) .rel
  have hpos : o.filter.posRestr iter (restrict o.getKeptAttributeKeys.rels attrs) ≠ 0 ↔
      o.filter.posRestr iter attrs ≠ 0 :=
    guarded_restrict hiter (fun _ h => kept_rels o (.inr (.inr (.inr (.inr h)))))
      (fun _ h => kept_rels o (.inr (.inr (.inl h)))) .all
  have hneg : o.filter.negRestr iter (restrict o.getKeptAttributeKeys.rels attrs) ≠ 0 ↔
      o.filter.negRestr iter attrs ≠ 0 :=
    guarded_restrict hiter (fun _ h => kept_rels o (.inr (.inr (.inr (.inr h)))))
      (fun _ h => kept_rels o (.inr (.inr (.inr (.inl h))))) .all
  rw [TypeLost, ← restr_restrict_iff, relationDecisions, relationDecisions,
    RelationDecisions.mk.injEq]
  simp only [hpos, hneg, decide_eq_decide.2 hkeep, decide_eq_decide.2 hdrop, true_and]

end elements

section main
variable {C : Type*}

/-- Nothing is lost exactly when no level and no type is. -/
theorem keptKeys_suffice_iff (norm : ReplRules → String → String)
    (iter : AttributeMap → AttributeMap) (hiter : ∀ attrs, (iter attrs).Perm attrs)
    (o : OsmReadOptions C) (id : Osmid) (entRels : Osmid → List ℕ) (rels : List AttributeMap)
    (nodeAttrs wayAttrs relAttrs : AttributeMap) :
    (nodeDecisions norm iter o id entRels (rels.map (restrict o.getKeptAttributeKeys.rels))
            (restrict o.getKeptAttributeKeys.nodes nodeAttrs) =
          nodeDecisions norm iter o id entRels rels nodeAttrs ∧
        wayDecisions norm iter o id entRels (rels.map (restrict o.getKeptAttributeKeys.rels))
            (restrict o.getKeptAttributeKeys.ways wayAttrs) =
          wayDecisions norm iter o id entRels rels wayAttrs ∧
        relationDecisions iter o (restrict o.getKeptAttributeKeys.rels relAttrs) =
          relationDecisions iter o relAttrs) ↔
      ¬ LevelLost o wayAttrs ∧ ¬ TypeLost iter o relAttrs := by
  rw [wayDecisions_restrict_iff o id entRels rels wayAttrs hiter,
    relationDecisions_restrict_iff o relAttrs hiter]
  exact and_iff_right (nodeDecisions_restrict o id entRels rels nodeAttrs hiter)

/-- Tracks are kept, sidings are of the last level, and turns may be forbidden. -/
def sidingOptions : OsmReadOptions ℕ where
  noHupFilter := .empty
  keepFilter := .ofRules [⟨("railway", "rail"), []⟩]
  levelFilters i := if i.val = 7 then .ofRules [⟨("service", "siding"), []⟩] else .empty
  dropFilter := .empty
  oneWayFilter := .empty
  oneWayFilterRev := .empty
  twoWayFilter := .empty
  stationFilter := .empty
  stationBlockerFilter := .empty
  statGroupNAttrRules := []
  statNormzer := []
  lineNormzer := []
  trackNormzer := []
  idNormzer := []
  relLinerules := ⟨[], [], []⟩
  statAttrRules := ⟨[], [], []⟩
  edgePlatformRules := []
  maxSnapLevel := 7
  maxAngleSnapReach := 0
  maxSnapDistances := []
  maxSnapFallbackHeurDistance := 0
  maxBlockDistance := 0
  maxOsmStationDistance := 0
  levelSnapPunishFac _ := 0
  fullTurnAngle := 0
  restrPosRestr := .empty
  restrNegRestr := .ofRules [⟨("restriction", "no_left_turn"), []⟩]
  noRestrFilter := .empty

theorem keptKeys_suffice_iff_rail :
    nodeDecisions (fun _ s => s) (fun attrs => attrs) sidingOptions 1 (fun _ => [])
          ([].map (restrict sidingOptions.getKeptAttributeKeys.rels))
          (restrict sidingOptions.getKeptAttributeKeys.nodes [("railway", "rail")]) =
        nodeDecisions (fun _ s => s) (fun attrs => attrs) sidingOptions 1 (fun _ => []) []
          [("railway", "rail")] ∧
      wayDecisions (fun _ s => s) (fun attrs => attrs) sidingOptions 1 (fun _ => [])
          ([].map (restrict sidingOptions.getKeptAttributeKeys.rels))
          (restrict sidingOptions.getKeptAttributeKeys.ways [("railway", "rail")]) =
        wayDecisions (fun _ s => s) (fun attrs => attrs) sidingOptions 1 (fun _ => []) []
          [("railway", "rail")] ∧
      relationDecisions (fun attrs => attrs) sidingOptions
          (restrict sidingOptions.getKeptAttributeKeys.rels [("type", "route")]) =
        relationDecisions (fun attrs => attrs) sidingOptions [("type", "route")] :=
  (keptKeys_suffice_iff (fun _ s => s) (fun attrs => attrs) (fun _ => List.Perm.refl _)
    sidingOptions 1 (fun _ => []) [] [("railway", "rail")] [("railway", "rail")]
    [("type", "route")]).2
    ⟨fun h => absurd h.2.1 (by decide +kernel), fun h => absurd h.2.1 (by decide +kernel)⟩

/-- A siding gets another level, and a forbidden turn is not forbidden any more. -/
theorem keptKeys_lose :
    (wayDecisions (fun _ s => s) (fun attrs => attrs) sidingOptions 1 (fun _ => []) []
          (restrict sidingOptions.getKeptAttributeKeys.ways
            [("railway", "rail"), ("service", "siding")])).level = 0 ∧
      (wayDecisions (fun _ s => s) (fun attrs => attrs) sidingOptions 1 (fun _ => []) []
          [("railway", "rail"), ("service", "siding")]).level = 7 ∧
      (relationDecisions (fun attrs => attrs) sidingOptions
          (restrict sidingOptions.getKeptAttributeKeys.rels
            [("type", "restriction"), ("restriction", "no_left_turn")])).negRestr = false ∧
      (relationDecisions (fun attrs => attrs) sidingOptions
          [("type", "restriction"), ("restriction", "no_left_turn")]).negRestr = true := by
  decide +kernel

end main

end Pfaedle.KeptKeys

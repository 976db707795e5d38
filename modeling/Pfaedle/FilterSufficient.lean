import Pfaedle.WrittenDocument

set_option autoImplicit false

/-!
# Is the filtered document sufficient?

An option reads the same graph from the written document, if the merged filter keeps what the
option wants and what is dropped from elements does not decide.
-/
namespace Pfaedle.OsmBuilder
open DirGraphs Osm OsmRelations Restriction ODirEdges KeptKeys ReadEdges BoundingBoxes FilterMerge

section spec
variable {C : Type*} [Field C] [LinearOrder C] (iter : AttributeMap → AttributeMap)
  (bbox : BoundingBox C) (doc : List (XmlElement C)) (o : OsmReadOptions C)

def wantsWay (x : XmlElement C) : Prop :=
  wayWanted iter o.filter.toOsmFilter o.getKeptAttributeKeys.rels (xmlRelations doc)
    (x.way o.getKeptAttributeKeys.ways) (inBBox bbox doc o.filter)

def wayDecided (x : XmlElement C) : Prop :=
  ¬ wayTests iter o.filter.toOsmFilter (x.way o.getKeptAttributeKeys.ways)
      (inBBox bbox doc o.filter) ∨
    o.filter.keep iter (readAttrs o.getKeptAttributeKeys.ways x.tags) .way ≠ 0 ∨
    Decided iter o.filter.toOsmFilter o.getKeptAttributeKeys.rels .way x.id (xmlRelations doc)

def nodeTests (x : XmlElement C) : Prop :=
  x.id ≠ 0 ∧ inBBox bbox doc o.filter x.id = true ∧
    o.filter.drop iter (readAttrs o.getKeptAttributeKeys.nodes x.tags) .node = 0

def wantsNode (x : XmlElement C) : Prop :=
  nodeTests iter bbox doc o x ∧
    (o.filter.keep iter (readAttrs o.getKeptAttributeKeys.nodes x.tags) .node ≠ 0 ∨
      KeptMember iter o.filter.toOsmFilter o.getKeptAttributeKeys.rels .node x.id
        (xmlRelations doc))

def nodeDecided (x : XmlElement C) : Prop :=
  ¬ nodeTests iter bbox doc o x ∨
    o.filter.keep iter (readAttrs o.getKeptAttributeKeys.nodes x.tags) .node ≠ 0 ∨
    Decided iter o.filter.toOsmFilter o.getKeptAttributeKeys.rels .node x.id (xmlRelations doc)

def apartStation (x : XmlElement C) : Prop :=
  o.filter.station iter (readAttrs o.getKeptAttributeKeys.nodes x.tags) ≠ 0 ∧
    ∀ w ∈ children "way" doc, wantsWay iter bbox doc o w → x.id ∉ w.nds

variable (opts : List (OsmReadOptions C)) (uninit : ℕ → UInt64)

/-- Nothing that the option looks at is lost. -/
structure Covered : Prop where
  waysDecided : ∀ x ∈ children "way" doc, wayDecided iter bbox doc o x
  waysKept : ∀ x ∈ children "way" doc, wantsWay iter bbox doc o x →
    wayWritten iter bbox opts uninit doc x = true
  nodesDecided : ∀ x ∈ children "node" doc, apartStation iter bbox doc o x →
    nodeDecided iter bbox doc o x
  nodesKept : ∀ x ∈ children "node" doc, apartStation iter bbox doc o x →
    wantsNode iter bbox doc o x → nodeWritten iter bbox opts uninit doc x = true
  /-- A node without an id is never written. -/
  nodeIds : ∀ w ∈ children "way" doc, wantsWay iter bbox doc o w → 0 ∈ w.nds →
    inBBox bbox doc o.filter 0 = false
  /-- No later tag with the same key overrides a no-hup tag. -/
  noHupTags : ∀ w ∈ children "way" doc, wantsWay iter bbox doc o w →
    ∀ x ∈ children "node" doc, x.id ∈ w.nds →
      (∃ tag ∈ x.tags, o.filter.nohup tag.1 tag.2 = true) →
        ∃ kv ∈ readAttrs o.getKeptAttributeKeys.nodes x.tags, o.filter.nohup kv.1 kv.2 = true
  /-- The order of the attributes does not decide whether a relation is flat. -/
  flatFlags : ∀ y ∈ xmlRelations doc, ∀ kind id, isWritten iter bbox opts uninit doc kind id = true →
    id ∈ memberIds kind y → isKept iter o.filter.toOsmFilter o.getKeptAttributeKeys.rels y →
      SameFlags (· &&& relNoDown) o.filter.keepRules .rel
        (readAttrs o.getKeptAttributeKeys.rels y.tags)
  /-- At the nodes of a way, every relation states the same rules for it without the members that
  are not written. -/
  rules : ∀ w ∈ children "way" doc, wantsWay iter bbox doc o w → ∀ nid ∈ w.nds,
    ∀ y ∈ xmlRelations doc, ∀ pos,
      concerning w.id (statedAt iter o.filter.toOsmFilter (readRelation iter o.filter.toOsmFilter
          o.getKeptAttributeKeys.rels (onlyReal (isWritten iter bbox opts uninit doc) y)) pos nid) =
        concerning w.id (statedAt iter o.filter.toOsmFilter
          (readRelation iter o.filter.toOsmFilter o.getKeptAttributeKeys.rels y) pos nid)

end spec

section kept
variable {C : Type*} [Field C] [LinearOrder C] {iter : AttributeMap → AttributeMap}
  {bbox : BoundingBox C} {doc : List (XmlElement C)} {o : OsmReadOptions C} {x : XmlElement C}

theorem wayKept_iff (h : wayDecided iter bbox doc o x) (uninit : ℕ → UInt64) :
    wayKept iter bbox o uninit doc (x.way o.getKeptAttributeKeys.ways) = true ↔
      wantsWay iter bbox doc o x :=
  (keepWay_wanted_iff iter o.filter.toOsmFilter o.getKeptAttributeKeys.rels (xmlRelations doc)
    (x.way o.getKeptAttributeKeys.ways) (inBBox bbox doc o.filter)).2 h uninit

theorem nodeKept_iff (h : nodeDecided iter bbox doc o x) (uninit : ℕ → UInt64)
    {st : ReadState (NodeData C) WayData} (hnodes : st.nodes x.id = none)
    (hmult : st.multNodes x.id = []) :
    nodeKept iter bbox o uninit doc st x = true ↔ wantsNode iter bbox doc o x := by
  have hshould : ∀ d : Decided iter o.filter.toOsmFilter o.getKeptAttributeKeys.rels .node x.id
      (xmlRelations doc), shouldKeepRelation x.id (relationsRead iter o uninit doc).nodeRels
        (relationsRead iter o uninit doc).flat = true ↔
      KeptMember iter o.filter.toOsmFilter o.getKeptAttributeKeys.rels .node x.id
        (xmlRelations doc) := fun d => d.shouldKeep_iff
  simp only [nodeKept, keepNode, hnodes, hmult, wantsNode, nodeTests, decide_eq_true_iff]
  simp only [Option.isSome_none, List.isEmpty_nil, Bool.not_true, Bool.false_eq_true, false_or]
  rcases h with hnot | hkeep | hdecided
  · rw [nodeTests] at hnot
    tauto
  · tauto
  · rw [hshould hdecided]
    tauto

end kept

section reading
variable {C : Type*} [Field C] [LinearOrder C] {iter : AttributeMap → AttributeMap}
  {bbox : BoundingBox C} {opts : List (OsmReadOptions C)} {uninit : ℕ → UInt64}
  {doc : List (XmlElement C)} (hids : UniqueIds doc) (hiter : ∀ attrs, (iter attrs).Perm attrs)
  {o : OsmReadOptions C} (ho : o ∈ opts) {kind : MemberKind} {id : Osmid}
  (hreal : isWritten iter bbox opts uninit doc kind id = true)

section
omit [Field C] [LinearOrder C]

theorem rels_mem_merged (ho : o ∈ opts) :
    ∀ key ∈ o.getKeptAttributeKeys.rels, key ∈ (mergedKeys opts).rels :=
  fun _ hkey => List.mem_flatMap_of_mem ho hkey

theorem ways_mem_merged (ho : o ∈ opts) :
    ∀ key ∈ o.getKeptAttributeKeys.ways, key ∈ (mergedKeys opts).ways :=
  fun _ hkey => List.mem_flatMap_of_mem ho hkey

theorem nodes_mem_merged (ho : o ∈ opts) :
    ∀ key ∈ o.getKeptAttributeKeys.nodes, key ∈ (mergedKeys opts).nodes :=
  fun _ hkey => List.mem_flatMap_of_mem ho hkey

end

include hids hiter ho hreal

theorem sameRels_written (uninit' uninit'' : ℕ → UInt64) :
    SameRels id
      ((relationsRead iter o uninit' (filterWrite iter bbox opts uninit doc)).relMap kind)
      ((relationsRead iter o uninit'' doc).relMap kind)
      (relationsRead iter o uninit' (filterWrite iter bbox opts uninit doc)).rels
      (relationsRead iter o uninit'' doc).rels := by
  unfold SameRels relationsRead
  rw [relsOf_readRelations, relsOf_readRelations, relations_written hids]
  exact sameRels_rewritten hiter (rels_mem_merged ho) hreal _

variable (h : Covered iter bbox doc o opts uninit)
include h

theorem keptMember_written :
    KeptMember iter o.filter.toOsmFilter o.getKeptAttributeKeys.rels kind id
        (xmlRelations (filterWrite iter bbox opts uninit doc)) ↔
      KeptMember iter o.filter.toOsmFilter o.getKeptAttributeKeys.rels kind id
        (xmlRelations doc) := by
  rw [relations_written hids]
  exact keptMember_rewritten hiter (rels_mem_merged ho) o.keepFilter.map_used o.dropFilter.map_used
    hreal fun y hy => h.flatFlags y hy kind id hreal

theorem decided_written :
    Decided iter o.filter.toOsmFilter o.getKeptAttributeKeys.rels kind id
        (xmlRelations (filterWrite iter bbox opts uninit doc)) ↔
      Decided iter o.filter.toOsmFilter o.getKeptAttributeKeys.rels kind id
        (xmlRelations doc) := by
  rw [relations_written hids]
  exact decided_rewritten hiter (rels_mem_merged ho) o.keepFilter.map_used o.dropFilter.map_used
    hreal fun y hy => h.flatFlags y hy kind id hreal

end reading

section ways
variable {C : Type*} [Field C] [LinearOrder C] {iter : AttributeMap → AttributeMap}
  {bbox : BoundingBox C} {opts : List (OsmReadOptions C)} {uninit : ℕ → UInt64}
  {doc : List (XmlElement C)} (hids : UniqueIds doc) (hiter : ∀ attrs, (iter attrs).Perm attrs)
  {o : OsmReadOptions C} (ho : o ∈ opts) (h : Covered iter bbox doc o opts uninit)
  {x : XmlElement C} (hx : x ∈ children "way" doc)
  (hwritten : wayWritten iter bbox opts uninit doc x = true)

section
omit [LinearOrder C]

include hiter ho in
theorem wayAttrs_written (x : XmlElement C) :
    SameEntries ((wayElement iter opts x).way o.getKeptAttributeKeys.ways).attrs
      (x.way o.getKeptAttributeKeys.ways).attrs :=
  SameEntries.reread hiter (ways_mem_merged ho) x.tags

include hiter ho in
theorem drop_written : o.filter.drop iter ((wayElement iter opts x).way
      o.getKeptAttributeKeys.ways).attrs .way = 0 ↔
    o.filter.drop iter (x.way o.getKeptAttributeKeys.ways).attrs .way = 0 :=
  not_iff_not.1 ((wayAttrs_written hiter ho x).contained_iff hiter o.dropFilter.map_used .way)

include hiter ho in
theorem keep_written : o.filter.keep iter ((wayElement iter opts x).way
      o.getKeptAttributeKeys.ways).attrs .way ≠ 0 ↔
    o.filter.keep iter (x.way o.getKeptAttributeKeys.ways).attrs .way ≠ 0 :=
  (wayAttrs_written hiter ho x).contained_iff hiter o.keepFilter.map_used .way

end

include hids in
theorem wayTests_of_written (hiter : ∀ attrs, (iter attrs).Perm attrs) (ho : o ∈ opts)
    (htests : wayTests iter o.filter.toOsmFilter
      ((wayElement iter opts x).way o.getKeptAttributeKeys.ways)
      (inBBox bbox (filterWrite iter bbox opts uninit doc) o.filter)) :
    wayTests iter o.filter.toOsmFilter (x.way o.getKeptAttributeKeys.ways)
      (inBBox bbox doc o.filter) := by
  obtain ⟨hid, hlength, ⟨nid, hnid, hbox⟩, hdrop⟩ := htests
  exact ⟨hid, hlength, ⟨nid, hnid, (inBBox_of_written hids hbox).2⟩,
    (drop_written hiter ho).1 hdrop⟩

include hids hx hwritten

theorem inBBox_ref {nid : Osmid} (hnid : nid ∈ x.nds) (hne : nid ≠ 0) (filter : ReadFilter) :
    inBBox bbox (filterWrite iter bbox opts uninit doc) filter nid = inBBox bbox doc filter nid :=
  inBBox_written hids filter fun _ _ hid =>
    nodeWritten_of_ref hx hwritten (hid ▸ hnid) (hid ▸ hne)

include hiter ho h

theorem wayTests_written (hwants : wantsWay iter bbox doc o x) :
    wayTests iter o.filter.toOsmFilter ((wayElement iter opts x).way o.getKeptAttributeKeys.ways)
      (inBBox bbox (filterWrite iter bbox opts uninit doc) o.filter) := by
  obtain ⟨hid, hlength, ⟨nid, hnid, hbox⟩, hdrop⟩ := hwants.1
  refine ⟨hid, hlength, ⟨nid, hnid, ?_⟩, (drop_written hiter ho).2 hdrop⟩
  have hne : nid ≠ 0 := by
    intro hzero
    subst hzero
    rw [h.nodeIds x hx hwants hnid] at hbox
    cases hbox
  rw [inBBox_ref hids hx hwritten hnid hne]
  exact hbox

theorem wantsWay_written :
    wantsWay iter bbox (filterWrite iter bbox opts uninit doc) o (wayElement iter opts x) ↔
      wantsWay iter bbox doc o x := by
  have hkept := keptMember_written hids hiter ho (isWritten_way hx hwritten) h
  constructor
  · intro hwants
    refine ⟨wayTests_of_written hids hiter ho hwants.1, hwants.2.imp ?_ hkept.1⟩
    exact (keep_written hiter ho).1
  · intro hwants
    refine ⟨wayTests_written hids hiter ho h hx hwritten hwants, hwants.2.imp ?_ hkept.2⟩
    exact (keep_written hiter ho).2

theorem wayDecided_written :
    wayDecided iter bbox (filterWrite iter bbox opts uninit doc) o (wayElement iter opts x) := by
  rcases h.waysDecided x hx with hnot | hkeep | hdecided
  · exact Or.inl fun htests => hnot (wayTests_of_written hids hiter ho htests)
  · exact Or.inr (Or.inl ((keep_written hiter ho).2 hkeep))
  · refine Or.inr (Or.inr ?_)
    exact (decided_written hids hiter ho (isWritten_way hx hwritten) h).2 hdecided

theorem wayKept_written (uninit' uninit'' : ℕ → UInt64) :
    wayKept iter bbox o uninit' (filterWrite iter bbox opts uninit doc)
        ((wayElement iter opts x).way o.getKeptAttributeKeys.ways) =
      wayKept iter bbox o uninit'' doc (x.way o.getKeptAttributeKeys.ways) := by
  rw [Bool.eq_iff_iff, wayKept_iff (wayDecided_written hids hiter ho h hx hwritten),
    wayKept_iff (h.waysDecided x hx), wantsWay_written hids hiter ho h hx hwritten]

theorem readWay_written (hwants : wantsWay iter bbox doc o x)
    (norm : ReplRules → String → String) (uninit' uninit'' : ℕ → UInt64)
    (st : ReadState (NodeData C) WayData) :
    readWay (inBBox bbox (filterWrite iter bbox opts uninit doc) o.filter)
        (isNoHup bbox (filterWrite iter bbox opts uninit doc) o.filter)
        (relationsRead iter o uninit' (filterWrite iter bbox opts uninit doc)).rests
        (fun w => annotate (decideWay norm iter o uninit'
          (filterWrite iter bbox opts uninit doc) w)) st
        ((wayElement iter opts x).way o.getKeptAttributeKeys.ways) =
      readWay (inBBox bbox doc o.filter) (isNoHup bbox doc o.filter)
        (relationsRead iter o uninit'' doc).rests
        (fun w => annotate (decideWay norm iter o uninit'' doc w)) st
        (x.way o.getKeptAttributeKeys.ways) := by
  refine readWay_same ?_ ?_ ?_ (fun nid hnid => ⟨?_, ?_, fun pos => ?_⟩) st
  · rfl
  · rfl
  · have hdecide : decideWay norm iter o uninit' (filterWrite iter bbox opts uninit doc)
        ((wayElement iter opts x).way o.getKeptAttributeKeys.ways) =
          decideWay norm iter o uninit'' doc (x.way o.getKeptAttributeKeys.ways) :=
      wayDecisions_same hiter norm o (wayAttrs_written hiter ho x)
        (sameRels_written hids hiter ho (isWritten_way hx hwritten) uninit' uninit'')
    rw [hdecide]
  · by_cases hne : nid = 0
    · rw [hne, h.nodeIds x hx hwants (hne ▸ hnid), Bool.eq_false_iff]
      exact fun hbox => (inBBox_of_written hids hbox).1 rfl
    · exact inBBox_ref hids hx hwritten hnid hne o.filter
  · by_cases hne : nid = 0
    · have hnone : ∀ d : List (XmlElement C), isNoHup bbox d o.filter nid = false := by
        intro d
        rw [Bool.eq_false_iff]
        intro hup
        obtain ⟨-, -, -, -, hid, -⟩ := isNoHup_iff.1 hup
        exact hid hne
      rw [hnone, hnone]
    · refine isNoHup_written hids hiter ho (fun y _ hid => ?_) fun y hy hid => ?_
      · exact nodeWritten_of_ref hx hwritten (hid ▸ hnid) (hid ▸ hne)
      · exact h.noHupTags x hx hwants y hy (hid ▸ hnid)
  · unfold relationsRead
    rw [rulesAt_readRelations, rulesAt_readRelations, relations_written hids]
    exact concerning_rewritten hiter (rels_mem_merged ho) o.restrPosRestr.map_used
      o.restrNegRestr.map_used o.noRestrFilter.map_used
      fun y hy => h.rules x hx hwants nid hnid y hy pos

end ways

section edges
variable {C : Type*} [Field C] [LinearOrder C] {iter : AttributeMap → AttributeMap}
  {bbox : BoundingBox C} {opts : List (OsmReadOptions C)} {uninit : ℕ → UInt64}
  {doc : List (XmlElement C)} (hids : UniqueIds doc) (hiter : ∀ attrs, (iter attrs).Perm attrs)
  (hshared : NoSharedId iter bbox opts uninit doc) {o : OsmReadOptions C} (ho : o ∈ opts)
  (h : Covered iter bbox doc o opts uninit) (norm : ReplRules → String → String)
  (uninit' uninit'' : ℕ → UInt64)
include hids hiter hshared ho h

theorem edgesRead_written :
    edgesRead norm iter bbox o uninit' (filterWrite iter bbox opts uninit doc) =
      edgesRead norm iter bbox o uninit'' doc := by
  unfold edgesRead readEdges
  rw [children_ways hids hshared, List.foldl_filter, List.foldl_map, List.foldl_map,
    List.foldl_filter, List.foldl_filter, List.foldl_map]
  refine List.foldl_ext _ _ _ fun st x hx => ?_
  cases hwritten : wayWritten iter bbox opts uninit doc x with
  | true =>
    rw [if_pos rfl, wayKept_written hids hiter ho h hx hwritten uninit' uninit'']
    split
    · rename_i hkept
      have hwants := (wayKept_iff (h.waysDecided x hx) uninit'').1 hkept
      exact readWay_written hids hiter ho h hx hwritten hwants norm uninit' uninit'' st
    · rfl
  | false =>
    rw [if_neg Bool.false_ne_true, if_neg]
    intro hkept
    have hwants := (wayKept_iff (h.waysDecided x hx) uninit'').1 hkept
    rw [h.waysKept x hx hwants] at hwritten
    cases hwritten

end edges

section nodes
variable {C : Type*} [Field C] [LinearOrder C] {iter : AttributeMap → AttributeMap}
  {bbox : BoundingBox C} {opts : List (OsmReadOptions C)} {uninit : ℕ → UInt64}
  {doc : List (XmlElement C)} (hids : UniqueIds doc) (hiter : ∀ attrs, (iter attrs).Perm attrs)
  {o : OsmReadOptions C} (ho : o ∈ opts) (h : Covered iter bbox doc o opts uninit)
  (norm : ReplRules → String → String) (uninit' uninit'' : ℕ → UInt64)

def InGraph (st : ReadState (NodeData C) WayData) (nid : Osmid) : Prop := ∃ n, NodeOf st nid n

omit [Field C] [LinearOrder C] in
theorem not_inGraph {st : ReadState (NodeData C) WayData} {nid : Osmid} :
    ¬ InGraph st nid ↔ st.nodes nid = none ∧ st.multNodes nid = [] := by
  rw [InGraph, not_exists]
  constructor
  · intro hnone
    exact ⟨Option.eq_none_iff_forall_ne_some.2 fun n hn => hnone n (Or.inl hn),
      List.eq_nil_iff_forall_not_mem.2 fun n hn => hnone n (Or.inr hn)⟩
  · intro hnone n hn
    rw [NodeOf, hnone.1, hnone.2] at hn
    cases hn with
    | inl hsome => cases hsome
    | inr hmem => cases hmem

variable {x : XmlElement C} (hx : x ∈ children "node" doc)

include h in
theorem inGraph_ref {nid : Osmid} (hin : InGraph (edgesRead norm iter bbox o uninit'' doc) nid) :
    ∃ w ∈ children "way" doc, wantsWay iter bbox doc o w ∧ nid ∈ w.nds := by
  obtain ⟨n, hn⟩ := hin
  obtain ⟨v, hv, hkept, hnid⟩ := readEdges_nodeOf hn
  obtain ⟨w, hw, rfl⟩ := List.mem_map.1 hv
  exact ⟨w, hw, (wayKept_iff (h.waysDecided w hw) uninit'').1 hkept, hnid⟩

include h in
theorem ref_inGraph {w : XmlElement C} {nid : Osmid} (hw : w ∈ children "way" doc)
    (hwants : wantsWay iter bbox doc o w) (hnid : nid ∈ w.nds)
    (hbox : inBBox bbox doc o.filter nid = true) :
    InGraph (edgesRead norm iter bbox o uninit'' doc) nid :=
  nodeOf_readEdges (List.mem_map_of_mem hw)
    ((wayKept_iff (h.waysDecided w hw) uninit'').2 hwants) hnid hbox

theorem nodeKept_id {st : ReadState (NodeData C) WayData}
    (hkept : nodeKept iter bbox o uninit'' doc st x = true) : x.id ≠ 0 := (of_decide_eq_true hkept).1

theorem readNode_apart {st : ReadState (NodeData C) WayData} (hout : ¬ InGraph st x.id)
    (sur : Surroundings C) (b : Built C) :
    readNode norm iter sur bbox o uninit'' doc st b x =
      if nodeKept iter bbox o uninit'' doc st x = true ∧
          (decideNode norm iter o uninit'' doc x).station = true then
        addOrphan sur o (decideNode norm iter o uninit'' doc x)
          (sur.latLngToWebMerc x.lat x.lon) b
      else b := by
  obtain ⟨hnodes, hmult⟩ := not_inGraph.1 hout
  unfold readNode
  simp only [hnodes, hmult, List.isEmpty_nil, if_true]
  rw [ite_and]

include h hx in
theorem readNode_unwritten (hwritten : nodeWritten iter bbox opts uninit doc x ≠ true)
    (sur : Surroundings C) (b : Built C) :
    readNode norm iter sur bbox o uninit'' doc (edgesRead norm iter bbox o uninit'' doc) b x =
      b := by
  by_cases hid : x.id = 0
  · have hkept : ¬ nodeKept iter bbox o uninit'' doc
        (edgesRead norm iter bbox o uninit'' doc) x = true :=
      fun hkept => nodeKept_id uninit'' hkept hid
    unfold readNode
    rw [if_neg hkept]
  have hrefs : ∀ w ∈ children "way" doc, wantsWay iter bbox doc o w → x.id ∉ w.nds :=
    fun w hw hwants hnid => hwritten (nodeWritten_of_ref hw (h.waysKept w hw hwants) hnid hid)
  have hout : ¬ InGraph (edgesRead norm iter bbox o uninit'' doc) x.id := by
    intro hin
    obtain ⟨w, hw, hwants, hnid⟩ := inGraph_ref h norm uninit'' hin
    exact hrefs w hw hwants hnid
  rw [readNode_apart norm uninit'' hout, if_neg]
  intro hboth
  have hapart : apartStation iter bbox doc o x := ⟨of_decide_eq_true hboth.2, hrefs⟩
  obtain ⟨hnodes, hmult⟩ := not_inGraph.1 hout
  have hwants := (nodeKept_iff (h.nodesDecided x hx hapart) uninit'' hnodes hmult).1 hboth.1
  exact hwritten (h.nodesKept x hx hapart hwants)

omit [Field C] [LinearOrder C] in
include hiter ho in
theorem nodeKeep_written : o.filter.keep iter
      (readAttrs o.getKeptAttributeKeys.nodes (nodeElement iter opts x).tags) .node ≠ 0 ↔
    o.filter.keep iter (readAttrs o.getKeptAttributeKeys.nodes x.tags) .node ≠ 0 :=
  (SameEntries.reread hiter (nodes_mem_merged ho) x.tags).contained_iff hiter o.keepFilter.map_used
    .node

variable (hwritten : nodeWritten iter bbox opts uninit doc x = true)
include hids hx hwritten

theorem inBBox_node : inBBox bbox (filterWrite iter bbox opts uninit doc) o.filter x.id =
    inBBox bbox doc o.filter x.id :=
  inBBox_written hids o.filter fun _ hy hid =>
    List.inj_on_of_nodup_map hids.nodes hx hy hid ▸ hwritten

theorem nodeKept_inGraph {st : ReadState (NodeData C) WayData} (hin : InGraph st x.id) :
    nodeKept iter bbox o uninit' (filterWrite iter bbox opts uninit doc) st
        (nodeElement iter opts x) = nodeKept iter bbox o uninit'' doc st x := by
  have hid : (nodeElement iter opts x).id = x.id := rfl
  have hmaps : (st.nodes x.id).isSome = true ∨ (!(st.multNodes x.id).isEmpty) = true := by
    obtain ⟨n, hn⟩ := hin
    cases hn with
    | inl hsome => exact Or.inl (Option.isSome_of_eq_some hsome)
    | inr hmem =>
      refine Or.inr ?_
      rw [Bool.not_eq_true', Bool.eq_false_iff, Ne, List.isEmpty_iff]
      exact List.ne_nil_of_mem hmem
  unfold nodeKept keepNode
  simp only [hid, inBBox_node hids hx hwritten]
  cases hmaps with
  | inl hsome => simp [hsome]
  | inr hmult => simp only [hmult, true_or, or_true, true_and, and_true]

include hiter ho

theorem decideNode_written :
    decideNode norm iter o uninit' (filterWrite iter bbox opts uninit doc)
        (nodeElement iter opts x) = decideNode norm iter o uninit'' doc x :=
  nodeDecisions_same hiter norm o (SameEntries.reread hiter (nodes_mem_merged ho) x.tags)
    (sameRels_written hids hiter ho (isWritten_node hx hwritten) uninit' uninit'')

theorem nodeTests_written :
    nodeTests iter bbox (filterWrite iter bbox opts uninit doc) o (nodeElement iter opts x) ↔
      nodeTests iter bbox doc o x := by
  have hdrop : o.filter.drop iter
        (readAttrs o.getKeptAttributeKeys.nodes (nodeElement iter opts x).tags) .node = 0 ↔
      o.filter.drop iter (readAttrs o.getKeptAttributeKeys.nodes x.tags) .node = 0 :=
    not_iff_not.1 ((SameEntries.reread hiter (nodes_mem_merged ho) x.tags).contained_iff hiter
      o.dropFilter.map_used .node)
  unfold nodeTests
  rw [hdrop]
  change x.id ≠ 0 ∧ inBBox bbox (filterWrite iter bbox opts uninit doc) o.filter x.id = true ∧ _ ↔ _
  rw [inBBox_node hids hx hwritten]

include h

theorem wantsNode_written :
    wantsNode iter bbox (filterWrite iter bbox opts uninit doc) o (nodeElement iter opts x) ↔
      wantsNode iter bbox doc o x := by
  have hreal : isWritten iter bbox opts uninit doc .node x.id = true :=
    isWritten_node hx hwritten
  exact and_congr (nodeTests_written hids hiter ho hx hwritten)
    (or_congr (nodeKeep_written hiter ho)
      (keptMember_written hids hiter ho hreal h))

theorem nodeDecided_written (hdecided : nodeDecided iter bbox doc o x) :
    nodeDecided iter bbox (filterWrite iter bbox opts uninit doc) o (nodeElement iter opts x) := by
  have hreal : isWritten iter bbox opts uninit doc .node x.id = true :=
    isWritten_node hx hwritten
  rcases hdecided with hnot | hkeep | hrels
  · exact Or.inl (mt (nodeTests_written hids hiter ho hx hwritten).1 hnot)
  · exact Or.inr (Or.inl ((nodeKeep_written hiter ho).2 hkeep))
  · exact Or.inr (Or.inr ((decided_written hids hiter ho hreal h).2 hrels))

theorem readNode_written (sur : Surroundings C) (b : Built C) :
    readNode norm iter sur bbox o uninit' (filterWrite iter bbox opts uninit doc)
        (edgesRead norm iter bbox o uninit'' doc) b (nodeElement iter opts x) =
      readNode norm iter sur bbox o uninit'' doc (edgesRead norm iter bbox o uninit'' doc) b x := by
  have hdecide := decideNode_written hids hiter ho norm uninit' uninit'' hx hwritten
  have hid : (nodeElement iter opts x).id = x.id := rfl
  by_cases hin : InGraph (edgesRead norm iter bbox o uninit'' doc) x.id
  · unfold readNode
    rw [hdecide, nodeKept_inGraph hids uninit' uninit'' hx hwritten hin]
    rfl
  rw [readNode_apart norm uninit' (hid ▸ hin), readNode_apart norm uninit'' hin, hdecide]
  by_cases hstation : (decideNode norm iter o uninit'' doc x).station = true
  · have hkept : nodeKept iter bbox o uninit' (filterWrite iter bbox opts uninit doc)
          (edgesRead norm iter bbox o uninit'' doc) (nodeElement iter opts x) = true ↔
        nodeKept iter bbox o uninit'' doc (edgesRead norm iter bbox o uninit'' doc) x = true := by
      obtain ⟨hnodes, hmult⟩ := not_inGraph.1 hin
      by_cases hrefs : ∀ w ∈ children "way" doc, wantsWay iter bbox doc o w → x.id ∉ w.nds
      · have hapart : apartStation iter bbox doc o x := ⟨of_decide_eq_true hstation, hrefs⟩
        have hdecided := h.nodesDecided x hx hapart
        rw [nodeKept_iff (nodeDecided_written hids hiter ho h hx hwritten hdecided) uninit' hnodes
          hmult, nodeKept_iff hdecided uninit'' hnodes hmult,
          wantsNode_written hids hiter ho h hx hwritten]
      · -- a wanted way refers to the node, so that it lies outside of the box
        obtain ⟨w, hw⟩ := not_forall.1 hrefs
        simp only [Classical.not_imp, not_not] at hw
        have hbox : ¬ inBBox bbox doc o.filter x.id = true := fun hbox =>
          hin (ref_inGraph h norm uninit'' hw.1 hw.2.1 hw.2.2 hbox)
        unfold nodeKept keepNode
        simp only [hid, inBBox_node hids hx hwritten, hnodes, hbox]
        simp
    simp only [hkept]
    rfl
  · simp [hstation]

end nodes

section result
variable {C : Type*} [Field C] [LinearOrder C] {iter : AttributeMap → AttributeMap}
  {bbox : BoundingBox C} {opts : List (OsmReadOptions C)} {uninit : ℕ → UInt64}
  {doc : List (XmlElement C)}

/-- Where no id is shared, an option that is covered reads the same graph. -/
theorem passes_written (hids : UniqueIds doc) (hiter : ∀ attrs, (iter attrs).Perm attrs)
    (hshared : NoSharedId iter bbox opts uninit doc) {o : OsmReadOptions C} (ho : o ∈ opts)
    (h : Covered iter bbox doc o opts uninit) (norm : ReplRules → String → String)
    (sur : Surroundings C) (uninit' uninit'' : ℕ → UInt64) :
    passes norm iter sur bbox o uninit' (filterWrite iter bbox opts uninit doc) =
      passes norm iter sur bbox o uninit'' doc := by
  unfold passes
  split
  · rfl
  · dsimp only
    rw [edgesRead_written hids hiter hshared ho h norm uninit' uninit'', children_nodes hids,
      List.foldl_map, List.foldl_filter]
    refine List.foldl_ext _ _ _ fun b x hx => ?_
    split
    · rename_i hwritten
      exact readNode_written hids hiter ho h norm uninit' uninit'' hx hwritten sur b
    · rename_i hwritten
      exact (readNode_unwritten h norm uninit'' hx hwritten sur b).symm

/-- The written ways are ways of the input, and every option reads the same graph again. -/
def Sufficient (iter : AttributeMap → AttributeMap) (bbox : BoundingBox C)
    (opts : List (OsmReadOptions C)) (uninit : ℕ → UInt64) (doc : List (XmlElement C)) : Prop :=
  WaysOfInput iter bbox opts uninit doc ∧
    ∀ o ∈ opts, ∀ (norm : ReplRules → String → String) (sur : Surroundings C)
      (uninit' uninit'' : ℕ → UInt64),
      passes norm iter sur bbox o uninit' (filterWrite iter bbox opts uninit doc) =
        passes norm iter sur bbox o uninit'' doc

/-- Only ways are written as ways exactly when no other element has the id of a kept way, and then
every option that is covered reads the same graph. -/
theorem filterWrite_sufficient (iter : AttributeMap → AttributeMap)
    (hiter : ∀ attrs, (iter attrs).Perm attrs) (bbox : BoundingBox C)
    (opts : List (OsmReadOptions C)) (uninit : ℕ → UInt64) (doc : List (XmlElement C))
    (hids : UniqueIds doc) :
    (WaysOfInput iter bbox opts uninit doc ↔ NoSharedId iter bbox opts uninit doc) ∧
      (NoSharedId iter bbox opts uninit doc →
        (∀ o ∈ opts, Covered iter bbox doc o opts uninit) →
          Sufficient iter bbox opts uninit doc) := by
  refine ⟨waysOfInput_iff hids, fun hshared hcovered => ⟨(waysOfInput_iff hids).2 hshared, ?_⟩⟩
  intro o ho norm sur uninit' uninit''
  exact passes_written hids hiter hshared ho (hcovered o ho) norm sur uninit' uninit''

end result

section sample

def railOptions : OsmReadOptions ℚ where
  noHupFilter := .empty
  keepFilter := .ofRules [⟨("railway", "rail"), []⟩, ⟨("type", "restriction"), ["rel_flat"]⟩]
  levelFilters _ := .empty
  dropFilter := .empty
  oneWayFilter := .empty
  oneWayFilterRev := .empty
  twoWayFilter := .empty
  stationFilter := .empty
  stationBlockerFilter := .empty
  statGroupNAttrRules := []
  statNormzer := []
  lineNormzer := []
  trackNormzer := []
  idNormzer := []
  relLinerules := ⟨[], [], []⟩
  statAttrRules := ⟨[], [], []⟩
  edgePlatformRules := []
  maxSnapLevel := 7
  maxAngleSnapReach := 0
  maxSnapDistances := []
  maxSnapFallbackHeurDistance := 0
  maxBlockDistance := 0
  maxOsmStationDistance := 0
  levelSnapPunishFac _ := 0
  fullTurnAngle := 0
  restrPosRestr := .empty
  restrNegRestr := .ofRules [⟨("restriction", "no_left_turn"), []⟩]
  noRestrFilter := .empty

def unitBox : BoundingBox ℚ := (newBoundingBox doubleMinbox 0).add ⟨(0, 0), (1, 1)⟩

def trackNodes : List (XmlElement ℚ) :=
  [⟨"node", 1, 0, 0, [], [], []⟩, ⟨"node", 2, 0, 1, [], [], []⟩, ⟨"node", 3, 1, 1, [], [], []⟩]

def track (id : Osmid) (value : String) (nds : List Osmid) : XmlElement ℚ :=
  ⟨"way", id, 0, 0, nds, [("railway", value)], []⟩

def noTurn (frm via to_ : Osmid) : XmlElement ℚ :=
  ⟨"relation", 9, 0, 0, [], [("type", "restriction"), ("restriction", "no_left_turn")],
    [⟨"way", frm, "from"⟩, ⟨"node", via, "via"⟩, ⟨"way", to_, "to"⟩]⟩

def crossing : List (XmlElement ℚ) :=
  trackNodes ++ [track 5 "rail" [1, 2], track 6 "rail" [2, 3], noTurn 5 2 6]

theorem filterWrite_sufficient_crossing :
    Sufficient id unitBox [railOptions] (fun _ => 0) crossing := by
  have hids : UniqueIds crossing := ⟨by decide, by decide, by decide⟩
  have hshared : NoSharedId id unitBox [railOptions] (fun _ => 0) crossing := by
    have hall : ∀ x ∈ crossing, x.name ≠ "way" → ∀ w ∈ children "way" crossing, x.id ≠ w.id := by
      decide
    exact fun x hx hname w hw _ => hall x hx hname w hw
  have hkeep : ∀ x ∈ children "way" crossing, railOptions.filter.keep id
      (readAttrs railOptions.getKeptAttributeKeys.ways x.tags) .way ≠ 0 := by
    decide +kernel
  have hwritten : ∀ x ∈ children "way" crossing,
      wayWritten id unitBox [railOptions] (fun _ => 0) crossing x = true := by
    decide +kernel
  have hstation : ∀ x ∈ children "node" crossing, ¬ railOptions.filter.station id
      (readAttrs railOptions.getKeptAttributeKeys.nodes x.tags) ≠ 0 := by
    decide +kernel
  have hzero : ∀ w ∈ children "way" crossing, 0 ∉ w.nds := by
    decide
  have htags : ∀ x ∈ children "node" crossing, x.tags = [] := by
    decide
  have hflags : ∀ y ∈ xmlRelations crossing,
      ∀ kv ∈ readAttrs railOptions.getKeptAttributeKeys.rels y.tags,
      ∀ kv' ∈ readAttrs railOptions.getKeptAttributeKeys.rels y.tags,
        (ruleFlags kv.2 .rel (railOptions.filter.keepRules kv.1)).all (fun flags =>
          (ruleFlags kv'.2 .rel (railOptions.filter.keepRules kv'.1)).all fun flags' =>
            flags &&& relNoDown = flags' &&& relNoDown) = true := by
    decide +kernel
  have hrules : ∀ w ∈ children "way" crossing, ∀ y ∈ xmlRelations crossing, ∀ pos,
      w.nds.all (fun nid => concerning w.id (statedAt id railOptions.filter.toOsmFilter
          (readRelation id railOptions.filter.toOsmFilter railOptions.getKeptAttributeKeys.rels
            (onlyReal (isWritten id unitBox [railOptions] (fun _ => 0) crossing) y)) pos nid) =
        concerning w.id (statedAt id railOptions.filter.toOsmFilter (readRelation id
          railOptions.filter.toOsmFilter railOptions.getKeptAttributeKeys.rels y) pos nid)) =
        true := by
    decide +kernel
  refine (filterWrite_sufficient id (fun attrs => List.Perm.refl attrs) unitBox [railOptions]
    (fun _ => 0) crossing hids).2 hshared fun o ho => ?_
  rw [List.mem_singleton.1 ho]
  constructor
  · exact fun x hx => Or.inr (Or.inl (hkeep x hx))
  · exact fun x hx _ => hwritten x hx
  · exact fun x hx hapart => absurd hapart.1 (hstation x hx)
  · exact fun x hx hapart _ => absurd hapart.1 (hstation x hx)
  · exact fun w hw _ hnd => absurd hnd (hzero w hw)
  · intro w _ _ x hx _ hex
    rw [htags x hx] at hex
    simp at hex
  · intro y hy _ _ _ _ _ kv hkv kv' hkv' flags flags' h h'
    have hsame := hflags y hy kv hkv kv' hkv'
    rw [h, h'] at hsame
    exact of_decide_eq_true hsame
  · intro w hw _ nid hnid y hy pos
    exact of_decide_eq_true (List.all_eq_true.1 (hrules w hw y hy pos) nid hnid)

def sharedId : List (XmlElement ℚ) := trackNodes ++ [track 1 "rail" [1, 2]]

def lostTurn : List (XmlElement ℚ) :=
  trackNodes ++ [track 5 "rail" [1, 2], track 6 "disused" [2, 3], noTurn 5 2 6]

def flatSurroundings : Surroundings ℚ := ⟨fun lat lng => (lng, lat), fun _ _ => 0, id⟩

def restrictedEdges (doc : List (XmlElement ℚ)) : List Bool :=
  let b := passes (fun _ s => s) id flatSurroundings unitBox railOptions (fun _ => 0) doc
  b.g.edges.map fun e => (b.g.pl e).is_restricted

/-- The node is written as a way, too; and a restricted edge is not restricted any more. -/
theorem filterWrite_loses :
    (children "way" (filterWrite id unitBox [railOptions] (fun _ => 0) sharedId)).map
        (fun x => (x.id, x.nds)) = [(1, []), (1, [1, 2])] ∧
      restrictedEdges lostTurn = [true] ∧
      restrictedEdges (filterWrite id unitBox [railOptions] (fun _ => 0) lostTurn) = [false] ∧
      ¬ ∀ doc : List (XmlElement ℚ), UniqueIds doc →
        Sufficient id unitBox [railOptions] (fun _ => 0) doc := by
  have hwritten : (children "way" (filterWrite id unitBox [railOptions] (fun _ => 0) sharedId)).map
      (fun x => (x.id, x.nds)) = [(1, []), (1, [1, 2])] := by
    decide +kernel
  refine ⟨hwritten, by decide +kernel, by decide +kernel, fun h => ?_⟩
  have hsub := (h sharedId ⟨by decide, by decide, by decide⟩).1.length_le
  rw [← List.length_map (fun x : XmlElement ℚ => (x.id, x.nds)), hwritten] at hsub
  exact absurd hsub (by decide)

end sample

end Pfaedle.OsmBuilder

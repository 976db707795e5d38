import Pfaedle.FilterWrite
import Pfaedle.SameEdges

set_option autoImplicit false

/-!
# The document that `filter_write` leaves

The nodes that lie in the box and the relations of an element, read from the written document.
-/
namespace Pfaedle.OsmBuilder
open Osm OsmRelations KeptKeys ReadEdges BoundingBoxes FilterMerge

section sets
variable {C : Type*} [Field C] [LinearOrder C] {bbox : BoundingBox C} {doc : List (XmlElement C)}
  {filter : ReadFilter}

theorem exists_mem_map {α β : Type*} {f : α → β} {l : List α} {P : β → Prop} :
    (∃ y ∈ l.map f, P y) ↔ ∃ x ∈ l, P (f x) := by
  simp only [List.mem_map, exists_exists_and_eq_and]

theorem mem_filterNode (sets : List Osmid × List Osmid) (node : XmlNode C) (nid : Osmid) :
    nid ∈ (filterNode filter bbox sets node).2 ↔ nid ∈ sets.2 ∨
      (nid = node.id ∧ bbox.contains (node.lon, node.lat) = true ∧ nid ≠ 0 ∧
        ∃ tag ∈ node.tags, filter.nohup tag.1 tag.2 = true) := by
  unfold filterNode
  cases bbox.contains (node.lon, node.lat) with
  | false => simp
  | true =>
    by_cases hid : node.id = 0
    · simp only [if_pos, hid, true_and]
      refine (or_iff_left fun h => h.2.1 h.1).symm
    · simp only [if_pos, hid, if_false, mem_nohupTags, true_and]
      refine or_congr_right ⟨fun h => ⟨h.1, h.1 ▸ hid, h.2⟩, fun h => ⟨h.1, h.2.2⟩⟩

theorem inBBox_iff {nid : Osmid} : inBBox bbox doc filter nid = true ↔
    ∃ x ∈ children "node" doc, nid = x.id ∧ bbox.contains (x.lon, x.lat) = true := by
  have hany : inBBox bbox doc filter nid = true ↔
      nid ∈ (filterNodes filter bbox ((children "node" doc).map XmlElement.node)).1 := by
    simp [inBBox]
  rw [hany, (mem_filterNodes filter bbox _ nid).1, exists_mem_map]
  rfl

theorem isNoHup_iff {nid : Osmid} : isNoHup bbox doc filter nid = true ↔
    ∃ x ∈ children "node" doc, nid = x.id ∧ bbox.contains (x.lon, x.lat) = true ∧ nid ≠ 0 ∧
      ∃ tag ∈ x.tags, filter.nohup tag.1 tag.2 = true := by
  have hany : isNoHup bbox doc filter nid = true ↔
      nid ∈ (filterNodes filter bbox ((children "node" doc).map XmlElement.node)).2 := by
    simp [isNoHup]
  rw [hany, filterNodes]
  induction children "node" doc using List.reverseRecOn with
  | nil => simp
  | append_singleton xs x ih =>
    rw [List.map_append, List.foldl_append, List.map_singleton, List.foldl_cons, List.foldl_nil,
      mem_filterNode]
    refine (or_congr_left ih).trans ?_
    simp only [List.mem_append, List.mem_singleton, or_and_right, exists_or, exists_eq_left]
    rfl

end sets

section written
variable {C : Type*} [Field C] [LinearOrder C] (iter : AttributeMap → AttributeMap)
  (bbox : BoundingBox C) (opts : List (OsmReadOptions C)) (uninit : ℕ → UInt64)
  (doc : List (XmlElement C))

def isWritten : MemberKind → Osmid → Bool
  | .node => fun id => referredTo iter bbox opts uninit doc id ||
      (children "node" doc).any fun x => nodeWritten iter bbox opts uninit doc x && x.id = id
  | .way => fun id =>
      (children "way" doc).any fun w => wayWritten iter bbox opts uninit doc w && w.id = id

variable {iter bbox opts uninit doc} (hids : UniqueIds doc)

theorem isWritten_way {x : XmlElement C} (hx : x ∈ children "way" doc)
    (h : wayWritten iter bbox opts uninit doc x = true) :
    isWritten iter bbox opts uninit doc .way x.id = true :=
  List.any_eq_true.2 ⟨x, hx, by simp [h]⟩

theorem hasId_ways :
    hasId (readWays iter bbox opts uninit doc).1 = isWritten iter bbox opts uninit doc .way := by
  funext id
  rw [Bool.eq_iff_iff, hasId_iff, mem_readWays, isWritten, List.any_eq_true]
  simp only [Bool.and_eq_true, decide_eq_true_iff]

/-- A node that a kept way refers to is written, unless it has no id. -/
theorem nodeWritten_of_ref {w x : XmlElement C} (hw : w ∈ children "way" doc)
    (hwritten : wayWritten iter bbox opts uninit doc w = true) (hnd : x.id ∈ w.nds)
    (hid : x.id ≠ 0) : nodeWritten iter bbox opts uninit doc x = true := by
  have href : referredTo iter bbox opts uninit doc x.id = true :=
    List.any_eq_true.2 ⟨w, hw, by rw [hwritten, hasId_iff.2 hnd]; rfl⟩
  simp [nodeWritten, keepNode, href, hid]

theorem nodeWritten_id {x : XmlElement C} (h : nodeWritten iter bbox opts uninit doc x = true) :
    x.id ≠ 0 := (of_decide_eq_true h).1

theorem isWritten_node {x : XmlElement C} (hx : x ∈ children "node" doc)
    (h : nodeWritten iter bbox opts uninit doc x = true) :
    isWritten iter bbox opts uninit doc .node x.id = true := by
  rw [isWritten, Bool.or_eq_true]
  exact Or.inr (List.any_eq_true.2 ⟨x, hx, by simp [h]⟩)

theorem hasId_nodes : hasId ((readWays iter bbox opts uninit doc).2 ++
      ((children "node" doc).filter (nodeWritten iter bbox opts uninit doc)).map XmlElement.id) =
    isWritten iter bbox opts uninit doc .node := by
  funext id
  rw [Bool.eq_iff_iff, hasId_iff, List.mem_append, ← hasId_iff, hasId_refs, isWritten,
    Bool.or_eq_true, List.any_eq_true, List.mem_map]
  simp only [List.mem_filter, Bool.and_eq_true, decide_eq_true_iff, and_assoc]

include hids

theorem children_nodes : children "node" (filterWrite iter bbox opts uninit doc) =
    ((children "node" doc).filter (nodeWritten iter bbox opts uninit doc)).map
      (nodeElement iter opts) := by
  rw [children_filterWrite hids, if_neg (by decide), if_pos rfl]

theorem children_ways (hshared : NoSharedId iter bbox opts uninit doc) :
    children "way" (filterWrite iter bbox opts uninit doc) =
      ((children "way" doc).filter (wayWritten iter bbox opts uninit doc)).map
        (wayElement iter opts) := by
  rw [children_filterWrite hids, if_neg (by decide), if_neg (by decide), if_pos rfl,
    readWriteWays_eq hids hshared]

theorem relations_written :
    xmlRelations (filterWrite iter bbox opts uninit doc) = (xmlRelations doc).filterMap
      (rewriteRelation iter (mergedKeys opts).rels (isWritten iter bbox opts uninit doc)) := by
  rw [xmlRelations, children_filterWrite hids, if_neg (by decide), if_neg (by decide),
    if_neg (by decide), if_pos rfl, readWriteRelations, List.map_filterMap, xmlRelations,
    List.filterMap_map]
  refine List.filterMap_congr fun x _ => ?_
  rw [relationElement, Function.comp_apply, rewriteRelation]
  unfold realMembers
  rw [hasId_nodes, hasId_ways, apply_ite (Option.map XmlElement.relation)]
  rfl

theorem inBBox_written (filter : ReadFilter) {nid : Osmid}
    (hwritten : ∀ x ∈ children "node" doc, nid = x.id →
      nodeWritten iter bbox opts uninit doc x = true) :
    inBBox bbox (filterWrite iter bbox opts uninit doc) filter nid = inBBox bbox doc filter nid := by
  rw [Bool.eq_iff_iff, inBBox_iff, inBBox_iff, children_nodes hids, exists_mem_map]
  constructor
  · intro hex
    obtain ⟨x, hx, hid, hbox⟩ := hex
    exact ⟨x, List.mem_of_mem_filter hx, hid, hbox⟩
  · intro hex
    obtain ⟨x, hx, hid, hbox⟩ := hex
    exact ⟨x, List.mem_filter.2 ⟨hx, hwritten x hx hid⟩, hid, hbox⟩

theorem inBBox_of_written {filter : ReadFilter} {nid : Osmid}
    (h : inBBox bbox (filterWrite iter bbox opts uninit doc) filter nid = true) :
    nid ≠ 0 ∧ inBBox bbox doc filter nid = true := by
  rw [inBBox_iff, children_nodes hids, exists_mem_map] at h
  obtain ⟨x, hx, hid, hbox⟩ := h
  obtain ⟨hmem, hwritten⟩ := List.mem_filter.1 hx
  exact ⟨fun hzero => nodeWritten_id hwritten (hid.symm.trans hzero),
    inBBox_iff.2 ⟨x, hmem, hid, hbox⟩⟩

variable (hiter : ∀ attrs, (iter attrs).Perm attrs) {o : OsmReadOptions C} (ho : o ∈ opts)
include hiter ho

/-- No-hup nodes stay such, if no later tag overrides the one that says so. -/
theorem isNoHup_written {nid : Osmid}
    (hwritten : ∀ x ∈ children "node" doc, nid = x.id →
      nodeWritten iter bbox opts uninit doc x = true)
    (htags : ∀ x ∈ children "node" doc, nid = x.id →
      (∃ tag ∈ x.tags, o.filter.nohup tag.1 tag.2 = true) →
        ∃ kv ∈ readAttrs o.getKeptAttributeKeys.nodes x.tags, o.filter.nohup kv.1 kv.2 = true) :
    isNoHup bbox (filterWrite iter bbox opts uninit doc) o.filter nid =
      isNoHup bbox doc o.filter nid := by
  rw [Bool.eq_iff_iff, isNoHup_iff, isNoHup_iff, children_nodes hids, exists_mem_map]
  constructor
  · intro hex
    obtain ⟨x, hx, hid, hbox, hne, tag, htag, hnohup⟩ := hex
    exact ⟨x, List.mem_of_mem_filter hx, hid, hbox, hne, tag,
      mem_readAttrs ((hiter _).mem_iff.1 htag), hnohup⟩
  · intro hex
    obtain ⟨x, hx, hid, hbox, hne, htag⟩ := hex
    obtain ⟨kv, hkv, hnohup⟩ := htags x hx hid htag
    refine ⟨x, List.mem_filter.2 ⟨hx, hwritten x hx hid⟩, hid, hbox, hne, kv, ?_, hnohup⟩
    refine (hiter _).mem_iff.2 (readAttrs_subset (fun key hkey => ?_) hkv)
    exact List.mem_flatMap_of_mem ho hkey

end written

end Pfaedle.OsmBuilder

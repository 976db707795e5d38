import Pfaedle.BoundingBox
import Pfaedle.OsmRelations
import Pfaedle.ReadNames
import Pfaedle.ReadOptions

set_option autoImplicit false

/-!
# The segments of the ways

`read_edges` passes over the references that have no graph node and connects what is left.
-/
namespace Pfaedle.ReadEdges
open DirGraphs Osm OsmRelations Restriction ODirEdges BoundingBoxes

section segments

def segments {α : Type*} (l : List α) : List (α × α) := l.zip l.tail

theorem segments_cons {α : Type*} (a b : α) (l : List α) :
    segments (a :: b :: l) = (a, b) :: segments (b :: l) := rfl

theorem mem_segments {α : Type*} {a b : α} {l : List α} : (a, b) ∈ segments l ↔ [a, b] <:+: l := by
  induction l with
  | nil => simp [segments]
  | cons x l ih =>
    cases l with
    | nil =>
      constructor
      · intro h
        exact absurd h List.not_mem_nil
      · intro h
        exact absurd h.length_le (by simp)
    | cons y l =>
      have hhead : [a, b] <+: x :: y :: l ↔ a = x ∧ b = y := by
        rw [List.cons_prefix_cons, List.cons_prefix_cons, and_iff_left List.nil_prefix]
      rw [segments_cons, List.mem_cons, ih, Prod.mk.injEq, ← hhead]
      exact List.infix_cons_iff.symm

/-- What follows each other in a filtered list has only elements between that are left out. -/
theorem pair_filter_iff {α : Type*} {p : α → Bool} {a b : α} {l : List α} :
    [a, b] <:+: l.filter p ↔
      ∃ mid, a :: (mid ++ [b]) <:+: l ∧ p a = true ∧ p b = true ∧ ∀ x ∈ mid, p x = false := by
  constructor
  · intro h
    induction l with
    | nil => exact absurd h.length_le (by simp)
    | cons y l ih =>
      have hrest : [a, b] <:+: l.filter p → ∃ mid, a :: (mid ++ [b]) <:+: y :: l ∧ p a = true ∧
          p b = true ∧ ∀ x ∈ mid, p x = false := fun h => by
        obtain ⟨mid, hmid, hmeets⟩ := ih h
        exact ⟨mid, List.infix_cons hmid, hmeets⟩
      rw [List.filter_cons] at h
      split_ifs at h with hy
      · rcases List.infix_cons_iff.1 h with hprefix | hinfix
        · rw [List.cons_prefix_cons] at hprefix
          obtain ⟨rfl, back, hback⟩ := hprefix
          obtain ⟨mid, after, rfl, hmid, hb, -⟩ := List.filter_eq_cons_iff.1 hback.symm
          refine ⟨mid, ⟨[], after, by simp⟩, hy, hb, fun x hx => ?_⟩
          exact Bool.eq_false_iff.2 (hmid x hx)
        · exact hrest hinfix
      · exact hrest h
  · rintro ⟨mid, ⟨front, back, rfl⟩, ha, hb, hmid⟩
    have hnone : mid.filter p = [] :=
      List.filter_eq_nil_iff.2 fun x hx => Bool.eq_false_iff.1 (hmid x hx)
    refine ⟨front.filter p, back.filter p, ?_⟩
    simp [ha, hb, hnone]

end segments

section drawing
variable {NP D : Type*} {bBoxNodes noHupNodes : Osmid → Bool}

def NodeOf (st : ReadState NP D) (nid : Osmid) (n : ℕ) : Prop :=
  st.nodes nid = some n ∨ n ∈ st.multNodes nid

def kept (bBoxNodes noHupNodes : Osmid → Bool) (nid : Osmid) : Bool :=
  noHupNodes nid || bBoxNodes nid

/-- The edges are those of the segments `segs`. -/
structure Drawn (bBoxNodes : Osmid → Bool) (segs : List (Osmid × Osmid)) (st : ReadState NP D) :
    Prop where
  box : ∀ nid n, st.nodes nid = some n → bBoxNodes nid = true
  handed : ∀ nid n, NodeOf st nid n → n < st.g.nextNd
  owner : ∀ nid nid' n, NodeOf st nid n → NodeOf st nid' n → nid = nid'
  edges : ∀ e ∈ st.g.edges, ∃ s ∈ segs, NodeOf st s.1 e.getFrom ∧ NodeOf st s.2 e.getTo
  drawn : ∀ s ∈ segs, ∃ e ∈ st.g.edges, NodeOf st s.1 e.getFrom ∧ NodeOf st s.2 e.getTo

variable {segs : List (Osmid × Osmid)} {st st' : ReadState NP D}

theorem Drawn.addNd (h : Drawn bBoxNodes segs st) {nid : Osmid} (hedges : st'.g.edges = st.g.edges)
    (hnext : st'.g.nextNd = st.g.nextNd + 1)
    (hbox : ∀ m n, st'.nodes m = some n → bBoxNodes m = true)
    (hnode : ∀ m n, NodeOf st' m n ↔ NodeOf st m n ∨ m = nid ∧ n = st.g.nextNd) :
    Drawn bBoxNodes segs st' where
  box := hbox
  handed m n hn := by
    rw [hnext]
    rcases (hnode m n).1 hn with hold | ⟨-, hnew⟩
    · exact Nat.lt_succ_of_lt (h.handed m n hold)
    · rw [hnew]
      exact Nat.lt_succ_self _
  owner m m' n hn hn' := by
    rcases (hnode m n).1 hn with hold | ⟨hm, hnew⟩
    · rcases (hnode m' n).1 hn' with hold' | ⟨-, hnew⟩
      · exact h.owner m m' n hold hold'
      · exact absurd hnew (Nat.ne_of_lt (h.handed m n hold))
    · rcases (hnode m' n).1 hn' with hold' | ⟨hm', -⟩
      · exact absurd hnew (Nat.ne_of_lt (h.handed m' n hold'))
      · rw [hm, hm']
  edges e he := by
    rw [hedges] at he
    obtain ⟨s, hs, hfrom, hto⟩ := h.edges e he
    exact ⟨s, hs, (hnode _ _).2 (Or.inl hfrom), (hnode _ _).2 (Or.inl hto)⟩
  drawn s hs := by
    obtain ⟨e, he, hfrom, hto⟩ := h.drawn s hs
    exact ⟨e, hedges ▸ he, (hnode _ _).2 (Or.inl hfrom), (hnode _ _).2 (Or.inl hto)⟩

variable [Inhabited NP]

theorem refNode_none (h : Drawn bBoxNodes segs st) {nid : Osmid} :
    refNode bBoxNodes noHupNodes st nid = none ↔ kept bBoxNodes noHupNodes nid = false := by
  unfold refNode kept
  cases noHupNodes nid with
  | true => simp
  | false =>
    cases hnode : st.nodes nid with
    | some n => simp [h.box nid n hnode]
    | none => cases bBoxNodes nid <;> simp

theorem refNode_drawn (h : Drawn bBoxNodes segs st) {nid : Osmid} {n : ℕ}
    (href : refNode bBoxNodes noHupNodes st nid = some (n, st')) :
    Drawn bBoxNodes segs st' ∧ NodeOf st' nid n ∧ ∀ m k, NodeOf st m k → NodeOf st' m k := by
  unfold refNode at href
  split at href
  · obtain ⟨rfl, rfl⟩ := Prod.mk.inj (Option.some.inj href)
    have hnode : ∀ m k, NodeOf { st with
        g := (st.g.addNd default).2
        multNodes := Function.update st.multNodes nid (st.multNodes nid ++ [st.g.nextNd]) } m k ↔
        NodeOf st m k ∨ m = nid ∧ k = st.g.nextNd := by
      intro m k
      unfold NodeOf
      dsimp only
      by_cases hm : m = nid
      · rw [hm, Function.update_self, List.mem_append, List.mem_singleton]
        simp [or_assoc]
      · rw [Function.update_of_ne hm]
        simp [hm]
    refine ⟨h.addNd rfl rfl h.box hnode, (hnode nid _).2 (Or.inr ⟨rfl, rfl⟩), ?_⟩
    exact fun m k hold => (hnode m k).2 (Or.inl hold)
  · split at href
    · rename_i hn
      obtain ⟨rfl, rfl⟩ := Prod.mk.inj (Option.some.inj href)
      exact ⟨h, Or.inl hn, fun _ _ => id⟩
    · rename_i hnone
      split at href
      · rename_i hbox
        obtain ⟨rfl, rfl⟩ := Prod.mk.inj (Option.some.inj href)
        have hnode : ∀ m k, NodeOf { st with
            g := (st.g.addNd default).2
            nodes := Function.update st.nodes nid (some st.g.nextNd) } m k ↔
            NodeOf st m k ∨ m = nid ∧ k = st.g.nextNd := by
          intro m k
          unfold NodeOf
          dsimp only
          by_cases hm : m = nid
          · rw [hm, Function.update_self, hnone, Option.some.injEq]
            simp [or_comm, eq_comm]
          · rw [Function.update_of_ne hm]
            simp [hm]
        refine ⟨h.addNd rfl rfl (fun m k hm => ?_) hnode, (hnode nid _).2 (Or.inr ⟨rfl, rfl⟩),
          fun m k hold => (hnode m k).2 (Or.inl hold)⟩
        by_cases heq : m = nid
        · rw [heq]
          exact hbox
        · change Function.update st.nodes nid (some st.g.nextNd) m = some k at hm
          rw [Function.update_of_ne heq] at hm
          exact h.box m k hm
      · cases href

variable (noHupNodes) (rawRests : Restrictions)
  (annotate : OsmWay → EdgePayload D → EdgePayload D)
variable [Inhabited D]

omit [Inhabited NP] in
theorem connect_drawn (h : Drawn bBoxNodes segs st) (w : OsmWay) {last : Osmid × ℕ} {nid : Osmid}
    {n : ℕ} (hlast : NodeOf st last.1 last.2) (hn : NodeOf st nid n) :
    Drawn bBoxNodes (segs ++ [(last.1, nid)]) (connect rawRests annotate w st last nid n) := by
  obtain ⟨-, hedges, hnext, hnodes, hmult, -⟩ :=
    connect_frame rawRests annotate w st last nid n
  obtain ⟨hfrom, hto, hmem⟩ := DirGraph.addEdg_ends st.g last.2 n defaultPayload
  have hnode : ∀ m k, NodeOf (connect rawRests annotate w st last nid n) m k ↔ NodeOf st m k := by
    intro m k
    rw [NodeOf, NodeOf, hnodes, hmult]
  constructor
  · rw [hnodes]
    exact h.box
  · intro m k hk
    rw [hnext]
    exact h.handed m k ((hnode m k).1 hk)
  · intro m m' k hk hk'
    exact h.owner m m' k ((hnode m k).1 hk) ((hnode m' k).1 hk')
  · intro e he
    rw [hedges, DirGraph.mem_addEdg] at he
    simp only [hnode]
    cases he with
    | inl hold =>
      obtain ⟨s, hs, hends⟩ := h.edges e hold
      exact ⟨s, List.mem_append_left _ hs, hends⟩
    | inr hnew =>
      refine ⟨(last.1, nid), List.mem_append_right _ (List.mem_singleton_self _), ?_⟩
      rw [hnew, hfrom, hto]
      exact ⟨hlast, hn⟩
  · intro s hs
    simp only [hnode, hedges]
    cases List.mem_append.1 hs with
    | inl hold =>
      obtain ⟨e, he, hends⟩ := h.drawn s hold
      exact ⟨e, DirGraph.mem_addEdg.2 (Or.inl he), hends⟩
    | inr hnew =>
      rw [List.mem_singleton.1 hnew]
      refine ⟨_, hmem, ?_⟩
      rw [hfrom, hto]
      exact ⟨hlast, hn⟩

/-- The references of a way, after `last`. -/
theorem readRefs_drawn (w : OsmWay) (nids : List Osmid) (last : Option (Osmid × ℕ))
    (h : Drawn bBoxNodes segs st) (hlast : ∀ l ∈ last, NodeOf st l.1 l.2) :
    Drawn bBoxNodes (segs ++ segments ((last.map Prod.fst).toList ++
        nids.filter (kept bBoxNodes noHupNodes)))
      (nids.foldl (readRef bBoxNodes noHupNodes rawRests annotate w) (st, last)).1 := by
  induction nids generalizing segs st last with
  | nil =>
    cases last with
    | none => simpa [segments] using h
    | some l => simpa [segments] using h
  | cons nid nids ih =>
    rw [List.foldl_cons, readRef, List.filter_cons]
    cases href : refNode bBoxNodes noHupNodes st nid with
    | none =>
      rw [(refNode_none h).1 href, if_neg Bool.false_ne_true]
      exact ih last h hlast
    | some ref =>
      obtain ⟨n, s⟩ := ref
      have hkept : kept bBoxNodes noHupNodes nid = true := by
        by_contra hnot
        rw [Bool.not_eq_true, ← refNode_none h, href] at hnot
        cases hnot
      obtain ⟨hs, hn, hkeep⟩ := refNode_drawn h href
      rw [hkept, if_pos rfl]
      cases last with
      | none =>
        refine ih (some (nid, n)) hs fun l hl => ?_
        rw [← Option.some.inj hl]
        exact hn
      | some l =>
        have hconnect := connect_drawn rawRests annotate hs w
          (hkeep _ _ (hlast l rfl)) hn
        have hnext : NodeOf (connect rawRests annotate w s l nid n) nid n := by
          obtain ⟨-, -, -, hnodes, hmult, -⟩ := connect_frame rawRests annotate w s l nid n
          rw [NodeOf, hnodes, hmult]
          exact hn
        have hrest := ih (some (nid, n)) hconnect fun l' hl' => by
          rw [← Option.some.inj hl']
          exact hnext
        rw [List.append_assoc] at hrest
        exact hrest

theorem readWay_drawn (h : Drawn bBoxNodes segs st) (w : OsmWay) :
    Drawn bBoxNodes (segs ++ segments (w.nodes.filter (kept bBoxNodes noHupNodes)))
      (readWay bBoxNodes noHupNodes rawRests annotate st w) :=
  readRefs_drawn noHupNodes rawRests annotate w w.nodes none h fun l hl => (by cases hl)

theorem readWays_drawn (ways : List OsmWay) (h : Drawn bBoxNodes segs st) :
    Drawn bBoxNodes
      (segs ++ ways.flatMap fun w => segments (w.nodes.filter (kept bBoxNodes noHupNodes)))
      (ways.foldl (readWay bBoxNodes noHupNodes rawRests annotate) st) := by
  induction ways generalizing segs st with
  | nil => simpa using h
  | cons w ways ih =>
    have hrest := ih (readWay_drawn noHupNodes rawRests annotate h w)
    rw [List.append_assoc] at hrest
    exact hrest

theorem drawn_empty : Drawn bBoxNodes [] (ReadState.empty : ReadState NP D) where
  box nid n h := (by cases h)
  handed nid n h := h.elim (fun h => (by cases h)) fun h => (by cases h)
  owner nid nid' n h := h.elim (fun h => (by cases h)) fun h => (by cases h)
  edges e he := (by cases he)
  drawn s hs := (by cases hs)

end drawing

section document
variable {C : Type*} [Field C] [LinearOrder C] {NP D : Type*} [Inhabited NP] [Inhabited D]

structure XmlNode (C : Type*) where
  id : Osmid
  lat : C
  lon : C
  tags : List (String × String)

/-- The elements of a document, the ways with the attributes that are kept. -/
structure XmlDocument (C : Type*) where
  nodes : List (XmlNode C)
  ways : List OsmWay
  relations : List XmlRelation

structure Reading (C D : Type*) where
  iter : AttributeMap → AttributeMap
  filter : ReadFilter
  keepAttrs : List String
  uninit : ℕ → UInt64
  annotate : OsmWay → EdgePayload D → EdgePayload D
  bbox : BoundingBox C

/-- One round of `filter_nodes`, with the ids added to its two sets. -/
def filterNode (filter : ReadFilter) (bbox : BoundingBox C) (sets : List Osmid × List Osmid)
    (node : XmlNode C) : List Osmid × List Osmid :=
  let inBox := bbox.contains (node.lon, node.lat)
  let curId := if inBox then node.id else 0
  let nodes := if inBox then sets.1 ++ [curId] else sets.1
  if curId = 0 then (nodes, sets.2)
  else
    (nodes, node.tags.foldl (fun nohup tag =>
      if filter.nohup tag.1 tag.2 then nohup ++ [curId] else nohup) sets.2)

def filterNodes (filter : ReadFilter) (bbox : BoundingBox C) (nodes : List (XmlNode C)) :
    List Osmid × List Osmid :=
  nodes.foldl (filterNode filter bbox) ([], [])

namespace Reading
variable (r : Reading C D) (doc : XmlDocument C)

def bBoxNodes (nid : Osmid) : Bool :=
  (filterNodes r.filter r.bbox doc.nodes).1.any fun id => id = nid

def noHupNodes (nid : Osmid) : Bool :=
  (filterNodes r.filter r.bbox doc.nodes).2.any fun id => id = nid

def relations : Relations :=
  readRelations r.iter r.filter.toOsmFilter r.keepAttrs r.uninit doc.relations

def keep (w : OsmWay) : Bool :=
  keepWay r.iter r.filter.toOsmFilter w (r.relations doc).wayRels (r.bBoxNodes doc)
    (r.relations doc).flat

def read : ReadState NP D :=
  readEdges (r.bBoxNodes doc) (r.noHupNodes doc) (r.relations doc).rests r.annotate (r.keep doc)
    doc.ways

end Reading

variable (filter : ReadFilter) (bbox : BoundingBox C)

theorem mem_nohupTags {tags : List (String × String)} {id nid : Osmid} {nohup : List Osmid} :
    nid ∈ tags.foldl (fun nohup tag =>
        if filter.nohup tag.1 tag.2 then nohup ++ [id] else nohup) nohup ↔
      nid ∈ nohup ∨ nid = id ∧ ∃ tag ∈ tags, filter.nohup tag.1 tag.2 = true := by
  induction tags generalizing nohup with
  | nil => simp
  | cons tag tags ih =>
    rw [List.foldl_cons, ih]
    by_cases htag : filter.nohup tag.1 tag.2 = true
    · rw [if_pos htag, List.mem_append, List.mem_singleton]
      simp only [List.exists_mem_cons_iff, htag, true_or, and_true]
      tauto
    · rw [if_neg htag]
      simp [htag]

theorem filterNode_spec (sets : List Osmid × List Osmid) (node : XmlNode C) (nid : Osmid) :
    (nid ∈ (filterNode filter bbox sets node).1 ↔
      nid ∈ sets.1 ∨ nid = node.id ∧ bbox.contains (node.lon, node.lat) = true) ∧
      (nid ∈ (filterNode filter bbox sets node).2 →
        nid ∈ sets.2 ∨ nid = node.id ∧ bbox.contains (node.lon, node.lat) = true) := by
  unfold filterNode
  cases bbox.contains (node.lon, node.lat) with
  | false => simp
  | true =>
    by_cases hid : node.id = 0
    · simp only [if_pos, hid, List.mem_append, List.mem_singleton, and_true]
      exact ⟨trivial, Or.inl⟩
    · simp only [if_pos, hid, if_false, List.mem_append, List.mem_singleton, and_true]
      exact ⟨trivial, fun hmem => ((mem_nohupTags filter).1 hmem).imp_right And.left⟩

theorem mem_filterNodes (nodes : List (XmlNode C)) (nid : Osmid) :
    (nid ∈ (filterNodes filter bbox nodes).1 ↔
      ∃ node ∈ nodes, nid = node.id ∧ bbox.contains (node.lon, node.lat) = true) ∧
      (nid ∈ (filterNodes filter bbox nodes).2 →
        ∃ node ∈ nodes, nid = node.id ∧ bbox.contains (node.lon, node.lat) = true) := by
  have hfold : ∀ sets : List Osmid × List Osmid,
      (nid ∈ (nodes.foldl (filterNode filter bbox) sets).1 ↔ nid ∈ sets.1 ∨
        ∃ node ∈ nodes, nid = node.id ∧ bbox.contains (node.lon, node.lat) = true) ∧
      (nid ∈ (nodes.foldl (filterNode filter bbox) sets).2 → nid ∈ sets.2 ∨
        ∃ node ∈ nodes, nid = node.id ∧ bbox.contains (node.lon, node.lat) = true) := by
    induction nodes with
    | nil => simp
    | cons node nodes ih =>
      intro sets
      have hnode := filterNode_spec filter bbox sets node nid
      have hrest := ih (filterNode filter bbox sets node)
      rw [List.foldl_cons, hrest.1, hnode.1]
      refine ⟨?_, fun hmem => ?_⟩
      · simp only [List.mem_cons, exists_eq_or_imp, or_assoc]
      · rcases hrest.2 hmem with hsets | ⟨x, hx, hin⟩
        · exact (hnode.2 hsets).imp_right fun hin => ⟨node, List.mem_cons_self, hin⟩
        · exact Or.inr ⟨x, List.mem_cons_of_mem _ hx, hin⟩
  have hstart := hfold ([], [])
  rw [filterNodes]
  exact ⟨hstart.1.trans (or_iff_right List.not_mem_nil),
    fun hmem => (hstart.2 hmem).resolve_left List.not_mem_nil⟩

end document

section ownSegments
variable {C : Type*} [Field C] [LinearOrder C] {D : Type*} (r : Reading C D) (doc : XmlDocument C)

/-- A node of the document with this id lies in the box. -/
def InBox (nid : Osmid) : Prop :=
  ∃ node ∈ doc.nodes, nid = node.id ∧ r.bbox.contains (node.lon, node.lat) = true

/-- The two nodes are adjacent in the node list of a kept way. -/
def Adjacent (a b : Osmid) : Prop :=
  ∃ w ∈ doc.ways.filter (r.keep doc), [a, b] <:+: w.nodes ∨ [b, a] <:+: w.nodes

theorem kept_iff (nid : Osmid) :
    kept (r.bBoxNodes doc) (r.noHupNodes doc) nid = true ↔ InBox r doc nid := by
  obtain ⟨hbox, hhup⟩ := mem_filterNodes r.filter r.bbox doc.nodes nid
  have hany : ∀ l : List Osmid, (l.any fun id => id = nid) = true ↔ nid ∈ l := by
    intro l
    simp
  rw [kept, Bool.or_eq_true, Reading.bBoxNodes, Reading.noHupNodes, hany, hany, hbox]
  exact ⟨fun h => h.elim hhup id, Or.inr⟩

theorem read_drawn [Inhabited D] {NP : Type*} [Inhabited NP] :
    Drawn (r.bBoxNodes doc) ((doc.ways.filter (r.keep doc)).flatMap fun w =>
        segments (w.nodes.filter (kept (r.bBoxNodes doc) (r.noHupNodes doc))))
      (r.read doc : ReadState NP D) :=
  readWays_drawn _ _ _ _ drawn_empty

theorem mem_read_segments {a b : Osmid} :
    (a, b) ∈ ((doc.ways.filter (r.keep doc)).flatMap fun w =>
        segments (w.nodes.filter (kept (r.bBoxNodes doc) (r.noHupNodes doc)))) ↔
      ∃ w ∈ doc.ways.filter (r.keep doc), ∃ mid, a :: (mid ++ [b]) <:+: w.nodes ∧ InBox r doc a ∧
        InBox r doc b ∧ ∀ x ∈ mid, ¬ InBox r doc x := by
  rw [List.mem_flatMap]
  simp only [mem_segments, pair_filter_iff, ← kept_iff, Bool.not_eq_true]

/-- Every edge joins neighbours of a kept way, if no kept way leaves the box and comes back between
nodes that are not neighbours in a kept way. -/
theorem readEdges_ownSegments_iff [Inhabited D] {NP : Type*} [Inhabited NP] :
    (∀ e ∈ (r.read doc : ReadState NP D).g.edges, ∃ a b,
        NodeOf (r.read doc : ReadState NP D) a e.getFrom ∧
        NodeOf (r.read doc : ReadState NP D) b e.getTo ∧ Adjacent r doc a b) ↔
      ∀ w ∈ doc.ways.filter (r.keep doc), ∀ a mid b, a :: (mid ++ [b]) <:+: w.nodes →
        InBox r doc a → InBox r doc b → (∀ x ∈ mid, ¬ InBox r doc x) → Adjacent r doc a b := by
  have hdrawn : Drawn _ _ (r.read doc : ReadState NP D) := read_drawn r doc
  constructor
  · intro h w hw a mid b hmid ha hb hout
    obtain ⟨e, he, hfrom, hto⟩ := hdrawn.drawn (a, b)
      ((mem_read_segments r doc).2 ⟨w, hw, mid, hmid, ha, hb, hout⟩)
    obtain ⟨a', b', hfrom', hto', hadjacent⟩ := h e he
    have hfirst : a = a' := hdrawn.owner _ _ _ hfrom hfrom'
    have hsecond : b = b' := hdrawn.owner _ _ _ hto hto'
    rw [hfirst, hsecond]
    exact hadjacent
  · intro h e he
    obtain ⟨⟨a, b⟩, hs, hfrom, hto⟩ := hdrawn.edges e he
    obtain ⟨w, hw, mid, hmid, ha, hb, hout⟩ := (mem_read_segments r doc).1 hs
    exact ⟨a, b, hfrom, hto, h w hw a mid b hmid ha hb hout⟩

def unitSquare : Reading ℚ Unit where
  iter := id
  filter :=
    { keepRules := fun key => if key = "highway" then [("primary", 1)] else []
      dropRules := fun _ => []
      posRestrRules := fun _ => []
      negRestrRules := fun _ => []
      noRestrRules := fun _ => []
      nohupRules := fun _ => []
      onewayRules := fun _ => []
      onewayrevRules := fun _ => []
      twowayRules := fun _ => []
      stationRules := fun _ => []
      blockerRules := fun _ => []
      levelRules := fun _ _ => [] }
  keepAttrs := []
  uninit _ := 0
  annotate _ := id
  bbox := (newBoundingBox doubleMinbox 0).add ⟨(0, 0), (1, 1)⟩

def bentRoad : XmlDocument ℚ where
  nodes := [⟨1, 0, 0, []⟩, ⟨2, 0, 9, []⟩, ⟨3, 1, 1, []⟩]
  ways := [⟨7, [("highway", "primary")], [1, 2, 3]⟩]
  relations := []

theorem readEdges_straightEdge :
    let st : ReadState Unit Unit := unitSquare.read bentRoad
    st.g.edges = [⟨0, 0, 1⟩] ∧ st.nodes 1 = some 0 ∧ st.nodes 2 = none ∧ st.nodes 3 = some 1 ∧
      ∀ a b, NodeOf st a 0 → NodeOf st b 1 → ¬ Adjacent unitSquare bentRoad a b := by
  have hdrawn : Drawn _ _ (unitSquare.read bentRoad : ReadState Unit Unit) :=
    read_drawn unitSquare bentRoad
  have hfirst : (unitSquare.read bentRoad : ReadState Unit Unit).nodes 1 = some 0 := by
    decide +kernel
  have hthird : (unitSquare.read bentRoad : ReadState Unit Unit).nodes 3 = some 1 := by
    decide +kernel
  refine ⟨by decide +kernel, hfirst, by decide +kernel, hthird, fun a b ha hb => ?_⟩
  rw [hdrawn.owner a 1 0 ha (Or.inl hfirst), hdrawn.owner b 3 1 hb (Or.inl hthird)]
  rintro ⟨w, hw, hnext⟩
  have hway := List.mem_of_mem_filter hw
  rw [bentRoad, List.mem_singleton] at hway
  rw [hway] at hnext
  exact absurd hnext (by decide)

end ownSegments

end Pfaedle.ReadEdges

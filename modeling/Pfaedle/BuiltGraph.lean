import Pfaedle.FilterWrite
import Pfaedle.GroupSets
import Pfaedle.OsmRead

set_option autoImplicit false

/-!
# The graph that the passes over a document build

Every edge joins two nodes of the graph, has a level below 8 and no line yet, and the groups of the
stations are linked to their nodes.
-/
namespace Pfaedle.ReadEdges
open DirGraphs Osm Restriction ODirEdges LoopRules

section wired
variable {NP D : Type*} [Inhabited NP] [Inhabited D] {bBoxNodes noHupNodes : Osmid → Bool}
  {rawRests : Restrictions} {annotate : OsmWay → EdgePayload D → EdgePayload D}

/-- The nodes are those of the references, and none of them has been filled in. -/
structure Wired (good : D → Prop) (st : ReadState NP D) : Prop where
  proper : st.g.Proper
  mem : ∀ nid n, NodeOf st nid n → n ∈ st.g.nds
  owner : ∀ nid nid' n, NodeOf st nid n → NodeOf st nid' n → nid = nid'
  blank : ∀ n, st.g.npl n = default
  data : ∀ e ∈ st.g.edges, good (st.g.pl e).data

variable {good : D → Prop} {st st' : ReadState NP D}

omit [Inhabited D] in
theorem Wired.addNd (nid : Osmid) (h : Wired good st) {nodes : Osmid → Option ℕ}
    {multNodes : Osmid → List ℕ}
    (hnode : ∀ m n, (nodes m = some n ∨ n ∈ multNodes m) ↔
      NodeOf st m n ∨ m = nid ∧ n = st.g.nextNd) :
    Wired good { st with g := (st.g.addNd default).2, nodes, multNodes } := by
  have hfresh : ∀ m, ¬ NodeOf st m st.g.nextNd := fun m hm =>
    Nat.lt_irrefl _ (h.proper.live.handed _ (h.mem m _ hm))
  constructor
  · exact h.proper.addNd default
  · intro m n hn
    change n ∈ st.g.nds ++ [st.g.nextNd]
    rw [List.mem_append, List.mem_singleton]
    exact ((hnode m n).1 hn).imp (h.mem m n) And.right
  · intro m m' n hn hn'
    cases (hnode m n).1 hn with
    | inl hold =>
      cases (hnode m' n).1 hn' with
      | inl hold' => exact h.owner m m' n hold hold'
      | inr hnew => exact absurd (hnew.2 ▸ hold) (hfresh m)
    | inr hnew =>
      cases (hnode m' n).1 hn' with
      | inl hold' => exact absurd (hnew.2 ▸ hold') (hfresh m')
      | inr hnew' => rw [hnew.1, hnew'.1]
  · intro n
    change Function.update st.g.npl st.g.nextNd default n = default
    by_cases hn : n = st.g.nextNd
    · rw [hn, Function.update_self]
    · rw [Function.update_of_ne hn]
      exact h.blank n
  · exact h.data

omit [Inhabited D] in
/-- A reference gets a node of the graph, and the others keep theirs. -/
theorem refNode_wired (h : Wired good st) {nid : Osmid} {n : ℕ}
    (href : refNode bBoxNodes noHupNodes st nid = some (n, st')) :
    Wired good st' ∧ n ∈ st'.g.nds ∧ ∀ m ∈ st.g.nds, m ∈ st'.g.nds := by
  have hnew : st.g.nextNd ∈ st.g.nds ++ [st.g.nextNd] := by simp
  have hold : ∀ m ∈ st.g.nds, m ∈ st.g.nds ++ [st.g.nextNd] := fun m hm =>
    List.mem_append_left _ hm
  unfold refNode at href
  split at href
  · obtain ⟨rfl, rfl⟩ := Prod.mk.inj (Option.some.inj href)
    refine ⟨Wired.addNd nid h fun m k => ?_, hnew, hold⟩
    by_cases hm : m = nid
    · simp [hm, NodeOf, or_assoc]
    · simp [hm, NodeOf]
  · split at href
    · rename_i hn
      obtain ⟨rfl, rfl⟩ := Prod.mk.inj (Option.some.inj href)
      exact ⟨h, h.mem nid _ (Or.inl hn), fun _ hm => hm⟩
    · rename_i hnone
      split at href
      · obtain ⟨rfl, rfl⟩ := Prod.mk.inj (Option.some.inj href)
        refine ⟨Wired.addNd nid h fun m k => ?_, hnew, hold⟩
        by_cases hm : m = nid
        · simp [hm, NodeOf, hnone, or_comm, eq_comm]
        · simp [hm, NodeOf]
      · cases href

/-- The restrictions at a node mark the edge, and leave the rest of the graph alone. -/
structure Marked (st st' : ReadState NP D) : Prop where
  nds : st'.g.nds = st.g.nds
  npl : st'.g.npl = st.g.npl
  edges : st'.g.edges = st.g.edges
  nextNd : st'.g.nextNd = st.g.nextNd
  data : ∀ e, (st'.g.pl e).data = (st.g.pl e).data
  nodes : st'.nodes = st.nodes ∧ st'.multNodes = st.multNodes

section
omit [Inhabited NP] [Inhabited D]

theorem processRestriction_data (pos : Bool) (v : Visit ℕ Edge) (kvs : List Restriction)
    (s : TrGraph NP D × Restrictor) :
    (kvs.foldl (processRestriction pos v) s).1.npl = s.1.npl ∧
      ∀ e, ((kvs.foldl (processRestriction pos v) s).1.pl e).data = (s.1.pl e).data := by
  have hset : ∀ (g : TrGraph NP D) (x e : Edge), ((setRestricted g x).pl e).data = (g.pl e).data := by
    intro g x e
    unfold setRestricted DirGraph.setPl
    dsimp only
    by_cases he : e = x
    · rw [he, Function.update_self]
    · rw [Function.update_of_ne he]
  induction kvs generalizing s with
  | nil => exact ⟨rfl, fun _ => rfl⟩
  | cons kv kvs ih =>
    obtain ⟨hnpl, hdata⟩ := ih (processRestriction pos v s kv)
    rw [List.foldl_cons]
    have hround : (processRestriction pos v s kv).1.npl = s.1.npl ∧
        ∀ e, ((processRestriction pos v s kv).1.pl e).data = (s.1.pl e).data := by
      unfold processRestriction
      split
      · exact ⟨rfl, hset s.1 v.e⟩
      · split
        · exact ⟨rfl, hset s.1 v.e⟩
        · exact ⟨rfl, fun _ => rfl⟩
    exact ⟨hnpl.trans hround.1, fun e => (hdata e).trans (hround.2 e)⟩

theorem processRestrictions_marked (rawRests : Restrictions) (st : ReadState NP D)
    (v : Visit ℕ Edge) : Marked st (processRestrictions rawRests st v) := by
  obtain ⟨hnds, hedges, hnext, hnodes, -⟩ := processRestrictions_frame rawRests st v
  obtain ⟨hnpl, hdata⟩ := processRestriction_data true v (rawRests.pos v.nid) (st.g, st.restor)
  obtain ⟨hnpl', hdata'⟩ := processRestriction_data false v (rawRests.neg v.nid)
    ((rawRests.pos v.nid).foldl (processRestriction true v) (st.g, st.restor))
  exact ⟨hnds, hnpl'.trans hnpl, hedges, hnext, fun e => (hdata' e).trans (hdata e), hnodes, rfl⟩

theorem Marked.trans {st'' : ReadState NP D} (h : Marked st st') (h' : Marked st' st'') :
    Marked st st'' :=
  ⟨h'.nds.trans h.nds, h'.npl.trans h.npl, h'.edges.trans h.edges, h'.nextNd.trans h.nextNd,
    fun e => (h'.data e).trans (h.data e), h'.nodes.1.trans h.nodes.1, h'.nodes.2.trans h.nodes.2⟩

end

variable (rawRests) in
theorem connect_wired (h : Wired good st) (hgood : ∀ w p, good (annotate w p).data) (w : OsmWay)
    {last : Osmid × ℕ} (nid : Osmid) {n : ℕ} (hlast : last.2 ∈ st.g.nds) (hn : n ∈ st.g.nds) :
    Wired good (connect rawRests annotate w st last nid n) ∧
      (connect rawRests annotate w st last nid n).g.nds = st.g.nds := by
  have hproper := h.proper.addEdg hlast hn (defaultPayload : EdgePayload D)
  have hlinked := DirGraph.addEdg_linked st.g last.2 n (defaultPayload : EdgePayload D)
  have hkeep : ∀ x ∈ st.g.edges, (st.g.addEdg last.2 n defaultPayload).2.pl x = st.g.pl x :=
    fun x hx => DirGraph.addEdg_pl hx
  unfold connect
  generalize st.g.addEdg last.2 n (defaultPayload : EdgePayload D) = added
    at hproper hlinked hkeep ⊢
  obtain ⟨e, g⟩ := added
  dsimp only at hproper hlinked hkeep ⊢
  have hmarked := (processRestrictions_marked rawRests { st with g := g } ⟨nid, w.id, e, n⟩).trans
    (processRestrictions_marked rawRests _ ⟨last.1, w.id, e, last.2⟩)
  generalize processRestrictions rawRests (processRestrictions rawRests { st with g := g }
    ⟨nid, w.id, e, n⟩) ⟨last.1, w.id, e, last.2⟩ = s at hmarked ⊢
  have hnds : s.g.nds = st.g.nds := hmarked.nds.trans hlinked.nds
  have hedges : ∀ x ∈ s.g.edges, x ∈ st.g.edges ∨ x = e := by
    intro x hx
    rw [hmarked.edges] at hx
    exact (hlinked.edges x).1 hx
  have hnode : ∀ m k, NodeOf s m k ↔ NodeOf st m k := by
    intro m k
    rw [NodeOf, NodeOf, hmarked.nodes.1, hmarked.nodes.2]
  refine ⟨⟨?_, ?_, ?_, ?_, ?_⟩, hnds⟩
  · refine ⟨⟨?_, ?_, ?_⟩, ?_⟩
    · change ∀ m ∈ s.g.nds, m < s.g.nextNd
      rw [hmarked.nds, hmarked.nextNd]
      exact hproper.live.handed
    · change s.g.nds.Nodup
      rw [hmarked.nds]
      exact hproper.live.nodup
    · change ∀ x ∈ s.g.edges, x.getFrom ∈ s.g.nds ∧ x.getTo ∈ s.g.nds
      rw [hmarked.nds, hmarked.edges]
      exact hproper.live.ends
    · change s.g.edges.Nodup
      rw [hmarked.edges]
      exact hproper.nodup
  · intro m k hk
    change k ∈ s.g.nds
    rw [hnds]
    exact h.mem m k ((hnode m k).1 hk)
  · exact fun m m' k hk hk' => h.owner m m' k ((hnode m k).1 hk) ((hnode m' k).1 hk')
  · intro k
    change s.g.npl k = default
    rw [hmarked.npl]
    change g.npl k = default
    rw [hlinked.npl]
    exact h.blank k
  · intro x hx
    change good (Function.update s.g.pl e (annotate w (s.g.pl e)) x).data
    by_cases hxe : x = e
    · rw [hxe, Function.update_self]
      exact hgood w _
    · rw [Function.update_of_ne hxe, hmarked.data]
      have hold := (hedges x hx).resolve_right hxe
      change good (g.pl x).data
      rw [hkeep x hold]
      exact h.data x hold

theorem readWay_wired (hgood : ∀ w p, good (annotate w p).data) (h : Wired good st) (w : OsmWay) :
    Wired good (readWay bBoxNodes noHupNodes rawRests annotate st w) := by
  have hrun := foldl_inv (readRef bBoxNodes noHupNodes rawRests annotate w)
    (fun s : ReadState NP D × Option (Osmid × ℕ) =>
      Wired good s.1 ∧ ∀ l ∈ s.2, l.2 ∈ s.1.g.nds) w.nodes (s := (st, none))
    ⟨h, fun l hl => by cases hl⟩ fun s nid _ hs => ?_
  · exact hrun.1
  · unfold readRef
    cases href : refNode bBoxNodes noHupNodes s.1 nid with
    | none => exact hs
    | some ref =>
      obtain ⟨n, s'⟩ := ref
      obtain ⟨hwired, hn, hkept⟩ := refNode_wired hs.1 href
      dsimp only
      cases hlast : s.2 with
      | none =>
        refine ⟨hwired, fun l hl => ?_⟩
        rw [← Option.some.inj hl]
        exact hn
      | some last =>
        obtain ⟨hconnect, hnds⟩ := connect_wired rawRests hwired hgood w nid
          (hkept _ (hs.2 last hlast)) hn
        refine ⟨hconnect, fun l hl => ?_⟩
        dsimp only
        rw [hnds, ← Option.some.inj hl]
        exact hn

theorem wired_empty : Wired good (ReadState.empty : ReadState NP D) where
  proper := ⟨⟨fun _ hn => absurd hn List.not_mem_nil, List.nodup_nil,
    fun _ he => absurd he List.not_mem_nil⟩, List.nodup_nil⟩
  mem _ _ hn := hn.elim (fun h => by cases h) fun h => by cases h
  owner _ _ _ hn _ := hn.elim (fun h => by cases h) fun h => by cases h
  blank _ := rfl
  data _ he := absurd he List.not_mem_nil

theorem readEdges_wired (hgood : ∀ w p, good (annotate w p).data) (keep : OsmWay → Bool)
    (ways : List OsmWay) :
    Wired good (readEdges bBoxNodes noHupNodes rawRests annotate keep ways : ReadState NP D) :=
  foldl_inv (readWay bBoxNodes noHupNodes rawRests annotate) (Wired good) _ wired_empty
    fun _ w _ hs => readWay_wired hgood hs w

end wired

end Pfaedle.ReadEdges

namespace Pfaedle.OsmBuilder
open DirGraphs Osm OsmRelations Restriction ODirEdges KeptKeys ReadEdges BoundingBoxes Trgraph
open LoopRules

section streets
variable {C : Type*} {st : ReadState (NodeData C) WayData} {b b' : Built C} (sur : Surroundings C)
  (o : OsmReadOptions C) (d : NodeDecisions) (pos : C × C)

/-- Nodes have been added to the graph of `st`, and its edges have stayed. -/
structure Streets (st : ReadState (NodeData C) WayData) (b : Built C) : Prop where
  proper : b.g.Proper
  kept : b.g.edges = st.g.edges ∧ b.g.pl = st.g.pl

theorem Streets.same (h : Streets st b) (hnds : b'.g.nds = b.g.nds ∧ b'.g.nextNd = b.g.nextNd)
    (hedges : b'.g.edges = b.g.edges ∧ b'.g.pl = b.g.pl) : Streets st b' := by
  refine ⟨⟨⟨?_, ?_, ?_⟩, ?_⟩, hedges.1.trans h.kept.1, hedges.2.trans h.kept.2⟩
  · rw [hnds.1, hnds.2]
    exact h.proper.live.handed
  · rw [hnds.1]
    exact h.proper.live.nodup
  · rw [hnds.1, hedges.1]
    exact h.proper.live.ends
  · rw [hedges.1]
    exact h.proper.nodup

variable [LinearOrder C]

theorem getStationInfo_g (n : ℕ) (b : Built C) : (getStationInfo sur o d n pos b).2.g = b.g := by
  unfold getStationInfo
  cases d.names with
  | nil => rfl
  | cons name altNames =>
    dsimp only
    cases matchingGroup sur o d pos b with
    | some G => rfl
    | none =>
      dsimp only
      cases (groupValues o d).find? fun r => r.2 ≠ "" with
      | some r => rfl
      | none => rfl

theorem Streets.placeNode (h : Streets st b) (n : ℕ) : Streets st (placeNode sur o d pos b n) := by
  have hpos : Streets st (b.setPl n { b.pl n with geom := pos }) := h.same ⟨rfl, rfl⟩ ⟨rfl, rfl⟩
  unfold OsmBuilder.placeNode
  dsimp only
  generalize b.setPl n { b.pl n with geom := pos } = b₁ at hpos ⊢
  split
  · have hg := getStationInfo_g sur o d pos n b₁
    generalize getStationInfo sur o d n pos b₁ = info at hg ⊢
    obtain ⟨si, b₂⟩ := info
    dsimp only at hg ⊢
    have hsame : Streets st b₂ := hpos.same (by rw [hg]; exact ⟨rfl, rfl⟩) (by rw [hg]; exact ⟨rfl, rfl⟩)
    cases si with
    | some si => exact hsame.same ⟨rfl, rfl⟩ ⟨rfl, rfl⟩
    | none => exact hsame
  · split
    · exact hpos.same ⟨rfl, rfl⟩ ⟨rfl, rfl⟩
    · exact hpos

theorem Streets.addOrphan (h : Streets st b) : Streets st (addOrphan sur o d pos b) := by
  have hadded : Streets st { b with g := (b.g.addNd ⟨pos, none, false⟩).2 } :=
    ⟨h.proper.addNd _, h.kept⟩
  unfold OsmBuilder.addOrphan
  generalize b.g.addNd ⟨pos, none, false⟩ = added at hadded ⊢
  obtain ⟨tmp, g⟩ := added
  dsimp only at hadded ⊢
  have hg := getStationInfo_g sur o d pos tmp { b with g := g }
  generalize getStationInfo sur o d tmp pos { b with g := g } = info at hg ⊢
  obtain ⟨si, b₂⟩ := info
  dsimp only at hg ⊢
  have hsame : Streets st b₂ := hadded.same (by rw [hg]; exact ⟨rfl, rfl⟩) (by rw [hg]; exact ⟨rfl, rfl⟩)
  cases si with
  | some si => exact hsame.same ⟨rfl, rfl⟩ ⟨rfl, rfl⟩
  | none => exact hsame

variable (norm : ReplRules → String → String) (iter : AttributeMap → AttributeMap)
  (bbox : BoundingBox C) (uninit : ℕ → UInt64) (doc : List (XmlElement C))
variable [Field C]

theorem Streets.readNode (h : Streets st b) (x : XmlElement C) :
    Streets st (readNode norm iter sur bbox o uninit doc st b x) := by
  unfold OsmBuilder.readNode
  dsimp only
  split
  · cases st.nodes x.id with
    | some n => exact h.placeNode sur o _ _ n
    | none =>
      dsimp only
      split
      · split
        · exact h.addOrphan sur o _ _
        · exact h
      · exact foldl_inv (OsmBuilder.placeNode sur o _ _) (Streets st) _ h fun s n _ hs =>
          hs.placeNode sur o _ _ n
  · exact h

end streets

section populated
variable {C : Type*}

structure Built.InGroup (b : Built C) (n G : ℕ) : Prop where
  mem : n ∈ b.g.nds
  group : (b.g.npl n).si.bind (·.group) = some G

/-- Stations have been put into the graph of `st`. -/
structure Populated (st : ReadState (NodeData C) WayData) (b : Built C) : Prop
    extends Streets st b where
  nds : ∀ n ∈ st.g.nds, n ∈ b.g.nds
  listed : ∀ n G, b.InGroup n G → G < b.nextGroup ∧ n ∈ b.groups G
  members : ∀ G < b.nextGroup, ∀ m ∈ b.groups G, b.InGroup m G
  attrs : ∀ attr val, ∀ G ∈ b.attrGroups attr val, G < b.nextGroup
  orphans : ∀ o ∈ b.orphanStations, o ∈ b.g.nds ∧ (b.g.npl o).si.isSome

variable {st : ReadState (NodeData C) WayData} {b b' : Built C} {n : ℕ}

theorem Built.setPl_si (b : Built C) (n : ℕ) (p : NodeData C) (m : ℕ) :
    ((b.setPl n p).g.npl m).si = if m = n then p.si else (b.g.npl m).si := by
  change (Function.update b.g.npl n p m).si = _
  by_cases hm : m = n
  · rw [hm, Function.update_self, if_pos rfl]
  · rw [Function.update_of_ne hm, if_neg hm]

theorem Populated.setPl_same (h : Populated st b) {p : NodeData C} (hp : p.si = (b.g.npl n).si) :
    Populated st (b.setPl n p) := by
  have hsi : ∀ m, ((b.setPl n p).g.npl m).si = (b.g.npl m).si := by
    intro m
    rw [Built.setPl_si]
    split
    · rename_i hm
      rw [hp, hm]
    · rfl
  have hin : ∀ m G, (b.setPl n p).InGroup m G ↔ b.InGroup m G := by
    intro m G
    exact ⟨fun hm => ⟨hm.mem, hsi m ▸ hm.group⟩, fun hm => ⟨hm.mem, (hsi m).symm ▸ hm.group⟩⟩
  refine ⟨h.toStreets.same ⟨rfl, rfl⟩ ⟨rfl, rfl⟩, h.nds,
    fun m G hm => h.listed m G ((hin m G).1 hm),
    fun G hG m hm => (hin m G).2 (h.members G hG m hm), h.attrs, fun x hx => ?_⟩
  rw [hsi]
  exact h.orphans x hx

variable (sur : Surroundings C) (o : OsmReadOptions C) (d : NodeDecisions)

theorem matchingGroup_mem [LinearOrder C] {pos : C × C} {G : ℕ}
    (h : matchingGroup sur o d pos b = some G) :
    ∃ attr val, G ∈ b.attrGroups attr val := by
  unfold matchingGroup at h
  obtain ⟨r, -, hr⟩ := List.exists_of_findSome?_eq_some h
  split at hr
  · cases hr
  · exact ⟨_, _, List.mem_of_find?_eq_some hr⟩

/-- What `get_station_info` may do to the groups. -/
inductive Joined (b : Built C) (n : ℕ) : Option ℕ → Built C → Prop
  | alone : Joined b n none b
  | member {G : ℕ} (hG : G < b.nextGroup) : Joined b n (some G) (b.addToGroup sur G n)
  | first (attr val : String) : Joined b n (some b.nextGroup) (b.addGroup attr val n)

theorem getStationInfo_cases [LinearOrder C] (h : Populated st b) (pos : C × C) :
    getStationInfo sur o d n pos b = (none, b) ∨
      ∃ si b', getStationInfo sur o d n pos b = (some si, b') ∧ Joined sur b n si.group b' := by
  unfold getStationInfo
  cases d.names with
  | nil => exact Or.inl rfl
  | cons name altNames =>
    right
    dsimp only
    cases hmatch : matchingGroup sur o d pos b with
    | some G =>
      obtain ⟨attr, val, hG⟩ := matchingGroup_mem sur o d hmatch
      exact ⟨_, _, rfl, Joined.member (h.attrs attr val G hG)⟩
    | none =>
      dsimp only
      cases (groupValues o d).find? fun r => r.2 ≠ "" with
      | some r => exact ⟨_, _, rfl, Joined.first _ _⟩
      | none => exact ⟨_, _, rfl, Joined.alone⟩

variable {sur}

theorem Joined.g {G : Option ℕ} (h : Joined sur b n G b') : b'.g = b.g := by
  cases h with
  | alone => rfl
  | member => rfl
  | first => rfl

theorem Joined.orphanStations {G : Option ℕ} (h : Joined sur b n G b') :
    b'.orphanStations = b.orphanStations := by
  cases h with
  | alone => rfl
  | member => rfl
  | first => rfl

structure Groups (b b' : Built C) (n : ℕ) (G : Option ℕ) : Prop where
  next : b.nextGroup ≤ b'.nextGroup
  mine : ∀ H, G = some H → H < b'.nextGroup ∧ n ∈ b'.groups H
  old : ∀ H < b.nextGroup, ∀ m ∈ b.groups H, m ∈ b'.groups H
  members : ∀ H < b'.nextGroup, ∀ m ∈ b'.groups H,
    (G = some H ∧ m = n) ∨ (H < b.nextGroup ∧ m ∈ b.groups H)
  attrs : ∀ attr val, ∀ H ∈ b'.attrGroups attr val, H < b'.nextGroup

theorem Joined.groups {G : Option ℕ} (h : Joined sur b n G b')
    (hattrs : ∀ attr val, ∀ H ∈ b.attrGroups attr val, H < b.nextGroup) : Groups b b' n G := by
  cases h with
  | alone =>
    refine ⟨le_refl _, fun H hH => ?_, fun _ _ _ hm => hm, fun H hH m hm => Or.inr ⟨hH, hm⟩, hattrs⟩
    cases hH
  | @member G hG =>
    have hset : ∀ H, (b.addToGroup sur G n).groups H =
        if H = G then setInsert sur.addr n (b.groups G) else b.groups H := fun H =>
      Function.update_apply _ _ _ _
    refine ⟨le_refl _, fun H hH => ?_, fun H hH m hm => ?_, fun H hH m hm => ?_, hattrs⟩
    · rw [← Option.some.inj hH, hset, if_pos rfl]
      exact ⟨hG, mem_setInsert.2 (Or.inl rfl)⟩
    · rw [hset]
      split
      · rename_i hHG
        rw [hHG] at hm
        exact mem_setInsert.2 (Or.inr hm)
      · exact hm
    · rw [hset] at hm
      split at hm
      · rename_i hHG
        rw [hHG]
        exact (mem_setInsert.1 hm).imp (fun hm => ⟨rfl, hm⟩) fun hm => ⟨hG, hm⟩
      · exact Or.inr ⟨hH, hm⟩
  | first attr val =>
    have hset : ∀ H, (b.addGroup attr val n).groups H =
        if H = b.nextGroup then [n] else b.groups H := fun H => Function.update_apply _ _ _ _
    have hnext : (b.addGroup attr val n).nextGroup = b.nextGroup + 1 := rfl
    refine ⟨Nat.le_succ _, fun H hH => ?_, fun H hH m hm => ?_, fun H hH m hm => ?_,
      fun a v H hH => ?_⟩
    · rw [← Option.some.inj hH, hset, if_pos rfl]
      exact ⟨Nat.lt_succ_self _, List.mem_singleton_self n⟩
    · rw [hset, if_neg (Nat.ne_of_lt hH)]
      exact hm
    · rw [hset] at hm
      split at hm
      · rename_i hHG
        exact Or.inl ⟨by rw [hHG], List.mem_singleton.1 hm⟩
      · rename_i hHG
        exact Or.inr ⟨by omega, hm⟩
    · rw [hnext]
      change H ∈ Function.update b.attrGroups attr _ a v at hH
      by_cases ha : a = attr
      · rw [ha, Function.update_self] at hH
        by_cases hv : v = val
        · rw [hv, Function.update_self, List.mem_append, List.mem_singleton] at hH
          cases hH with
          | inl hold => exact Nat.lt_succ_of_lt (hattrs _ _ _ hold)
          | inr hnew => rw [hnew]; exact Nat.lt_succ_self _
        · rw [Function.update_of_ne hv] at hH
          exact Nat.lt_succ_of_lt (hattrs _ _ _ hH)
      · rw [Function.update_of_ne ha] at hH
        exact Nat.lt_succ_of_lt (hattrs _ _ _ hH)

/-- A node without station info gets one, with the group that it has joined. -/
theorem Populated.join (h : Populated st b) (hn : n ∈ b.g.nds) (hnone : (b.g.npl n).si = none)
    {G : Option ℕ} (hjoin : Joined sur b n G b') {p : NodeData C} {si : SInfo}
    (hp : p.si = some si) (hgroup : si.group = G) : Populated st (b'.setPl n p) := by
  have hgroups := hjoin.groups h.attrs
  have hsi : ∀ m, ((b'.setPl n p).g.npl m).si = if m = n then some si else (b.g.npl m).si := by
    intro m
    rw [Built.setPl_si, hp, hjoin.g]
  have hg : (b'.setPl n p).g.nds = b.g.nds := by
    change b'.g.nds = b.g.nds
    rw [hjoin.g]
  have hin : ∀ m H, (b'.setPl n p).InGroup m H ↔ (m = n ∧ G = some H) ∨ b.InGroup m H := by
    intro m H
    constructor
    · intro hm
      have hgr := hm.group
      rw [hsi] at hgr
      by_cases heq : m = n
      · rw [if_pos heq, Option.bind_some, hgroup] at hgr
        exact Or.inl ⟨heq, hgr⟩
      · rw [if_neg heq] at hgr
        exact Or.inr ⟨hg ▸ hm.mem, hgr⟩
    · intro hm
      have hne : b.InGroup m H → m ≠ n := by
        intro hold heq
        have hgr := hold.group
        rw [heq, hnone] at hgr
        cases hgr
      cases hm with
      | inl hm =>
        refine ⟨by rw [hg, hm.1]; exact hn, ?_⟩
        rw [hsi, if_pos hm.1, Option.bind_some, hgroup, hm.2]
      | inr hm =>
        refine ⟨by rw [hg]; exact hm.mem, ?_⟩
        rw [hsi, if_neg (hne hm)]
        exact hm.group
  have hjoined : Streets st b' := h.toStreets.same (by rw [hjoin.g]; exact ⟨rfl, rfl⟩)
    (by rw [hjoin.g]; exact ⟨rfl, rfl⟩)
  refine ⟨hjoined.same ⟨rfl, rfl⟩ ⟨rfl, rfl⟩, fun m hm => ?_, fun m H hm => ?_,
    fun H hH m hm => ?_, hgroups.attrs, ?_⟩
  · rw [hg]
    exact h.nds m hm
  · cases (hin m H).1 hm with
    | inl hnew =>
      rw [hnew.1]
      exact hgroups.mine H hnew.2
    | inr hold =>
      have hlisted := h.listed m H hold
      exact ⟨lt_of_lt_of_le hlisted.1 hgroups.next, hgroups.old H hlisted.1 m hlisted.2⟩
  · rw [hin]
    cases hgroups.members H hH m hm with
    | inl hnew => exact Or.inl ⟨hnew.2, hnew.1⟩
    | inr hold => exact Or.inr (h.members H hold.1 m hold.2)
  · intro x hx
    rw [hg]
    change x ∈ b'.orphanStations at hx
    rw [hjoin.orphanStations] at hx
    have hold := h.orphans x hx
    refine ⟨hold.1, ?_⟩
    rw [hsi]
    split
    · rfl
    · exact hold.2

structure Filled (st : ReadState (NodeData C) WayData) (b b' : Built C) (n : ℕ) : Prop where
  populated : Populated st b'
  nds : b'.g.nds = b.g.nds
  other : ∀ m, m ≠ n → (b'.g.npl m).si = (b.g.npl m).si

variable (sur)

theorem placeNode_filled [LinearOrder C] (h : Populated st b) (hn : n ∈ b.g.nds)
    (hnone : (b.g.npl n).si = none)
    (pos : C × C) : Filled st b (placeNode sur o d pos b n) n := by
  have hpos : Populated st (b.setPl n { b.pl n with geom := pos }) := h.setPl_same rfl
  have hsi : ∀ m, ((b.setPl n { b.pl n with geom := pos }).g.npl m).si = (b.g.npl m).si := by
    intro m
    rw [Built.setPl_si]
    split
    · rename_i hm
      rw [hm]
      rfl
    · rfl
  unfold placeNode
  dsimp only
  generalize hb : b.setPl n { b.pl n with geom := pos } = b₁ at hpos hsi ⊢
  have hnds : b₁.g.nds = b.g.nds := by
    rw [← hb]
    rfl
  have hset : ∀ (b₂ : Built C) (p : NodeData C), b₂.g = b₁.g →
      ∀ m, m ≠ n → ((b₂.setPl n p).g.npl m).si = (b.g.npl m).si := by
    intro b₂ p hg m hm
    rw [Built.setPl_si, if_neg hm, hg, hsi]
  split
  · cases getStationInfo_cases sur o d hpos pos with
    | inl hinfo =>
      rw [hinfo]
      exact ⟨hpos, hnds, fun m _ => hsi m⟩
    | inr hinfo =>
      obtain ⟨si, b₂, hinfo, hjoin⟩ := hinfo
      rw [hinfo]
      dsimp only
      refine ⟨hpos.join (hnds ▸ hn) ((hsi n).trans hnone) hjoin rfl rfl, ?_, hset b₂ _ hjoin.g⟩
      change b₂.g.nds = b.g.nds
      rw [hjoin.g, hnds]
  · split
    · exact ⟨hpos.setPl_same ((hsi n).trans hnone).symm, hnds, hset b₁ _ rfl⟩
    · exact ⟨hpos, hnds, fun m _ => hsi m⟩

theorem Populated.addNd (h : Populated st b) (pos : C × C) :
    Populated st { b with g := (b.g.addNd ⟨pos, none, false⟩).2 } := by
  have hlt : ∀ m ∈ b.g.nds, m ≠ b.g.nextNd := fun m hm =>
    Nat.ne_of_lt (h.proper.live.handed m hm)
  have hin : ∀ m H, Built.InGroup { b with g := (b.g.addNd ⟨pos, none, false⟩).2 } m H ↔
      b.InGroup m H := by
    intro m H
    have hsi : m ≠ b.g.nextNd →
        ((b.g.addNd ⟨pos, none, false⟩).2.npl m).si = (b.g.npl m).si := fun hm => by
      change (Function.update b.g.npl b.g.nextNd _ m).si = _
      rw [Function.update_of_ne hm]
    constructor
    · intro hm
      have hgr := hm.group
      have hmem := hm.mem
      by_cases hnew : m = b.g.nextNd
      · change (Function.update b.g.npl b.g.nextNd _ m).si.bind _ = some H at hgr
        rw [hnew, Function.update_self] at hgr
        cases hgr
      · change ((b.g.addNd ⟨pos, none, false⟩).2.npl m).si.bind _ = some H at hgr
        rw [hsi hnew] at hgr
        have hmem' : m ∈ b.g.nds ∨ m = b.g.nextNd := by simpa [DirGraph.addNd] using hmem
        exact ⟨hmem'.resolve_right hnew, hgr⟩
    · intro hm
      refine ⟨List.mem_append_left _ hm.mem, ?_⟩
      change ((b.g.addNd ⟨pos, none, false⟩).2.npl m).si.bind _ = some H
      rw [hsi (hlt m hm.mem)]
      exact hm.group
  refine ⟨⟨h.proper.addNd _, h.kept⟩, fun m hm => List.mem_append_left _ (h.nds m hm),
    fun m H hm => h.listed m H ((hin m H).1 hm),
    fun H hH m hm => (hin m H).2 (h.members H hH m hm), h.attrs,
    fun x hx => ?_⟩
  have hold := h.orphans x hx
  refine ⟨List.mem_append_left _ hold.1, ?_⟩
  change (Function.update b.g.npl b.g.nextNd _ x).si.isSome
  rw [Function.update_of_ne (hlt x hold.1)]
  exact hold.2

theorem Populated.withOrphans (h : Populated st b) {os : List ℕ}
    (hos : ∀ x ∈ os, x ∈ b.g.nds ∧ (b.g.npl x).si.isSome) :
    Populated st { b with orphanStations := os } :=
  ⟨⟨h.proper, h.kept⟩, h.nds, fun m G hm => h.listed m G ⟨hm.mem, hm.group⟩,
    fun G hG m hm => ⟨(h.members G hG m hm).mem, (h.members G hG m hm).group⟩, h.attrs, hos⟩

theorem addOrphan_populated [LinearOrder C] (h : Populated st b) (pos : C × C) :
    Populated st (addOrphan sur o d pos b) ∧
      ∀ m ∈ b.g.nds, ((addOrphan sur o d pos b).g.npl m).si = (b.g.npl m).si := by
  have hadded := h.addNd pos
  have hnew : b.g.nextNd ∈ b.g.nds ++ [b.g.nextNd] := by simp
  have hold : ∀ m ∈ b.g.nds,
      ((b.g.addNd ⟨pos, none, false⟩).2.npl m).si = (b.g.npl m).si := fun m hm => by
    change (Function.update b.g.npl b.g.nextNd _ m).si = _
    rw [Function.update_of_ne (Nat.ne_of_lt (h.proper.live.handed m hm))]
  have hblank : ((b.g.addNd ⟨pos, none, false⟩).2.npl b.g.nextNd).si = none := by
    change (Function.update b.g.npl b.g.nextNd _ b.g.nextNd).si = none
    rw [Function.update_self]
  have hfresh : ∀ m ∈ b.g.nds, m ≠ b.g.nextNd := fun m hm =>
    Nat.ne_of_lt (h.proper.live.handed m hm)
  unfold addOrphan
  generalize hadd : b.g.addNd ⟨pos, none, false⟩ = added at hadded hold hblank ⊢
  obtain ⟨tmp, g⟩ := added
  obtain rfl : b.g.nextNd = tmp := congrArg Prod.fst hadd
  have hnds : g.nds = b.g.nds ++ [b.g.nextNd] := by
    have hsnd := congrArg (fun x => x.2.nds) hadd
    exact hsnd.symm
  dsimp only at hadded hold hblank ⊢
  cases getStationInfo_cases sur o d hadded pos with
  | inl hinfo =>
    rw [hinfo]
    exact ⟨hadded, hold⟩
  | inr hinfo =>
    obtain ⟨si, b₂, hinfo, hjoin⟩ := hinfo
    rw [hinfo]
    dsimp only
    have hmem : b.g.nextNd ∈ g.nds := by
      rw [hnds]
      exact hnew
    have hjoined := hadded.join hmem hblank hjoin
      (p := { b₂.pl b.g.nextNd with
        si := some { si with data := { si.data with fromOsm := false } } }) rfl rfl
    refine ⟨hjoined.withOrphans fun x hx => ?_, fun m hm => ?_⟩
    · cases mem_setInsert.1 hx with
      | inl heq =>
        rw [heq]
        refine ⟨?_, ?_⟩
        · change b.g.nextNd ∈ b₂.g.nds
          rw [hjoin.g]
          exact hmem
        · rw [Built.setPl_si, if_pos rfl]
          rfl
      | inr hold => exact hjoined.orphans x hold
    · rw [Built.setPl_si, if_neg (hfresh m hm), hjoin.g]
      exact hold m hm

theorem placeNodes_populated [LinearOrder C] (ns : List ℕ) (hnodup : ns.Nodup) (h : Populated st b)
    (hns : ∀ n ∈ ns, n ∈ b.g.nds ∧ (b.g.npl n).si = none) (pos : C × C) :
    Populated st (ns.foldl (placeNode sur o d pos) b) ∧
      ∀ m ∉ ns, ((ns.foldl (placeNode sur o d pos) b).g.npl m).si = (b.g.npl m).si := by
  induction ns generalizing b with
  | nil => exact ⟨h, fun _ _ => rfl⟩
  | cons n ns ih =>
    obtain ⟨hnot, hnodup⟩ := List.nodup_cons.1 hnodup
    obtain ⟨hn, hnone⟩ := hns n List.mem_cons_self
    have hfilled := placeNode_filled sur o d h hn hnone pos
    have hrest := ih hnodup hfilled.populated fun m hm => by
      have hmem := hns m (List.mem_cons_of_mem _ hm)
      have hne : m ≠ n := fun heq => hnot (heq ▸ hm)
      exact ⟨hfilled.nds ▸ hmem.1, (hfilled.other m hne).trans hmem.2⟩
    refine ⟨hrest.1, fun m hm => ?_⟩
    rw [List.mem_cons, not_or] at hm
    rw [List.foldl_cons, hrest.2 m hm.2, hfilled.other m hm.1]

end populated

section passes
variable {C : Type*} [Field C] [LinearOrder C] {good : WayData → Prop}
  (norm : ReplRules → String → String) (iter : AttributeMap → AttributeMap)
  (sur : Surroundings C) (bbox : BoundingBox C) (o : OsmReadOptions C) (uninit : ℕ → UInt64)
  (doc : List (XmlElement C)) {st : ReadState (NodeData C) WayData} {b : Built C}

def Blank (st : ReadState (NodeData C) WayData) (b : Built C) (xs : List (XmlElement C)) : Prop :=
  ∀ x ∈ xs, ∀ n, NodeOf st x.id n → (b.g.npl n).si = none

theorem readNode_populated (hw : Wired good st) (h : Populated st b) {x : XmlElement C}
    {xs : List (XmlElement C)} (hid : ∀ y ∈ xs, y.id ≠ x.id) (hblank : Blank st b (x :: xs)) :
    Populated st (readNode norm iter sur bbox o uninit doc st b x) ∧
      Blank st (readNode norm iter sur bbox o uninit doc st b x) xs := by
  have hmine : ∀ n, NodeOf st x.id n → n ∈ b.g.nds ∧ (b.g.npl n).si = none := fun n hn =>
    ⟨h.nds n (hw.mem _ _ hn), hblank x List.mem_cons_self n hn⟩
  have hlater : ∀ b' : Built C, (∀ n, n ∈ b.g.nds → ¬ NodeOf st x.id n →
      (b'.g.npl n).si = (b.g.npl n).si) → Blank st b' xs := by
    intro b' hother y hy n hn
    have hnot : ¬ NodeOf st x.id n := fun hx => hid y hy (hw.owner _ _ n hn hx)
    rw [hother n (h.nds n (hw.mem _ _ hn)) hnot]
    exact hblank y (List.mem_cons_of_mem _ hy) n hn
  unfold readNode
  dsimp only
  split
  · cases hnode : st.nodes x.id with
    | some n =>
      dsimp only
      have hn := hmine n (Or.inl hnode)
      have hfilled := placeNode_filled sur o (decideNode norm iter o uninit doc x) h hn.1 hn.2
        (sur.latLngToWebMerc x.lat x.lon)
      refine ⟨hfilled.populated, hlater _ fun m _ hm => hfilled.other m ?_⟩
      rintro rfl
      exact hm (Or.inl hnode)
    | none =>
      dsimp only
      split
      · split
        · have horphan := addOrphan_populated sur o (decideNode norm iter o uninit doc x) h
            (sur.latLngToWebMerc x.lat x.lon)
          exact ⟨horphan.1, hlater _ fun m hm _ => horphan.2 m hm⟩
        · exact ⟨h, hlater b fun _ _ _ => rfl⟩
      · have hset := setInserts_spec sur.addr (st.multNodes x.id) [] List.nodup_nil
        have hmem : ∀ n, n ∈ (st.multNodes x.id).foldl (fun ns n => setInsert sur.addr n ns) [] ↔
            n ∈ st.multNodes x.id := fun n => by simp [hset.2]
        have hplaced := placeNodes_populated sur o (decideNode norm iter o uninit doc x) _
          hset.1 h (fun n hn => hmine n (Or.inr ((hmem n).1 hn)))
          (sur.latLngToWebMerc x.lat x.lon)
        refine ⟨hplaced.1, hlater _ fun m _ hm => hplaced.2 m fun hin => ?_⟩
        exact hm (Or.inr ((hmem m).1 hin))
  · exact ⟨h, hlater b fun _ _ _ => rfl⟩

theorem readNodes_populated (hw : Wired good st) (xs : List (XmlElement C))
    (hids : (xs.map XmlElement.id).Nodup) (h : Populated st b) (hblank : Blank st b xs) :
    Populated st (xs.foldl (readNode norm iter sur bbox o uninit doc st) b) := by
  induction xs generalizing b with
  | nil => exact h
  | cons x xs ih =>
    rw [List.map_cons, List.nodup_cons] at hids
    have hstep := readNode_populated norm iter sur bbox o uninit doc hw h
      (fun y hy heq => hids.1 (heq ▸ List.mem_map_of_mem hy)) hblank
    exact ih hids.2 hstep.1 hstep.2

omit [LinearOrder C] in
theorem ofEdges_populated (hw : Wired good st) : Populated st (.ofEdges st) := by
  have hnone : ∀ n G, ¬ Built.InGroup (.ofEdges st) n G := by
    intro n G hn
    have hgroup := hn.group
    change (st.g.npl n).si.bind _ = some G at hgroup
    rw [hw.blank] at hgroup
    cases hgroup
  exact ⟨⟨hw.proper, rfl, rfl⟩, fun _ hn => hn, fun n G hn => absurd hn (hnone n G),
    fun G hG => absurd hG (Nat.not_lt_zero G), fun _ _ _ hG => absurd hG List.not_mem_nil,
    fun _ hx => absurd hx List.not_mem_nil⟩

theorem level_lt (f : ReadFilter) (attrs : AttributeMap) : f.level attrs < 8 := by
  unfold ReadFilter.level
  cases (List.finRange 8).find? fun i => f.levelMatches attrs i with
  | none => exact Nat.zero_lt_succ 7
  | some i => exact i.isLt

theorem edgesRead_wired :
    Wired (fun data => data.level < 8) (edgesRead norm iter bbox o uninit doc) :=
  readEdges_wired (fun _ _ => level_lt _ _) _ _

theorem passes_streets : ∃ st, Wired (fun data : WayData => data.level < 8) st ∧
    Streets st (passes norm iter sur bbox o uninit doc) := by
  unfold passes
  split
  · have hw : Wired (fun data : WayData => data.level < 8)
        (ReadState.empty : ReadState (NodeData C) WayData) := wired_empty
    exact ⟨.empty, hw, hw.proper, rfl, rfl⟩
  · have hw : Wired _ (edgesRead norm iter bbox o uninit doc) :=
      edgesRead_wired norm iter bbox o uninit doc
    exact ⟨_, hw, foldl_inv (OsmBuilder.readNode norm iter sur bbox o uninit doc _) (Streets _) _
      ⟨hw.proper, rfl, rfl⟩ fun s x _ hs => hs.readNode sur o norm iter bbox uninit doc x⟩

theorem passes_populated (hids : ((children "node" doc).map XmlElement.id).Nodup) :
    ∃ st, Wired (fun data : WayData => data.level < 8) st ∧
      Populated st (passes norm iter sur bbox o uninit doc) := by
  unfold passes
  split
  · have hw : Wired (fun data : WayData => data.level < 8)
        (ReadState.empty : ReadState (NodeData C) WayData) := wired_empty
    exact ⟨.empty, hw, ofEdges_populated hw⟩
  · have hw : Wired _ (edgesRead norm iter bbox o uninit doc) :=
      edgesRead_wired norm iter bbox o uninit doc
    refine ⟨_, hw, readNodes_populated norm iter sur bbox o uninit doc hw _ hids
      (ofEdges_populated hw) fun x _ n _ => ?_⟩
    change ((edgesRead norm iter bbox o uninit doc).g.npl n).si = none
    rw [hw.blank]
    rfl

end passes

section stations
variable {C : Type*} [Field C] [LinearOrder C] {st : ReadState (NodeData C) WayData} {b : Built C}

theorem setTrack_streets {P L : Type*} (track : String) (n : ℕ) (st : Stations P L) :
    SameStreets st.g (setTrack track n st).g := by
  unfold setTrack
  split
  · unfold setData
    split
    · exact sameStreets_setSi n _ st
    · exact SameStreets.refl _
  · exact SameStreets.refl _

theorem writeEdgeTracks_streets {P L : Type*} (tracks : EdgeTracks) (st : Stations P L) :
    SameStreets st.g (writeEdgeTracks tracks st).g :=
  foldl_inv writeEdgeTrack (fun s => SameStreets st.g s.g) tracks (SameStreets.refl _)
    fun s tr _ hs => (hs.trans (setTrack_streets tr.2 tr.1.getTo s)).trans
      (setTrack_streets tr.2 tr.1.getFrom _)

theorem setTrack_regrouped {P L : Type*} {st : Stations P L} (hlinked : Linked st) (track : String)
    (n : ℕ) : Regrouped st (setTrack track n st) := by
  unfold setTrack
  split
  · exact (setData_regrouped n _ hlinked).1
  · exact Regrouped.refl hlinked

theorem writeEdgeTracks_regrouped {P L : Type*} {st : Stations P L} (hlinked : Linked st)
    (tracks : EdgeTracks) : Regrouped st (writeEdgeTracks tracks st) := by
  refine foldl_inv writeEdgeTrack (Regrouped st) tracks (Regrouped.refl hlinked) fun s tr _ hs => ?_
  have hto := setTrack_regrouped hs.linked tr.2 tr.1.getTo
  exact (hs.trans hto).trans (setTrack_regrouped hto.linked tr.2 tr.1.getFrom)

structure Ready {P L : Type*} (st : Stations P L) (orphanStations : List ℕ) : Prop where
  linked : Linked st
  orphans : ∀ o ∈ orphanStations, o ∈ st.g.nds ∧ (st.g.npl o).si.isSome

omit [LinearOrder C] in
theorem Populated.ready (h : Populated st b) (line : String × String × String → ℕ) :
    Ready (b.stations line) b.orphanStations := by
  have hin : ∀ {n G}, Trgraph.InGroup (b.stations line) n G → b.InGroup n G := fun hn =>
    ⟨hn.mem, hn.group⟩
  refine ⟨⟨fun hn => (h.listed _ _ (hin hn)).1, fun hn => (h.listed _ _ (hin hn)).2,
    fun hn m hm => ?_⟩, h.orphans⟩
  have hmember := h.members _ (h.listed _ _ (hin hn)).1 m hm
  exact ⟨hmember.mem, hmember.group⟩

variable (r : ReadSetup C) (doc : List (XmlElement C))

theorem ReadSetup.stations_proper : (r.stations doc).g.Proper ∧
    ∀ e ∈ (r.stations doc).g.edges, ((r.stations doc).g.pl e).data.level < 8 := by
  obtain ⟨st, hw, h⟩ := passes_streets r.norm r.iter r.surroundings r.bbox r.opts r.uninit doc
  have hproper : ((r.built doc).stations r.line).g.Proper :=
    ⟨⟨h.proper.live.handed, h.proper.live.nodup, h.proper.live.ends⟩, h.proper.nodup⟩
  have htracks := writeEdgeTracks_streets (r.trackOrder (r.built doc).tracks)
    ((r.built doc).stations r.line)
  refine ⟨htracks.proper hproper, fun e he => ?_⟩
  unfold ReadSetup.stations at he ⊢
  rw [htracks.edges] at he
  rw [htracks.pl]
  change ((r.built doc).g.pl e).data.level < 8
  rw [show (r.built doc).g.pl = st.g.pl from h.kept.2]
  exact hw.data e (h.kept.1 ▸ he)

theorem ReadSetup.stations_ready (hids : ((children "node" doc).map XmlElement.id).Nodup) :
    Ready (r.stations doc) (r.built doc).orphanStations := by
  obtain ⟨st, -, h⟩ := passes_populated r.norm r.iter r.surroundings r.bbox r.opts r.uninit doc hids
  have hready : Ready ((r.built doc).stations r.line) (r.built doc).orphanStations := h.ready r.line
  have htracks := writeEdgeTracks_regrouped hready.linked (r.trackOrder (r.built doc).tracks)
  refine ⟨htracks.linked, fun o ho => ?_⟩
  have hold := hready.orphans o ho
  unfold ReadSetup.stations
  rw [htracks.streets.nds]
  exact ⟨hold.1, (htracks.si o).trans hold.2⟩

end stations

end Pfaedle.OsmBuilder

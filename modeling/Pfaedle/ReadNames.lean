import Pfaedle.NamedGraph
import Pfaedle.ReadEdges

set_option autoImplicit false

/-!
# The visits of `read_edges`, read off the document

A graph node is named by its OSM node, or by its place in its way if it is a no-hup node. An edge
is named by the names of its ends.
-/
namespace Pfaedle.ReadEdges
open DirGraphs Osm Restriction ODirEdges

inductive Name (K : Type*)
  | node (nid : Osmid)
  | noHup (way : K) (pos : ℕ)
deriving DecidableEq

abbrev EdgeName (K : Type*) := Name K × Name K

section plan
variable {K : Type*} (bBoxNodes noHupNodes : Osmid → Bool)

def nameRef (key : K) (pos : ℕ) (nid : Osmid) : Option (Name K) :=
  if noHupNodes nid then some (.noHup key pos)
  else if bBoxNodes nid then some (.node nid)
  else none

/-- The edge from `last` to `cur`, visited at both ends. -/
def segVisits (wid : Osmid) (last cur : Osmid × Name K) : List (Visit (Name K) (EdgeName K)) :=
  [⟨cur.1, wid, (last.2, cur.2), cur.2⟩, ⟨last.1, wid, (last.2, cur.2), last.2⟩]

def refVisits (key : K) (wid : Osmid) :
    ℕ → Option (Osmid × Name K) → List Osmid → List (Visit (Name K) (EdgeName K))
  | _, _, [] => []
  | pos, last, nid :: nids =>
    match nameRef bBoxNodes noHupNodes key pos nid with
    | none => refVisits key wid (pos + 1) last nids
    | some n =>
      last.elim [] (fun l => segVisits wid l (nid, n)) ++
        refVisits key wid (pos + 1) (some (nid, n)) nids

def wayVisits (kw : K × OsmWay) : List (Visit (Name K) (EdgeName K)) :=
  refVisits bBoxNodes noHupNodes kw.1 kw.2.id 0 none kw.2.nodes

def docVisits (kws : List (K × OsmWay)) : List (Visit (Name K) (EdgeName K)) :=
  kws.flatMap (wayVisits bBoxNodes noHupNodes)

end plan

section named
variable {K : Type*} {NP D : Type*} {bBoxNodes noHupNodes : Osmid → Bool} {rawRests : Restrictions}
  {annotate : OsmWay → EdgePayload D → EdgePayload D}

def edgeName (ν : ℕ → Name K) (e : Edge) : EdgeName K := (ν e.getFrom, ν e.getTo)

def Visit.map {V E V' E' : Type*} (f : V → V') (g : E → E') (x : Visit V E) : Visit V' E' :=
  ⟨x.nid, x.wid, g x.e, f x.n⟩

/-- `ν` names the nodes of the graph, and under it the visits are `xs`. -/
structure Named (bBoxNodes : Osmid → Bool) (used : Set (K × ℕ)) (ν : ℕ → Name K)
    (xs : List (Visit (Name K) (EdgeName K))) (st : ReadState NP D) : Prop where
  nds : st.g.nds = List.range st.g.nextNd
  inj : ∀ n < st.g.nextNd, ∀ m < st.g.nextNd, ν n = ν m → n = m
  node : ∀ nid n, st.nodes nid = some n ↔ n < st.g.nextNd ∧ ν n = .node nid
  box : ∀ nid n, st.nodes nid = some n → bBoxNodes nid = true
  noHup : ∀ n < st.g.nextNd, ∀ key pos, ν n = .noHup key pos → (key, pos) ∈ used
  ends : ∀ e ∈ st.g.edges, e.getFrom < st.g.nextNd ∧ e.getTo < st.g.nextNd
  visited : ∀ x ∈ st.visits, x.e ∈ st.g.edges ∧ x.e.hasEnd x.n
  visits : st.visits.map (Visit.map ν (edgeName ν)) = xs

variable {used : Set (K × ℕ)} {ν : ℕ → Name K} {xs : List (Visit (Name K) (EdgeName K))}
  {st : ReadState NP D}

theorem Named.visited_lt (h : Named bBoxNodes used ν xs st) {x : Visit ℕ Edge}
    (hx : x ∈ st.visits) : x.n < st.g.nextNd := by
  obtain ⟨hmem, hend⟩ := h.visited x hx
  cases hend with
  | inl he => rw [← he]; exact (h.ends _ hmem).1
  | inr he => rw [← he]; exact (h.ends _ hmem).2

theorem Named.edgeName_inj (h : Named bBoxNodes used ν xs st) {e e' : Edge} (he : e ∈ st.g.edges)
    (he' : e' ∈ st.g.edges) (hname : edgeName ν e = edgeName ν e') : e = e' := by
  obtain ⟨hfrom, hto⟩ := Prod.mk.inj hname
  have hfrom := h.inj _ (h.ends e he).1 _ (h.ends e' he').1 hfrom
  have hto := h.inj _ (h.ends e he).2 _ (h.ends e' he').2 hto
  exact st.g.simple e he e' he' hfrom hto

variable [Inhabited D]

theorem named_empty [Inhabited NP] : Named bBoxNodes (∅ : Set (K × ℕ)) (fun _ => .node 0) []
    (ReadState.empty : ReadState NP D) where
  nds := rfl
  inj n hn := absurd hn (Nat.not_lt_zero n)
  node nid n := by simp [ReadState.empty, DirGraph.empty]
  box nid n h := by simp [ReadState.empty] at h
  noHup n hn := absurd hn (Nat.not_lt_zero n)
  ends e he := by simp [ReadState.empty, DirGraph.empty] at he
  visited x hx := by simp [ReadState.empty] at hx
  visits := rfl

section
omit [Inhabited D]

theorem Named.addNd [Inhabited NP] (h : Named bBoxNodes used ν xs st) {name : Name K}
    {used' : Set (K × ℕ)}
    {st' : ReadState NP D} (hg : st'.g = (st.g.addNd default).2) (hvisits : st'.visits = st.visits)
    (hfresh : ∀ n < st.g.nextNd, ν n ≠ name) (hsub : used ⊆ used')
    (hused : ∀ key pos, name = .noHup key pos → (key, pos) ∈ used')
    (hnode : ∀ nid n, st'.nodes nid = some n ↔
      (st.nodes nid = some n ∨ (n = st.g.nextNd ∧ name = .node nid)))
    (hbox : ∀ nid, name = .node nid → bBoxNodes nid = true) :
    Named bBoxNodes used' (Function.update ν st.g.nextNd name) xs st' := by
  have hnext : st'.g.nextNd = st.g.nextNd + 1 := by rw [hg]; rfl
  have hedges : st'.g.edges = st.g.edges := by rw [hg]; rfl
  have hold := NamedGraph.extends_update st.g ν name
  have hnew : Function.update ν st.g.nextNd name st.g.nextNd = name := Function.update_self _ _ _
  constructor
  · rw [hnext, List.range_succ, ← h.nds, hg]
    rfl
  · rw [hnext]
    exact NamedGraph.update_inj h.inj hfresh
  · intro nid n
    rw [hnode, h.node, hnext]
    by_cases hn : n = st.g.nextNd
    · subst hn
      rw [hnew]
      simp
    · constructor
      · intro hor
        have hlt := hor.resolve_right fun hc => hn hc.1
        rw [hold n hlt.1]
        exact ⟨Nat.lt_succ_of_lt hlt.1, hlt.2⟩
      · intro hand
        have hlt : n < st.g.nextNd := by omega
        rw [hold n hlt] at hand
        exact Or.inl ⟨hlt, hand.2⟩
  · intro nid n hn
    cases (hnode nid n).1 hn with
    | inl hn => exact h.box nid n hn
    | inr hn => exact hbox nid hn.2
  · intro n hn key pos hname
    rw [hnext] at hn
    cases Nat.lt_succ_iff_lt_or_eq.1 hn with
    | inl hn => rw [hold n hn] at hname; exact hsub (h.noHup n hn key pos hname)
    | inr hn => rw [hn, hnew] at hname; exact hused key pos hname
  · intro e he
    rw [hedges] at he
    rw [hnext]
    exact ⟨Nat.lt_succ_of_lt (h.ends e he).1, Nat.lt_succ_of_lt (h.ends e he).2⟩
  · intro x hx
    rw [hvisits] at hx
    rw [hedges]
    exact h.visited x hx
  · rw [hvisits, ← h.visits]
    apply List.map_congr_left
    intro x hx
    have hends := h.ends _ (h.visited x hx).1
    rw [Visit.map, Visit.map, edgeName, edgeName, hold _ hends.1, hold _ hends.2,
      hold _ (h.visited_lt hx)]

theorem refNode_eq_none [Inhabited NP] {nid : Osmid} (key : K) (pos : ℕ)
    (href : refNode bBoxNodes noHupNodes st nid = none) :
    nameRef bBoxNodes noHupNodes key pos nid = none := by
  rw [refNode] at href
  rw [nameRef]
  split at href
  · simp at href
  · rename_i hhup
    rw [if_neg hhup]
    split at href
    · simp at href
    · split at href
      · simp at href
      · rename_i hbox
        rw [if_neg hbox]

theorem refNode_named [Inhabited NP] {nid : Osmid} {n : ℕ} {st' : ReadState NP D} {key : K}
    {pos : ℕ}
    (h : Named bBoxNodes used ν xs st) (hfresh : (key, pos) ∉ used)
    (href : refNode bBoxNodes noHupNodes st nid = some (n, st')) :
    ∃ ν', Named bBoxNodes (insert (key, pos) used) ν' xs st' ∧
      nameRef bBoxNodes noHupNodes key pos nid = some (ν' n) ∧ n < st'.g.nextNd ∧
      st.g.nextNd ≤ st'.g.nextNd ∧ ∀ m < st.g.nextNd, ν' m = ν m := by
  have hold := NamedGraph.extends_update st.g ν
  rw [refNode] at href
  rw [nameRef]
  split at href
  · rename_i hhup
    obtain ⟨rfl, hst⟩ := Prod.mk.inj (Option.some.inj href)
    have hg : st'.g = (st.g.addNd default).2 := by rw [← hst]; rfl
    have hnext : st'.g.nextNd = st.g.nextNd + 1 := by rw [hg]; rfl
    refine ⟨Function.update ν st.g.nextNd (.noHup key pos), ?_, ?_, by omega, by omega, hold _⟩
    · apply h.addNd hg (by rw [← hst])
      · intro m hm hname
        exact hfresh (h.noHup m hm key pos hname)
      · exact Set.subset_insert _ _
      · intro key' pos' hname
        obtain ⟨rfl, rfl⟩ := Name.noHup.inj hname
        exact Set.mem_insert _ _
      · intro nid' m
        simp [← hst]
      · intro nid' hname
        simp at hname
    · rw [if_pos hhup, Function.update_self]
  · rename_i hhup
    rw [if_neg hhup]
    split at href
    · rename_i m hm
      obtain ⟨rfl, rfl⟩ := Prod.mk.inj (Option.some.inj href)
      obtain ⟨hlt, hname⟩ := (h.node nid m).1 hm
      refine ⟨ν, ?_, ?_, hlt, Nat.le_refl _, fun _ _ => rfl⟩
      · exact { h with noHup := fun n hn key pos hname =>
          Set.mem_insert_of_mem _ (h.noHup n hn key pos hname) }
      · rw [if_pos (h.box nid m hm), hname]
    · rename_i hnone
      split at href
      · rename_i hbox
        obtain ⟨rfl, hst⟩ := Prod.mk.inj (Option.some.inj href)
        have hg : st'.g = (st.g.addNd default).2 := by rw [← hst]; rfl
        have hnext : st'.g.nextNd = st.g.nextNd + 1 := by rw [hg]; rfl
        have hnodes : st'.nodes = Function.update st.nodes nid (some st.g.nextNd) := by
          rw [← hst]
        refine ⟨Function.update ν st.g.nextNd (.node nid), ?_, ?_, by omega, by omega, hold _⟩
        · apply h.addNd hg (by rw [← hst])
          · intro m hm hname
            rw [(h.node nid m).2 ⟨hm, hname⟩] at hnone
            simp at hnone
          · exact Set.subset_insert _ _
          · intro key' pos' hname
            simp at hname
          · intro nid' m
            rw [hnodes]
            by_cases hnid : nid' = nid
            · subst hnid
              simp [hnone, eq_comm]
            · have hne : (Name.node nid : Name K) ≠ .node nid' := fun hc => hnid (Name.node.inj hc).symm
              simp [Function.update_of_ne hnid, hne]
          · intro nid' hname
            rw [← Name.node.inj hname]
            exact hbox
        · rw [if_pos hbox, Function.update_self]
      · simp at href

theorem processRestriction_graph (pos : Bool) (x : Visit ℕ Edge) (kvs : List Restriction)
    (s : TrGraph NP D × Restrictor) :
    (kvs.foldl (processRestriction pos x) s).1.nds = s.1.nds ∧
    (kvs.foldl (processRestriction pos x) s).1.edges = s.1.edges ∧
    (kvs.foldl (processRestriction pos x) s).1.nextNd = s.1.nextNd := by
  induction kvs generalizing s with
  | nil => exact ⟨rfl, rfl, rfl⟩
  | cons kv kvs ih =>
    obtain ⟨hnds, hedges, hnext⟩ := ih (processRestriction pos x s kv)
    rw [List.foldl_cons, hnds, hedges, hnext, processRestriction]
    split
    · exact ⟨rfl, rfl, rfl⟩
    · split
      · exact ⟨rfl, rfl, rfl⟩
      · exact ⟨rfl, rfl, rfl⟩

theorem processRestrictions_frame (rawRests : Restrictions) (s : ReadState NP D) (x : Visit ℕ Edge) :
    (processRestrictions rawRests s x).g.nds = s.g.nds ∧
    (processRestrictions rawRests s x).g.edges = s.g.edges ∧
    (processRestrictions rawRests s x).g.nextNd = s.g.nextNd ∧
    (processRestrictions rawRests s x).nodes = s.nodes ∧
    (processRestrictions rawRests s x).visits = s.visits ++ [x] := by
  obtain ⟨hnds, hedges, hnext⟩ :=
    processRestriction_graph true x (rawRests.pos x.nid) (s.g, s.restor)
  obtain ⟨hnds', hedges', hnext'⟩ := processRestriction_graph false x (rawRests.neg x.nid)
    ((rawRests.pos x.nid).foldl (processRestriction true x) (s.g, s.restor))
  exact ⟨hnds'.trans hnds, hedges'.trans hedges, hnext'.trans hnext, rfl, rfl⟩

end

variable (rawRests annotate) in
theorem connect_frame (w : OsmWay) (st : ReadState NP D) (last : Osmid × ℕ) (nid : Osmid) (n : ℕ) :
    (connect rawRests annotate w st last nid n).g.nds = st.g.nds ∧
    (connect rawRests annotate w st last nid n).g.edges =
      (st.g.addEdg last.2 n defaultPayload).2.edges ∧
    (connect rawRests annotate w st last nid n).g.nextNd = st.g.nextNd ∧
    (connect rawRests annotate w st last nid n).nodes = st.nodes ∧
    (connect rawRests annotate w st last nid n).multNodes = st.multNodes ∧
    (connect rawRests annotate w st last nid n).visits = st.visits ++
      [⟨nid, w.id, (st.g.addEdg last.2 n defaultPayload).1, n⟩,
        ⟨last.1, w.id, (st.g.addEdg last.2 n defaultPayload).1, last.2⟩] := by
  unfold connect
  dsimp only
  obtain ⟨hnds, hedges, hnext, hnodes, hvisits⟩ := processRestrictions_frame rawRests
    { st with g := (st.g.addEdg last.2 n defaultPayload).2 }
    ⟨nid, w.id, (st.g.addEdg last.2 n defaultPayload).1, n⟩
  obtain ⟨hnds', hedges', hnext', hnodes', hvisits'⟩ := processRestrictions_frame rawRests
    (processRestrictions rawRests { st with g := (st.g.addEdg last.2 n defaultPayload).2 }
      ⟨nid, w.id, (st.g.addEdg last.2 n defaultPayload).1, n⟩)
    ⟨last.1, w.id, (st.g.addEdg last.2 n defaultPayload).1, last.2⟩
  refine ⟨?_, hedges'.trans hedges, ?_, hnodes'.trans hnodes, rfl, ?_⟩
  · exact (hnds'.trans hnds).trans (DirGraph.addEdg_nds st.g last.2 n defaultPayload)
  · exact (hnext'.trans hnext).trans (DirGraph.addEdg_nextNd st.g last.2 n defaultPayload)
  · rw [hvisits', hvisits, List.append_assoc]
    rfl

theorem connect_named (h : Named bBoxNodes used ν xs st) (w : OsmWay) {last : Osmid × ℕ}
    {nid : Osmid} {n : ℕ} (hlast : last.2 < st.g.nextNd) (hn : n < st.g.nextNd) :
    Named bBoxNodes used ν (xs ++ segVisits w.id (last.1, ν last.2) (nid, ν n))
      (connect rawRests annotate w st last nid n) ∧
    (connect rawRests annotate w st last nid n).g.nextNd = st.g.nextNd := by
  obtain ⟨hnds, hedges, hnext, hnodes, -, hvisits⟩ :=
    connect_frame rawRests annotate w st last nid n
  obtain ⟨hfrom, hto, hmem⟩ := DirGraph.addEdg_ends st.g last.2 n defaultPayload
  refine ⟨?_, hnext⟩
  constructor
  · rw [hnds, hnext]
    exact h.nds
  · rw [hnext]
    exact h.inj
  · rw [hnext, hnodes]
    exact h.node
  · rw [hnodes]
    exact h.box
  · rw [hnext]
    exact h.noHup
  · intro x hx
    rw [hedges, DirGraph.mem_addEdg] at hx
    rw [hnext]
    cases hx with
    | inl hx => exact h.ends x hx
    | inr hx =>
      rw [hx, hfrom, hto]
      exact ⟨hlast, hn⟩
  · intro x hx
    rw [hvisits, List.mem_append] at hx
    rw [hedges]
    cases hx with
    | inl hx =>
      obtain ⟨he, hend⟩ := h.visited x hx
      exact ⟨DirGraph.mem_addEdg.2 (Or.inl he), hend⟩
    | inr hx =>
      cases List.mem_cons.1 hx with
      | inl hx =>
        rw [hx]
        exact ⟨hmem, Or.inr hto⟩
      | inr hx =>
        rw [List.mem_singleton.1 hx]
        exact ⟨hmem, Or.inl hfrom⟩
  · rw [hvisits, List.map_append, h.visits]
    simp [Visit.map, edgeName, segVisits, hfrom, hto]

/-- The state inside a way agrees with `refVisits`. -/
theorem readRefs_named [Inhabited NP] (key : K) (w : OsmWay) (nids : List Osmid) {pos : ℕ}
    {last : Option (Osmid × ℕ)} (h : Named bBoxNodes used ν xs st)
    (hfresh : ∀ i, pos ≤ i → (key, i) ∉ used) (hlast : ∀ l ∈ last, l.2 < st.g.nextNd) :
    ∃ used' ν', Named bBoxNodes used' ν'
        (xs ++ refVisits bBoxNodes noHupNodes key w.id pos (last.map fun l => (l.1, ν l.2)) nids)
        (nids.foldl (readRef bBoxNodes noHupNodes rawRests annotate w) (st, last)).1 ∧
      ∀ k i, (k, i) ∈ used' → (k, i) ∈ used ∨ k = key := by
  induction nids generalizing pos last used ν xs st with
  | nil => exact ⟨used, ν, by rw [refVisits, List.append_nil]; exact h, fun _ _ => Or.inl⟩
  | cons nid nids ih =>
    rw [List.foldl_cons, readRef]
    cases href : refNode bBoxNodes noHupNodes st nid with
    | none =>
      rw [refVisits, refNode_eq_none key pos href]
      exact ih h (fun i hi => hfresh i (by omega)) hlast
    | some ref =>
      obtain ⟨n, s⟩ := ref
      obtain ⟨ν', hs, hname, hn, hle, hold⟩ := refNode_named h (hfresh pos (Nat.le_refl _)) href
      have hfresh' : ∀ i, pos + 1 ≤ i → (key, i) ∉ insert (key, pos) used := by
        intro i hi hmem
        cases Set.mem_insert_iff.1 hmem with
        | inl he => have hpos := (Prod.mk.inj he).2; omega
        | inr hmem => exact hfresh i (by omega) hmem
      have hused : ∀ used' : Set (K × ℕ), (∀ k i, (k, i) ∈ used' → (k, i) ∈ insert (key, pos) used ∨ k = key) →
          ∀ k i, (k, i) ∈ used' → (k, i) ∈ used ∨ k = key := by
        intro used' hsub k i hmem
        cases hsub k i hmem with
        | inl hmem =>
          cases Set.mem_insert_iff.1 hmem with
          | inl he => exact Or.inr (Prod.mk.inj he).1
          | inr hmem => exact Or.inl hmem
        | inr he => exact Or.inr he
      rw [refVisits, hname]
      cases last with
      | none =>
        have hlast' : ∀ l ∈ some (nid, n), l.2 < s.g.nextNd := by
          intro l hl
          rw [← Option.some.inj hl]
          exact hn
        obtain ⟨used', ν'', hnamed, hsub⟩ := ih hs hfresh' hlast'
        exact ⟨used', ν'', hnamed, hused used' hsub⟩
      | some l =>
        have hl : l.2 < st.g.nextNd := hlast l rfl
        obtain ⟨hconn, hnext⟩ := connect_named hs w (Nat.lt_of_lt_of_le hl hle) hn
        have hlast' : ∀ l' ∈ some (nid, n),
            l'.2 < (connect rawRests annotate w s l nid n).g.nextNd := by
          intro l' hl'
          rw [← Option.some.inj hl', hnext]
          exact hn
        obtain ⟨used', ν'', hnamed, hsub⟩ := ih hconn hfresh' hlast'
        refine ⟨used', ν'', ?_, hused used' hsub⟩
        rw [hold l.2 hl, List.append_assoc] at hnamed
        exact hnamed

theorem readWays_named [Inhabited NP] (kws : List (K × OsmWay)) (h : Named bBoxNodes used ν xs st)
    (hkeys : (kws.map Prod.fst).Nodup) (hfresh : ∀ k i, (k, i) ∈ used → k ∉ kws.map Prod.fst) :
    ∃ used' ν', Named bBoxNodes used' ν' (xs ++ docVisits bBoxNodes noHupNodes kws)
      ((kws.map Prod.snd).foldl (readWay bBoxNodes noHupNodes rawRests annotate) st) := by
  induction kws generalizing used ν xs st with
  | nil => exact ⟨used, ν, by rw [docVisits, List.flatMap_nil, List.append_nil]; exact h⟩
  | cons kw kws ih =>
    rw [List.map_cons, List.nodup_cons] at hkeys
    have hnew : ∀ i, 0 ≤ i → (kw.1, i) ∉ used := by
      intro i _ hmem
      exact hfresh kw.1 i hmem (by simp)
    obtain ⟨used', ν', hway, hsub⟩ :=
      readRefs_named kw.1 kw.2 kw.2.nodes h hnew (by simp : ∀ l ∈ (none : Option (Osmid × ℕ)), _)
    obtain ⟨used'', ν'', hrest⟩ := ih hway hkeys.2 (by
      intro k i hmem
      cases hsub k i hmem with
      | inl hmem => exact fun hk => hfresh k i hmem (List.mem_cons_of_mem _ hk)
      | inr hk => rw [hk]; exact hkeys.1)
    refine ⟨used'', ν'', ?_⟩
    rw [List.append_assoc] at hrest
    exact hrest

/-- The visits of a run are those planned by the document, up to the names. -/
theorem readEdges_named [Inhabited NP] {keep : OsmWay → Bool} {ways : List OsmWay}
    {kws : List (K × OsmWay)}
    (hways : kws.map Prod.snd = ways.filter keep) (hkeys : (kws.map Prod.fst).Nodup) :
    ∃ used ν, Named bBoxNodes used ν (docVisits bBoxNodes noHupNodes kws)
      (readEdges bBoxNodes noHupNodes rawRests annotate keep ways : ReadState NP D) := by
  rw [readEdges, ← hways]
  exact readWays_named kws named_empty hkeys (by simp)

end named

end Pfaedle.ReadEdges

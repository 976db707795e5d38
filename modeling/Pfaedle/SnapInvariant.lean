import Pfaedle.LoopRules
import Pfaedle.Snapping
import Pfaedle.SplitRules
import Mathlib.Algebra.Order.Monoid.Canonical.Defs
import Mathlib.Logic.Relation

set_option autoImplicit false

/-!
# What every step of `snap_stations` keeps

The graph only grows by split edges and new nodes, and the nodes and groups stay linked as long as
the station that is placed has no group or the group of some node.
-/
namespace Pfaedle.Trgraph
open DirGraphs Restriction ODirEdges LoopRules

section steps
variable {P L : Type*}

/-- What `snap_stations` does to the graph and the restrictor. -/
inductive SnapStep (geo : Geo P L) : Graph P L ℕ StationData × Restrictor →
    Graph P L ℕ StationData × Restrictor → Prop
  | info {g g' : Graph P L ℕ StationData} (restor : Restrictor) (h : SameStreets g g') :
      SnapStep geo (g, restor) (g', restor)
  | split {st : Graph P L ℕ StationData × Restrictor} {e : Edge} (he : e ∈ st.1.edges)
      (s : NodePayload P ℕ StationData) : SnapStep geo st (splitEdge geo st e s)
  | node (g : Graph P L ℕ StationData) (restor : Restrictor) (p : NodePayload P ℕ StationData) :
      SnapStep geo (g, restor) ((g.addNd p).2, restor)

abbrev SnapSteps (geo : Geo P L) := Relation.ReflTransGen (SnapStep geo)

variable [AddCommMonoid L] [LinearOrder L]

/-- The grid holds the ends of every edge and what lies between them, and finds it again. -/
structure GridCovers (S : Snapper P L) (g : Graph P L ℕ StationData) : Prop where
  self : ∀ p, S.geo.webMercMeterDist p p = 0
  inside : ∀ e ∈ g.edges, S.geo.inGrid (pos g e.getFrom) ∧ S.geo.inGrid (pos g e.getTo)
  convex : ∀ p q x, S.geo.inGrid p → S.geo.inGrid q → S.geo.inGrid (S.geo.projectOn p x q)

/-- What every step keeps; with `covered` also that the grid covers the edges. -/
structure SnapInv (S : Snapper P L) (covered : Prop) (s : SnapState P L) : Prop where
  proper : s.st.g.Proper
  linked : Linked s.st
  sng : ∀ n ∈ s.sng, n ∈ s.st.g.nds ∧ (getSi s.st n).isSome
  eg : s.eg.Nodup ∧ ∀ e ∈ s.eg, e ∈ s.st.g.edges
  grid : covered → GridCovers S s.st.g
  nonneg : covered → ∀ p q, 0 ≤ S.geo.webMercMeterDist p q

structure SnapGrows (S : Snapper P L) (s s' : SnapState P L) : Prop where
  steps : SnapSteps S.geo.toGeo (s.st.g, s.restor) (s'.st.g, s'.restor)
  nds : ∀ n ∈ s.st.g.nds, n ∈ s'.st.g.nds ∧ pos s'.st.g n = pos s.st.g n
  sng : ∀ n ∈ s.sng, n ∈ s'.sng
  found : ∀ t v, FoundAt s.st t v → FoundAt s'.st t v

omit [AddCommMonoid L] in
theorem SnapGrows.refl (S : Snapper P L) (s : SnapState P L) : SnapGrows S s s :=
  ⟨Relation.ReflTransGen.refl, fun _ h => ⟨h, rfl⟩, fun _ h => h, fun _ _ h => h⟩

omit [AddCommMonoid L] in
theorem SnapGrows.trans {S : Snapper P L} {s s' s'' : SnapState P L} (h : SnapGrows S s s')
    (h' : SnapGrows S s' s'') : SnapGrows S s s'' := by
  refine ⟨h.steps.trans h'.steps, ?_, fun n hn => h'.sng n (h.sng n hn),
    fun t v hv => h'.found t v (h.found t v hv)⟩
  intro n hn
  obtain ⟨hn', hpos⟩ := h.nds n hn
  obtain ⟨hn'', hpos'⟩ := h'.nds n hn'
  exact ⟨hn'', hpos'.trans hpos⟩

variable {S : Snapper P L} {covered : Prop} {s : SnapState P L}

theorem GridCovers.same {g g' : Graph P L ℕ StationData} (h : GridCovers S g)
    (hsame : SameStreets g g') : GridCovers S g' := by
  refine ⟨h.self, ?_, h.convex⟩
  intro e he
  rw [hsame.edges] at he
  rw [hsame.geom, hsame.geom]
  exact h.inside e he

theorem SnapInv.regroup (h : SnapInv S covered s) {st : Stations P L} (hre : Regrouped s.st st) :
    SnapInv S covered { s with st := st } ∧ SnapGrows S s { s with st := st } := by
  constructor
  · refine ⟨hre.streets.proper h.proper, hre.linked, ?_, ⟨h.eg.1, ?_⟩, ?_, h.nonneg⟩
    · intro n hn
      obtain ⟨hmem, hsi⟩ := h.sng n hn
      refine ⟨?_, ?_⟩
      · change n ∈ st.g.nds
        rw [hre.streets.nds]
        exact hmem
      · rw [hre.si]
        exact hsi
    · intro e he
      change e ∈ st.g.edges
      rw [hre.streets.edges]
      exact h.eg.2 e he
    · exact fun himport => (h.grid himport).same hre.streets
  · refine ⟨Relation.ReflTransGen.single (SnapStep.info _ hre.streets), ?_, fun _ h => h, hre.found⟩
    intro n hn
    refine ⟨?_, hre.streets.geom n⟩
    change n ∈ st.g.nds
    rw [hre.streets.nds]
    exact hn

end steps

section search
variable {P L : Type*} [AddCommMonoid L] [LinearOrder L] {S : Snapper P L}
  {g : Graph P L ℕ StationData}

variable (S) in
theorem expandNode_mem (sfunc : ℕ → Bool) (maxD : L) (closed : List ℕ) (cur : NodeCand L)
    (l : List (ℕ × Edge)) (hl : ∀ c ∈ l, c.1 ∈ g.nds) :
    (∀ n, (expandNode S g sfunc maxD closed cur l).1 = some n → n ∈ g.nds) ∧
      ∀ c ∈ (expandNode S g sfunc maxD closed cur l).2, c.node ∈ g.nds := by
  induction l with
  | nil => exact ⟨fun n h => absurd h (Option.some_ne_none n).symm, fun c h => absurd h List.not_mem_nil⟩
  | cons c l ih =>
    obtain ⟨cand, edg⟩ := c
    have hcand : cand ∈ g.nds := hl (cand, edg) List.mem_cons_self
    have ih := ih fun c hc => hl c (List.mem_cons_of_mem _ hc)
    rw [expandNode]
    split
    · exact ih
    · dsimp only
      split
      · split
        · refine ⟨?_, fun c h => absurd h List.not_mem_nil⟩
          intro n hn
          cases hn
          exact hcand
        · refine ⟨ih.1, ?_⟩
          intro c hc
          cases List.mem_cons.1 hc with
          | inl heq =>
            rw [heq]
            exact hcand
          | inr hmem => exact ih.2 c hmem
      · exact ih

omit [AddCommMonoid L] [LinearOrder L] in
theorem neighbours_mem (hlive : g.Live) (n : ℕ) : ∀ c ∈ neighbours g n, c.1 ∈ g.nds := by
  intro c hc
  cases List.mem_append.1 hc with
  | inl hc =>
    obtain ⟨e, he, rfl⟩ := List.mem_map.1 hc
    exact (hlive.ends e (DirGraph.mem_getAdjListIn.1 he).1).1
  | inr hc =>
    obtain ⟨e, he, rfl⟩ := List.mem_map.1 hc
    exact (hlive.ends e (DirGraph.mem_getAdjListOut.1 he).1).2

theorem searchLoop_mem (hlive : g.Live) {sfunc : ℕ → Bool} {maxD : L} {k : ℕ} {closed : List ℕ}
    {q : List (NodeCand L)} {n : ℕ} (h : searchLoop S g sfunc maxD k closed q = some n) :
    n ∈ g.nds := by
  induction k generalizing closed q with
  | zero => cases h
  | succ k ih =>
    rw [searchLoop] at h
    split at h
    · cases h
    · split at h
      · exact ih h
      · rename_i cur q _ _
        have hexpand := expandNode_mem S sfunc maxD (cur.node :: closed) cur
          (neighbours g cur.node) (neighbours_mem hlive cur.node)
        split at h
        · rename_i m new hfound
          rw [hfound] at hexpand
          exact Option.some.inj h ▸ hexpand.1 m rfl
        · exact ih h

/-- A search ends at a node of the graph. -/
theorem depth_search_mem (hlive : g.Live) {e : Edge} (he : e ∈ g.edges) {p : P} {maxD : L}
    {sfunc : ℕ → Bool} {n : ℕ} (h : depth_search S g e p maxD sfunc = some n) : n ∈ g.nds := by
  obtain ⟨hfrom, hto⟩ := hlive.ends e he
  unfold depth_search at h
  dsimp only at h
  split at h
  · cases h
  · split at h
    · exact Option.some.inj h ▸ hfrom
    · split at h
      · exact Option.some.inj h ▸ hto
      · exact searchLoop_mem hlive h

end search

section rounds
variable {P L : Type*} [LinearOrder L] {S : Snapper P L} {covered : Prop} {s : SnapState P L}

/-- The group of the station that is placed, if it has one, is the group of some node. -/
def GroupCurrent (st : Stations P L) (si : SInfo) : Prop := ∀ G, si.group = some G → Current st G

theorem addToGroup_g (si : SInfo) (n : ℕ) (st : Stations P L) : (addToGroup S si n st).g = st.g := by
  rw [addToGroup]
  split
  · rfl
  · rfl

theorem addToGroup_joins {st st₁ : Stations P L} {si : SInfo} {n : ℕ}
    (hnds : ∀ m, m ∈ st₁.g.nds ↔ m ∈ st.g.nds ∨ m = n)
    (hsi : ∀ m, getSi st₁ m = if m = n then some si else getSi st m)
    (hgroups : st₁.groups = st.groups) (hnext : st₁.nextGroup = st.nextGroup) :
    Joins S.addr st n si.group (addToGroup S si n st₁) := by
  have hg := addToGroup_g (S := S) si n st₁
  have hgroup : ∀ m, getGroup (addToGroup S si n st₁) m = if m = n then si.group else getGroup st m := by
    intro m
    rw [getGroup, getSi, hg]
    change (getSi st₁ m).bind _ = _
    rw [hsi]
    split
    · rfl
    · rfl
  refine ⟨fun m => by rw [hg, hnds], hgroup, ?_, ?_, ?_⟩
  · intro H hH
    rw [addToGroup, hH]
    dsimp only
    rw [addNode, updateGroup_self, hgroups]
  · intro H hH
    rw [addToGroup]
    cases hG : si.group with
    | none =>
      dsimp only
      rw [hgroups]
    | some G =>
      dsimp only
      rw [addNode, updateGroup_ne, hgroups]
      rintro rfl
      exact hH hG
  · rw [addToGroup]
    split
    · exact hnext
    · exact hnext

structure RunInv [AddCommMonoid L] (S : Snapper P L) (covered : Prop) (s₀ : SnapState P L)
    (r : SnapRun P L) :
    Prop where
  inv : SnapInv S covered r.s
  grows : SnapGrows S s₀ r.s
  group : GroupCurrent r.s.st r.pl.si
  ret : ∀ n ∈ r.ret, n ∈ r.s.st.g.nds

theorem placeAt_inv [AddCommMonoid L] {s₀ : SnapState P L} {r : SnapRun P L}
    (h : RunInv S covered s₀ r) {n : ℕ}
    (hn : n ∈ r.s.st.g.nds) (hnone : getSi r.s.st n = none) : RunInv S covered s₀ (placeAt S r n) := by
  have hjoins : Joins S.addr r.s.st n r.pl.si.group
      (addToGroup S r.pl.si n (setSi n r.pl.si r.s.st)) := by
    refine addToGroup_joins ?_ (getSi_setSi n r.pl.si r.s.st) rfl rfl
    intro m
    constructor
    · exact Or.inl
    · exact fun h => h.elim id fun h => h ▸ hn
  have hfree : ∀ H, ¬ InGroup r.s.st n H := by
    intro H hin
    have hgroup := hin.group
    rw [getGroup, hnone] at hgroup
    cases hgroup
  obtain ⟨hlinked, hkeep, -, hfound⟩ := hjoins.linked h.inv.linked hfree
    fun H hH => h.inv.linked.owned (h.group H hH)
  have hsame : SameStreets r.s.st.g (addToGroup S r.pl.si n (setSi n r.pl.si r.s.st)).g := by
    rw [addToGroup_g]
    exact sameStreets_setSi n r.pl.si r.s.st
  have hsi : ∀ m, (getSi r.s.st m).isSome →
      (getSi (addToGroup S r.pl.si n (setSi n r.pl.si r.s.st)) m).isSome := by
    intro m hm
    rw [getSi, addToGroup_g]
    change (getSi (setSi n r.pl.si r.s.st) m).isSome
    rw [getSi_setSi]
    split
    · rfl
    · exact hm
  have hnds : ∀ m ∈ r.s.st.g.nds, m ∈ (placeAt S r n).s.st.g.nds := by
    intro m hm
    change m ∈ (addToGroup S r.pl.si n (setSi n r.pl.si r.s.st)).g.nds
    rw [hsame.nds]
    exact hm
  refine ⟨⟨hsame.proper h.inv.proper, hlinked, ?_, ⟨h.inv.eg.1, ?_⟩, ?_, h.inv.nonneg⟩, ?_, ?_, ?_⟩
  · exact fun m hm => ⟨hnds m (h.inv.sng m hm).1, hsi m (h.inv.sng m hm).2⟩
  · intro e he
    change e ∈ (addToGroup S r.pl.si n (setSi n r.pl.si r.s.st)).g.edges
    rw [hsame.edges]
    exact h.inv.eg.2 e he
  · exact fun himport => (h.inv.grid himport).same hsame
  · refine h.grows.trans ⟨Relation.ReflTransGen.single (SnapStep.info _ hsame), ?_, fun _ h => h,
      hfound⟩
    exact fun m hm => ⟨hnds m hm, hsame.geom m⟩
  · intro G hG
    obtain ⟨m, hm⟩ := h.group G hG
    exact ⟨m, hkeep m G hm⟩
  · intro m hm
    cases mem_setInsert.1 hm with
    | inl heq => exact hnds m (heq ▸ hn)
    | inr hmem => exact hnds m (h.ret m hmem)

theorem takeEq_inv [AddCommMonoid L] {s₀ : SnapState P L} {r : SnapRun P L}
    (h : RunInv S covered s₀ r) {n : ℕ}
    (hn : n ∈ r.s.st.g.nds) : RunInv S covered s₀ (takeEq S r n) := by
  have hre : Regrouped r.s.st (takeEq S r n).s.st ∧
      ∀ m H, InGroup r.s.st m H → InGroup (takeEq S r n).s.st m H := by
    unfold takeEq
    dsimp only
    split
    · exact setData_regrouped n _ h.inv.linked
    · exact ⟨Regrouped.refl h.inv.linked, fun _ _ => id⟩
  obtain ⟨hre, hkeep⟩ := hre
  have hstate : (takeEq S r n).s = { r.s with st := (takeEq S r n).s.st } := rfl
  obtain ⟨hinv, hgrows⟩ := h.inv.regroup hre
  rw [← hstate] at hinv hgrows
  refine ⟨hinv, h.grows.trans hgrows, ?_, ?_⟩
  · intro G hG
    obtain ⟨m, hm⟩ := h.group G hG
    exact ⟨m, hkeep m G hm⟩
  · intro m hm
    cases mem_setInsert.1 hm with
    | inl heq => exact (hgrows.nds m (heq ▸ hn)).1
    | inr hmem => exact (hgrows.nds m (h.ret m hmem)).1

theorem splitAt_eg {r : SnapRun P L} {e ne nf : Edge} {geom : P}
    (hhalves : Halves r.s.st.g e ne nf)
    (hgraph : SplitGraph S.geo.toGeo r.s.st.g e ⟨geom, some r.pl.si⟩ ne nf
      (splitEdge S.geo.toGeo (r.s.st.g, r.s.restor) e ⟨geom, some r.pl.si⟩).1) :
    ∃ l l', (l = [] ∨ l = [ne]) ∧ (l' = [] ∨ l' = [nf]) ∧
      (splitAt S r e geom).s.eg = (r.s.eg ++ l ++ l').filter (· ≠ e) := by
  have hne := DirGraph.getEdg_of_mem ((hgraph.edges ne).2 (Or.inr (Or.inl rfl)))
  have hnf := DirGraph.getEdg_of_mem ((hgraph.edges nf).2 (Or.inr (Or.inr rfl)))
  rw [hhalves.first.1, hhalves.first.2] at hne
  rw [hhalves.second.1, hhalves.second.2] at hnf
  unfold splitAt
  dsimp only
  rw [hne, hnf]
  refine ⟨_, _, ?_, ?_, rfl⟩
  · split
    · exact Or.inr rfl
    · exact Or.inl rfl
  · split
    · exact Or.inr rfl
    · exact Or.inl rfl

/-- After a split the grid still lists every edge once, and live ones only. -/
theorem splitAt_eg_live {r : SnapRun P L} {e ne nf : Edge} {geom : P}
    (heg : r.s.eg.Nodup ∧ ∀ x ∈ r.s.eg, x ∈ r.s.st.g.edges) (hhalves : Halves r.s.st.g e ne nf)
    (hgraph : SplitGraph S.geo.toGeo r.s.st.g e ⟨geom, some r.pl.si⟩ ne nf
      (splitEdge S.geo.toGeo (r.s.st.g, r.s.restor) e ⟨geom, some r.pl.si⟩).1) :
    (splitAt S r e geom).s.eg.Nodup ∧ ∀ x ∈ (splitAt S r e geom).s.eg,
      x ∈ (splitEdge S.geo.toGeo (r.s.st.g, r.s.restor) e ⟨geom, some r.pl.si⟩).1.edges := by
  obtain ⟨l, l', hl, hl', hlist⟩ := splitAt_eg hhalves hgraph
  have hfresh : ∀ x ∈ r.s.eg, x ≠ ne ∧ x ≠ nf := by
    intro x hx
    have hmem := heg.2 x hx
    constructor
    · rintro rfl
      exact hhalves.fresh.1 hmem
    · rintro rfl
      exact hhalves.fresh.2 hmem
  have hone : ∀ {x y : Edge} {k : List Edge}, k = [] ∨ k = [y] → x ∈ k → x = y := by
    intro x y k hk hx
    cases hk with
    | inl hk => exact absurd (hk ▸ hx) List.not_mem_nil
    | inr hk => exact List.mem_singleton.1 (hk ▸ hx)
  have hshort : ∀ {y : Edge} {k : List Edge}, k = [] ∨ k = [y] → k.Nodup := by
    intro y k hk
    cases hk with
    | inl hk => exact hk ▸ List.nodup_nil
    | inr hk => exact hk ▸ List.nodup_singleton y
  rw [hlist]
  constructor
  · apply List.Nodup.filter
    have hnodup : (r.s.eg ++ l).Nodup :=
      heg.1.append (hshort hl) fun x hx hxl => (hfresh x hx).1 (hone hl hxl)
    apply hnodup.append (hshort hl')
    intro x hx hxl
    cases List.mem_append.1 hx with
    | inl hx => exact (hfresh x hx).2 (hone hl' hxl)
    | inr hx => exact hhalves.ne_nf ((hone hl hx).symm.trans (hone hl' hxl))
  · intro x hx
    rw [List.mem_filter, decide_eq_true_eq] at hx
    obtain ⟨hx, hxe⟩ := hx
    rw [hgraph.edges]
    cases List.mem_append.1 hx with
    | inl hx =>
      cases List.mem_append.1 hx with
      | inl hx => exact Or.inl ⟨heg.2 x hx, hxe⟩
      | inr hx => exact Or.inr (Or.inl (hone hl hx))
    | inr hx => exact Or.inr (Or.inr (hone hl' hx))

section
omit [LinearOrder L]

theorem SplitGraph.pos {g g' : Graph P L ℕ StationData} {geo : Geo P L} {e ne nf : Edge} {geom : P}
    {si : Option SInfo} (h : SplitGraph geo g e ⟨geom, si⟩ ne nf g') (m : ℕ) :
    pos g' m = if m = g.nextNd then geom else pos g m := by
  rw [Trgraph.pos, h.npl]
  split
  · rename_i hm
    rw [hm, Function.update_self]
  · rename_i hm
    rw [Function.update_of_ne hm, Trgraph.pos]

theorem SplitGraph.mem_nds {g g' : Graph P L ℕ StationData} {geo : Geo P L} {e ne nf : Edge}
    {s : NodePayload P ℕ StationData} (h : SplitGraph geo g e s ne nf g') (m : ℕ) :
    m ∈ g'.nds ↔ m ∈ g.nds ∨ m = g.nextNd := by
  rw [h.nds, List.mem_append, List.mem_singleton]

theorem SplitGraph.si {g g' : Graph P L ℕ StationData} {geo : Geo P L} {e ne nf : Edge} {geom : P}
    {si : Option SInfo} (h : SplitGraph geo g e ⟨geom, si⟩ ne nf g') (m : ℕ) :
    (g'.npl m).si = if m = g.nextNd then si else (g.npl m).si := by
  rw [h.npl]
  split
  · rename_i hm
    rw [hm, Function.update_self]
  · rename_i hm
    rw [Function.update_of_ne hm]

end

/-- The grid covers both halves of an edge if it covers the edge and the new node. -/
theorem GridCovers.split [AddCommMonoid L] {g g' : Graph P L ℕ StationData} {e ne nf : Edge}
    {geom : P}
    {si : Option SInfo} (h : GridCovers S g) (hlive : g.Live) (he : e ∈ g.edges)
    (hhalves : Halves g e ne nf) (hgraph : SplitGraph S.geo.toGeo g e ⟨geom, si⟩ ne nf g')
    (hgeom : S.geo.inGrid geom) : GridCovers S g' := by
  have hends : ∀ x ∈ g.edges, S.geo.inGrid (Trgraph.pos g' x.getFrom) ∧
      S.geo.inGrid (Trgraph.pos g' x.getTo) := by
    intro x hx
    obtain ⟨hfrom, hto⟩ := hlive.ends x hx
    rw [hgraph.pos, hgraph.pos, if_neg (Nat.ne_of_lt (hlive.handed _ hfrom)),
      if_neg (Nat.ne_of_lt (hlive.handed _ hto))]
    exact h.inside x hx
  have hmid : S.geo.inGrid (Trgraph.pos g' g.nextNd) := by
    rw [hgraph.pos, if_pos rfl]
    exact hgeom
  refine ⟨h.self, fun x hx => ?_, h.convex⟩
  rcases (hgraph.edges x).1 hx with hold | rfl | rfl
  · exact hends x hold.1
  · rw [hhalves.first.1, hhalves.first.2]
    exact ⟨(hends e he).1, hmid⟩
  · rw [hhalves.second.1, hhalves.second.2]
    exact ⟨hmid, (hends e he).2⟩

theorem mem_splitAt_sng {r : SnapRun P L} {e : Edge} {geom : P} {n : ℕ} :
    n ∈ (splitAt S r e geom).s.sng ↔
      n ∈ r.s.sng ∨ S.geo.inGrid geom ∧ n = r.s.st.g.nextNd := by
  change n ∈ (if S.geo.inGrid geom then setInsert S.addr r.s.st.g.nextNd r.s.sng else r.s.sng) ↔ _
  split
  · rename_i hin
    rw [mem_setInsert, or_comm, and_iff_right hin]
  · rename_i hout
    exact ⟨Or.inl, fun h => h.resolve_right fun h => hout h.1⟩

theorem splitAt_g (r : SnapRun P L) (e : Edge) (geom : P) : (splitAt S r e geom).s.st.g =
    (splitEdge S.geo.toGeo (r.s.st.g, r.s.restor) e ⟨geom, some r.pl.si⟩).1 := by
  unfold splitAt
  dsimp only
  rw [addToGroup_g]

theorem splitAt_inv [AddCommMonoid L] {s₀ : SnapState P L} {r : SnapRun P L}
    (h : RunInv S covered s₀ r) {e : Edge}
    (he : e ∈ r.s.st.g.edges) {geom : P}
    (hgeom : covered → S.geo.inGrid geom) :
    RunInv S covered s₀ (splitAt S r e geom) ∧
      (∀ x ∈ r.s.st.g.edges, x ≠ e → x ∈ (splitAt S r e geom).s.st.g.edges) := by
  obtain ⟨ne, nf, hhalves, hgraph, -⟩ :=
    splitEdge_spec S.geo.toGeo r.s.restor ⟨geom, some r.pl.si⟩ h.inv.proper.live he
  have hgrid := splitAt_eg_live h.inv.eg hhalves hgraph
  have hproper := splitEdge_proper S.geo.toGeo r.s.restor ⟨geom, some r.pl.si⟩ h.inv.proper he
  have hstep : SnapStep S.geo.toGeo (r.s.st.g, r.s.restor)
      (splitEdge S.geo.toGeo (r.s.st.g, r.s.restor) e ⟨geom, some r.pl.si⟩) := SnapStep.split he _
  have hg := splitAt_g (S := S) r e geom
  have hrestor : (splitAt S r e geom).s.restor =
      (splitEdge S.geo.toGeo (r.s.st.g, r.s.restor) e ⟨geom, some r.pl.si⟩).2 := rfl
  have hst : (splitAt S r e geom).s.st = addToGroup S r.pl.si r.s.st.g.nextNd
      { r.s.st with
        g := (splitEdge S.geo.toGeo (r.s.st.g, r.s.restor) e ⟨geom, some r.pl.si⟩).1 } := rfl
  generalize splitEdge S.geo.toGeo (r.s.st.g, r.s.restor) e ⟨geom, some r.pl.si⟩ = st₁
    at hgraph hgrid hproper hstep hg hrestor hst
  obtain ⟨g₁, restor₁⟩ := st₁
  dsimp only at hgraph hgrid hproper hstep hg hrestor hst
  have hsi : ∀ m, (g₁.npl m).si = if m = r.s.st.g.nextNd then some r.pl.si else getSi r.s.st m :=
    hgraph.si
  have hfresh : ∀ m ∈ r.s.st.g.nds, m ≠ r.s.st.g.nextNd := fun m hm =>
    Nat.ne_of_lt (h.inv.proper.live.handed m hm)
  have hjoins : Joins S.addr r.s.st r.s.st.g.nextNd r.pl.si.group (splitAt S r e geom).s.st := by
    rw [hst]
    exact addToGroup_joins hgraph.mem_nds hsi rfl rfl
  obtain ⟨hlinked, hkeep, -, hfound⟩ := hjoins.linked h.inv.linked
    (fun H hin => hfresh _ hin.mem rfl) fun H hH => h.inv.linked.owned (h.group H hH)
  refine ⟨⟨⟨?_, hlinked, ?_, ⟨?_, ?_⟩, ?_, h.inv.nonneg⟩, ?_, ?_, ?_⟩, ?_⟩
  · rw [hg]
    exact hproper
  · intro n hn
    rw [getSi, hg, hgraph.mem_nds, hsi]
    cases mem_splitAt_sng.1 hn with
    | inl hold =>
      obtain ⟨hmem, hsome⟩ := h.inv.sng n hold
      rw [if_neg (hfresh n hmem)]
      exact ⟨Or.inl hmem, hsome⟩
    | inr hnew =>
      rw [if_pos hnew.2]
      exact ⟨Or.inr hnew.2, rfl⟩
  · exact hgrid.1
  · rw [hg]
    exact hgrid.2
  · intro himport
    rw [hg]
    exact (h.inv.grid himport).split h.inv.proper.live he hhalves hgraph (hgeom himport)
  · refine h.grows.trans ⟨?_, ?_, fun n hn => mem_splitAt_sng.2 (Or.inl hn), hfound⟩
    · rw [hg, hrestor]
      exact Relation.ReflTransGen.single hstep
    · intro n hn
      rw [hg, hgraph.mem_nds, hgraph.pos, if_neg (hfresh n hn)]
      exact ⟨Or.inl hn, rfl⟩
  · intro G hG
    obtain ⟨m, hm⟩ := h.group G hG
    exact ⟨m, hkeep m G hm⟩
  · intro m hm
    rw [hg, hgraph.mem_nds]
    exact (mem_setInsert.1 hm).elim Or.inr fun hm => Or.inl (h.ret m hm)
  · intro x hx hxe
    rw [hg, hgraph.edges]
    exact Or.inl ⟨hx, hxe⟩

theorem snapEdge_inv [AddCommMonoid L] {s₀ : SnapState P L} {r : SnapRun P L}
    (h : RunInv S covered s₀ r) {e : Edge}
    (he : e ∈ r.s.st.g.edges) (maxD : L) (orphSnap : Bool) :
    RunInv S covered s₀ (snapEdge S maxD orphSnap r e) ∧
      (∀ x ∈ r.s.st.g.edges, x ≠ e → x ∈ (snapEdge S maxD orphSnap r e).s.st.g.edges) := by
  obtain ⟨hfrom, hto⟩ := h.inv.proper.live.ends e he
  have hplace : ∀ n ∈ r.s.st.g.nds, (getSi r.s.st n).isNone → RunInv S covered s₀ (placeAt S r n) ∧
      (∀ x ∈ r.s.st.g.edges, x ≠ e → x ∈ (placeAt S r n).s.st.g.edges) := by
    intro n hn hnone
    refine ⟨placeAt_inv h hn (Option.isNone_iff_eq_none.1 hnone), fun x hx _ => ?_⟩
    change x ∈ (addToGroup S r.pl.si n (setSi n r.pl.si r.s.st)).g.edges
    rw [addToGroup_g]
    exact hx
  unfold snapEdge
  dsimp only
  split
  · rename_i eq heq
    have hmem : eq ∈ r.s.st.g.nds := depth_search_mem h.inv.proper.live he heq
    refine ⟨takeEq_inv h hmem, fun x hx _ => ?_⟩
    unfold takeEq
    dsimp only
    split
    · rw [(setData_regrouped eq _ h.inv.linked).1.streets.edges]
      exact hx
    · exact hx
  · split
    · exact ⟨h, fun x hx _ => hx⟩
    · split
      · exact ⟨h, fun x hx _ => hx⟩
      · split
        · rename_i hplain
          exact hplace _ hfrom hplain.1
        · split
          · rename_i hplain
            exact hplace _ hto hplain.1
          · apply splitAt_inv h he
            intro himport
            have hgrid := h.inv.grid himport
            exact hgrid.convex _ _ _ (hgrid.inside e he).1 (hgrid.inside e he).2

/-- The loop over the candidates; `Q` is anything else that a round keeps. -/
theorem foldl_snapEdge_inv [AddCommMonoid L] {s₀ : SnapState P L} {r : SnapRun P L}
    (h : RunInv S covered s₀ r) (es : List Edge)
    (hnodup : es.Nodup) (hes : ∀ e ∈ es, e ∈ r.s.st.g.edges) (maxD : L) (orphSnap : Bool)
    (Q : SnapRun P L → Prop) (hQ : Q r)
    (hstep : ∀ r e, RunInv S covered s₀ r → e ∈ r.s.st.g.edges → Q r → Q (snapEdge S maxD orphSnap r e)) :
    RunInv S covered s₀ (es.foldl (snapEdge S maxD orphSnap) r) ∧
      Q (es.foldl (snapEdge S maxD orphSnap) r) := by
  induction es generalizing r with
  | nil => exact ⟨h, hQ⟩
  | cons e es ih =>
    obtain ⟨hnot, hnodup⟩ := List.nodup_cons.1 hnodup
    have he := hes e List.mem_cons_self
    obtain ⟨hinv, hkeep⟩ := snapEdge_inv h he maxD orphSnap
    refine ih hinv hnodup ?_ (hstep r e h he hQ)
    intro x hx
    have hne : x ≠ e := by
      rintro rfl
      exact hnot hx
    exact hkeep x (hes x (List.mem_cons_of_mem _ hx)) hne

theorem get_edge_candidates_spec (heg : s.eg.Nodup ∧ ∀ e ∈ s.eg, e ∈ s.st.g.edges) (p : P) (d : L) :
    (get_edge_candidates S s p d).Nodup ∧ ∀ e ∈ get_edge_candidates S s p d, e ∈ s.st.g.edges := by
  rw [get_edge_candidates]
  dsimp only
  generalize hcands : (s.eg.filter fun e => S.geo.edgeDist (pos s.st.g e.getFrom)
    (pos s.st.g e.getTo) p ≤ d) = cands
  have hsub : ∀ e ∈ cands, e ∈ s.eg := by
    intro e he
    rw [← hcands] at he
    exact List.mem_of_mem_filter he
  have hnodup : cands.Nodup := by
    rw [← hcands]
    exact heg.1.filter _
  generalize hkeys : cands.map (fun e => (S.geo.edgeDist (pos s.st.g e.getFrom)
    (pos s.st.g e.getTo) p, e)) = keys
  have hsnd : keys.map (·.2) = cands := by
    rw [← hkeys, List.map_map]
    exact List.map_id _
  have hperm : ((S.edgeQueue.popAll keys.length keys).map (·.2)).Perm cands := by
    rw [← hsnd]
    exact (S.edgeQueue.popAll_perm (le_refl _)).map _
  exact ⟨hperm.nodup_iff.2 hnodup, fun e he => heg.2 e (hsub e (hperm.mem_iff.1 he))⟩

def imported (S : Snapper P L) (s : SnapState P L) (pl : StationPayload P) : StationPayload P :=
  { pl with si := ((importFrom S s pl).map (·.2)).getD pl.si }

theorem snap_station_candidates [AddCommMonoid L] (heg : s.eg.Nodup ∧ ∀ e ∈ s.eg, e ∈ s.st.g.edges)
    (pl : StationPayload P) (maxD : L) (surHeur orphSnap : Bool) :
    ∃ pq : List Edge, pq.Nodup ∧ (∀ e ∈ pq, e ∈ s.st.g.edges) ∧
      snap_station S maxD surHeur orphSnap s pl =
        pq.foldl (snapEdge S maxD orphSnap) ⟨s, imported S s pl, []⟩ := by
  have hcands : ∀ p d, (get_edge_candidates S s p d).Nodup ∧
      ∀ e ∈ get_edge_candidates S s p d, e ∈ s.st.g.edges := get_edge_candidates_spec heg
  suffices hpq : ∃ pq : List Edge, (pq.Nodup ∧ ∀ e ∈ pq, e ∈ s.st.g.edges) ∧
      snap_station S maxD surHeur orphSnap s pl =
        pq.foldl (snapEdge S maxD orphSnap) ⟨s, imported S s pl, []⟩ by
    obtain ⟨pq, ⟨hnodup, hes⟩, hloop⟩ := hpq
    exact ⟨pq, hnodup, hes, hloop⟩
  unfold imported snap_station
  cases importFrom S s pl with
  | none =>
    refine ⟨_, ?_, rfl⟩
    split
    · cases get_matching_node S s pl with
      | some best => exact hcands _ _
      | none => exact hcands _ _
    · exact hcands _ _
  | some found =>
    obtain ⟨best, si⟩ := found
    refine ⟨_, ?_, rfl⟩
    split
    · cases get_matching_node S s { pl with si := si } with
      | some best => exact hcands _ _
      | none => exact hcands _ _
    · exact hcands _ _

theorem snap_station_inv [AddCommMonoid L] (h : SnapInv S covered s) (pl : StationPayload P)
    (maxD : L)
    (surHeur orphSnap : Bool) (hcur : GroupCurrent s.st (imported S s pl).si)
    (Q : SnapRun P L → Prop) (hQ : Q ⟨s, imported S s pl, []⟩)
    (hstep : ∀ r e, RunInv S covered s r → e ∈ r.s.st.g.edges → Q r → Q (snapEdge S maxD orphSnap r e)) :
    RunInv S covered s (snap_station S maxD surHeur orphSnap s pl) ∧
      Q (snap_station S maxD surHeur orphSnap s pl) := by
  have hstart : RunInv S covered s ⟨s, imported S s pl, []⟩ :=
    ⟨h, SnapGrows.refl S s, hcur, fun n hn => absurd hn List.not_mem_nil⟩
  obtain ⟨pq, hnodup, hes, hloop⟩ := snap_station_candidates h.eg pl maxD surHeur orphSnap
  rw [hloop]
  exact foldl_snapEdge_inv hstart pq hnodup hes maxD orphSnap Q hQ hstep

omit [LinearOrder L] in
theorem groupCurrent_of_getSi {st : Stations P L} {n : ℕ} {si : SInfo} (hn : n ∈ st.g.nds)
    (hsi : getSi st n = some si) : GroupCurrent st si := by
  intro G hG
  refine ⟨n, hn, ?_⟩
  rw [getGroup, hsi]
  exact hG

theorem nearer_some {test : StationData → Bool} {p : P} {d : L} (l : List ℕ)
    {best : Option (ℕ × L)} {n : ℕ} {x : L}
    (h : l.foldl (nearer S s test p d) best = some (n, x)) :
    best = some (n, x) ∨
      (n ∈ l ∧ (getSi s.st n).isSome ∧ S.geo.webMercMeterDist (pos s.st.g n) p < d) := by
  induction l generalizing best with
  | nil => exact Or.inl h
  | cons m l ih =>
    cases ih h with
    | inl hbest =>
      rw [nearer] at hbest
      split at hbest
      · exact Or.inl hbest
      · rename_i si hsi
        dsimp only at hbest
        split at hbest
        · rename_i htest
          cases hbest
          rw [hsi]
          exact Or.inr ⟨List.mem_cons_self, rfl, htest.2.1⟩
        · exact Or.inl hbest
    | inr hmem => exact Or.inr ⟨List.mem_cons_of_mem _ hmem.1, hmem.2⟩

theorem nearer_none {p : P} {d : L} (l : List ℕ) {best : Option (ℕ × L)}
    (h : l.foldl (nearer S s (fun _ => true) p d) best = none) :
    best = none ∧ ∀ n ∈ l, (getSi s.st n).isSome → d ≤ S.geo.webMercMeterDist (pos s.st.g n) p := by
  induction l generalizing best with
  | nil => exact ⟨h, fun n hn => absurd hn List.not_mem_nil⟩
  | cons m l ih =>
    obtain ⟨hbest, hrest⟩ := ih h
    rw [nearer] at hbest
    cases hsi : getSi s.st m with
    | none =>
      rw [hsi] at hbest
      refine ⟨hbest, fun n hn hsome => ?_⟩
      cases List.mem_cons.1 hn with
      | inl heq =>
        rw [heq, hsi] at hsome
        cases hsome
      | inr hmem => exact hrest n hmem hsome
    | some si =>
      rw [hsi] at hbest
      dsimp only at hbest
      split at hbest
      · cases hbest
      · rename_i htest
        subst hbest
        refine ⟨rfl, fun n hn hsome => ?_⟩
        cases List.mem_cons.1 hn with
        | inl heq =>
          rw [heq]
          by_contra hlt
          exact htest ⟨rfl, not_le.1 hlt, rfl⟩
        | inr hmem => exact hrest n hmem hsome

theorem importFrom_spec (pl : StationPayload P) :
    (∀ best si, importFrom S s pl = some (best, si) → S.import_osm_stations = true ∧
      best ∈ s.sng ∧ getSi s.st best = some si ∧
      S.geo.webMercMeterDist (pos s.st.g best) pl.geom < S.opts.maxSnapFallbackHeurDistance) ∧
    (importFrom S s pl = none → S.import_osm_stations = true → ∀ n ∈ s.sng,
      (getSi s.st n).isSome →
      S.opts.maxSnapFallbackHeurDistance ≤ S.geo.webMercMeterDist (pos s.st.g n) pl.geom) := by
  unfold importFrom get_distance_matching_node nearestStation
  cases himport : S.import_osm_stations with
  | false =>
    constructor
    · intro best si h
      cases h
    · intro _ h
      cases h
  | true =>
    rw [if_pos rfl]
    cases hbest : s.sng.foldl (nearer S s (fun _ => true) pl.geom
      S.opts.maxSnapFallbackHeurDistance) none with
    | none =>
      constructor
      · intro best si h
        cases h
      · exact fun _ _ => (nearer_none s.sng hbest).2
    | some b =>
      obtain ⟨n, x⟩ := b
      obtain ⟨hmem, hsome, hlt⟩ := (nearer_some s.sng hbest).resolve_left fun h => by cases h
      obtain ⟨si, hsi⟩ := Option.isSome_iff_exists.1 hsome
      have hfound : Option.bind (Option.map (fun x : ℕ × L => x.1) (some (n, x)))
          (fun n => (getSi s.st n).map fun si => (n, si)) = some (n, si) := by
        rw [Option.map_some, Option.bind_some, hsi]
        rfl
      rw [hfound]
      constructor
      · intro best si' h
        cases h
        exact ⟨rfl, hmem, hsi, hlt⟩
      · intro h
        cases h

end rounds

end Pfaedle.Trgraph

import Pfaedle.EdgeGeometry
import Pfaedle.SymmetricGraph

set_option autoImplicit false

/-!
# Edges with two points

From `write_geometries` on every edge has a first and a last hop, but for the loops that
`writeSelfEdgs` adds.
-/
namespace Pfaedle.Trgraph
open DirGraphs Restriction ODirEdges LoopRules

section hops
variable {P L : Type*}

theorem backHop_some {p : Payload P L} (h : 2 ≤ p.data.geom.length) : ∃ x, backHop p = some x := by
  unfold backHop
  split
  · exact ⟨_, List.getElem?_eq_getElem h⟩
  · exact ⟨_, List.getElem?_eq_getElem (by rw [List.length_reverse]; exact h)⟩

theorem frontHop_some {p : Payload P L} (h : 2 ≤ p.data.geom.length) :
    ∃ x, frontHop p = some x := by
  unfold frontHop
  split
  · exact ⟨_, List.getElem?_eq_getElem (by rw [List.length_reverse]; exact h)⟩
  · exact ⟨_, List.getElem?_eq_getElem h⟩

end hops

section passes
variable {P L G D : Type*} {geo : Geo P L} {g g' : Graph P L G D}

def TwoPoints (g : Graph P L G D) : Prop := ∀ e ∈ g.edges, 2 ≤ (g.pl e).data.geom.length

theorem Shrunk.twoPoints (h : Shrunk g g') (htwo : TwoPoints g) : TwoPoints g' := by
  intro e he
  rw [h.pl]
  exact htwo e (h.edges e he)

theorem writeGeometries_twoPoints (geo : Geo P L) (h : g.Proper) :
    TwoPoints (writeGeometries geo g) := by
  obtain ⟨q, hg, hq⟩ := writeGeometries_spec geo h
  rw [hg]
  intro e he
  change 2 ≤ (q e).data.geom.length
  rw [hq e he, writtenGeometry_geom, List.length_append]
  exact Nat.le_add_left _ _

section simplify
variable [LinearOrder L] [Zero L]

theorem simplifyLine_cases (geo : Geo P L) (d : L) (k : ℕ) {l : List P} (h : l ≠ []) :
    (∃ i, simplifyLine geo d (k + 1) l =
      simplifyLine geo d k (l.take (i + 1)) ++ (simplifyLine geo d k (l.drop i)).tail) ∨
    simplifyLine geo d (k + 1) l = [l.head h, l.getLast h] := by
  rw [simplifyLine, List.head?_eq_some_head h, List.getLast?_eq_some_getLast h]
  dsimp only
  split
  · exact Or.inl ⟨_, rfl⟩
  · exact Or.inr rfl

theorem simplifyLine_ne_nil (geo : Geo P L) (d : L) (k : ℕ) {l : List P} (h : l ≠ []) :
    simplifyLine geo d k l ≠ [] := by
  induction k generalizing l with
  | zero => exact h
  | succ k ih =>
    rcases simplifyLine_cases geo d k h with ⟨i, hi⟩ | hends
    · have htake : l.take (i + 1) ≠ [] := by simp [h]
      simp [hi, ih htake]
    · simp [hends]

/-- A cut in front of the second point leaves the whole line on its right side. -/
theorem simplifyLine_two (geo : Geo P L) (d : L) (k : ℕ) {l : List P} (h : 2 ≤ l.length) :
    2 ≤ (simplifyLine geo d k l).length := by
  induction k generalizing l with
  | zero => exact h
  | succ k ih =>
    have hne : l ≠ [] := List.ne_nil_of_length_pos (by omega)
    rcases simplifyLine_cases geo d k hne with ⟨i, hi⟩ | hends
    · rw [hi, List.length_append, List.length_tail]
      cases i with
      | zero =>
        have htake : l.take (0 + 1) ≠ [] := by simp [hne]
        have hleft := List.length_pos_of_ne_nil (simplifyLine_ne_nil geo d k htake)
        have hright := ih h
        rw [List.drop_zero]
        omega
      | succ i =>
        have htake : 2 ≤ (l.take (i + 1 + 1)).length := by
          rw [List.length_take]
          omega
        have hleft := ih htake
        omega
    · rw [hends]
      exact le_refl 2

theorem simplifyGeometries_twoPoints (geo : Geo P L) (d : L) (h : g.Proper) (htwo : TwoPoints g) :
    TwoPoints (simplifyGeometries geo d g) := by
  obtain ⟨q, hg, hq⟩ := simplifyGeometries_spec geo d h
  rw [hg]
  intro e he
  change 2 ≤ (q e).data.geom.length
  rw [hq e he]
  exact simplifyLine_two geo d _ (htwo e he)

end simplify

section collapse
variable [Add L] {n : ℕ}

omit [Add L] in
theorem mergeLine_length (a b : Edge) (la lb : List P) :
    (mergeLine a b la lb).length = la.length + lb.length := by
  unfold mergeLine
  dsimp only
  split_ifs <;> simp

theorem collapseAt_twoPoints (geo : Geo P L) (hproper : g.Proper) (h : TwoPoints g) : TwoPoints (collapseAt geo g n) := by
  cases collapseAt_cases geo g n with
  | inr heq =>
    rw [heq]
    exact h
  | inl hround =>
    obtain ⟨ea, eb, hcon, heq⟩ := hround
    obtain ⟨a, b, f, hjoined⟩ := contract_spec geo hcon hproper.nodup
    have htwo := hjoined.onlyTwo (hcon.onlyTwo hproper.nodup)
    have hgraph := hjoined.graph
    rw [heq]
    intro e he
    by_cases hf : e = f
    · rw [hgraph.pl, hf, Function.update_self]
      change 2 ≤ (mergeLine a b _ _).length
      rw [mergeLine_length]
      exact Nat.le_add_right_of_le (h a htwo.mem.1)
    · rw [hgraph.pl, Function.update_of_ne hf]
      exact h e (((hgraph.edges e).1 he).resolve_right hf).1

theorem collapseEdges_twoPoints (geo : Geo P L) (hproper : g.Proper) (h : TwoPoints g) :
    TwoPoints (collapseEdges geo g) := by
  have hrun := foldl_inv (collapseAt geo) (fun g : Graph P L G D => g.Proper ∧ TwoPoints g) g.nds
    ⟨hproper, h⟩ fun s m _ hs => ⟨collapseAt_proper geo s m hs.1, collapseAt_twoPoints geo hs.1 hs.2⟩
  exact hrun.2

end collapse

theorem Mirrored.twoPoints {st : Graph P L G D × Restrictor} (h : Mirrored g st)
    (htwo : TwoPoints g) : TwoPoints st.1 := by
  intro e he
  by_cases hold : e ∈ g.edges
  · rw [(h.old e hold).2]
    exact htwo e hold
  · obtain ⟨y, hy, -, hpl⟩ := h.new e he hold
    rw [hpl, EdgePayload.revCopy_data]
    exact htwo y hy

end passes

section snapping
variable {P L : Type*} {geo : Geo P L} {st st' : Graph P L ℕ StationData × Restrictor}

theorem SnapStep.twoPoints (hstep : SnapStep geo st st') (hproper : st.1.Proper)
    (h : TwoPoints st.1) : TwoPoints st'.1 := by
  cases hstep with
  | info restor hsame =>
    intro e he
    rw [hsame.pl]
    exact h e (hsame.edges ▸ he)
  | node g restor p => exact h
  | split he s =>
    obtain ⟨ne, nf, -, hgraph, -⟩ := splitEdge_spec geo st.2 s hproper.live he
    intro x hx
    by_cases hne : x = ne
    · rw [hne, hgraph.first]
      exact le_refl 2
    · by_cases hnf : x = nf
      · rw [hnf, hgraph.second]
        exact le_refl 2
      · rw [hgraph.other x hne hnf]
        rcases (hgraph.edges x).1 hx with hold | heq | heq
        · exact h x hold.1
        · exact absurd heq hne
        · exact absurd heq hnf

theorem snapSteps_twoPoints (hsteps : SnapSteps geo st st') (hproper : st.1.Proper)
    (h : TwoPoints st.1) : TwoPoints st'.1 := by
  have hrun : st'.1.Proper ∧ TwoPoints st'.1 := by
    induction hsteps with
    | refl => exact ⟨hproper, h⟩
    | tail _ hstep ih => exact ⟨hstep.proper ih.1, hstep.twoPoints ih.1 ih.2⟩
  exact hrun.2

end snapping

section run
variable {P L : Type*} [AddCommMonoid L] [LinearOrder L] (C : CleanUp P L) {st : Stations P L}

theorem CleanUp.snapStations_twoPoints (restor : Restrictor) (h : st.g.Proper) :
    TwoPoints (C.snapStations st restor).st.g :=
  snapSteps_twoPoints (C.snapStations_steps restor h).2 (C.fixGaps_proper h)
    (writeGeometries_twoPoints C.geo (Trgraph.fixGaps_proper C.geo C.cells h))

variable {G D : Type*} {g : Graph P L G D}

omit [AddCommMonoid L] in
theorem CleanUp.deleteOrphans_twoPoints (h : TwoPoints g) : TwoPoints (C.deleteOrphans g) :=
  (C.deleteOrphans_shrunk g).twoPoints h

theorem CleanUp.collapse_twoPoints (hproper : g.Proper) (h : TwoPoints g) :
    TwoPoints (C.collapse g) :=
  collapseEdges_twoPoints C.geo ((C.deleteOrphans_shrunk g).proper hproper) (C.deleteOrphans_twoPoints h)

theorem CleanUp.simplify_proper (hproper : g.Proper) : (C.simplify g).Proper := by
  have hkept := (C.deleteOrphans_shrunk _).proper (C.collapse_proper g hproper)
  obtain ⟨q, hg, -⟩ := simplifyGeometries_spec C.geo C.tolerance hkept
  unfold CleanUp.simplify
  rw [hg]
  exact hkept.withPl q

theorem CleanUp.simplify_twoPoints (hproper : g.Proper) (h : TwoPoints g) :
    TwoPoints (C.simplify g) :=
  simplifyGeometries_twoPoints C.geo C.tolerance
    ((C.deleteOrphans_shrunk _).proper (C.collapse_proper g hproper))
    (C.deleteOrphans_twoPoints (C.collapse_twoPoints hproper h))

omit [AddCommMonoid L] [LinearOrder L] in
theorem writeODirEdgs_nodup (restor : Restrictor) (h : g.edges.Nodup) :
    (writeODirEdgs g restor).1.edges.Nodup := by
  refine foldl_inv _ (fun st : Graph P L G D × Restrictor => st.1.edges.Nodup) g.nds h
    fun st n _ hst => ?_
  refine foldl_inv _ (fun st : Graph P L G D × Restrictor => st.1.edges.Nodup) _ hst
    fun st e _ hst => ?_
  obtain ⟨g', restor'⟩ := st
  cases hget : g'.getEdg e.getTo e.getFrom with
  | some x =>
    simp only [writeODirEdg, hget]
    exact hst
  | none =>
    simp only [writeODirEdg, hget]
    exact DirGraph.addEdg_nodup hst

/-- The graph that `writeSelfEdgs` starts from is symmetric, and its edges have two points. -/
structure Hopped (g : Graph P L G D) : Prop where
  nodup : g.edges.Nodup
  twoPoints : TwoPoints g
  opposite : ∀ e ∈ g.edges, ∃ e' ∈ g.edges, Opposite e' e

omit [AddCommMonoid L] [LinearOrder L] in
theorem writeODirEdgs_hopped (restor : Restrictor) (h : g.Proper) (htwo : TwoPoints g) :
    Hopped (writeODirEdgs g restor).1 := by
  have hends := fun e he => (h.live.ends e he).1
  exact ⟨writeODirEdgs_nodup restor h.nodup,
    Mirrored.twoPoints (writeODirEdgs_mirrored hends restor) htwo,
    fun e he => writeODirEdgs_opposite hends restor he⟩

theorem CleanUp.run_hopped (restor : Restrictor) (h : st.g.Proper) :
    Hopped (C.run st restor).1 := by
  have hsnap := (C.snapStations_steps restor h).1
  unfold CleanUp.run
  exact writeODirEdgs_hopped _ (C.simplify_proper hsnap)
    (C.simplify_twoPoints hsnap (C.snapStations_twoPoints restor h))

end run

end Pfaedle.Trgraph

namespace Pfaedle.Components
open DirGraphs ODirEdges Restriction LoopRules Trgraph

section loops
variable {P L G D : Type*} [Zero L] {g₀ g : Graph P L G D}

def Alone (g₀ g : Graph P L G D) : Prop :=
  ∀ x ∈ g.edges, x ∉ g₀.edges → ∀ y ∈ g.edges, y.getFrom = x.getFrom → y = x

theorem Alone.writeSelfEdg (h : Alone g₀ g) (n : ℕ) : Alone g₀ (writeSelfEdg g n) := by
  unfold Components.writeSelfEdg
  split
  · rename_i htest
    have hout : g.getAdjListOut n = [] := by simpa using htest.2
    have hnone : ∀ y ∈ g.edges, y.getFrom ≠ n := by
      intro y hy hfrom
      have hmem := DirGraph.mem_getAdjListOut.2 ⟨hy, hfrom⟩
      rw [hout] at hmem
      cases hmem
    have hlinked := DirGraph.addEdg_linked g n n newEdge
    intro x hx hnot y hy hfrom
    cases (hlinked.edges x).1 hx with
    | inl hx =>
      cases (hlinked.edges y).1 hy with
      | inl hy => exact h x hx hnot y hy hfrom
      | inr hy =>
        rw [hy, hlinked.ends.1] at hfrom
        exact absurd hfrom.symm (hnone x hx)
    | inr hx =>
      cases (hlinked.edges y).1 hy with
      | inl hy =>
        rw [hx, hlinked.ends.1] at hfrom
        exact absurd hfrom (hnone y hy)
      | inr hy => exact hy.trans hx.symm
  · exact h

theorem writeSelfEdgs_alone (g : Graph P L G D) : Alone g (writeSelfEdgs g) :=
  foldl_inv writeSelfEdg (Alone g) g.nds (fun _ hx hnot => absurd hx hnot)
    fun _ n _ h => h.writeSelfEdg n

/-- In a symmetric graph the nodes that get a loop have no edge at all. -/
theorem writeSelfEdgs_only (hopp : ∀ e ∈ g.edges, ∃ e' ∈ g.edges, Opposite e' e) {x : Edge}
    (hx : x ∈ (writeSelfEdgs g).edges) (hnot : x ∉ g.edges) :
    x.getFrom = x.getTo ∧ ∀ y ∈ (writeSelfEdgs g).edges, y.hasEnd x.getFrom → y = x := by
  have hlooped := writeSelfEdgs_looped g
  have halone := writeSelfEdgs_alone g x hx hnot
  refine ⟨(hlooped.new x hx hnot).1, fun y hy hend => ?_⟩
  cases hend with
  | inl hfrom => exact halone y hy hfrom
  | inr hto =>
    by_cases hold : y ∈ g.edges
    · -- the edge back to `y` leaves the node, so it would be `x`
      obtain ⟨z, hz, hback⟩ := hopp y hold
      have heq := halone z (hlooped.old z hz).1 (hback.1.trans hto)
      rw [heq] at hz
      exact absurd hz hnot
    · exact halone y hy ((hlooped.new y hy hold).1.trans hto)

end loops

end Pfaedle.Components

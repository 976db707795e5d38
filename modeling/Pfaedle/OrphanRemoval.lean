import Pfaedle.CleanUp

set_option autoImplicit false

/-!
# Walks through the removal of orphans

A node that is deleted has at most one edge. A walk that repeats no node leaves every inner node by
another edge than it came, so it passes no such node.
-/
namespace Pfaedle.Trgraph
open DirGraphs Restriction ODirEdges LoopRules

section walks
variable {NP EP : Type*}

/-- An edge that is walked along, from `getFrom` to `getTo` or back. -/
structure Hop where
  edge : Edge
  forward : Bool
deriving DecidableEq

def Hop.start (h : Hop) : ℕ := if h.forward then h.edge.getFrom else h.edge.getTo

def Hop.target (h : Hop) : ℕ := if h.forward then h.edge.getTo else h.edge.getFrom

def IsWalk (g : DirGraph NP EP) : ℕ → List Hop → ℕ → Prop
  | u, [], v => u = v
  | u, h :: p, v => h.edge ∈ g.edges ∧ h.start = u ∧ IsWalk g h.target p v

instance (g : DirGraph NP EP) : ∀ u p v, Decidable (IsWalk g u p v)
  | _, [], _ => inferInstanceAs (Decidable (_ = _))
  | _, h :: p, v =>
    have : Decidable (IsWalk g h.target p v) := instDecidableIsWalk g h.target p v
    inferInstanceAs (Decidable (_ ∧ _ ∧ _))

def visits (u : ℕ) (p : List Hop) : List ℕ := u :: p.map Hop.target

variable {g : DirGraph NP EP}

theorem Hop.hasEnd_iff (h : Hop) (n : ℕ) : h.edge.hasEnd n ↔ h.start = n ∨ h.target = n := by
  unfold Edge.hasEnd Hop.start Hop.target
  cases h.forward with
  | false => simp [or_comm]
  | true => simp

theorem two_le_length {α : Type*} {a b : α} {l : List α} (ha : a ∈ l) (hb : b ∈ l) (hne : a ≠ b) :
    2 ≤ l.length := by
  match l with
  | [] => cases ha
  | [x] =>
    rw [List.mem_singleton] at ha hb
    exact absurd (ha.trans hb.symm) hne
  | _ :: _ :: _ => simp

theorem two_le_deg {n : ℕ} {a b : Edge} (ha : a ∈ g.edges) (hb : b ∈ g.edges) (hna : a.hasEnd n)
    (hnb : b.hasEnd n) (hne : a ≠ b) : 2 ≤ g.getInDeg n + g.getDeg n := by
  have hmem : ∀ {e}, e ∈ g.edges → e.hasEnd n → e ∈ g.getAdjListIn n ++ g.getAdjListOut n := by
    intro e he hend
    rw [List.mem_append, DirGraph.mem_getAdjListIn, DirGraph.mem_getAdjListOut]
    cases hend with
    | inl hfrom => exact Or.inr ⟨he, hfrom⟩
    | inr hto => exact Or.inl ⟨he, hto⟩
  have hlen := two_le_length (hmem ha hna) (hmem hb hnb) hne
  rw [List.length_append] at hlen
  exact hlen

/-- The nodes between the ends of a walk that repeats none have two edges. -/
theorem two_le_deg_of_inner {u v n : ℕ} {p : List Hop} (hw : IsWalk g u p v)
    (hnodup : (visits u p).Nodup) (hn : n ∈ visits u p) (hu : n ≠ u) (hv : n ≠ v) :
    2 ≤ g.getInDeg n + g.getDeg n := by
  induction p generalizing u with
  | nil =>
    rw [visits, List.map_nil, List.mem_singleton] at hn
    exact absurd hn hu
  | cons h p ih =>
    obtain ⟨hmem, hstart, hrest⟩ := hw
    have hn' : n ∈ visits h.target p := (List.mem_cons.1 hn).resolve_left hu
    by_cases hnext : n = h.target
    · cases p with
      | nil => exact absurd (hnext.trans hrest) hv
      | cons k p =>
        have hne : h.edge ≠ k.edge := by
          intro heq
          have hback : k.edge.hasEnd u := by
            rw [← heq, Hop.hasEnd_iff]
            exact Or.inl hstart
          have hdist := (List.nodup_cons.1 hnodup).1
          cases (Hop.hasEnd_iff k u).1 hback with
          | inl hk => exact hu (hnext.trans (hrest.2.1.symm.trans hk))
          | inr hk => exact hdist (by simp [hk])
        have hkstart : k.start = n := hrest.2.1.trans hnext.symm
        exact two_le_deg hmem hrest.1 ((Hop.hasEnd_iff h n).2 (Or.inr hnext.symm))
          ((Hop.hasEnd_iff k n).2 (Or.inl hkstart)) hne
    · exact ih hrest (List.nodup_cons.1 hnodup).2 hn' hnext

theorem isWalk_delNd {u v n : ℕ} {p : List Hop} (hw : IsWalk g u p v) (hn : n ∉ visits u p) :
    IsWalk (g.delNd n) u p v := by
  induction p generalizing u with
  | nil => exact hw
  | cons h p ih =>
    obtain ⟨hmem, hstart, hrest⟩ := hw
    have hnot : n ∉ visits h.target p := fun h => hn (List.mem_cons_of_mem _ h)
    have hend : ¬ h.edge.hasEnd n := by
      rw [Hop.hasEnd_iff]
      intro hor
      cases hor with
      | inl hs => exact hn (List.mem_cons.2 (Or.inl (hs.symm.trans hstart)))
      | inr ht => exact hnot (List.mem_cons.2 (Or.inl ht.symm))
    unfold Edge.hasEnd at hend
    exact ⟨DirGraph.mem_delNd_edges.2 ⟨hmem, by omega, by omega⟩, hstart, ih hrest hnot⟩

/-- A walk loses nothing with a node of at most one edge that is none of its ends. -/
theorem isWalk_delNd_of_deg {u v n : ℕ} {p : List Hop} (hw : IsWalk g u p v)
    (hnodup : (visits u p).Nodup) (hdeg : g.getInDeg n + g.getDeg n ≤ 1) (hu : u ≠ n)
    (hv : v ≠ n) : IsWalk (g.delNd n) u p v := by
  apply isWalk_delNd hw
  intro hn
  have htwo := two_le_deg_of_inner hw hnodup hn hu.symm hv.symm
  omega

end walks

section passes
variable {P L G D : Type*} {g : Graph P L G D}

/-- The round of a node may delete it, if it has at most one edge and no group. -/
structure Peels (f : Graph P L G D → ℕ → Graph P L G D) : Prop where
  step : ∀ g n, f g n = g ∨ f g n = g.delNd n ∧ deg g n ≤ 1 ∧ ¬ hasGroup g n

theorem deleteOrphanNode_peels : Peels (deleteOrphanNode : Graph P L G D → ℕ → _) where
  step g n := by
    unfold deleteOrphanNode
    split
    · rename_i h
      exact Or.inr ⟨rfl, by omega, h.2⟩
    · exact Or.inl rfl

theorem deleteOrphanEdge_peels (geo : Geo P L) :
    Peels (deleteOrphanEdge geo : Graph P L G D → ℕ → _) where
  step g n := by
    unfold deleteOrphanEdge
    split
    · exact Or.inl rfl
    · rename_i h
      split
      · exact Or.inl rfl
      · refine Or.inr ⟨rfl, by omega, ?_⟩
        have hsi : (g.npl n).si = none := by
          rw [← Option.not_isSome_iff_eq_none]
          exact fun hsome => h (Or.inr hsome)
        simp [hasGroup, hsi]

section rounds
variable {f : Graph P L G D → ℕ → Graph P L G D} (hf : Peels f)

include hf

theorem Peels.mem_of_mem {n m : ℕ} (h : m ∈ (f g n).nds) : m ∈ g.nds := by
  cases hf.step g n with
  | inl heq => rw [← heq]; exact h
  | inr hdel =>
    rw [hdel.1] at h
    exact List.mem_of_mem_filter h

theorem Peels.foldl_mem_of_mem {ns : List ℕ} {m : ℕ} (h : m ∈ (ns.foldl f g).nds) : m ∈ g.nds := by
  induction ns generalizing g with
  | nil => exact h
  | cons n ns ih => exact hf.mem_of_mem (ih h)

theorem Peels.hasGroup {n m : ℕ} (hm : m ∈ g.nds) (h : hasGroup g m) :
    m ∈ (f g n).nds ∧ Trgraph.hasGroup (f g n) m := by
  cases hf.step g n with
  | inl heq => rw [heq]; exact ⟨hm, h⟩
  | inr hdel =>
    rw [hdel.1]
    have hne : m ≠ n := by
      intro heq
      rw [heq] at h
      exact hdel.2.2 h
    exact ⟨List.mem_filter.2 ⟨hm, decide_eq_true hne⟩, h⟩

theorem Peels.foldl_hasGroup (ns : List ℕ) {m : ℕ} (hm : m ∈ g.nds) (h : Trgraph.hasGroup g m) :
    m ∈ (ns.foldl f g).nds ∧ Trgraph.hasGroup (ns.foldl f g) m := by
  induction ns generalizing g with
  | nil => exact ⟨hm, h⟩
  | cons n ns ih =>
    have hstep := hf.hasGroup (n := n) hm h
    exact ih hstep.1 hstep.2

theorem Peels.isWalk {n u v : ℕ} {p : List Hop} (hw : IsWalk g u p v) (hnodup : (visits u p).Nodup)
    (hu : u ∈ (f g n).nds) (hv : v ∈ (f g n).nds) : IsWalk (f g n) u p v := by
  cases hf.step g n with
  | inl heq => rw [heq]; exact hw
  | inr hdel =>
    rw [hdel.1] at hu hv ⊢
    have hne : ∀ {m}, m ∈ (g.delNd n).nds → m ≠ n :=
      fun hm => of_decide_eq_true (List.mem_filter.1 hm).2
    exact isWalk_delNd_of_deg hw hnodup hdel.2.1 (hne hu) (hne hv)

theorem Peels.foldl_isWalk {ns : List ℕ} {u v : ℕ} {p : List Hop} (hw : IsWalk g u p v)
    (hnodup : (visits u p).Nodup) (hu : u ∈ (ns.foldl f g).nds) (hv : v ∈ (ns.foldl f g).nds) :
    IsWalk (ns.foldl f g) u p v := by
  induction ns generalizing g with
  | nil => exact hw
  | cons n ns ih =>
    have hstep := hf.isWalk (n := n) hw hnodup (hf.foldl_mem_of_mem hu) (hf.foldl_mem_of_mem hv)
    exact ih hstep hu hv

end rounds

structure WalksKept (g g' : Graph P L G D) : Prop where
  nds : ∀ n ∈ g'.nds, n ∈ g.nds
  groups : ∀ n ∈ g.nds, hasGroup g n → n ∈ g'.nds ∧ hasGroup g' n
  walks : ∀ u v p, IsWalk g u p v → (visits u p).Nodup → u ∈ g'.nds → v ∈ g'.nds → IsWalk g' u p v

theorem WalksKept.trans {g' g'' : Graph P L G D} (h : WalksKept g g') (h' : WalksKept g' g'') :
    WalksKept g g'' where
  nds n hn := h.nds n (h'.nds n hn)
  groups n hn hgroup := by
    have hkept := h.groups n hn hgroup
    exact h'.groups n hkept.1 hkept.2
  walks u v p hw hnodup hu hv :=
    h'.walks u v p (h.walks u v p hw hnodup (h'.nds u hu) (h'.nds v hv)) hnodup hu hv

theorem Peels.walksKept {f : Graph P L G D → ℕ → Graph P L G D} (hf : Peels f) (ns : List ℕ)
    (g : Graph P L G D) : WalksKept g (ns.foldl f g) where
  nds _ hn := hf.foldl_mem_of_mem hn
  groups _ hn hgroup := hf.foldl_hasGroup ns hn hgroup
  walks _ _ _ hw hnodup hu hv := hf.foldl_isWalk hw hnodup hu hv

theorem deleteOrphanNodes_walksKept (g : Graph P L G D) : WalksKept g (deleteOrphanNodes g) :=
  deleteOrphanNode_peels.walksKept g.nds g

theorem deleteOrphanRound_walksKept (geo : Geo P L) (g : Graph P L G D) :
    WalksKept g (deleteOrphanRound geo g) := (deleteOrphanEdge_peels geo).walksKept g.nds g

theorem deleteOrphanEdges_walksKept (geo : Geo P L) (g : Graph P L G D) :
    WalksKept g (deleteOrphanEdges geo g) := by
  unfold deleteOrphanEdges
  have hsnd := (deleteOrphanRound_walksKept geo g).trans (deleteOrphanRound_walksKept geo _)
  exact hsnd.trans (deleteOrphanRound_walksKept geo _)

/-- Both passes keep every node with a group, the payloads, and every walk between nodes that stay. -/
theorem deleteOrphans_keep_walks (geo : Geo P L) (g : Graph P L G D) :
    ((deleteOrphanNodes g).pl = g.pl ∧ (deleteOrphanEdges geo g).pl = g.pl) ∧
    (∀ n ∈ g.nds, hasGroup g n → n ∈ (deleteOrphanNodes g).nds ∧ n ∈ (deleteOrphanEdges geo g).nds) ∧
    ∀ u v p, IsWalk g u p v → (visits u p).Nodup →
      (u ∈ (deleteOrphanNodes g).nds → v ∈ (deleteOrphanNodes g).nds →
        IsWalk (deleteOrphanNodes g) u p v) ∧
      (u ∈ (deleteOrphanEdges geo g).nds → v ∈ (deleteOrphanEdges geo g).nds →
        IsWalk (deleteOrphanEdges geo g) u p v) := by
  have hnodes := deleteOrphanNodes_walksKept g
  have hedges := deleteOrphanEdges_walksKept geo g
  refine ⟨⟨(deleteOrphanNodes_shrunk g).pl, (deleteOrphanEdges_shrunk geo g).pl⟩, ?_, ?_⟩
  · intro n hn hgroup
    exact ⟨(hnodes.groups n hn hgroup).1, (hedges.groups n hn hgroup).1⟩
  · intro u v p hw hnodup
    exact ⟨hnodes.walks u v p hw hnodup, hedges.walks u v p hw hnodup⟩

/-- A street `0 → 1 → 2` with the dead ends `3` and `4` at `1`, walked back from `2` to `0`. -/
def streetWithDeadEnds : Graph ℕ ℕ ℕ StationData :=
  { (streetsOf 5 [⟨0, 0, 1⟩, ⟨1, 1, 2⟩, ⟨2, 1, 3⟩, ⟨3, 4, 1⟩] 0 false 4 (by decide) (by decide)).g with
    npl := fun n => ⟨10 * n, if n = 0 ∨ n = 2 then some ⟨some n, "", [], "", true⟩ else none⟩ }

theorem deleteOrphans_keep_walks_street :
    3 ∉ (deleteOrphanEdges lineGeo streetWithDeadEnds).nds ∧
    IsWalk (deleteOrphanEdges lineGeo streetWithDeadEnds) 2
      [⟨⟨1, 1, 2⟩, false⟩, ⟨⟨0, 0, 1⟩, false⟩] 0 :=
  ⟨by decide, ((deleteOrphans_keep_walks lineGeo streetWithDeadEnds).2.2 2 0 _ (by decide)
    (by decide)).2 (by decide) (by decide)⟩

end passes

end Pfaedle.Trgraph

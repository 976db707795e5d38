import Pfaedle.LiveGraph
import Pfaedle.LoopRules
import Pfaedle.Trgraph

set_option autoImplicit false

/-!
# What `graph::fix_gaps` does to a pair of dead ends

The end point of one street is moved to the other, or the two end points get an edge.
-/
namespace Pfaedle.Trgraph
open DirGraphs Restriction ODirEdges LoopRules

section deadEnds
variable {P L G D : Type*} {g : Graph P L G D} {n nb : ℕ} {old : Edge}

/-- `old` is the only edge at `nb`, and it leads away from it. -/
structure DeadEnd (g : Graph P L G D) (nb : ℕ) (old : Edge) : Prop where
  mem : old ∈ g.edges
  hasEnd : old.hasEnd nb
  away : old.getOtherNd nb ≠ nb
  only : ∀ e ∈ g.edges, e.hasEnd nb → e = old

theorem deadEdge_spec (hdeg : deg g nb = 1) : ∃ old, deadEdge g nb = some old ∧ DeadEnd g nb old := by
  have hmemOut : ∀ e, e ∈ g.getAdjListOut nb ↔ e ∈ g.edges ∧ e.getFrom = nb := fun e =>
    DirGraph.mem_getAdjListOut
  have hmemIn : ∀ e, e ∈ g.getAdjListIn nb ↔ e ∈ g.edges ∧ e.getTo = nb := fun e =>
    DirGraph.mem_getAdjListIn
  have hlen : (g.getAdjListIn nb).length + (g.getAdjListOut nb).length = 1 := hdeg
  rw [deadEdge]
  unfold DirGraph.getDeg
  generalize g.getAdjListOut nb = outs at hmemOut hlen ⊢
  generalize g.getAdjListIn nb = ins at hmemIn hlen ⊢
  match outs, ins, hlen with
  | [old], [], _ =>
    have hold := (hmemOut old).1 List.mem_cons_self
    have hto : old.getTo ≠ nb := fun h => List.not_mem_nil ((hmemIn old).2 ⟨hold.1, h⟩)
    refine ⟨old, rfl, hold.1, Or.inl hold.2, ?_, ?_⟩
    · rw [Edge.getOtherNd, if_neg hto]
      exact hto
    · intro e he hend
      cases hend with
      | inl hfrom => exact List.mem_singleton.1 ((hmemOut e).2 ⟨he, hfrom⟩)
      | inr hto => exact absurd ((hmemIn e).2 ⟨he, hto⟩) List.not_mem_nil
  | [], [old], _ =>
    have hold := (hmemIn old).1 List.mem_cons_self
    refine ⟨old, rfl, hold.1, Or.inr hold.2, ?_, ?_⟩
    · rw [Edge.getOtherNd, if_pos hold.2]
      exact fun h => List.not_mem_nil ((hmemOut old).2 ⟨hold.1, h⟩)
    · intro e he hend
      cases hend with
      | inl hfrom => exact absurd ((hmemOut e).2 ⟨he, hfrom⟩) List.not_mem_nil
      | inr hto => exact List.mem_singleton.1 ((hmemIn e).2 ⟨he, hto⟩)

/-- `x` has been put in the place of `old`, with the payload `p` when there was no such edge. -/
structure Moved (g : Graph P L G D) (u v : ℕ) (old x : Edge) (p : Payload P L)
    (g' : Graph P L G D) : Prop where
  ends : x.getFrom = u ∧ x.getTo = v
  edges : ∀ e, e ∈ g'.edges ↔ (e ∈ g.edges ∧ e ≠ old) ∨ e = x
  kind : (x ∈ g.edges ∧ p = g.pl x) ∨ (x ∉ g.edges ∧ p = g.pl old ∧ g.getEdg u v = none)
  pl : g'.pl = Function.update g.pl x (setLine p [pos g u, pos g v])
  npl : g'.npl = g.npl

theorem moveEnd_spec {st : GapState P L G D} (h : DeadEnd st.g nb old) (hne : nb ≠ n) :
    ∃ x p, Moved st.g (old.getOtherNd nb) n old x p (moveEnd st n nb old).g := by
  have hlink := DirGraph.addEdg_linked st.g (old.getOtherNd nb) n (st.g.pl old)
  unfold moveEnd
  dsimp only
  generalize st.g.addEdg (old.getOtherNd nb) n (st.g.pl old) = added at hlink ⊢
  obtain ⟨x, g₁⟩ := added
  dsimp only at hlink ⊢
  have hpl : g₁.pl = Function.update st.g.pl x (g₁.pl x) := by
    cases hlink.kind with
    | inl h => rw [h.2, Function.update_eq_self]
    | inr h => rw [h.2.1, Function.update_self]
  refine ⟨x, g₁.pl x, hlink.ends, ?_, ?_, ?_, hlink.npl⟩
  · intro e
    rw [DirGraph.mem_delNd_edges]
    change e ∈ g₁.edges ∧ _ ↔ _
    rw [hlink.edges]
    constructor
    · rintro ⟨he | he, hfrom, hto⟩
      · refine Or.inl ⟨he, ?_⟩
        rintro rfl
        exact h.hasEnd.elim hfrom hto
      · exact Or.inr he
    · rintro (⟨he, hold⟩ | he)
      · have hnot : ¬ e.hasEnd nb := fun hend => hold (h.only e he hend)
        exact ⟨Or.inl he, fun hfrom => hnot (Or.inl hfrom), fun hto => hnot (Or.inr hto)⟩
      · rw [he, hlink.ends.1, hlink.ends.2]
        exact ⟨Or.inr rfl, h.away, hne.symm⟩
  · cases hlink.kind with
    | inl h => exact Or.inl ⟨h.1, by rw [h.2]⟩
    | inr h => exact Or.inr ⟨h.1, by rw [h.2.1, Function.update_self], h.2.2⟩
  · change Function.update g₁.pl x _ = _
    rw [pos, pos, pos, pos, hlink.npl]
    generalize g₁.pl x = p at hpl
    rw [hpl, Function.update_idem]

theorem Moved.gone {g' : Graph P L G D} {x : Edge} {p : Payload P L}
    (h : Moved g (old.getOtherNd nb) n old x p g') (hdead : DeadEnd g nb old) (hne : nb ≠ n) :
    old ∉ g'.edges := by
  rw [h.edges]
  rintro (hold | rfl)
  · exact hold.2 rfl
  · cases hdead.hasEnd with
    | inl hfrom => exact hdead.away (h.ends.1.symm.trans hfrom)
    | inr hto => exact hne (hto.symm.trans h.ends.2)

end deadEnds

section merges
variable {P L G D : Type*} [LinearOrder L]

/-- The round in which `fix_gaps` moves the end point `nb` to `n`. -/
def Merges (geo : Geo P L) (g : Graph P L G D) (n nb : ℕ) : Prop := isGap geo g n nb ∧ bothPlain g n nb

instance (geo : Geo P L) (g : Graph P L G D) (n nb : ℕ) : Decidable (Merges geo g n nb) :=
  inferInstanceAs (Decidable (_ ∧ _))

theorem fixGap_cases (geo : Geo P L) (st : GapState P L G D) (n nb : ℕ) :
    (Merges geo st.g n nb ∧ ∃ old, deadEdge st.g nb = some old ∧ DeadEnd st.g nb old ∧
      fixGap geo n st nb = moveEnd st n nb old) ∨
    (¬ Merges geo st.g n nb ∧ ((∃ old, DeadEnd st.g nb old ∧ fixGap geo n st nb = bridge st n nb old) ∨
      fixGap geo n st nb = st)) := by
  rw [fixGap]
  split
  · rename_i hgap
    obtain ⟨old, hold, hdead⟩ := deadEdge_spec hgap.2.1
    rw [hold]
    dsimp only
    split
    · rename_i hplain
      exact Or.inl ⟨⟨hgap, hplain⟩, old, rfl, hdead, rfl⟩
    · rename_i hplain
      exact Or.inr ⟨fun h => hplain h.2, Or.inl ⟨old, hdead, rfl⟩⟩
  · rename_i hgap
    exact Or.inr ⟨fun h => hgap h.1, Or.inr rfl⟩

theorem fixGap_bridges {geo : Geo P L} {st : GapState P L G D} {n nb : ℕ} (hgap : isGap geo st.g n nb)
    (hplain : ¬ bothPlain st.g n nb) :
    ∃ old, DeadEnd st.g nb old ∧ fixGap geo n st nb = bridge st n nb old := by
  obtain ⟨old, hold, hdead⟩ := deadEdge_spec hgap.2.1
  refine ⟨old, hdead, ?_⟩
  rw [fixGap, if_pos hgap, hold]
  exact if_neg hplain

end merges

end Pfaedle.Trgraph

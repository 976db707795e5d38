import Pfaedle.ContractionDistance
import Pfaedle.GapFixing

set_option autoImplicit false

/-!
# Gap fixing and travel

The edge that takes the place of a moved one always leads to the dead end that stays.
-/
namespace Pfaedle.Trgraph
open DirGraphs Restriction ODirEdges

section travel
variable {P L G D : Type*}

/-- The one-way flags that are ever written. -/
def FlagsValid (g : Graph P L G D) : Prop := ∀ e ∈ g.edges, (g.pl e).oneWay ≤ 2

instance (g : Graph P L G D) : Decidable (FlagsValid g) :=
  inferInstanceAs (Decidable (∀ e ∈ g.edges, (g.pl e).oneWay ≤ 2))

/-- What a flag means for an edge that is read from its end to its start. -/
def swapFlag (k : ℕ) : ℕ := if k = 1 then 2 else if k = 2 then 1 else k

/-- The flag of the edge that is found or made between `m` and `n`. -/
def movedFlag (g : Graph P L G D) (m n : ℕ) (old : Edge) : ℕ :=
  match g.getEdg m n with
  | some x => (g.pl x).oneWay
  | none => (g.pl old).oneWay

/-- `old` has been replaced by an edge at `n` that may be used as `old` could be used at `nb`. -/
def SameTravel (g g' : Graph P L G D) (n nb : ℕ) (old : Edge) : Prop :=
  old ∉ g'.edges ∧ ∃ x, g'.getEdg (old.getOtherNd nb) n = some x ∧
    (MayUse (g'.pl x).oneWay x (old.getOtherNd nb) n ↔
      MayUse (g.pl old).oneWay old (old.getOtherNd nb) nb) ∧
    (MayUse (g'.pl x).oneWay x n (old.getOtherNd nb) ↔
      MayUse (g.pl old).oneWay old nb (old.getOtherNd nb))

/-- The flag fits the direction of the new edge; a loop has no directions. -/
def DirectionKept (g : Graph P L G D) (n nb : ℕ) (old : Edge) : Prop :=
  if old.getOtherNd nb = n then (g.pl old).oneWay = 0
  else movedFlag g (old.getOtherNd nb) n old =
    if old.getTo = nb then (g.pl old).oneWay else swapFlag (g.pl old).oneWay

instance (g : Graph P L G D) (n nb : ℕ) (old : Edge) : Decidable (DirectionKept g n nb old) :=
  inferInstanceAs (Decidable (if old.getOtherNd nb = n then (g.pl old).oneWay = 0
    else movedFlag g (old.getOtherNd nb) n old =
      if old.getTo = nb then (g.pl old).oneWay else swapFlag (g.pl old).oneWay))

theorem mayUse_forward {k : ℕ} {e : Edge} (hne : e.getFrom ≠ e.getTo) :
    (MayUse k e e.getFrom e.getTo ↔ k = 0 ∨ k = 1) ∧
      (MayUse k e e.getTo e.getFrom ↔ k = 0 ∨ k = 2) := by
  rw [MayUse, MayUse]
  simp [hne, hne.symm]

theorem mayUse_loop {k : ℕ} {e : Edge} {n : ℕ} (hfrom : e.getFrom = n) (hto : e.getTo = n) :
    MayUse k e n n ↔ k ≤ 2 := by
  rw [MayUse, hfrom, hto]
  omega

theorem mayUse_at {k : ℕ} {e : Edge} {nb : ℕ} (hend : e.hasEnd nb) (haway : e.getOtherNd nb ≠ nb) :
    (MayUse k e (e.getOtherNd nb) nb ↔ if e.getTo = nb then k = 0 ∨ k = 1 else k = 0 ∨ k = 2) ∧
      (MayUse k e nb (e.getOtherNd nb) ↔ if e.getTo = nb then k = 0 ∨ k = 2 else k = 0 ∨ k = 1) := by
  cases ends_cases hend with
  | inl h =>
    have hto : e.getTo ≠ nb := h.2 ▸ haway
    have hne : e.getFrom ≠ e.getTo := h.1 ▸ hto.symm
    rw [if_neg hto, if_neg hto, ← h.2]
    obtain ⟨hforward, hback⟩ := mayUse_forward (k := k) hne
    rw [h.1] at hforward hback
    exact ⟨hback, hforward⟩
  | inr h =>
    have hfrom : e.getFrom ≠ nb := h.1 ▸ haway
    have hne : e.getFrom ≠ e.getTo := h.2 ▸ hfrom
    rw [if_pos h.2, if_pos h.2, ← h.1]
    obtain ⟨hforward, hback⟩ := mayUse_forward (k := k) hne
    rw [h.2] at hforward hback
    exact ⟨hforward, hback⟩

/-- The edge that takes the place of `old` has the flag that was found or copied. -/
theorem Moved.flag {g g' : Graph P L G D} {n nb : ℕ} {old x : Edge} {p : Payload P L}
    (h : Moved g (old.getOtherNd nb) n old x p g') (hflags : FlagsValid g) (hold : old ∈ g.edges) :
    (g'.pl x).oneWay = movedFlag g (old.getOtherNd nb) n old ∧
      movedFlag g (old.getOtherNd nb) n old ≤ 2 := by
  obtain ⟨hfrom, hto⟩ := h.ends
  rw [h.pl, Function.update_self, movedFlag]
  change p.oneWay = _ ∧ _
  cases h.kind with
  | inl hfound =>
    rw [DirGraph.getEdg_eq_some.2 ⟨hfound.1, hfrom, hto⟩, hfound.2]
    exact ⟨rfl, hflags x hfound.1⟩
  | inr hmade =>
    rw [hmade.2.2, hmade.2.1]
    exact ⟨rfl, hflags old hold⟩

theorem Moved.sameTravel_iff {g g' : Graph P L G D} {n nb : ℕ} {old x : Edge} {p : Payload P L}
    (h : Moved g (old.getOtherNd nb) n old x p g') (hdead : DeadEnd g nb old) (hne : nb ≠ n) :
    SameTravel g g' n nb old ↔
      (MayUse (g'.pl x).oneWay x (old.getOtherNd nb) n ↔
        MayUse (g.pl old).oneWay old (old.getOtherNd nb) nb) ∧
      (MayUse (g'.pl x).oneWay x n (old.getOtherNd nb) ↔
        MayUse (g.pl old).oneWay old nb (old.getOtherNd nb)) := by
  have hx : g'.getEdg (old.getOtherNd nb) n = some x :=
    DirGraph.getEdg_eq_some.2 ⟨(h.edges x).2 (Or.inr rfl), h.ends⟩
  rw [SameTravel, hx]
  simp [h.gone hdead hne]

variable [LinearOrder L] {geo : Geo P L}

/-- A merge keeps the travel directions if and only if the flag fits. -/
theorem fixGap_sameTravel_iff {st : GapState P L G D} {n nb : ℕ} {old : Edge}
    (hflags : FlagsValid st.g) (hmerge : Merges geo st.g n nb)
    (hold : deadEdge st.g nb = some old) :
    SameTravel st.g (fixGap geo n st nb).g n nb old ↔ DirectionKept st.g n nb old := by
  obtain ⟨-, old', hold', hdead, hmove⟩ :=
    (fixGap_cases geo st n nb).resolve_right fun hother => hother.1 hmerge
  obtain rfl : old = old' := Option.some.inj (hold.symm.trans hold')
  obtain ⟨x, p, hmoved⟩ := moveEnd_spec hdead hmerge.1.1
  rw [hmove, hmoved.sameTravel_iff hdead hmerge.1.1]
  obtain ⟨hfrom, hto⟩ := hmoved.ends
  obtain ⟨hflag, hK⟩ := hmoved.flag hflags hdead.mem
  have hk := hflags old hdead.mem
  obtain ⟨hinto, hout⟩ := mayUse_at (k := (st.g.pl old).oneWay) hdead.hasEnd hdead.away
  rw [hinto, hout, hflag, DirectionKept]
  generalize movedFlag st.g (old.getOtherNd nb) n old = K at hK
  generalize (st.g.pl old).oneWay = k at hk
  by_cases hloop : old.getOtherNd nb = n
  · rw [hloop] at hfrom ⊢
    rw [if_pos rfl, mayUse_loop hfrom hto]
    split
    · omega
    · omega
  · have hne : x.getFrom ≠ x.getTo := by
      rw [hfrom, hto]
      exact hloop
    obtain ⟨hforward, hback⟩ := mayUse_forward (k := K) hne
    rw [hfrom, hto] at hforward hback
    rw [if_neg hloop, hforward, hback, swapFlag]
    split
    · omega
    · split
      · omega
      · split
        · omega
        · omega

/-- Two dead ends one meter apart. The street `1 → 2` is a one-way street out of the dead end that
    is moved, and the flag of it is `k`. -/
def deadEnds (k : ℕ) : Graph ℕ ℕ ℕ Unit where
  nds := [0, 1, 2, 3]
  npl n := ⟨if n = 3 then 10 else if n = 0 then 1 else n * 2 , none⟩
  edges := [⟨0, 3, 0⟩, ⟨1, 1, 2⟩]
  pl e := ⟨if e.id = 0 then 0 else k, false, false, ⟨[], 1, 0, []⟩⟩
  nextNd := 4
  nextEdge := 2
  fresh := by decide
  simple := by decide

theorem fixGap_sameTravel_deadEnds :
    let st : GapState ℕ ℕ ℕ Unit := ⟨deadEnds 0, []⟩
    SameTravel st.g (fixGap lineGeo 0 st 1).g 0 1 ⟨1, 1, 2⟩ := by
  intro st
  have hflags : FlagsValid st.g := by decide
  have hkept : DirectionKept st.g 0 1 ⟨1, 1, 2⟩ := by decide
  exact (fixGap_sameTravel_iff hflags (by decide) (by decide)).2 hkept

/-- The one-way street is turned around. -/
theorem fixGap_not_sameTravel : ¬ ∀ (st : GapState ℕ ℕ ℕ Unit) n nb old, FlagsValid st.g →
    Merges lineGeo st.g n nb → deadEdge st.g nb = some old →
    SameTravel st.g (fixGap lineGeo n st nb).g n nb old := by
  intro h
  obtain ⟨-, x, hx, hforward, -⟩ :=
    h ⟨deadEnds 1, []⟩ 0 1 ⟨1, 1, 2⟩ (by decide) (by decide) (by decide)
  have hedge : (fixGap lineGeo 0 ⟨deadEnds 1, []⟩ 1).g.getEdg 2 0 = some ⟨2, 2, 0⟩ := by decide
  obtain rfl : (⟨2, 2, 0⟩ : Edge) = x := Option.some.inj (hedge.symm.trans hx)
  exact absurd (hforward.1 (by decide)) (by decide)

end travel

end Pfaedle.Trgraph

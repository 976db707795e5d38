import Pfaedle.CheapestWalk

set_option autoImplicit false

/-!
# Networks that are cut down

A search that never enters some vertices, or that drops a source from `inf` on, walks in a part of
its network.
-/
namespace Pfaedle.LabelSetting

section cut
variable {V C : Type*} [AddCommGroup C] [LinearOrder C]
variable {P : Network V C} {inf : WithTop C} {isOpen : V → Prop} {v : V} {p : List V} {c : C}

structure Network.NonNeg (P : Network V C) : Prop where
  start : ∀ s, 0 ≤ P.start s
  weight : ∀ u v, 0 ≤ P.weight u v

theorem Network.NonNeg.consistent (h : P.NonNeg) : Consistent P fun _ => 0 := by
  refine ⟨fun {u v _ _} _ _ => h.weight u v, fun {u v _ _} _ _ => ?_⟩
  rw [add_zero]
  exact h.weight u v

variable (P inf isOpen) in
/-- The sources below `inf` and the steps into open vertices. -/
def Network.into : Network V C :=
  { P with
    source := fun s => P.source s ∧ (P.start s : WithTop C) < inf
    step := fun u v => P.step u v ∧ isOpen v }

theorem Walk.of_into (hw : Walk (P.into inf isOpen) v p c) : Walk P v p c := by
  induction hw with
  | source hs => exact Walk.source hs.1
  | snoc _ hstep ih => exact ih.snoc hstep.1

theorem consistent_into (h : P.NonNeg) : Consistent (P.into inf isOpen) fun _ => 0 :=
  Network.NonNeg.consistent ⟨h.start, h.weight⟩

variable [IsOrderedAddMonoid C]

theorem Network.NonNeg.walk (h : P.NonNeg) (hw : Walk P v p c) : 0 ≤ c := by
  induction hw with
  | source _ => exact h.start _
  | snoc _ _ ih => exact add_nonneg ih (h.weight _ _)

/-- Every part of a walk without cost has no cost. -/
theorem Walk.into_free (h : P.NonNeg) (hinf : ((0 : C) : WithTop C) < inf)
    (hopen : ∀ v p, Walk P v p 0 → isOpen v) (hw : Walk P v p c) (hc : c = 0) :
    Walk (P.into inf isOpen) v p c := by
  induction hw with
  | source hs =>
    refine Walk.source ⟨hs, ?_⟩
    rw [hc]
    exact hinf
  | @snoc u v p d hw hstep ih =>
    have hd : d = 0 := by
      apply le_antisymm _ (h.walk hw)
      rw [← hc]
      exact le_add_of_nonneg_right (h.weight u v)
    exact (ih hd).snoc ⟨hstep, hopen v _ (hc ▸ hw.snoc hstep)⟩

variable (P inf isOpen) in
def ClosedKept : Prop :=
  ∀ v, ¬ isOpen v → ∀ p c, Walk P v p c → (c : WithTop C) < inf → P.source v ∧ P.start v ≤ c

omit [IsOrderedAddMonoid C] in
theorem closedKept_all : ClosedKept P inf fun _ => True := fun _ hv => absurd trivial hv

theorem Walk.into_le (h : P.NonNeg) (hclosed : ClosedKept P inf isOpen) (hw : Walk P v p c)
    (hlt : (c : WithTop C) < inf) :
    ∃ q d, Walk (P.into inf isOpen) v q d ∧ d ≤ c ∧ (d : WithTop C) < inf := by
  induction hw with
  | source hs => exact ⟨_, _, Walk.source ⟨hs, hlt⟩, le_refl _, hlt⟩
  | @snoc u v p d hw hstep ih =>
    by_cases hv : isOpen v
    · have hd : (d : WithTop C) < inf :=
        (WithTop.coe_le_coe.2 (le_add_of_nonneg_right (h.weight u v))).trans_lt hlt
      obtain ⟨q, e, hq, hle, -⟩ := ih hd
      have hsum : e + P.weight u v ≤ d + P.weight u v := add_le_add_left hle _
      exact ⟨_, _, hq.snoc ⟨hstep, hv⟩, hsum, (WithTop.coe_le_coe.2 hsum).trans_lt hlt⟩
    · obtain ⟨hsource, hle⟩ := hclosed v hv _ _ (hw.snoc hstep) hlt
      have hbelow := (WithTop.coe_le_coe.2 hle).trans_lt hlt
      exact ⟨_, _, Walk.source ⟨hsource, hbelow⟩, hle, hbelow⟩

theorem Least.of_into (h : P.NonNeg) (hclosed : ClosedKept P inf isOpen)
    (hlt : (c : WithTop C) < inf) (hc : Least (P.into inf isOpen) v c) : Least P v c := by
  obtain ⟨p, hp⟩ := hc.walk
  refine ⟨⟨p, hp.of_into⟩, fun {q d} hq => ?_⟩
  by_cases hd : (d : WithTop C) < inf
  · obtain ⟨r, e, hr, hle, -⟩ := hq.into_le h hclosed hd
    exact (hc.le hr).trans hle
  · exact (WithTop.coe_lt_coe.1 (hlt.trans_le (not_lt.1 hd))).le

end cut

section opposite
variable {V C : Type*} [AddCommMonoid C] {P R : Network V C} {s u v : V}

/-- The steps of `R` are those of `P`, taken backwards. -/
def Opposite (P R : Network V C) : Prop :=
  ∀ u v, P.step u v → R.step v u ∧ R.weight v u = P.weight u v

/-- A walk out of `s` and one of the opposite network that meets its end give one to `s`. -/
theorem Walk.meet (h : Opposite P R) (hsource : ∀ s', P.source s' → s' = s ∧ P.start s' = 0)
    {p q : List V} {c d : C} (hp : Walk P v p c) (hq : Walk R v q d) :
    ∃ r, Walk R s r (c + d) := by
  induction hp generalizing q d with
  | source hs =>
    obtain ⟨rfl, hzero⟩ := hsource _ hs
    rw [hzero, zero_add]
    exact ⟨q, hq⟩
  | @snoc u v p c _ hstep ih =>
    obtain ⟨hback, hweight⟩ := h u v hstep
    obtain ⟨r, hr⟩ := ih (hq.snoc hback)
    refine ⟨r, ?_⟩
    rw [hweight] at hr
    rwa [add_assoc, add_comm (P.weight u v)]

end opposite

end Pfaedle.LabelSetting

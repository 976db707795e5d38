import Pfaedle.LabelSetting

set_option autoImplicit false

/-!
# Cheapest walks and their ends

The end of a cheapest walk is a cheapest walk from where it starts, so a search that has found
one walk has found them all.
-/
namespace Pfaedle.LabelSetting

section walks
variable {V C : Type*} [AddCommMonoid C] {P : Network V C}

/-- The same steps, walked from `s` alone and at no cost. -/
def Network.outOf (P : Network V C) (s : V) : Network V C :=
  { P with
    source := fun v => v = s
    start := fun _ => 0 }

theorem legs_outOf (P : Network V C) (s u : V) (rest : List V) :
    legs (P.outOf s) u rest = legs P u rest := by
  induction rest generalizing u with
  | nil => rfl
  | cons v rest ih =>
    rw [legs, legs, ih]
    rfl

theorem Walk.trans {s t : V} {p q : List V} {c d : C} (hq : Walk P s q c)
    (hp : Walk (P.outOf s) t p d) : ∃ r, Walk P t r (c + d) := by
  induction hp with
  | source hs =>
    obtain rfl := hs
    refine ⟨q, ?_⟩
    change Walk P _ q (c + 0)
    rw [add_zero]
    exact hq
  | @snoc u v _ _ _ hstep ih =>
    obtain ⟨r, hr⟩ := ih
    refine ⟨v :: r, ?_⟩
    rw [← add_assoc]
    exact hr.snoc hstep

theorem Walk.split {s t : V} {post : List V} (pre : List V) {d : C}
    (h : Walk P t (pre ++ s :: post) d) :
    ∃ c, Walk P s (s :: post) c ∧ Walk (P.outOf s) t (pre ++ [s]) (legs P s pre.reverse) ∧
      d = c + legs P s pre.reverse := by
  induction pre generalizing t d with
  | nil =>
    have hts : t = s := by
      cases h with
      | source _ => rfl
      | snoc _ _ => rfl
    subst hts
    exact ⟨d, h, Walk.source rfl, (add_zero d).symm⟩
  | cons a pre ih =>
    rw [List.cons_append] at h
    generalize hl : pre ++ s :: post = l at h
    cases h with
    | source _ => simp at hl
    | @snoc u _ _ d₀ hw hstep =>
      subst hl
      obtain ⟨c, hc, hpre, hd⟩ := ih hw
      have hlegs : legs P s (a :: pre).reverse = legs P s pre.reverse + P.weight u a := by
        rw [List.reverse_cons]
        apply legs_concat P s a u pre.reverse
        have hlast := hpre.isPath.1.last
        rw [List.reverse_append, List.reverse_singleton, List.singleton_append] at hlast
        exact hlast
      refine ⟨c, hc, ?_, ?_⟩
      · rw [hlegs]
        exact hpre.snoc hstep
      · rw [hlegs, hd, add_assoc]

theorem Walk.head {t : V} {p : List V} {d : C} (h : Walk P t p d) : ∃ q, p = t :: q := by
  cases h with
  | source _ => exact ⟨_, rfl⟩
  | snoc _ _ => exact ⟨_, rfl⟩

end walks

section least
variable {V C : Type*} [AddCommGroup C] [LinearOrder C] [IsOrderedAddMonoid C] {P : Network V C}

/-- `c` is the cost of a cheapest walk to `t`. -/
structure Least (P : Network V C) (t : V) (c : C) : Prop where
  walk : ∃ p, Walk P t p c
  le : ∀ {p d}, Walk P t p d → c ≤ d

omit [IsOrderedAddMonoid C] in
theorem Least.unique {t : V} {c d : C} (hc : Least P t c) (hd : Least P t d) : c = d := by
  obtain ⟨p, hp⟩ := hc.walk
  obtain ⟨q, hq⟩ := hd.walk
  exact le_antisymm (hc.le hq) (hd.le hp)

theorem Least.tail {s t : V} {pre post : List V} {d : C} (h : Walk P t (pre ++ s :: post) d)
    (hle : ∀ p c, Walk P t p c → d ≤ c) : Least (P.outOf s) t (legs P s pre.reverse) := by
  obtain ⟨c, hc, hpre, hd⟩ := h.split pre
  refine ⟨⟨_, hpre⟩, ?_⟩
  intro p e he
  obtain ⟨r, hr⟩ := hc.trans he
  have hbest := hle r (c + e) hr
  rw [hd] at hbest
  exact le_of_add_le_add_left hbest

end least

end Pfaedle.LabelSetting

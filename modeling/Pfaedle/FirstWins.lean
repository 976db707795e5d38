import Mathlib.Data.List.Perm.Basic

set_option autoImplicit false

/-!
# Tables of which the first one wins

A key of the combined table has the value of the first table that has the key. A table hits when it
has a good entry. Whether the combined table hits can depend on the order of the tables.
-/
namespace Pfaedle.FirstWins
variable {κ φ : Type*}

abbrev Table (κ φ : Type*) := κ → Option φ

def firstWins (ts : List (Table κ φ)) : Table κ φ := fun k => ts.findSome? fun t => t k

def Hits (good : κ → φ → Prop) (t : Table κ φ) : Prop := ∃ k v, t k = some v ∧ good k v

/-- Each table of the group has a good entry whose key no table outside has. -/
structure Firm (good : κ → φ → Prop) (ts group rest : List (Table κ φ)) : Prop where
  perm : (group ++ rest).Perm ts
  ne_nil : group ≠ []
  own : ∀ t ∈ group, ∃ k v, t k = some v ∧ good k v ∧ ∀ u ∈ rest, u k = none

theorem firstWins_cons (t : Table κ φ) (ts : List (Table κ φ)) (k : κ) :
    firstWins (t :: ts) k = (t k).or (firstWins ts k) := by
  rw [firstWins, List.findSome?_cons]
  cases t k with
  | none => rfl
  | some v => rfl

theorem firstWins_append (ts ts' : List (Table κ φ)) (k : κ) :
    firstWins (ts ++ ts') k = (firstWins ts k).or (firstWins ts' k) := by
  induction ts with
  | nil => rfl
  | cons t ts ih => rw [List.cons_append, firstWins_cons, firstWins_cons, ih, Option.or_assoc]

theorem firstWins_eq_none {ts : List (Table κ φ)} {k : κ} :
    firstWins ts k = none ↔ ∀ t ∈ ts, t k = none := List.findSome?_eq_none_iff

theorem hits_of_firstWins {good : κ → φ → Prop} {ts : List (Table κ φ)}
    (h : Hits good (firstWins ts)) : ∃ t ∈ ts, Hits good t := by
  obtain ⟨k, v, hk, hgood⟩ := h
  obtain ⟨t, ht, htk⟩ := List.exists_of_findSome?_eq_some hk
  exact ⟨t, ht, k, v, htk, hgood⟩

theorem hits_of_head {good : κ → φ → Prop} {t : Table κ φ} (h : Hits good t)
    (ts : List (Table κ φ)) : Hits good (firstWins (t :: ts)) := by
  obtain ⟨k, v, hk, hgood⟩ := h
  refine ⟨k, v, ?_, hgood⟩
  rw [firstWins_cons, hk]
  rfl

section orders
variable {good : κ → φ → Prop} {ts group rest : List (Table κ φ)}

theorem Firm.first_hits (h : Firm good ts group rest) {ts' : List (Table κ φ)}
    (hsome : ∃ t ∈ ts', t ∈ group) (hin : ∀ t ∈ ts', t ∈ group ∨ t ∈ rest) :
    ∃ k v, firstWins ts' k = some v ∧ good k v ∧ ∀ u ∈ rest, u k = none := by
  induction ts' with
  | nil =>
    obtain ⟨t, ht, -⟩ := hsome
    exact absurd ht List.not_mem_nil
  | cons t ts' ih =>
    by_cases ht : t ∈ group
    · obtain ⟨k, v, hk, hgood, hrest⟩ := h.own t ht
      refine ⟨k, v, ?_, hgood, hrest⟩
      rw [firstWins_cons, hk]
      rfl
    · have htail : ∃ u ∈ ts', u ∈ group := by
        obtain ⟨u, hu, hgroup⟩ := hsome
        cases List.mem_cons.1 hu with
        | inl heq => exact absurd (heq ▸ hgroup) ht
        | inr hu => exact ⟨u, hu, hgroup⟩
      obtain ⟨k, v, hk, hgood, hrest⟩ :=
        ih htail fun u hu => hin u (List.mem_cons_of_mem _ hu)
      refine ⟨k, v, ?_, hgood, hrest⟩
      have hnone := hrest t ((hin t List.mem_cons_self).resolve_left ht)
      rw [firstWins_cons, hnone, hk]
      rfl

theorem Firm.hits (h : Firm good ts group rest) {ts' : List (Table κ φ)} (hperm : ts'.Perm ts) :
    Hits good (firstWins ts') := by
  have hsome : ∃ t ∈ ts', t ∈ group := by
    obtain ⟨t, ht⟩ := List.exists_mem_of_ne_nil group h.ne_nil
    exact ⟨t, hperm.mem_iff.2 (h.perm.mem_iff.1 (List.mem_append_left _ ht)), ht⟩
  obtain ⟨k, v, hk, hgood, -⟩ := h.first_hits hsome fun t ht =>
    List.mem_append.1 (h.perm.mem_iff.2 (hperm.mem_iff.1 ht))
  exact ⟨k, v, hk, hgood⟩

/-- Tables whose good entries are all hidden can be put behind the ones that hide them. -/
theorem missing_order (hnot : ∀ group rest, ¬ Firm good ts group rest) (n : ℕ)
    (placed rest : List (Table κ φ)) (hn : rest.length = n) (hperm : (placed ++ rest).Perm ts)
    (hmiss : ¬ Hits good (firstWins placed)) :
    ∃ ts', ts'.Perm ts ∧ ¬ Hits good (firstWins ts') := by
  induction n generalizing placed rest with
  | zero =>
    obtain rfl := List.length_eq_zero_iff.1 hn
    rw [List.append_nil] at hperm
    exact ⟨placed, hperm, hmiss⟩
  | succ n ih =>
    have hne : rest ≠ [] := fun hnil => by
      rw [hnil] at hn
      cases hn
    have hhidden : ∃ t ∈ rest, ∀ k v, t k = some v → good k v → ∃ u ∈ placed, u k ≠ none := by
      by_contra hall
      refine hnot rest placed ⟨List.perm_append_comm.trans hperm, hne, fun t ht => ?_⟩
      by_contra hown
      refine hall ⟨t, ht, fun k v hk hgood => ?_⟩
      by_contra hfree
      exact hown ⟨k, v, hk, hgood, fun u hu => by
        by_contra hu'
        exact hfree ⟨u, hu, hu'⟩⟩
    obtain ⟨t, ht, hhide⟩ := hhidden
    obtain ⟨pre, post, rfl⟩ := List.append_of_mem ht
    refine ih (placed ++ [t]) (pre ++ post) ?_ ?_ ?_
    · rw [List.length_append, List.length_cons] at hn
      rw [List.length_append]
      omega
    · have hmiddle : (t :: (pre ++ post)).Perm (pre ++ t :: post) := List.perm_middle.symm
      rw [List.append_assoc]
      exact (hmiddle.append_left placed).trans hperm
    · intro hhits
      obtain ⟨k, v, hk, hgood⟩ := hhits
      rw [firstWins_append] at hk
      cases hplaced : firstWins placed k with
      | some w =>
        rw [hplaced] at hk
        exact hmiss ⟨k, v, hplaced.trans hk, hgood⟩
      | none =>
        rw [hplaced, Option.none_or, firstWins_cons] at hk
        cases htk : t k with
        | none =>
          rw [htk] at hk
          cases hk
        | some w =>
          rw [htk, Option.some_or] at hk
          obtain ⟨u, hu, hne⟩ := hhide k v (htk.trans hk) hgood
          exact hne (firstWins_eq_none.1 hplaced u hu)

/-- A hit does not depend on the order exactly when no table hits or some group is firm. -/
theorem hits_all_orders_iff :
    (∀ ts', ts'.Perm ts → (Hits good (firstWins ts') ↔ Hits good (firstWins ts))) ↔
      (∀ t ∈ ts, ¬ Hits good t) ∨ ∃ group rest, Firm good ts group rest := by
  constructor
  · intro hall
    by_cases hsome : ∃ t ∈ ts, Hits good t
    · refine Or.inr ?_
      by_contra hnot
      have hempty : ¬ Hits good (firstWins ([] : List (Table κ φ))) := fun h => by
        obtain ⟨k, v, hk, -⟩ := h
        cases hk
      obtain ⟨ts', hperm, hmiss⟩ := missing_order (fun group rest h => hnot ⟨group, rest, h⟩)
        ts.length [] ts rfl (List.Perm.refl ts) hempty
      obtain ⟨t, ht, hhits⟩ := hsome
      obtain ⟨pre, post, rfl⟩ := List.append_of_mem ht
      have hhead := (hall (t :: (pre ++ post)) List.perm_middle.symm).1 (hits_of_head hhits _)
      exact hmiss ((hall ts' hperm).2 hhead)
    · exact Or.inl fun t ht hhits => hsome ⟨t, ht, hhits⟩
  · intro h ts' hperm
    cases h with
    | inl hnone =>
      have hmiss : ∀ us : List (Table κ φ), us.Perm ts → ¬ Hits good (firstWins us) :=
        fun us hus hhits => by
          obtain ⟨t, ht, hhit⟩ := hits_of_firstWins hhits
          exact hnone t (hus.mem_iff.1 ht) hhit
      exact ⟨fun h => absurd h (hmiss ts' hperm), fun h => absurd h (hmiss ts (List.Perm.refl ts))⟩
    | inr hfirm =>
      obtain ⟨group, rest, hfirm⟩ := hfirm
      exact ⟨fun _ => hfirm.hits (List.Perm.refl ts), fun _ => hfirm.hits hperm⟩

end orders

end Pfaedle.FirstWins

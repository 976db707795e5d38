import Mathlib.Data.List.Forall2
import Mathlib.Data.List.Nodup
import Mathlib.Data.List.Perm.Subperm
import Mathlib.Order.Lattice

set_option autoImplicit false

/-!
# Maps kept in the order of their keys

The entries of a `SortedMap` have strictly increasing keys, so that walking over them is walking
over the keys in order.
-/
namespace Pfaedle

structure SortedMap (K V : Type*) [LinearOrder K] where
  entries : List (K × V)
  sorted : entries.Pairwise (fun a b => a.1 < b.1)

theorem map_fst_zip_initial {K V : Type*} (names : List K) (values : List V) :
    (names.zip values).map Prod.fst <+: names := by
  induction names generalizing values with
  | nil => exact List.prefix_refl _
  | cons n names ih =>
    cases values with
    | nil => exact List.nil_prefix
    | cons v values =>
      rw [List.zip_cons_cons, List.map_cons, List.prefix_cons_inj]
      exact ih values

theorem forall₂_mem_left {A B : Type*} {Q : A → B → Prop} {l : List A} {es : List B}
    (h : List.Forall₂ Q l es) {a : A} (ha : a ∈ l) : ∃ e ∈ es, Q a e := by
  induction h with
  | nil => exact absurd ha List.not_mem_nil
  | cons hq _ ih =>
    cases List.mem_cons.1 ha with
    | inl heq => exact ⟨_, List.mem_cons_self, heq ▸ hq⟩
    | inr hmem =>
      obtain ⟨e, he, hae⟩ := ih hmem
      exact ⟨e, List.mem_cons_of_mem _ he, hae⟩

theorem forall₂_mem_right {A B : Type*} {Q : A → B → Prop} {l : List A} {es : List B}
    (h : List.Forall₂ Q l es) {e : B} (he : e ∈ es) : ∃ a ∈ l, Q a e :=
  forall₂_mem_left h.flip he

section lookups
variable {K V : Type*} [BEq K] [LawfulBEq K]

theorem lookup_cons_ne {k : K} {e : K × V} {l : List (K × V)} (h : k ≠ e.1) :
    (e :: l).lookup k = l.lookup k := by
  obtain ⟨k', v⟩ := e
  rw [List.lookup_cons, beq_eq_false_iff_ne.2 h]

theorem lookup_eq_none {k : K} {l : List (K × V)} (h : ∀ e ∈ l, k ≠ e.1) : l.lookup k = none := by
  induction l with
  | nil => rfl
  | cons e l ih =>
    rw [lookup_cons_ne (h e List.mem_cons_self)]
    exact ih fun a ha => h a (List.mem_cons_of_mem _ ha)

theorem lookup_zip {names : List K} {values : List V} (hnodup : names.Nodup) {i : ℕ} {k : K}
    (hk : names[i]? = some k) : (names.zip values).lookup k = values[i]? := by
  induction names generalizing values i with
  | nil => cases hk
  | cons n names ih =>
    rw [List.nodup_cons] at hnodup
    cases values with
    | nil => rfl
    | cons v values =>
      cases i with
      | zero =>
        cases hk
        rw [List.zip_cons_cons, List.lookup_cons_self]
        rfl
      | succ i =>
        have hne : k ≠ n := fun heq => hnodup.1 (heq ▸ List.mem_of_getElem? hk)
        rw [List.zip_cons_cons, lookup_cons_ne hne, ih hnodup.2 hk]
        rfl

end lookups

namespace SortedMap

section generic
variable {K V : Type*} [LinearOrder K]

def alterEntries (k : K) (f : Option V → V) : List (K × V) → List (K × V)
  | [] => [(k, f none)]
  | e :: rest =>
    if k < e.1 then (k, f none) :: e :: rest
    else if k = e.1 then (k, f (some e.2)) :: rest
    else e :: alterEntries k f rest

theorem mem_alterEntries {k : K} {f : Option V → V} {a : K × V} {l : List (K × V)}
    (h : a ∈ alterEntries k f l) : a.1 = k ∨ a ∈ l := by
  induction l with
  | nil =>
    rw [alterEntries, List.mem_singleton] at h
    exact Or.inl (congrArg Prod.fst h)
  | cons e rest ih =>
    rw [alterEntries] at h
    split_ifs at h
    · cases List.mem_cons.1 h with
      | inl heq => exact Or.inl (congrArg Prod.fst heq)
      | inr hmem => exact Or.inr hmem
    · cases List.mem_cons.1 h with
      | inl heq => exact Or.inl (congrArg Prod.fst heq)
      | inr hmem => exact Or.inr (List.mem_cons_of_mem _ hmem)
    · cases List.mem_cons.1 h with
      | inl heq => exact Or.inr (heq ▸ List.mem_cons_self)
      | inr hmem => exact (ih hmem).imp_right (List.mem_cons_of_mem _)

theorem alterEntries_sorted (k : K) (f : Option V → V) {l : List (K × V)}
    (h : l.Pairwise (fun a b => a.1 < b.1)) :
    (alterEntries k f l).Pairwise (fun a b => a.1 < b.1) := by
  induction l with
  | nil => exact List.pairwise_singleton _ _
  | cons e rest ih =>
    obtain ⟨hhead, htail⟩ := List.pairwise_cons.1 h
    rw [alterEntries]
    split_ifs with hlt heq
    · refine List.pairwise_cons.2 ⟨fun a ha => ?_, h⟩
      cases List.mem_cons.1 ha with
      | inl hae => exact hae ▸ hlt
      | inr har => exact lt_trans hlt (hhead a har)
    · exact List.pairwise_cons.2 ⟨fun a ha => heq ▸ hhead a ha, htail⟩
    · refine List.pairwise_cons.2 ⟨fun a ha => ?_, ih htail⟩
      cases mem_alterEntries ha with
      | inl hak => exact hak ▸ lt_of_le_of_ne (not_lt.1 hlt) (Ne.symm heq)
      | inr har => exact hhead a har

def empty : SortedMap K V := ⟨[], List.Pairwise.nil⟩

def find? (m : SortedMap K V) (k : K) : Option V := m.entries.lookup k

def keys (m : SortedMap K V) : List K := m.entries.map Prod.fst

def values (m : SortedMap K V) : List V := m.entries.map Prod.snd

/-- The value at `k` becomes `f` of the value that was there. -/
def alter (m : SortedMap K V) (k : K) (f : Option V → V) : SortedMap K V :=
  ⟨alterEntries k f m.entries, alterEntries_sorted k f m.sorted⟩

def insert (m : SortedMap K V) (k : K) (v : V) : SortedMap K V := m.alter k fun old => old.getD v

def set (m : SortedMap K V) (k : K) (v : V) : SortedMap K V := m.alter k fun _ => v

def erase (m : SortedMap K V) (k : K) : SortedMap K V :=
  ⟨m.entries.filter fun e => e.1 ≠ k, m.sorted.filter _⟩

def map {V' : Type*} (m : SortedMap K V) (g : K → V → V') : SortedMap K V' :=
  ⟨m.entries.map fun e => (e.1, g e.1 e.2), List.pairwise_map.2 m.sorted⟩

def insertAll (m : SortedMap K V) (l : List (K × V)) : SortedMap K V :=
  l.foldl (fun m e => m.insert e.1 e.2) m

theorem ext {m m' : SortedMap K V} (h : m.entries = m'.entries) : m = m' := by
  cases m
  cases m'
  cases h
  rfl

instance [DecidableEq V] : DecidableEq (SortedMap K V) := fun m m' =>
  decidable_of_iff (m.entries = m'.entries) ⟨ext, congrArg _⟩

theorem keys_nodup (m : SortedMap K V) : m.keys.Nodup :=
  List.Pairwise.map _ (fun _ _ h => ne_of_lt h) m.sorted

theorem find?_alter (m : SortedMap K V) (k : K) (f : Option V → V) (k' : K) :
    (m.alter k f).find? k' = if k' = k then some (f (m.find? k)) else m.find? k' := by
  obtain ⟨l, hsorted⟩ := m
  change (alterEntries k f l).lookup k' = if k' = k then some (f (l.lookup k)) else l.lookup k'
  induction l with
  | nil =>
    rw [alterEntries]
    split_ifs with hk
    · rw [hk, List.lookup_cons_self]
      rfl
    · rw [lookup_cons_ne hk]
  | cons e rest ih =>
    obtain ⟨hhead, htail⟩ := List.pairwise_cons.1 hsorted
    by_cases hk : k' = k
    · rw [if_pos hk, hk, alterEntries]
      split_ifs with hlt heq
      · have hnone : (e :: rest).lookup k = none := by
          refine lookup_eq_none fun a ha => ?_
          cases List.mem_cons.1 ha with
          | inl hae => exact hae ▸ ne_of_lt hlt
          | inr har => exact ne_of_lt (lt_trans hlt (hhead a har))
        rw [List.lookup_cons_self, hnone]
      · obtain ⟨k₀, v⟩ := e
        cases heq
        rw [List.lookup_cons_self, List.lookup_cons_self]
      · have htl := ih htail
        rw [if_pos hk, hk] at htl
        rw [lookup_cons_ne heq, lookup_cons_ne heq, htl]
    · rw [if_neg hk, alterEntries]
      split_ifs with hlt heq
      · rw [lookup_cons_ne hk]
      · rw [lookup_cons_ne hk, lookup_cons_ne (heq ▸ hk)]
      · obtain ⟨k₀, v⟩ := e
        by_cases hke : k' = k₀
        · rw [hke, List.lookup_cons_self, List.lookup_cons_self]
        · have htl := ih htail
          rw [if_neg hk] at htl
          rw [lookup_cons_ne hke, lookup_cons_ne hke, htl]

theorem find?_set (m : SortedMap K V) (k : K) (v : V) (k' : K) :
    (m.set k v).find? k' = if k' = k then some v else m.find? k' := find?_alter m k _ k'

theorem find?_setAll {l : List (K × V)} (hnodup : (l.map Prod.fst).Nodup) (m : SortedMap K V)
    (k : K) : (l.foldl (fun m e => m.set e.1 e.2) m).find? k = (l.lookup k).or (m.find? k) := by
  induction l generalizing m with
  | nil => rfl
  | cons e l ih =>
    rw [List.map_cons, List.nodup_cons] at hnodup
    rw [List.foldl_cons, ih hnodup.2, find?_set]
    obtain ⟨k₀, v⟩ := e
    by_cases hk : k = k₀
    · have hnone : l.lookup k = none := lookup_eq_none fun e he heq =>
        hnodup.1 (List.mem_map.2 ⟨e, he, heq.symm.trans hk⟩)
      rw [if_pos hk, hnone, hk, List.lookup_cons_self]
      rfl
    · rw [if_neg hk, lookup_cons_ne hk]

theorem find?_empty (k : K) : (empty : SortedMap K V).find? k = none := rfl

theorem find?_setAll_zip {names : List K} (values : List V) (hnodup : names.Nodup) {i : ℕ} {k : K}
    (hk : names[i]? = some k) :
    ((names.zip values).foldl (fun m e => m.set e.1 e.2) empty).find? k = values[i]? := by
  have hsub : ((names.zip values).map Prod.fst).Nodup :=
    hnodup.sublist (map_fst_zip_initial names values).sublist
  rw [find?_setAll hsub, find?_empty, Option.or_none, lookup_zip hnodup hk]

theorem find?_eq_some_iff (m : SortedMap K V) (k : K) (v : V) :
    m.find? k = some v ↔ (k, v) ∈ m.entries := by
  obtain ⟨l, hsorted⟩ := m
  change l.lookup k = some v ↔ (k, v) ∈ l
  induction l with
  | nil => exact ⟨fun h => (by cases h), fun h => absurd h List.not_mem_nil⟩
  | cons e rest ih =>
    obtain ⟨k₀, v₀⟩ := e
    obtain ⟨hhead, htail⟩ := List.pairwise_cons.1 hsorted
    by_cases hk : k = k₀
    · rw [hk, List.lookup_cons_self, Option.some.injEq, List.mem_cons, Prod.mk.injEq]
      constructor
      · exact fun h => Or.inl ⟨rfl, h.symm⟩
      · rintro (h | h)
        · exact h.2.symm
        · exact absurd (hhead _ h) (lt_irrefl _)
    · rw [lookup_cons_ne hk, ih htail, List.mem_cons, Prod.mk.injEq]
      exact ⟨Or.inr, fun h => h.resolve_left fun hh => hk hh.1⟩

theorem find?_map {V' : Type*} (m : SortedMap K V) (g : K → V → V') (k : K) :
    (m.map g).find? k = (m.find? k).map (g k) := by
  obtain ⟨l, hsorted⟩ := m
  change (l.map fun e => (e.1, g e.1 e.2)).lookup k = (l.lookup k).map (g k)
  clear hsorted
  induction l with
  | nil => rfl
  | cons e l ih =>
    obtain ⟨k₀, v⟩ := e
    by_cases hk : k = k₀
    · rw [hk, List.map_cons, List.lookup_cons_self, List.lookup_cons_self]
      rfl
    · rw [List.map_cons, lookup_cons_ne hk, lookup_cons_ne hk, ih]

theorem find?_eq_none_iff (m : SortedMap K V) (k : K) : m.find? k = none ↔ k ∉ m.keys := by
  rw [keys, List.mem_map]
  constructor
  · rintro hnone ⟨⟨k', v⟩, hmem, rfl⟩
    rw [(find?_eq_some_iff m _ v).2 hmem] at hnone
    cases hnone
  · intro hk
    exact lookup_eq_none fun e he heq => hk ⟨e, he, heq.symm⟩

theorem find?_isSome_iff (m : SortedMap K V) (k : K) : (m.find? k).isSome ↔ k ∈ m.keys := by
  rw [← not_iff_not, Option.not_isSome_iff_eq_none, find?_eq_none_iff]

theorem find?_insert (m : SortedMap K V) (k : K) (v : V) (k' : K) :
    (m.insert k v).find? k' = if k' = k then some ((m.find? k).getD v) else m.find? k' :=
  find?_alter m k _ k'

theorem find?_erase (m : SortedMap K V) (k k' : K) :
    (m.erase k).find? k' = if k' = k then none else m.find? k' := by
  split_ifs with hk
  · refine lookup_eq_none fun e he heq => ?_
    have hne := (List.mem_filter.1 he).2
    rw [← heq, hk] at hne
    exact absurd hne (by simp)
  · refine Option.ext fun v => ?_
    rw [find?_eq_some_iff, find?_eq_some_iff]
    change (k', v) ∈ m.entries.filter _ ↔ _
    rw [List.mem_filter]
    exact ⟨fun h => h.1, fun h => ⟨h, by simpa using hk⟩⟩

end generic

section building
variable {K V : Type*} [LinearOrder K]

theorem alterEntries_last {k : K} {f : Option V → V} {l : List (K × V)}
    (h : ∀ e ∈ l, e.1 < k) : alterEntries k f l = l ++ [(k, f none)] := by
  induction l with
  | nil => rfl
  | cons e rest ih =>
    have he := h e List.mem_cons_self
    rw [alterEntries, if_neg (lt_asymm he), if_neg (ne_of_gt he),
      ih fun a ha => h a (List.mem_cons_of_mem _ ha)]
    rfl

theorem alterEntries_at {k : K} {f : Option V → V} {l rest : List (K × V)} {v : V}
    (h : ∀ e ∈ l, e.1 < k) :
    alterEntries k f (l ++ (k, v) :: rest) = l ++ (k, f (some v)) :: rest := by
  induction l with
  | nil => rw [List.nil_append, alterEntries, if_neg (lt_irrefl k), if_pos rfl]; rfl
  | cons e l ih =>
    have he := h e List.mem_cons_self
    rw [List.cons_append, alterEntries, if_neg (lt_asymm he), if_neg (ne_of_gt he),
      ih fun a ha => h a (List.mem_cons_of_mem _ ha)]
    rfl

theorem alterEntries_new {k : K} {f : Option V → V} {l : List (K × V)}
    (h : k ∉ l.map Prod.fst) : (alterEntries k f l).Perm ((k, f none) :: l) := by
  induction l with
  | nil => exact List.Perm.refl _
  | cons e rest ih =>
    rw [List.map_cons, List.mem_cons, not_or] at h
    rw [alterEntries, if_neg h.1]
    split_ifs
    · exact List.Perm.refl _
    · exact ((ih h.2).cons e).trans (List.Perm.swap _ _ _)

theorem insert_of_mem {m : SortedMap K V} {k : K} (v : V) (h : k ∈ m.keys) : m.insert k v = m := by
  obtain ⟨l, hsorted⟩ := m
  refine ext ?_
  change alterEntries k (fun old => old.getD v) l = l
  change k ∈ l.map Prod.fst at h
  induction l with
  | nil => exact absurd h List.not_mem_nil
  | cons e rest ih =>
    obtain ⟨hhead, htail⟩ := List.pairwise_cons.1 hsorted
    rw [List.map_cons, List.mem_cons] at h
    rw [alterEntries]
    split_ifs with hlt heq
    · obtain ⟨a, ha, hak⟩ := List.mem_map.1 (h.resolve_left (ne_of_lt hlt))
      exact absurd (hak ▸ hhead a ha) (lt_asymm hlt)
    · obtain ⟨k₀, v₀⟩ := e
      cases heq
      rfl
    · rw [ih htail (h.resolve_left heq)]

theorem insert_new {m : SortedMap K V} {k : K} (v : V) (h : k ∉ m.keys) :
    (m.insert k v).entries.Perm ((k, v) :: m.entries) := alterEntries_new h

theorem mem_keys_alter {m : SortedMap K V} {k k' : K} {f : Option V → V} :
    k' ∈ (m.alter k f).keys ↔ k' = k ∨ k' ∈ m.keys := by
  rw [← find?_isSome_iff, find?_alter, ← find?_isSome_iff]
  split_ifs with hk
  · exact ⟨fun _ => Or.inl hk, fun _ => rfl⟩
  · exact ⟨Or.inr, fun h => h.resolve_left hk⟩

theorem insertAll_cons (m : SortedMap K V) (e : K × V) (l : List (K × V)) :
    m.insertAll (e :: l) = (m.insert e.1 e.2).insertAll l := rfl

theorem insertAll_perm {m : SortedMap K V} {l : List (K × V)} (hnodup : (l.map Prod.fst).Nodup)
    (hnew : ∀ e ∈ l, e.1 ∉ m.keys) : (m.insertAll l).entries.Perm (m.entries ++ l) := by
  induction l generalizing m with
  | nil =>
    rw [List.append_nil]
    exact List.Perm.refl _
  | cons e l ih =>
    rw [List.map_cons, List.nodup_cons] at hnodup
    have hinsert := insert_new e.2 (hnew e List.mem_cons_self)
    rw [insertAll_cons]
    refine (ih hnodup.2 fun a ha hmem => ?_).trans ?_
    · cases mem_keys_alter.1 hmem with
      | inl hae => exact hnodup.1 (List.mem_map.2 ⟨a, ha, hae⟩)
      | inr hold => exact hnew a (List.mem_cons_of_mem _ ha) hold
    · exact (hinsert.append_right l).trans List.perm_middle.symm

theorem find?_insertAll (m : SortedMap K V) (l : List (K × V)) (k : K) :
    (m.insertAll l).find? k = (m.find? k).or (l.lookup k) := by
  induction l generalizing m with
  | nil => exact (Option.or_none).symm
  | cons e l ih =>
    obtain ⟨k₀, v⟩ := e
    rw [insertAll_cons, ih, find?_insert]
    by_cases hk : k = k₀
    · subst hk
      rw [if_pos rfl, List.lookup_cons_self]
      cases m.find? k with
      | none => rfl
      | some w => rfl
    · rw [if_neg hk, lookup_cons_ne hk]

theorem mem_insertAll {l : List (K × V)} {a : K × V} (m : SortedMap K V)
    (h : a ∈ (m.insertAll l).entries) : a ∈ m.entries ∨ a ∈ l := by
  induction l generalizing m with
  | nil => exact Or.inl h
  | cons e l ih =>
    rw [insertAll_cons] at h
    cases ih _ h with
    | inl hmem =>
      by_cases hk : e.1 ∈ m.keys
      · rw [insert_of_mem e.2 hk] at hmem
        exact Or.inl hmem
      · cases List.mem_cons.1 ((insert_new e.2 hk).mem_iff.1 hmem) with
        | inl heq => exact Or.inr (heq ▸ List.mem_cons_self)
        | inr hold => exact Or.inl hold
    | inr hmem => exact Or.inr (List.mem_cons_of_mem _ hmem)

theorem mem_insertAll_keys {l : List (K × V)} {k : K} (h : k ∈ (empty.insertAll l).keys) :
    k ∈ l.map Prod.fst := by
  obtain ⟨a, ha, rfl⟩ := List.mem_map.1 h
  exact List.mem_map_of_mem ((mem_insertAll empty ha).resolve_left List.not_mem_nil)

theorem insertAll_length_le (m : SortedMap K V) (l : List (K × V)) :
    (m.insertAll l).entries.length ≤ m.entries.length + l.length := by
  induction l generalizing m with
  | nil => exact Nat.le_refl _
  | cons e l ih =>
    have hle : (m.insert e.1 e.2).entries.length ≤ m.entries.length + 1 := by
      by_cases hk : e.1 ∈ m.keys
      · rw [insert_of_mem e.2 hk]
        exact Nat.le_succ _
      · rw [(insert_new e.2 hk).length_eq]
        exact Nat.le_refl _
    have hih := ih (m.insert e.1 e.2)
    rw [insertAll_cons, List.length_cons]
    omega

/-- Two entries with one key, or an entry with an old key: one of them is lost. -/
theorem insertAll_length_lt {m : SortedMap K V} {l : List (K × V)}
    (h : ¬ ((l.map Prod.fst).Nodup ∧ ∀ e ∈ l, e.1 ∉ m.keys)) :
    (m.insertAll l).entries.length < m.entries.length + l.length := by
  induction l generalizing m with
  | nil => exact absurd ⟨List.nodup_nil, fun e he => absurd he List.not_mem_nil⟩ h
  | cons e l ih =>
    rw [insertAll_cons, List.length_cons]
    by_cases hk : e.1 ∈ m.keys
    · rw [insert_of_mem e.2 hk]
      have hle := insertAll_length_le m l
      omega
    · have hlt := ih (m := m.insert e.1 e.2) fun ⟨hnodup, hnew⟩ => h ⟨?_, ?_⟩
      · rw [(insert_new e.2 hk).length_eq, List.length_cons] at hlt
        omega
      · rw [List.map_cons, List.nodup_cons]
        refine ⟨fun hmem => ?_, hnodup⟩
        obtain ⟨a, ha, hae⟩ := List.mem_map.1 hmem
        exact hnew a ha (mem_keys_alter.2 (Or.inl hae))
      · intro a ha hold
        cases List.mem_cons.1 ha with
        | inl hae => exact hk (hae ▸ hold)
        | inr hal => exact hnew a hal (mem_keys_alter.2 (Or.inr hold))

theorem insertAll_nodup_of_length {l : List (K × V)}
    (h : (empty.insertAll l).entries.length = l.length) : (l.map Prod.fst).Nodup := by
  by_contra hnot
  have hlt := insertAll_length_lt (m := (empty : SortedMap K V)) (l := l) fun hh => hnot hh.1
  rw [h] at hlt
  exact absurd hlt (by simp [empty])

theorem insertAll_nodup_perm {l : List (K × V)} (h : (l.map Prod.fst).Nodup) :
    (empty.insertAll l).entries.Perm l :=
  insertAll_perm h fun _ _ => List.not_mem_nil

/-- Every entry has a value of its own exactly if no two keys are the same. -/
theorem values_subperm_iff (l : List (K × V)) :
    (l.map Prod.snd).Subperm (empty.insertAll l).values ↔ (l.map Prod.fst).Nodup := by
  constructor
  · intro hsub
    refine insertAll_nodup_of_length (Nat.le_antisymm ?_ ?_)
    · simpa [empty] using insertAll_length_le (empty : SortedMap K V) l
    · simpa [values] using hsub.length_le
  · exact fun h => ((insertAll_nodup_perm h).map Prod.snd).symm.subperm

theorem insertAll_sorted {l : List (K × V)} (h : l.Pairwise (fun a b => a.1 < b.1)) :
    (empty.insertAll l).entries = l := by
  have hnodup : (l.map Prod.fst).Nodup := List.Pairwise.map _ (fun _ _ hab => ne_of_lt hab) h
  refine List.Perm.eq_of_pairwise (fun a b _ _ hab hba => absurd hba (lt_asymm hab))
    (empty.insertAll l).sorted h (insertAll_nodup_perm hnodup)

end building

section rebuilding
variable {K V : Type*} [LinearOrder K]

def Similar (same : V → V → Prop) (m m' : SortedMap K V) : Prop :=
  List.Forall₂ (fun a b => a.1 = b.1 ∧ same a.2 b.2) m.entries m'.entries

theorem Similar.keys_eq {same : V → V → Prop} {m m' : SortedMap K V} (h : Similar same m m') :
    m.keys = m'.keys := by
  rw [keys, keys, ← List.forall₂_eq_eq_eq, List.forall₂_map_left_iff, List.forall₂_map_right_iff]
  exact h.imp fun _ _ hab => hab.1

theorem similar_eq_iff {m m' : SortedMap K V} : m.Similar Eq m' ↔ m = m' := by
  have hpair : (fun a b : K × V => a.1 = b.1 ∧ a.2 = b.2) = Eq :=
    funext₂ fun a b => propext Prod.ext_iff.symm
  rw [Similar, hpair, List.forall₂_eq_eq_eq]
  exact ⟨ext, congrArg entries⟩

/-- A map whose values are changed by `g` and put into a new map: `g` moves a value only to the
key that `d` gives, and `d` changes nothing more when it is used again. -/
theorem rebuild_similar_iff {key : V → K} {d : K → K} {g : V → V} {same : V → V → Prop}
    {m : SortedMap K V} (hidem : ∀ k, d (d k) = d k) (hkey : ∀ e ∈ m.entries, key e.2 = e.1)
    (hg : ∀ e ∈ m.entries, key (g e.2) = d e.1) (hsame : ∀ v v', same v v' → key v = key v') :
    Similar same m (empty.insertAll (m.entries.map fun e => (key (g e.2), g e.2))) ↔
      ∀ e ∈ m.entries, same e.2 (g e.2) := by
  have hrebuilt : (∀ e ∈ m.entries, d e.1 = e.1) →
      (empty.insertAll (m.entries.map fun e => (key (g e.2), g e.2))).entries =
        m.entries.map fun e => (key (g e.2), g e.2) := by
    intro hfix
    refine insertAll_sorted (List.pairwise_map.2 (m.sorted.imp_of_mem fun {a b} ha hb hab => ?_))
    change key (g a.2) < key (g b.2)
    rw [hg a ha, hg b hb, hfix a ha, hfix b hb]
    exact hab
  constructor
  · intro hsim
    have hkeys := hsim.keys_eq
    have hfix : ∀ e ∈ m.entries, d e.1 = e.1 := by
      intro e he
      have hmem : e.1 ∈ m.keys := List.mem_map_of_mem he
      rw [hkeys] at hmem
      obtain ⟨p, hp, hpe⟩ := List.mem_map.1 (mem_insertAll_keys hmem)
      obtain ⟨e', he', rfl⟩ := List.mem_map.1 hp
      change key (g e'.2) = e.1 at hpe
      rw [← hpe, hg e' he', hidem]
    intro e he
    have hforall := hsim
    rw [Similar, hrebuilt hfix, List.forall₂_map_right_iff, List.forall₂_same] at hforall
    exact (hforall e he).2
  · intro hall
    have hfix : ∀ e ∈ m.entries, d e.1 = e.1 := fun e he => by
      rw [← hg e he, ← hsame _ _ (hall e he), hkey e he]
    rw [Similar, hrebuilt hfix, List.forall₂_map_right_iff, List.forall₂_same]
    exact fun e he => ⟨by rw [hg e he, hfix e he], hall e he⟩

end rebuilding

end SortedMap

end Pfaedle

import Mathlib.Algebra.BigOperators.Group.Finset.Piecewise
import Mathlib.Tactic.Common

set_option autoImplicit false

/-!
# Counted references

Objects that are reached over pointers are deleted with the last reference to them. A table counts
the references. What is held is a multiset of pointers: a holder may hold a pointer several times.
-/
namespace Pfaedle.RefCounts

section store
variable {K V : Type*} [DecidableEq K]

/-- Objects by their addresses, and the table of counts. An address without an entry has been
counted zero times. -/
structure Store (K V : Type*) where
  obj : K → Option V
  cnt : K → Option ℕ

namespace Store

def empty : Store K V := ⟨fun _ => none, fun _ => none⟩

def count (s : Store K V) (k : K) : ℕ := (s.cnt k).getD 0

def put (s : Store K V) (k : K) (v : V) : Store K V :=
  { s with obj := Function.update s.obj k (some v) }

def setCount (s : Store K V) (k : K) (n : Option ℕ) : Store K V :=
  { s with cnt := Function.update s.cnt k n }

def ref (s : Store K V) (k : K) : Store K V := s.setCount k (some (s.count k + 1))

/-- One reference less, and the last one deletes the object; its entry may be left at zero.
`none` is a count below zero, or an object that is deleted twice. -/
def unref (erases : Bool) (s : Store K V) (k : K) : Option (Store K V) :=
  match s.count k with
  | 0 => none
  | 1 =>
    (s.obj k).map fun _ =>
      ⟨Function.update s.obj k none, Function.update s.cnt k (if erases then none else some 0)⟩
  | n + 2 => some (s.setCount k (some (n + 1)))

def unrefs (erases : Bool) (s : Store K V) (ks : List K) : Option (Store K V) :=
  ks.foldlM (unref erases) s

@[simp] theorem put_count (s : Store K V) (k : K) (v : V) : (s.put k v).count = s.count := rfl

@[simp] theorem setCount_obj (s : Store K V) (k : K) (n : Option ℕ) :
    (s.setCount k n).obj = s.obj := rfl

@[simp] theorem ref_obj (s : Store K V) (k : K) : (s.ref k).obj = s.obj := rfl

theorem put_obj (s : Store K V) (k : K) (v : V) (j : K) :
    (s.put k v).obj j = if j = k then some v else s.obj j := Function.update_apply _ _ _ _

theorem setCount_count (s : Store K V) (k : K) (n : Option ℕ) (j : K) :
    (s.setCount k n).count j = if j = k then n.getD 0 else s.count j := by
  unfold count setCount
  by_cases hj : j = k <;> simp [hj]

end Store

/-- The table counts what is held, and what is held has not been deleted. -/
structure Safe (s : Store K V) (held : Multiset K) : Prop where
  count : ∀ k, s.count k = held.count k
  alive : ∀ k ∈ held, (s.obj k).isSome

variable {s : Store K V} {held : Multiset K} {k : K}

theorem safe_empty : Safe (Store.empty : Store K V) 0 :=
  ⟨fun _ => rfl, fun _ hk => absurd hk (Multiset.notMem_zero _)⟩

theorem Safe.put (h : Safe s held) (k : K) (v : V) : Safe (s.put k v) held where
  count := h.count
  alive j hj := by
    rw [Store.put_obj]
    split
    · rfl
    · exact h.alive j hj

theorem Safe.ref (h : Safe s held) (hk : (s.obj k).isSome) : Safe (s.ref k) (k ::ₘ held) where
  count j := by
    rw [Store.ref, Store.setCount_count, Multiset.count_cons, Option.getD_some, h.count, h.count]
    split
    · rename_i hj
      rw [hj]
    · omega
  alive j hj := by
    rw [Store.ref_obj]
    cases Multiset.mem_cons.1 hj with
    | inl hj => exact hj ▸ hk
    | inr hj => exact h.alive j hj

theorem Safe.count_of_deleted (h : Safe s held) (hk : s.obj k = none) : s.count k = 0 := by
  rw [h.count, Multiset.count_eq_zero]
  intro hmem
  have halive := h.alive k hmem
  rw [hk] at halive
  cases halive

theorem Safe.start (h : Safe s held) (hk : s.obj k = none) (v : V) :
    Safe ((s.put k v).setCount k (some 1)) (k ::ₘ held) := by
  have hfirst : (s.put k v).setCount k (some 1) = (s.put k v).ref k := by
    rw [Store.ref, Store.put_count, h.count_of_deleted hk]
  rw [hfirst]
  exact (h.put k v).ref (by simp [Store.put_obj])

def dropped (s : Store K V) (held held' : Multiset K) (j : K) : Option V :=
  if j ∈ held ∧ j ∉ held' then none else s.obj j

theorem dropped_isSome (s : Store K V) (held held' : Multiset K) (j : K) :
    (dropped s held held' j).isSome ↔ (s.obj j).isSome ∧ (j ∈ held → j ∈ held') := by
  rw [dropped]
  by_cases hgone : j ∈ held ∧ j ∉ held'
  · simp [hgone]
  · rw [if_neg hgone, and_iff_left]
    exact fun hj => not_not.1 fun hnot => hgone ⟨hj, hnot⟩

theorem dropped_of_mem (s : Store K V) (held : Multiset K) {held' : Multiset K} {j : K}
    (hj : j ∈ held') : dropped s held held' j = s.obj j := if_neg fun hgone => hgone.2 hj

theorem dropped_self (s : Store K V) (held : Multiset K) : dropped s held held = s.obj := by
  funext j
  simp [dropped]

theorem dropped_trans {s s₁ : Store K V} {held held₁ held' : Multiset K} (h₁ : held₁ ≤ held)
    (h' : held' ≤ held₁) (hobj : s₁.obj = dropped s held held₁) :
    dropped s₁ held₁ held' = dropped s held held' := by
  funext j
  have hin := fun hj : j ∈ held₁ => Multiset.mem_of_le h₁ hj
  have hin' := fun hj : j ∈ held' => Multiset.mem_of_le h' hj
  rw [dropped, dropped, hobj, dropped]
  by_cases hj : j ∈ held₁
  · simp [hj, hin hj]
  · simp [hj, mt hin' hj]

theorem Safe.unref (h : Safe s held) (hk : k ∈ held) (erases : Bool) :
    ∃ s', s.unref erases k = some s' ∧ Safe s' (held.erase k) ∧
      s'.obj = dropped s held (held.erase k) := by
  have hpos : 0 < held.count k := Multiset.count_pos.2 hk
  have hcount := h.count k
  obtain ⟨v, hv⟩ := Option.isSome_iff_exists.1 (h.alive k hk)
  have hother : ∀ j, j ≠ k → (j ∈ held.erase k ↔ j ∈ held) := fun j hj =>
    Multiset.mem_erase_of_ne hj
  have hself : k ∈ held.erase k ↔ 1 < held.count k := by
    rw [← Multiset.count_pos, Multiset.count_erase_self]
    omega
  rw [Store.unref]
  split
  · omega
  · rename_i hlast
    have hgone : k ∉ held.erase k := by
      rw [hself]
      omega
    rw [hv, Option.map_some]
    refine ⟨_, rfl, ⟨fun j => ?_, fun j hj => ?_⟩, funext fun j => ?_⟩
    · by_cases hj : j = k
      · rw [hj, Multiset.count_eq_zero.2 hgone]
        cases erases <;> simp [Store.count]
      · rw [Multiset.count_erase_of_ne hj, ← h.count]
        simp [Store.count, hj]
    · have hne : j ≠ k := fun heq => hgone (heq ▸ hj)
      simpa [hne] using h.alive j ((hother j hne).1 hj)
    · by_cases hj : j = k
      · simp [dropped, hj, hk, hgone]
      · simp [dropped, hj, hother j hj]
  · rename_i n hn
    have hkept : k ∈ held.erase k := by
      rw [hself]
      omega
    refine ⟨_, rfl, ⟨fun j => ?_, fun j hj => ?_⟩, funext fun j => ?_⟩
    · rw [Store.setCount_count]
      by_cases hj : j = k
      · rw [hj, if_pos rfl, Multiset.count_erase_self, Option.getD_some]
        omega
      · rw [if_neg hj, Multiset.count_erase_of_ne hj, h.count]
    · exact h.alive j (Multiset.mem_of_mem_erase hj)
    · by_cases hj : j = k
      · simp [dropped, hj, hkept]
      · simp [dropped, hother j hj]

theorem Safe.unrefs {ks : List K} (h : Safe s held) (hks : (ks : Multiset K) ≤ held)
    (erases : Bool) :
    ∃ s', s.unrefs erases ks = some s' ∧ Safe s' (held - ks) ∧
      s'.obj = dropped s held (held - ks) := by
  induction ks generalizing s held with
  | nil =>
    rw [Multiset.coe_nil, Multiset.sub_zero]
    exact ⟨s, rfl, h, (dropped_self s held).symm⟩
  | cons k ks ih =>
    have hk : k ∈ held := Multiset.mem_of_le hks (by simp)
    obtain ⟨s₁, hrun₁, hsafe₁, hobj₁⟩ := h.unref hk erases
    have hle : (ks : Multiset K) ≤ held.erase k := by
      have hsub := Multiset.erase_le_erase k hks
      rwa [← Multiset.cons_coe, Multiset.erase_cons_head] at hsub
    obtain ⟨s', hrun, hsafe, hobj⟩ := ih hsafe₁ hle
    rw [← Multiset.cons_coe, Multiset.sub_cons]
    refine ⟨s', ?_, hsafe, ?_⟩
    · rw [Store.unrefs, List.foldlM_cons, hrun₁]
      exact hrun
    · rw [hobj]
      exact dropped_trans (Multiset.erase_le k held) (Multiset.sub_le_self _ _) hobj₁

def Store.refs (s : Store K V) (ks : List K) : Store K V := ks.foldl Store.ref s

@[simp] theorem Store.refs_obj (s : Store K V) (ks : List K) : (s.refs ks).obj = s.obj := by
  induction ks generalizing s with
  | nil => rfl
  | cons k ks ih => exact ih (s.ref k)

theorem Safe.refs {ks : List K} (h : Safe s held) (hks : ∀ k ∈ ks, (s.obj k).isSome) :
    Safe (s.refs ks) (ks + held) := by
  induction ks generalizing s held with
  | nil => simpa [Store.refs] using h
  | cons k ks ih =>
    have hsafe := ih (h.ref (hks k List.mem_cons_self)) fun j hj =>
      hks j (List.mem_cons_of_mem k hj)
    rwa [Multiset.add_cons, ← Multiset.cons_add, Multiset.cons_coe] at hsafe

end store

section holders
variable {I K : Type*}

def held (live : Finset I) (holds : I → Multiset K) : Multiset K := ∑ i ∈ live, holds i

variable {live : Finset I} {holds : I → Multiset K} {i : I}

theorem mem_held {k : K} : k ∈ held live holds ↔ ∃ i ∈ live, k ∈ holds i := Multiset.mem_sum

variable [DecidableEq I]

theorem held_insert (hi : i ∉ live) (m : Multiset K) :
    held (insert i live) (Function.update holds i m) = m + held live holds := by
  rw [held, Finset.sum_insert hi, Function.update_self, held]
  congr 1
  refine Finset.sum_congr rfl fun j hj => Function.update_of_ne ?_ _ _
  rintro rfl
  exact hi hj

theorem held_erase (hi : i ∈ live) : holds i + held (live.erase i) holds = held live holds :=
  Finset.add_sum_erase live holds hi

theorem held_replace (hi : i ∈ live) (m : Multiset K) :
    held live (Function.update holds i m) = m + held (live.erase i) holds := by
  rw [← held_erase hi, Function.update_self]
  congr 1
  refine Finset.sum_congr rfl fun j hj => Function.update_of_ne ?_ _ _
  rintro rfl
  exact Finset.notMem_erase j live hj

theorem held_update (hi : i ∈ live) (m : Multiset K) :
    held live (Function.update holds i (m + holds i)) = m + held live holds := by
  rw [held_replace hi, ← held_erase hi, add_assoc]

omit [DecidableEq I] in
/-- The holders of a pointer, when no one holds it twice. -/
theorem count_held [DecidableEq K] (hnodup : ∀ i ∈ live, (holds i).Nodup) (k : K) :
    (held live holds).count k = (live.filter fun i => k ∈ holds i).card := by
  rw [held, Multiset.count_sum', Finset.card_filter]
  refine Finset.sum_congr rfl fun i hi => ?_
  split
  · rename_i hk
    exact Multiset.count_eq_one_of_mem (hnodup i hi) hk
  · rename_i hk
    exact Multiset.count_eq_zero_of_notMem hk

end holders

end Pfaedle.RefCounts

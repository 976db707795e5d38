import Pfaedle.RefCounts

set_option autoImplicit false

/-!
# The memory of the station groups

Every `station_info` has a pointer to its group, and the static table `_groups` counts them. A group
goes with the last station in it.
-/
namespace Pfaedle.GroupMemory
open RefCounts

section model
variable {V : Type*}

/-- The station infos, and the groups with `_groups`. -/
structure Infos (V : Type*) where
  live : Finset ℕ
  group : ℕ → Option ℕ
  groups : Store ℕ V
  /-- The entry for the null pointer, which is only counted up. -/
  nulls : ℕ

/-- What is done to station infos; `g` in `newGroup` is the address that `new` returns. -/
inductive Op (V : Type*)
  | ctor (this : ℕ)
  | copy (this src : ℕ)
  | setGroup (this : ℕ) (g : Option ℕ)
  | dtor (this : ℕ)
  | newGroup (g : ℕ) (v : V)

namespace Infos

def start : Infos V := ⟨∅, fun _ => none, .empty, 0⟩

def unRefGroup (s : Store ℕ V) (g : Option ℕ) : Option (Store ℕ V) := g.elim (some s) (s.unref true)

def ctor (m : Infos V) (this : ℕ) : Infos V :=
  { m with live := insert this m.live, group := Function.update m.group this none }

def setGroup (m : Infos V) (this : ℕ) (g : Option ℕ) : Option (Infos V) :=
  if m.group this = g then some m
  else
    (unRefGroup m.groups (m.group this)).map fun groups =>
      { m with
        group := Function.update m.group this g
        groups := g.elim groups groups.ref
        nulls := g.elim (m.nulls + 1) fun _ => m.nulls }

def step (m : Infos V) : Op V → Option (Infos V)
  | .ctor this => some (m.ctor this)
  | .copy this src => (m.ctor this).setGroup this (m.group src)
  | .setGroup this g => m.setGroup this g
  | .dtor this =>
    (unRefGroup m.groups (m.group this)).map fun groups =>
      { m with live := m.live.erase this, groups := groups }
  | .newGroup g v => some { m with groups := m.groups.put g v }

def run (m : Infos V) (ops : List (Op V)) : Option (Infos V) := ops.foldlM step m

/-- Infos are used between constructor and destructor, `new` returns a free address, and a group
that is set is there. -/
def Allows (m : Infos V) : Op V → Prop
  | .ctor this => this ∉ m.live
  | .copy this src => this ∉ m.live ∧ src ∈ m.live
  | .setGroup this g => this ∈ m.live ∧ ∀ k ∈ g, (m.groups.obj k).isSome
  | .dtor this => this ∈ m.live
  | .newGroup g _ => m.groups.obj g = none

def AllowsAll (m : Infos V) : List (Op V) → Prop
  | [] => True
  | op :: ops =>
    m.Allows op ∧
      match m.step op with
      | some m' => m'.AllowsAll ops
      | none => True

instance allowsDecidable (m : Infos V) : (op : Op V) → Decidable (m.Allows op)
  | .ctor _ => inferInstanceAs (Decidable (_ ∉ _))
  | .copy _ _ => inferInstanceAs (Decidable (_ ∧ _))
  | .setGroup _ _ => inferInstanceAs (Decidable (_ ∧ ∀ k ∈ _, _))
  | .dtor _ => inferInstanceAs (Decidable (_ ∈ _))
  | .newGroup _ _ => inferInstanceAs (Decidable (_ = none))

instance allowsAllDecidable : (m : Infos V) → (ops : List (Op V)) → Decidable (m.AllowsAll ops)
  | _, [] => instDecidableTrue
  | m, op :: ops => by
    unfold AllowsAll
    have : ∀ m' : Infos V, Decidable (m'.AllowsAll ops) := fun m' => allowsAllDecidable m' ops
    cases m.step op with
    | none => exact instDecidableAnd
    | some m' => exact instDecidableAnd

end Infos

end model

section counting
variable {V : Type*} {m m' : Infos V}

def holdsGroup (g : Option ℕ) : Multiset ℕ := g.elim 0 fun k => {k}

def Infos.held (m : Infos V) : Multiset ℕ := RefCounts.held m.live (holdsGroup ∘ m.group)

def waiting (gs : Finset ℕ) : Op V → Finset ℕ
  | .newGroup g _ => insert g gs
  | .setGroup _ g => g.elim gs gs.erase
  | _ => gs

structure Sound (m : Infos V) (gs : Finset ℕ) : Prop where
  groups : Safe m.groups m.held
  made : ∀ g, (m.groups.obj g).isSome → g ∈ m.held ∨ g ∈ gs
  waiting : ∀ g ∈ gs, (m.groups.obj g).isSome ∧ g ∉ m.held

variable {gs : Finset ℕ} {this src : ℕ}

theorem mem_holdsGroup {g : Option ℕ} {k : ℕ} : k ∈ holdsGroup g ↔ g = some k := by
  cases g <;> simp [holdsGroup, eq_comm]

theorem mem_infosHeld {g : ℕ} : g ∈ m.held ↔ ∃ i ∈ m.live, m.group i = some g := by
  rw [Infos.held, mem_held]
  simp [mem_holdsGroup]

theorem unRefGroup_spec {s : Store ℕ V} {held : Multiset ℕ} (h : Safe s held) {g : Option ℕ}
    (hg : holdsGroup g ≤ held) :
    ∃ s', Infos.unRefGroup s g = some s' ∧ Safe s' (held - holdsGroup g) ∧
      s'.obj = dropped s held (held - holdsGroup g) := by
  cases g with
  | none =>
    refine ⟨s, rfl, ?_, ?_⟩
    · simpa [holdsGroup] using h
    · simp [holdsGroup, dropped_self]
  | some k =>
    have hk : k ∈ held := Multiset.mem_of_le hg (mem_holdsGroup.2 rfl)
    have herase : held - holdsGroup (some k) = held.erase k := Multiset.sub_singleton k held
    rw [herase]
    exact h.unref hk true

theorem Sound.ctor (hs : Sound m gs) (hthis : this ∉ m.live) :
    Sound (m.ctor this) gs ∧ (m.ctor this).held = m.held := by
  have hheld : (m.ctor this).held = m.held := by
    rw [Infos.held, Infos.ctor, Function.comp_update, held_insert hthis]
    exact zero_add _
  refine ⟨⟨?_, ?_, ?_⟩, hheld⟩
  · rw [hheld]
    exact hs.groups
  · rw [hheld]
    exact hs.made
  · rw [hheld]
    exact hs.waiting

def Infos.heldElsewhere (m : Infos V) (this : ℕ) : Multiset ℕ :=
  RefCounts.held (m.live.erase this) (holdsGroup ∘ m.group)

theorem held_split (hthis : this ∈ m.live) :
    holdsGroup (m.group this) + m.heldElsewhere this = m.held := held_erase hthis

/-- A group is given up, and goes unless another station is in it. -/
theorem Sound.release (hs : Sound m gs) (hthis : this ∈ m.live) :
    ∃ groups, Infos.unRefGroup m.groups (m.group this) = some groups ∧
      Safe groups (m.heldElsewhere this) ∧
      (∀ g, (groups.obj g).isSome ↔
        (m.groups.obj g).isSome ∧ (g ∈ m.held → g ∈ m.heldElsewhere this)) ∧
      (∀ g, (groups.obj g).isSome → g ∈ m.heldElsewhere this ∨ g ∈ gs) ∧
      ∀ g ∈ gs, (groups.obj g).isSome ∧ g ∉ m.heldElsewhere this := by
  have hsplit := held_split hthis
  have hrest : m.held - holdsGroup (m.group this) = m.heldElsewhere this := by
    rw [← hsplit]
    exact add_tsub_cancel_left _ _
  obtain ⟨groups, hunref, hsafe, hobj⟩ :=
    unRefGroup_spec hs.groups (hsplit ▸ Multiset.le_add_right _ _)
  rw [hrest] at hsafe hobj
  have halive : ∀ g, (groups.obj g).isSome ↔
      (m.groups.obj g).isSome ∧ (g ∈ m.held → g ∈ m.heldElsewhere this) := by
    intro g
    rw [hobj, dropped_isSome]
  refine ⟨groups, hunref, hsafe, halive, fun g hg => ?_, fun g hg => ?_⟩
  · obtain ⟨hbefore, hkept⟩ := (halive g).1 hg
    exact (hs.made g hbefore).imp_left hkept
  · obtain ⟨hbefore, hfree⟩ := hs.waiting g hg
    refine ⟨(halive g).2 ⟨hbefore, fun hheld => absurd hheld hfree⟩, fun hmem => hfree ?_⟩
    rw [← hsplit]
    exact Multiset.mem_add.2 (Or.inr hmem)

theorem Sound.setGroup (hs : Sound m gs) (hthis : this ∈ m.live) {g : Option ℕ}
    (hg : ∀ k ∈ g, (m.groups.obj k).isSome) :
    ∃ m', m.setGroup this g = some m' ∧ Sound m' (g.elim gs gs.erase) := by
  rw [Infos.setGroup]
  split
  · rename_i hsame
    refine ⟨m, rfl, ?_⟩
    cases g with
    | none => exact hs
    | some k =>
      have hheld : k ∈ m.held := mem_infosHeld.2 ⟨this, hthis, hsame⟩
      have hnot : k ∉ gs := fun hwait => (hs.waiting k hwait).2 hheld
      rwa [Option.elim_some, Finset.erase_eq_of_notMem hnot]
  · rename_i hother
    obtain ⟨groups, hunref, hsafe, halive, hmade, hwaiting⟩ := hs.release hthis
    rw [hunref, Option.map_some]
    have hheld : RefCounts.held m.live (holdsGroup ∘ Function.update m.group this g) =
        holdsGroup g + m.heldElsewhere this := by
      rw [Function.comp_update, held_replace hthis]
      rfl
    refine ⟨_, rfl, ?_⟩
    cases g with
    | none =>
      have hrest := hheld.trans (zero_add (m.heldElsewhere this))
      refine ⟨?_, fun k hk => ?_, fun k hk => ?_⟩
      · rw [Infos.held, hrest]
        exact hsafe
      · rw [Infos.held, hrest]
        exact hmade k hk
      · rw [Infos.held, hrest]
        exact hwaiting k hk
    | some k =>
      -- the group that is taken is not the one that has been given up
      have hk : (groups.obj k).isSome := by
        refine (halive k).2 ⟨hg k rfl, fun hmem => ?_⟩
        rw [← held_split hthis, Multiset.mem_add, mem_holdsGroup] at hmem
        exact hmem.resolve_left hother
      have hrest := hheld.trans (Multiset.singleton_add k (m.heldElsewhere this))
      refine ⟨?_, fun k' hk' => ?_, fun k' hk' => ?_⟩
      · rw [Infos.held, hrest]
        exact hsafe.ref hk
      · rw [Infos.held, hrest, Multiset.mem_cons, Option.elim_some, Finset.mem_erase]
        by_cases heq : k' = k
        · exact Or.inl (Or.inl heq)
        · exact (hmade k' hk').imp Or.inr fun hwait => ⟨heq, hwait⟩
      · obtain ⟨hne, hwait⟩ := Finset.mem_erase.1 hk'
        rw [Infos.held, hrest, Multiset.mem_cons, not_or]
        exact ⟨(hwaiting k' hwait).1, hne, (hwaiting k' hwait).2⟩

theorem Sound.dtor (hs : Sound m gs) (hthis : this ∈ m.live) :
    ∃ m', m.step (.dtor this) = some m' ∧ Sound m' gs := by
  obtain ⟨groups, hunref, hsafe, -, hmade, hwaiting⟩ := hs.release hthis
  exact ⟨_, congrArg (Option.map _) hunref, hsafe, hmade, hwaiting⟩

theorem Sound.copy (hs : Sound m gs) (hthis : this ∉ m.live) (hsrc : src ∈ m.live) :
    ∃ m', m.step (.copy this src) = some m' ∧ Sound m' gs := by
  obtain ⟨hctor, hheld⟩ := hs.ctor hthis
  have hgroup : ∀ k ∈ m.group src, k ∈ m.held := fun k hk => mem_infosHeld.2 ⟨src, hsrc, hk⟩
  have hsame : (m.group src).elim gs gs.erase = gs := by
    cases hg : m.group src with
    | none => rfl
    | some k =>
      have hnot : k ∉ gs := fun hwait => (hs.waiting k hwait).2 (hgroup k hg)
      exact Finset.erase_eq_of_notMem hnot
  obtain ⟨m', hset, hsound⟩ := hctor.setGroup (Finset.mem_insert_self this m.live)
    fun k hk => hs.groups.alive k (hgroup k hk)
  exact ⟨m', hset, hsame ▸ hsound⟩

theorem Sound.newGroup (hs : Sound m gs) {g : ℕ} (hg : m.groups.obj g = none) (v : V) :
    Sound { m with groups := m.groups.put g v } (insert g gs) where
  groups := hs.groups.put g v
  made k hk := by
    change ((m.groups.put g v).obj k).isSome at hk
    rw [Store.put_obj] at hk
    split at hk
    · rename_i heq
      exact Or.inr (heq ▸ Finset.mem_insert_self _ _)
    · exact (hs.made k hk).imp_right Finset.mem_insert_of_mem
  waiting k hk := by
    change ((m.groups.put g v).obj k).isSome ∧ k ∉ m.held
    rw [Store.put_obj]
    split
    · rename_i heq
      refine ⟨rfl, fun hmem => ?_⟩
      have halive := hs.groups.alive k hmem
      rw [heq, hg] at halive
      cases halive
    · rename_i hne
      exact hs.waiting k ((Finset.mem_insert.1 hk).resolve_left hne)

theorem Sound.step (hs : Sound m gs) {op : Op V} (hop : m.Allows op) :
    ∃ m', m.step op = some m' ∧ Sound m' (GroupMemory.waiting gs op) := by
  cases op with
  | ctor this => exact ⟨_, rfl, (hs.ctor hop).1⟩
  | copy this src => exact hs.copy hop.1 hop.2
  | setGroup this g => exact hs.setGroup hop.1 hop.2
  | dtor this => exact hs.dtor hop
  | newGroup g v => exact ⟨_, rfl, hs.newGroup hop v⟩

theorem Sound.run (hs : Sound m gs) {ops : List (Op V)} (hops : m.AllowsAll ops) :
    ∃ m', m.run ops = some m' ∧ Sound m' (ops.foldl GroupMemory.waiting gs) := by
  induction ops generalizing m gs with
  | nil => exact ⟨m, rfl, hs⟩
  | cons op ops ih =>
    obtain ⟨hop, hrest⟩ := hops
    obtain ⟨m₁, hstep, hs₁⟩ := hs.step hop
    rw [hstep] at hrest
    obtain ⟨m', hrun, hs'⟩ := ih hs₁ hrest
    refine ⟨m', ?_, hs'⟩
    rw [Infos.run, List.foldlM_cons, hstep]
    exact hrun

/-- Whatever is done to station infos, in any order, no group is used after it has been deleted or
deleted twice. A group is there as long as some station is in it, or none has been yet. -/
theorem groups_counted (ops : List (Op V)) (hops : (Infos.start : Infos V).AllowsAll ops) :
    ∃ m, Infos.start.run ops = some m ∧
      ∀ g, m.groups.count g = (m.live.filter fun i => m.group i = some g).card ∧
        ((m.groups.obj g).isSome ↔
          (∃ i ∈ m.live, m.group i = some g) ∨ g ∈ ops.foldl waiting ∅) := by
  have hstart : Sound (Infos.start : Infos V) ∅ :=
    ⟨safe_empty, fun _ hg => (nomatch hg), fun _ hg => absurd hg (Finset.notMem_empty _)⟩
  obtain ⟨m, hrun, hs⟩ := hstart.run hops
  refine ⟨m, hrun, fun g => ⟨?_, ?_⟩⟩
  · have honce : ∀ i ∈ m.live, ((holdsGroup ∘ m.group) i).Nodup := by
      intro i _
      rw [Function.comp_apply]
      cases m.group i with
      | none => exact Multiset.nodup_zero
      | some k => exact Multiset.nodup_singleton k
    rw [hs.groups.count, Infos.held, count_held honce]
    simp [mem_holdsGroup]
  · rw [← mem_infosHeld]
    exact ⟨hs.made g, fun hg => hg.elim (hs.groups.alive g) fun hwait => (hs.waiting g hwait).1⟩

/-- The copy of a station keeps the group. -/
theorem groups_counted_copy :
    let ops : List (Op ℕ) := [.newGroup 5 0, .ctor 0, .setGroup 0 (some 5), .copy 1 0, .dtor 0]
    ∃ m, Infos.start.run ops = some m ∧ m.groups.count 5 = 1 ∧ (m.groups.obj 5).isSome := by
  intro ops
  obtain ⟨m, hrun, hgroups⟩ := groups_counted ops (by decide)
  have hend : (Infos.start.run ops).get rfl = m := Option.get_of_eq_some _ hrun
  have hlive : m.live = {1} ∧ m.group 1 = some 5 := by
    rw [← hend]
    decide
  obtain ⟨honly, hgroup⟩ := hlive
  refine ⟨m, hrun, ?_, (hgroups 5).2.2 (Or.inl ⟨1, by simp [honly], hgroup⟩)⟩
  rw [(hgroups 5).1, honly]
  simp [Finset.filter_singleton, hgroup]

end counting

end Pfaedle.GroupMemory

import Pfaedle.NameSimi
import Pfaedle.RefCounts

set_option autoImplicit false

/-!
# The memory of the edge payloads

`trgraph::edge_payload` keeps its geometry and its transit lines behind pointers, and counts the
references to them in the static tables `_flines` and `_tlines`. Seen from outside, a payload is
a value.
-/
namespace Pfaedle.PayloadMemory
open RefCounts ShapeBuilder

section model

structure Fields (C : Type*) where
  length : C
  maxSpeed : C
  oneWay : ℕ
  hasRestr : Bool
  rev : Bool
  lvl : ℕ

variable {C P : Type*}

structure EdgePayload (C : Type*) where
  fields : Fields C
  l : ℕ
  lines : List ℕ

structure Heap (C P : Type*) where
  live : Finset ℕ
  pl : ℕ → EdgePayload C
  /-- `LINE` objects with `_flines`. -/
  geoms : Store ℕ (List P)
  /-- `transit_edge_line` objects with `_tlines`. -/
  tlns : Store ℕ TransitEdgeLine

/-- What is done to payloads. `l` and `t` are the addresses that `new` returns. -/
inductive Op (C P : Type*)
  | ctor (this l : ℕ)
  | copy (this src l : ℕ)
  | flatCopy (this src : ℕ)
  | addLine (this t : ℕ)
  | editGeom (this : ℕ) (f : List P → List P)
  | setFields (this : ℕ) (f : Fields C → Fields C)
  | dtor (this : ℕ)
  | newLine (t : ℕ) (el : TransitEdgeLine)

def Op.isFlat : Op C P → Bool
  | .flatCopy _ _ => true
  | _ => false

variable [Zero C] [OfNat C 50]

def defaultFields : Fields C := ⟨0, 50, 0, false, false, 0⟩

namespace Heap

def start (pl : EdgePayload C) : Heap C P := ⟨∅, fun _ => pl, .empty, .empty⟩

def place (h : Heap C P) (this : ℕ) (pl : EdgePayload C) : Heap C P :=
  { h with live := insert this h.live, pl := Function.update h.pl this pl }

def setLines (h : Heap C P) (this : ℕ) (lines : List ℕ) : Heap C P :=
  { h with pl := Function.update h.pl this ⟨(h.pl this).fields, (h.pl this).l, lines⟩ }

def addLine (this : ℕ) (h : Heap C P) (t : ℕ) : Heap C P :=
  if t ∈ (h.pl this).lines then h
  else { h.setLines this ((h.pl this).lines ++ [t]) with tlns := h.tlns.ref t }

def ctor (h : Heap C P) (this l : ℕ) : Heap C P :=
  { h.place this ⟨defaultFields, l, []⟩ with geoms := (h.geoms.put l []).setCount l (some 1) }

/-- `edge_payload(pl, false)`, which reads the geometry of `pl`. -/
def copy (h : Heap C P) (this src l : ℕ) : Option (Heap C P) :=
  (h.geoms.obj (h.pl src).l).map fun geom =>
    (h.pl src).lines.foldl (addLine this)
      { h.place this ⟨(h.pl src).fields, l, []⟩ with geoms := (h.geoms.put l geom).ref l }

def flatCopy (h : Heap C P) (this src : ℕ) : Heap C P :=
  (h.pl src).lines.foldl (addLine this)
    { h.place this ⟨(h.pl src).fields, (h.pl src).l, []⟩ with geoms := h.geoms.ref (h.pl src).l }

/-- `~edge_payload()`; only the entries of `_tlines` are erased at zero. -/
def dtor (h : Heap C P) (this : ℕ) : Option (Heap C P) :=
  (h.geoms.unref false (h.pl this).l).bind fun geoms =>
    (h.tlns.unrefs true (h.pl this).lines).map fun tlns =>
      { h with live := h.live.erase this, geoms := geoms, tlns := tlns }

/-- A write through `get_geom()`, as `add_point` is one. -/
def editGeom (h : Heap C P) (this : ℕ) (f : List P → List P) : Option (Heap C P) :=
  (h.geoms.obj (h.pl this).l).map fun geom =>
    { h with geoms := h.geoms.put (h.pl this).l (f geom) }

def setFields (h : Heap C P) (this : ℕ) (f : Fields C → Fields C) : Heap C P :=
  { h with
    pl := Function.update h.pl this ⟨f (h.pl this).fields, (h.pl this).l, (h.pl this).lines⟩ }

/-- `none` is a read of freed memory, a second delete or a count below zero. -/
def step (h : Heap C P) : Op C P → Option (Heap C P)
  | .ctor this l => some (h.ctor this l)
  | .copy this src l => h.copy this src l
  | .flatCopy this src => some (h.flatCopy this src)
  | .addLine this t => some (h.addLine this t)
  | .editGeom this f => h.editGeom this f
  | .setFields this f => some (h.setFields this f)
  | .dtor this => h.dtor this
  | .newLine t el => some { h with tlns := h.tlns.put t el }

def run (h : Heap C P) (ops : List (Op C P)) : Option (Heap C P) := ops.foldlM step h

/-- What the caller has to care for: payloads are used between constructor and destructor, `new`
returns a free address, and an added line is there. -/
def Allows (h : Heap C P) : Op C P → Prop
  | .ctor this l => this ∉ h.live ∧ h.geoms.obj l = none
  | .copy this src l => this ∉ h.live ∧ src ∈ h.live ∧ h.geoms.obj l = none
  | .flatCopy this src => this ∉ h.live ∧ src ∈ h.live
  | .addLine this t => this ∈ h.live ∧ (h.tlns.obj t).isSome
  | .editGeom this _ => this ∈ h.live
  | .setFields this _ => this ∈ h.live
  | .dtor this => this ∈ h.live
  | .newLine t _ => h.tlns.obj t = none

def AllowsAll (h : Heap C P) : List (Op C P) → Prop
  | [] => True
  | op :: ops =>
    h.Allows op ∧
      match h.step op with
      | some h' => h'.AllowsAll ops
      | none => True

instance allowsDecidable (h : Heap C P) : (op : Op C P) → Decidable (h.Allows op)
  | .ctor _ _ => inferInstanceAs (Decidable (_ ∧ _))
  | .copy _ _ _ => inferInstanceAs (Decidable (_ ∧ _ ∧ _))
  | .flatCopy _ _ => inferInstanceAs (Decidable (_ ∧ _))
  | .addLine _ _ => inferInstanceAs (Decidable (_ ∧ _))
  | .editGeom _ _ => inferInstanceAs (Decidable (_ ∈ _))
  | .setFields _ _ => inferInstanceAs (Decidable (_ ∈ _))
  | .dtor _ => inferInstanceAs (Decidable (_ ∈ _))
  | .newLine _ _ => inferInstanceAs (Decidable (_ = none))

instance allowsAllDecidable : (h : Heap C P) → (ops : List (Op C P)) → Decidable (h.AllowsAll ops)
  | _, [] => instDecidableTrue
  | h, op :: ops => by
    unfold AllowsAll
    have : ∀ h' : Heap C P, Decidable (h'.AllowsAll ops) := fun h' => allowsAllDecidable h' ops
    cases h.step op with
    | none => exact instDecidableAnd
    | some h' => exact instDecidableAnd

end Heap

end model

section values
variable {C P : Type*}

/-- A payload as it is used. A transit line is the same line only at the same address. -/
structure Value (C P : Type*) where
  fields : Fields C
  geom : List P
  lines : List (ℕ × TransitEdgeLine)

def Value.addLine (v : Value C P) (t : ℕ) (el : TransitEdgeLine) : Value C P :=
  if t ∈ v.lines.map Prod.fst then v else { v with lines := v.lines ++ [(t, el)] }

/-- The payloads that there are, and the lines that `new` has made. -/
structure Values (C P : Type*) where
  pls : ℕ → Option (Value C P)
  tlns : ℕ → Option TransitEdgeLine

namespace Values

def start : Values C P := ⟨fun _ => none, fun _ => none⟩

def set (vs : Values C P) (this : ℕ) (v : Option (Value C P)) : Values C P :=
  { vs with pls := Function.update vs.pls this v }

def change (vs : Values C P) (this : ℕ) (f : Value C P → Value C P) : Values C P :=
  vs.set this ((vs.pls this).map f)

variable [Zero C] [OfNat C 50]

def step (vs : Values C P) : Op C P → Values C P
  | .ctor this _ => vs.set this (some ⟨defaultFields, [], []⟩)
  | .copy this src _ => vs.set this (vs.pls src)
  | .flatCopy this src => vs.set this (vs.pls src)
  | .addLine this t => (vs.tlns t).elim vs fun el => vs.change this fun v => v.addLine t el
  | .editGeom this f => vs.change this fun v => { v with geom := f v.geom }
  | .setFields this f => vs.change this fun v => { v with fields := f v.fields }
  | .dtor this => vs.set this none
  | .newLine t el => { vs with tlns := Function.update vs.tlns t (some el) }

def run (vs : Values C P) (ops : List (Op C P)) : Values C P := ops.foldl step vs

end Values

structure Reads (h : Heap C P) (i : ℕ) (v : Value C P) : Prop where
  fields : (h.pl i).fields = v.fields
  geom : h.geoms.obj (h.pl i).l = some v.geom
  addresses : (h.pl i).lines = v.lines.map Prod.fst
  lines : ∀ tl ∈ v.lines, h.tlns.obj tl.1 = some tl.2

structure Shows (h : Heap C P) (vs : Values C P) : Prop where
  live : ∀ i ∈ h.live, ∃ v, vs.pls i = some v ∧ Reads h i v
  dead : ∀ i, i ∉ h.live → vs.pls i = none
  tlns : ∀ t el, h.tlns.obj t = some el → vs.tlns t = some el

def Unshared (h : Heap C P) : Prop :=
  ∀ i ∈ h.live, ∀ j ∈ h.live, (h.pl i).l = (h.pl j).l → i = j

end values

section counting
variable {C P : Type*} {h h' : Heap C P}

def holdsGeom (pl : EdgePayload C) : Multiset ℕ := {pl.l}

def holdsLines (pl : EdgePayload C) : Multiset ℕ := pl.lines

def Heap.heldGeoms (h : Heap C P) : Multiset ℕ := held h.live (holdsGeom ∘ h.pl)

def Heap.heldLines (h : Heap C P) : Multiset ℕ := held h.live (holdsLines ∘ h.pl)

def waiting (ts : Finset ℕ) : Op C P → Finset ℕ
  | .newLine t _ => insert t ts
  | .addLine _ t => ts.erase t
  | _ => ts

structure Sound (h : Heap C P) (ts : Finset ℕ) : Prop where
  geoms : Safe h.geoms h.heldGeoms
  lines : Safe h.tlns h.heldLines
  owned : ∀ l, (h.geoms.obj l).isSome → l ∈ h.heldGeoms
  made : ∀ t, (h.tlns.obj t).isSome → t ∈ h.heldLines ∨ t ∈ ts
  waiting : ∀ t ∈ ts, (h.tlns.obj t).isSome ∧ t ∉ h.heldLines
  nodup : ∀ i ∈ h.live, (h.pl i).lines.Nodup

variable {ts : Finset ℕ} {this src l t : ℕ} {pl : EdgePayload C}

theorem heldGeoms_place (hthis : this ∉ h.live) :
    (h.place this pl).heldGeoms = pl.l ::ₘ h.heldGeoms := by
  rw [Heap.heldGeoms, Heap.place, Function.comp_update, held_insert hthis]
  rfl

theorem heldLines_place (hthis : this ∉ h.live) :
    (h.place this pl).heldLines = pl.lines + h.heldLines := by
  rw [Heap.heldLines, Heap.place, Function.comp_update, held_insert hthis]
  rfl

theorem mem_heldGeoms : l ∈ h.heldGeoms ↔ ∃ i ∈ h.live, (h.pl i).l = l := by
  rw [Heap.heldGeoms, mem_held]
  simp [holdsGeom, eq_comm]

theorem mem_heldLines : t ∈ h.heldLines ↔ ∃ i ∈ h.live, t ∈ (h.pl i).lines := by
  rw [Heap.heldLines, mem_held]
  rfl

theorem foldl_addLine {this : ℕ} {ks : List ℕ} (hnodup : ks.Nodup)
    (hnew : ∀ t ∈ ks, t ∉ (h.pl this).lines) :
    ks.foldl (Heap.addLine this) h =
      { h.setLines this ((h.pl this).lines ++ ks) with tlns := h.tlns.refs ks } := by
  induction ks generalizing h with
  | nil => simp [Heap.setLines, Store.refs]
  | cons t ks ih =>
    obtain ⟨ht, hks⟩ := List.nodup_cons.1 hnodup
    rw [List.foldl_cons, Heap.addLine, if_neg (hnew t List.mem_cons_self), ih hks]
    · simp [Heap.setLines, Store.refs]
    · intro t' ht'
      have hold := hnew t' (List.mem_cons_of_mem t ht')
      have hne : t' ≠ t := fun heq => ht (heq ▸ ht')
      simp [Heap.setLines, hold, hne]

theorem Sound.place (hs : Sound h ts) (hthis : this ∉ h.live) {geoms : Store ℕ (List P)}
    {tlns : Store ℕ TransitEdgeLine} (hgeoms : Safe geoms (pl.l ::ₘ h.heldGeoms))
    (howned : ∀ l, (geoms.obj l).isSome → l = pl.l ∨ (h.geoms.obj l).isSome)
    (htlns : Safe tlns (pl.lines + h.heldLines)) (hsame : tlns.obj = h.tlns.obj)
    (hwaiting : ∀ t ∈ pl.lines, t ∈ h.heldLines) (hnodup : pl.lines.Nodup) :
    Sound { h.place this pl with geoms := geoms, tlns := tlns } ts where
  geoms := by
    change Safe geoms (h.place this pl).heldGeoms
    rwa [heldGeoms_place hthis]
  lines := by
    change Safe tlns (h.place this pl).heldLines
    rwa [heldLines_place hthis]
  owned l hl := by
    change l ∈ (h.place this pl).heldGeoms
    rw [heldGeoms_place hthis, Multiset.mem_cons]
    exact (howned l hl).imp_right (hs.owned l)
  made t ht := by
    change t ∈ (h.place this pl).heldLines ∨ t ∈ ts
    rw [heldLines_place hthis, Multiset.mem_add]
    exact (hs.made t (hsame ▸ ht)).imp_left Or.inr
  waiting t ht := by
    change (tlns.obj t).isSome ∧ t ∉ (h.place this pl).heldLines
    obtain ⟨halive, hfree⟩ := hs.waiting t ht
    rw [heldLines_place hthis, Multiset.mem_add, hsame]
    exact ⟨halive, fun hmem => hmem.elim (fun hpl => hfree (hwaiting t hpl)) hfree⟩
  nodup i hi := by
    change (Function.update h.pl this pl i).lines.Nodup
    rcases Finset.mem_insert.1 hi with rfl | hi
    · rwa [Function.update_self]
    · rw [Function.update_of_ne (ne_of_mem_of_not_mem hi hthis)]
      exact hs.nodup i hi

theorem copy_eq (hs : Sound h ts) (hsrc : src ∈ h.live) (this l : ℕ) :
    ∃ geom, h.geoms.obj (h.pl src).l = some geom ∧ h.copy this src l = some
      { h.place this ⟨(h.pl src).fields, l, (h.pl src).lines⟩ with
        geoms := (h.geoms.put l geom).ref l, tlns := h.tlns.refs (h.pl src).lines } := by
  obtain ⟨geom, hgeom⟩ := Option.isSome_iff_exists.1
    (hs.geoms.alive _ (mem_heldGeoms.2 ⟨src, hsrc, rfl⟩))
  refine ⟨geom, hgeom, ?_⟩
  rw [Heap.copy, hgeom, Option.map_some, foldl_addLine (hs.nodup src hsrc)]
  · simp [Heap.place, Heap.setLines]
  · simp [Heap.place]

theorem flatCopy_eq (hs : Sound h ts) (hsrc : src ∈ h.live) (this : ℕ) :
    h.flatCopy this src =
      { h.place this (h.pl src) with
        geoms := h.geoms.ref (h.pl src).l, tlns := h.tlns.refs (h.pl src).lines } := by
  rw [Heap.flatCopy, foldl_addLine (hs.nodup src hsrc)]
  · simp [Heap.place, Heap.setLines]
  · simp [Heap.place]

theorem Sound.ctor [Zero C] [OfNat C 50] (hs : Sound h ts) (hthis : this ∉ h.live)
    (hl : h.geoms.obj l = none) : Sound (h.ctor this l) ts := by
  have hlines : Safe h.tlns ((([] : List ℕ) : Multiset ℕ) + h.heldLines) := by
    simpa using hs.lines
  refine hs.place hthis (hs.geoms.start hl []) ?_ hlines rfl ?_ List.nodup_nil
  · intro k hk
    rw [Store.setCount_obj, Store.put_obj] at hk
    split at hk
    · exact Or.inl ‹_›
    · exact Or.inr hk
  · simp

theorem Sound.copy (hs : Sound h ts) (hthis : this ∉ h.live) (hsrc : src ∈ h.live) (l : ℕ) :
    ∃ h', h.copy this src l = some h' ∧ Sound h' ts := by
  obtain ⟨geom, -, hcopy⟩ := copy_eq hs hsrc this l
  have halive : ∀ t ∈ (h.pl src).lines, t ∈ h.heldLines := fun t ht =>
    mem_heldLines.2 ⟨src, hsrc, ht⟩
  have htlns := hs.lines.refs fun t ht => hs.lines.alive t (halive t ht)
  have hnew : ((h.geoms.put l geom).obj l).isSome := by simp [Store.put_obj]
  refine ⟨_, hcopy, hs.place hthis ((hs.geoms.put l geom).ref hnew) ?_ htlns (Store.refs_obj _ _) halive
    (hs.nodup src hsrc)⟩
  intro k hk
  rw [Store.ref_obj, Store.put_obj] at hk
  split at hk
  · exact Or.inl ‹_›
  · exact Or.inr hk

theorem Sound.flatCopy (hs : Sound h ts) (hthis : this ∉ h.live) (hsrc : src ∈ h.live) :
    Sound (h.flatCopy this src) ts := by
  have halive : ∀ t ∈ (h.pl src).lines, t ∈ h.heldLines := fun t ht =>
    mem_heldLines.2 ⟨src, hsrc, ht⟩
  have htlns := hs.lines.refs fun t ht => hs.lines.alive t (halive t ht)
  have hgeom := hs.geoms.alive _ (mem_heldGeoms.2 ⟨src, hsrc, rfl⟩)
  rw [flatCopy_eq hs hsrc this]
  exact hs.place hthis (hs.geoms.ref hgeom) (fun _ => Or.inr) htlns (Store.refs_obj _ _) halive
    (hs.nodup src hsrc)

theorem setFields_pointers (h : Heap C P) (this : ℕ) (f : Fields C → Fields C) (i : ℕ) :
    ((h.setFields this f).pl i).l = (h.pl i).l ∧
      ((h.setFields this f).pl i).lines = (h.pl i).lines := by
  by_cases hi : i = this <;> simp [Heap.setFields, hi]

theorem Sound.setFields (hs : Sound h ts) (this : ℕ) (f : Fields C → Fields C) :
    Sound (h.setFields this f) ts := by
  have hgeoms : (h.setFields this f).heldGeoms = h.heldGeoms :=
    Finset.sum_congr rfl fun i _ => congrArg (fun l => ({l} : Multiset ℕ))
      (setFields_pointers h this f i).1
  have hlines : (h.setFields this f).heldLines = h.heldLines :=
    Finset.sum_congr rfl fun i _ => congrArg (fun ls : List ℕ => (ls : Multiset ℕ))
      (setFields_pointers h this f i).2
  refine ⟨?_, ?_, ?_, ?_, ?_, fun i hi => ?_⟩
  · rw [hgeoms]
    exact hs.geoms
  · rw [hlines]
    exact hs.lines
  · rw [hgeoms]
    exact hs.owned
  · rw [hlines]
    exact hs.made
  · rw [hlines]
    exact hs.waiting
  · rw [(setFields_pointers h this f i).2]
    exact hs.nodup i hi

theorem Sound.editGeom (hs : Sound h ts) (hthis : this ∈ h.live) (f : List P → List P) :
    ∃ h', h.editGeom this f = some h' ∧ Sound h' ts := by
  have hheld : (h.pl this).l ∈ h.heldGeoms := mem_heldGeoms.2 ⟨this, hthis, rfl⟩
  obtain ⟨geom, hgeom⟩ := Option.isSome_iff_exists.1 (hs.geoms.alive _ hheld)
  refine ⟨_, congrArg (Option.map _) hgeom,
    ⟨hs.geoms.put _ _, hs.lines, fun l hl => ?_, hs.made, hs.waiting, hs.nodup⟩⟩
  change ((h.geoms.put _ _).obj l).isSome at hl
  rw [Store.put_obj] at hl
  split at hl
  · rename_i heq
    exact heq ▸ hheld
  · exact hs.owned l hl

theorem Sound.newLine (hs : Sound h ts) (ht : h.tlns.obj t = none) (el : TransitEdgeLine) :
    Sound { h with tlns := h.tlns.put t el } (insert t ts) where
  geoms := hs.geoms
  lines := hs.lines.put t el
  owned := hs.owned
  made t' ht' := by
    change ((h.tlns.put t el).obj t').isSome at ht'
    rw [Store.put_obj] at ht'
    split at ht'
    · rename_i heq
      exact Or.inr (heq ▸ Finset.mem_insert_self _ _)
    · exact (hs.made t' ht').imp_right Finset.mem_insert_of_mem
  waiting t' ht' := by
    change ((h.tlns.put t el).obj t').isSome ∧ t' ∉ h.heldLines
    rw [Store.put_obj]
    split
    · rename_i heq
      refine ⟨rfl, fun hmem => ?_⟩
      have halive := hs.lines.alive t' hmem
      rw [heq, ht] at halive
      cases halive
    · rename_i hne
      exact hs.waiting t' ((Finset.mem_insert.1 ht').resolve_left hne)
  nodup := hs.nodup

theorem heldGeoms_setLines (h : Heap C P) (this : ℕ) (lines : List ℕ) :
    (h.setLines this lines).heldGeoms = h.heldGeoms := by
  refine Finset.sum_congr rfl fun i _ => ?_
  by_cases hi : i = this <;> simp [Heap.setLines, holdsGeom, hi]

theorem heldLines_append (hthis : this ∈ h.live) (t : ℕ) :
    (h.setLines this ((h.pl this).lines ++ [t])).heldLines = t ::ₘ h.heldLines := by
  have hadd : holdsLines ⟨(h.pl this).fields, (h.pl this).l, (h.pl this).lines ++ [t]⟩ =
      {t} + (holdsLines ∘ h.pl) this := by
    rw [Multiset.singleton_add]
    exact Multiset.coe_eq_coe.2 (List.perm_append_singleton t _)
  rw [Heap.heldLines, Heap.setLines, Function.comp_update, hadd, held_update hthis]
  exact Multiset.singleton_add t _

theorem Sound.addLine (hs : Sound h ts) (hthis : this ∈ h.live) (ht : (h.tlns.obj t).isSome) :
    Sound (h.addLine this t) (ts.erase t) := by
  rw [Heap.addLine]
  split
  · rename_i hmem
    have hheld : t ∈ h.heldLines := mem_heldLines.2 ⟨this, hthis, hmem⟩
    have hnot : t ∉ ts := fun hwait => (hs.waiting t hwait).2 hheld
    rwa [Finset.erase_eq_of_notMem hnot]
  · rename_i hmem
    have hgeoms := heldGeoms_setLines h this ((h.pl this).lines ++ [t])
    have hlines := heldLines_append hthis t
    refine ⟨?_, ?_, ?_, fun t' ht' => ?_, fun t' ht' => ?_, fun i hi => ?_⟩
    · change Safe h.geoms (h.setLines this _).heldGeoms
      rw [hgeoms]
      exact hs.geoms
    · change Safe (h.tlns.ref t) (h.setLines this _).heldLines
      rw [hlines]
      exact hs.lines.ref ht
    · change ∀ l, (h.geoms.obj l).isSome → l ∈ (h.setLines this _).heldGeoms
      rw [hgeoms]
      exact hs.owned
    · change t' ∈ (h.setLines this _).heldLines ∨ t' ∈ ts.erase t
      rw [hlines, Multiset.mem_cons, Finset.mem_erase]
      by_cases heq : t' = t
      · exact Or.inl (Or.inl heq)
      · exact (hs.made t' ht').imp Or.inr fun hwait => ⟨heq, hwait⟩
    · change (h.tlns.obj t').isSome ∧ t' ∉ (h.setLines this _).heldLines
      obtain ⟨hne, hwait⟩ := Finset.mem_erase.1 ht'
      obtain ⟨halive, hfree⟩ := hs.waiting t' hwait
      rw [hlines, Multiset.mem_cons, not_or]
      exact ⟨halive, hne, hfree⟩
    · change ((h.setLines this _).pl i).lines.Nodup
      by_cases heq : i = this
      · simp [Heap.setLines, heq, List.nodup_append, hs.nodup this hthis]
        rintro a ha rfl
        exact hmem ha
      · simp [Heap.setLines, heq, hs.nodup i hi]

theorem heldGeoms_erase (hthis : this ∈ h.live) :
    held (h.live.erase this) (holdsGeom ∘ h.pl) = h.heldGeoms.erase (h.pl this).l := by
  rw [Heap.heldGeoms, ← held_erase hthis]
  exact (Multiset.erase_cons_head _ _).symm

theorem heldLines_erase (hthis : this ∈ h.live) :
    held (h.live.erase this) (holdsLines ∘ h.pl) = h.heldLines - (h.pl this).lines := by
  rw [Heap.heldLines, ← held_erase hthis]
  exact (add_tsub_cancel_left _ _).symm

theorem dtor_eq (hs : Sound h ts) (hthis : this ∈ h.live) :
    ∃ geoms tlns, h.dtor this =
        some { h with live := h.live.erase this, geoms := geoms, tlns := tlns } ∧
      Safe geoms (held (h.live.erase this) (holdsGeom ∘ h.pl)) ∧
      Safe tlns (held (h.live.erase this) (holdsLines ∘ h.pl)) ∧
      geoms.obj = dropped h.geoms h.heldGeoms (held (h.live.erase this) (holdsGeom ∘ h.pl)) ∧
      tlns.obj = dropped h.tlns h.heldLines (held (h.live.erase this) (holdsLines ∘ h.pl)) := by
  have hl : (h.pl this).l ∈ h.heldGeoms := mem_heldGeoms.2 ⟨this, hthis, rfl⟩
  have hle : ((h.pl this).lines : Multiset ℕ) ≤ h.heldLines := by
    rw [Heap.heldLines, ← held_erase hthis]
    exact Multiset.le_add_right _ _
  obtain ⟨geoms, hunref, hgeoms, hgobj⟩ := hs.geoms.unref hl false
  obtain ⟨tlns, hunrefs, hlines, htobj⟩ := hs.lines.unrefs hle true
  rw [heldGeoms_erase hthis, heldLines_erase hthis]
  refine ⟨geoms, tlns, ?_, hgeoms, hlines, hgobj, htobj⟩
  rw [Heap.dtor, hunref, Option.bind_some, hunrefs]
  rfl

theorem Sound.dtor (hs : Sound h ts) (hthis : this ∈ h.live) :
    ∃ h', h.dtor this = some h' ∧ Sound h' ts := by
  obtain ⟨geoms, tlns, hdtor, hgeoms, hlines, hgobj, htobj⟩ := dtor_eq hs hthis
  have hless : held (h.live.erase this) (holdsLines ∘ h.pl) ≤ h.heldLines := by
    rw [Heap.heldLines, ← held_erase hthis]
    exact Multiset.le_add_left _ _
  refine ⟨_, hdtor, hgeoms, hlines, fun l hl => ?_, fun t ht => ?_, fun t ht => ?_, fun i hi => ?_⟩
  · obtain ⟨halive, hkept⟩ := (dropped_isSome _ _ _ l).1 (hgobj ▸ hl)
    exact hkept (hs.owned l halive)
  · obtain ⟨halive, hkept⟩ := (dropped_isSome _ _ _ t).1 (htobj ▸ ht)
    exact (hs.made t halive).imp_left hkept
  · obtain ⟨halive, hfree⟩ := hs.waiting t ht
    have hfree' : t ∉ held (h.live.erase this) (holdsLines ∘ h.pl) := fun hmem =>
      hfree (Multiset.mem_of_le hless hmem)
    refine ⟨?_, hfree'⟩
    change (tlns.obj t).isSome
    rw [htobj, dropped_isSome]
    exact ⟨halive, fun hheld => absurd hheld hfree⟩
  · exact hs.nodup i (Finset.mem_of_mem_erase hi)

/-- No use of freed memory, and the counts are right afterwards. -/
theorem Sound.step [Zero C] [OfNat C 50] (hs : Sound h ts) {op : Op C P} (hop : h.Allows op) :
    ∃ h', h.step op = some h' ∧ Sound h' (PayloadMemory.waiting ts op) := by
  cases op with
  | ctor this l => exact ⟨_, rfl, hs.ctor hop.1 hop.2⟩
  | copy this src l => exact hs.copy hop.1 hop.2.1 l
  | flatCopy this src => exact ⟨_, rfl, hs.flatCopy hop.1 hop.2⟩
  | addLine this t => exact ⟨_, rfl, hs.addLine hop.1 hop.2⟩
  | editGeom this f => exact hs.editGeom hop f
  | setFields this f => exact ⟨_, rfl, hs.setFields this f⟩
  | dtor this => exact hs.dtor hop
  | newLine t el => exact ⟨_, rfl, hs.newLine hop el⟩

end counting

section showing
variable {C P : Type*} {h h' : Heap C P} {vs : Values C P} {ts : Finset ℕ} {this : ℕ}

/-- What the payloads other than `this` lead to is as before. -/
def Frame (h h' : Heap C P) (this : ℕ) : Prop :=
  ∀ i ∈ h.live, i ≠ this → h'.pl i = h.pl i ∧
    h'.geoms.obj (h.pl i).l = h.geoms.obj (h.pl i).l ∧
    ∀ t ∈ (h.pl i).lines, h'.tlns.obj t = h.tlns.obj t

theorem Shows.set (hv : Shows h vs) (hlive : ∀ i, i ≠ this → (i ∈ h'.live ↔ i ∈ h.live))
    (hframe : Frame h h' this) (htlns : ∀ t el, h'.tlns.obj t = some el → h.tlns.obj t = some el)
    {v : Option (Value C P)} (hthis : this ∈ h'.live → ∃ w, v = some w ∧ Reads h' this w)
    (hdead : this ∉ h'.live → v = none) : Shows h' (vs.set this v) where
  live i hi := by
    by_cases heq : i = this
    · subst heq
      simpa [Values.set] using hthis hi
    · have hi := (hlive i heq).1 hi
      obtain ⟨w, hw, hreads⟩ := hv.live i hi
      obtain ⟨hpl, hgeom, hlines⟩ := hframe i hi heq
      refine ⟨w, by simpa [Values.set, heq] using hw, ?_, ?_, ?_, fun tl htl => ?_⟩
      · rw [hpl, hreads.fields]
      · rw [hpl, hgeom, hreads.geom]
      · rw [hpl, hreads.addresses]
      · have hmem : tl.1 ∈ (h.pl i).lines := hreads.addresses ▸ List.mem_map_of_mem htl
        rw [hlines tl.1 hmem, hreads.lines tl htl]
  dead i hi := by
    by_cases heq : i = this
    · subst heq
      simpa [Values.set] using hdead hi
    · simpa [Values.set, heq] using hv.dead i (mt (hlive i heq).2 hi)
  tlns t el ht := hv.tlns t el (htlns t el ht)

theorem Shows.place (hv : Shows h vs) (hs : Sound h ts) {pl : EdgePayload C} {geom : List P}
    {geoms : Store ℕ (List P)} {tlns : Store ℕ TransitEdgeLine} {w : Value C P}
    (hl : h.geoms.obj pl.l = none)
    (hgeoms : ∀ l, geoms.obj l = if l = pl.l then some geom else h.geoms.obj l)
    (htlns : tlns.obj = h.tlns.obj) (hfields : pl.fields = w.fields) (hgeom : w.geom = geom)
    (haddresses : pl.lines = w.lines.map Prod.fst)
    (hlines : ∀ tl ∈ w.lines, h.tlns.obj tl.1 = some tl.2) :
    Shows { h.place this pl with geoms := geoms, tlns := tlns } (vs.set this (some w)) := by
  have hmem : this ∈ insert this h.live := Finset.mem_insert_self _ _
  refine hv.set (fun i hi => ?_) (fun i hi hne => ⟨?_, ?_, fun t _ => ?_⟩) ?_ (fun _ => ?_)
    fun hnot => absurd hmem hnot
  · simp [Heap.place, hi]
  · simp [Heap.place, hne]
  · change geoms.obj _ = _
    rw [hgeoms, if_neg]
    intro heq
    have halive := hs.geoms.alive _ (mem_heldGeoms.2 ⟨i, hi, heq⟩)
    rw [hl] at halive
    cases halive
  · exact congrFun htlns t
  · intro t el ht
    exact (congrFun htlns t).symm.trans ht
  · refine ⟨w, rfl, ?_, ?_, ?_, fun tl htl => ?_⟩
    · simpa [Heap.place] using hfields
    · simp [Heap.place, hgeoms, hgeom]
    · simpa [Heap.place] using haddresses
    · exact (congrFun htlns tl.1).trans (hlines tl htl)

theorem Unshared.place (hu : Unshared h) (hs : Sound h ts) {pl : EdgePayload C}
    {geoms : Store ℕ (List P)} {tlns : Store ℕ TransitEdgeLine} (hthis : this ∉ h.live)
    (hl : h.geoms.obj pl.l = none) :
    Unshared { h.place this pl with geoms := geoms, tlns := tlns } := by
  have hnew : ∀ i ∈ h.live, (h.pl i).l ≠ pl.l := by
    intro i hi heq
    have halive := hs.geoms.alive _ (mem_heldGeoms.2 ⟨i, hi, heq⟩)
    rw [hl] at halive
    cases halive
  have hne : ∀ i ∈ h.live, i ≠ this := fun i hi => ne_of_mem_of_not_mem hi hthis
  intro i hi j hj heq
  change (Function.update h.pl this pl i).l = (Function.update h.pl this pl j).l at heq
  cases Finset.mem_insert.1 hi with
  | inl hi' =>
    cases Finset.mem_insert.1 hj with
    | inl hj' => rw [hi', hj']
    | inr hj' =>
      rw [hi', Function.update_self, Function.update_of_ne (hne j hj')] at heq
      exact absurd heq.symm (hnew j hj')
  | inr hi' =>
    cases Finset.mem_insert.1 hj with
    | inl hj' =>
      rw [hj', Function.update_self, Function.update_of_ne (hne i hi')] at heq
      exact absurd heq (hnew i hi')
    | inr hj' =>
      rw [Function.update_of_ne (hne i hi'), Function.update_of_ne (hne j hj')] at heq
      exact hu i hi' j hj' heq

theorem Unshared.same (hu : Unshared h) (hlive : h'.live ⊆ h.live)
    (hl : ∀ i, (h'.pl i).l = (h.pl i).l) : Unshared h' := by
  intro i hi j hj heq
  rw [hl, hl] at heq
  exact hu i (hlive hi) j (hlive hj) heq

variable [Zero C] [OfNat C 50]

theorem Shows.addLine (hv : Shows h vs) (hthis : this ∈ h.live) {t : ℕ}
    (ht : (h.tlns.obj t).isSome) : Shows (h.addLine this t) (vs.step (.addLine this t)) := by
  obtain ⟨el, hel⟩ := Option.isSome_iff_exists.1 ht
  obtain ⟨v, hv', hreads⟩ := hv.live this hthis
  rw [Values.step, hv.tlns t el hel, Option.elim_some, Values.change, hv', Option.map_some,
    Heap.addLine, Value.addLine, ← hreads.addresses]
  split
  · have hsame : vs.set this (some v) = vs := by
      rw [Values.set, ← hv', Function.update_eq_self]
    rwa [hsame]
  · apply hv.set
    · exact fun i _ => Iff.rfl
    · exact fun i _ hne => ⟨by simp [Heap.setLines, hne], rfl, fun _ _ => rfl⟩
    · exact fun _ _ => id
    · refine fun _ => ⟨_, rfl, ?_, ?_, ?_, fun tl htl => ?_⟩
      · simpa [Heap.setLines] using hreads.fields
      · simpa [Heap.setLines] using hreads.geom
      · simp [Heap.setLines, hreads.addresses]
      · cases List.mem_append.1 htl with
        | inl hold => exact hreads.lines tl hold
        | inr hnew =>
          rw [List.mem_singleton.1 hnew]
          exact hel
    · exact fun hnot => absurd hthis hnot

theorem Shows.editGeom (hv : Shows h vs) (hu : Unshared h) (hthis : this ∈ h.live)
    (f : List P → List P) (hstep : h.editGeom this f = some h') :
    Shows h' (vs.step (.editGeom this f)) := by
  obtain ⟨v, hv', hreads⟩ := hv.live this hthis
  rw [Heap.editGeom, hreads.geom, Option.map_some, Option.some_inj] at hstep
  subst hstep
  rw [Values.step, Values.change, hv', Option.map_some]
  apply hv.set
  · exact fun i _ => Iff.rfl
  · refine fun i hi hne => ⟨rfl, ?_, fun _ _ => rfl⟩
    exact (Store.put_obj _ _ _ _).trans (if_neg fun heq => hne (hu i hi this hthis heq))
  · exact fun _ _ => id
  · refine fun _ => ⟨_, rfl, hreads.fields, ?_, hreads.addresses, hreads.lines⟩
    exact (Store.put_obj _ _ _ _).trans (if_pos rfl)
  · exact fun hnot => absurd hthis hnot

theorem Shows.setFields (hv : Shows h vs) (hthis : this ∈ h.live) (f : Fields C → Fields C) :
    Shows (h.setFields this f) (vs.step (.setFields this f)) := by
  obtain ⟨v, hv', hreads⟩ := hv.live this hthis
  rw [Values.step, Values.change, hv', Option.map_some]
  apply hv.set
  · exact fun i _ => Iff.rfl
  · exact fun i _ hne => ⟨by simp [Heap.setFields, hne], rfl, fun _ _ => rfl⟩
  · exact fun _ _ => id
  · refine fun _ => ⟨_, rfl, ?_, ?_, ?_, hreads.lines⟩
    · simp [Heap.setFields, hreads.fields]
    · simpa [Heap.setFields] using hreads.geom
    · simpa [Heap.setFields] using hreads.addresses
  · exact fun hnot => absurd hthis hnot

theorem Shows.dtor (hv : Shows h vs) (hs : Sound h ts) (hthis : this ∈ h.live)
    (hstep : h.dtor this = some h') : Shows h' (vs.step (.dtor this)) ∧ h'.live ⊆ h.live ∧
      h'.pl = h.pl := by
  obtain ⟨geoms, tlns, hdtor, -, -, hgobj, htobj⟩ := dtor_eq hs hthis
  rw [hdtor, Option.some_inj] at hstep
  subst hstep
  refine ⟨?_, Finset.erase_subset _ _, rfl⟩
  apply hv.set
  · exact fun i hne => by simp [hne]
  · refine fun i hi hne => ⟨rfl, ?_, fun t ht => ?_⟩
    · have hkept : (h.pl i).l ∈ held (h.live.erase this) (holdsGeom ∘ h.pl) :=
        mem_held.2 ⟨i, Finset.mem_erase.2 ⟨hne, hi⟩, Multiset.mem_singleton_self _⟩
      exact (congrFun hgobj _).trans (dropped_of_mem _ _ hkept)
    · have hkept : t ∈ held (h.live.erase this) (holdsLines ∘ h.pl) :=
        mem_held.2 ⟨i, Finset.mem_erase.2 ⟨hne, hi⟩, ht⟩
      exact (congrFun htobj _).trans (dropped_of_mem _ _ hkept)
  · intro t el ht
    have hold : dropped h.tlns h.heldLines _ t = some el := htobj ▸ ht
    rw [dropped] at hold
    split at hold
    · cases hold
    · exact hold
  · exact fun hmem => absurd rfl (Finset.ne_of_mem_erase hmem)
  · exact fun _ => rfl

/-- Without flat copies, what is done to the payloads is done to the values. -/
theorem Shows.step (hv : Shows h vs) (hs : Sound h ts) (hu : Unshared h) {op : Op C P}
    (hop : h.Allows op) (hflat : op.isFlat = false) (hstep : h.step op = some h') :
    Shows h' (vs.step op) ∧ Unshared h' := by
  cases op with
  | ctor this l =>
    cases hstep
    refine ⟨hv.place hs hop.2 ?_ rfl rfl rfl rfl fun _ htl => absurd htl List.not_mem_nil,
      hu.place hs hop.1 hop.2⟩
    exact Store.put_obj _ _ _
  | copy this src l =>
    obtain ⟨hthis, hsrc, hl⟩ := hop
    obtain ⟨geom, hgeom, hcopy⟩ := copy_eq hs hsrc this l
    obtain ⟨v, hv', hreads⟩ := hv.live src hsrc
    have hsame : v.geom = geom := Option.some.inj (hreads.geom.symm.trans hgeom)
    have hstep' : h.copy this src l = some h' := hstep
    rw [hcopy, Option.some_inj] at hstep'
    subst hstep'
    rw [Values.step, hv']
    exact ⟨hv.place hs hl (Store.put_obj _ _ _) (Store.refs_obj _ _) hreads.fields hsame
      hreads.addresses hreads.lines, hu.place hs hthis hl⟩
  | flatCopy this src => cases hflat
  | addLine this t =>
    cases hstep
    refine ⟨hv.addLine hop.1 hop.2, hu.same ?_ fun i => ?_⟩
    · rw [Heap.addLine]
      split <;> exact Finset.Subset.refl _
    · rw [Heap.addLine]
      split
      · rfl
      · by_cases hi : i = this <;> simp [Heap.setLines, hi]
  | editGeom this f =>
    refine ⟨hv.editGeom hu hop f hstep, ?_⟩
    obtain ⟨geom, -, heq⟩ := Option.map_eq_some_iff.1 hstep
    subst heq
    exact hu
  | setFields this f =>
    cases hstep
    exact ⟨hv.setFields hop f, hu.same (Finset.Subset.refl _) fun i =>
      (setFields_pointers h this f i).1⟩
  | dtor this =>
    obtain ⟨hshows, hlive, hpl⟩ := hv.dtor hs hop hstep
    exact ⟨hshows, hu.same hlive fun i => by rw [hpl]⟩
  | newLine t el =>
    cases hstep
    refine ⟨⟨fun i hi => ?_, hv.dead, fun t' el' ht' => ?_⟩, hu⟩
    · obtain ⟨v, hv', hreads⟩ := hv.live i hi
      refine ⟨v, hv', hreads.fields, hreads.geom, hreads.addresses, fun tl htl => ?_⟩
      have hne : tl.1 ≠ t := by
        intro heq
        have halive := hreads.lines tl htl
        rw [heq, hop] at halive
        cases halive
      exact (Store.put_obj _ _ _ _).trans ((if_neg hne).trans (hreads.lines tl htl))
    · have ht : (h.tlns.put t el).obj t' = some el' := ht'
      rw [Store.put_obj] at ht
      change Function.update vs.tlns t (some el) t' = some el'
      rw [Function.update_apply]
      split
      · rwa [if_pos ‹_›] at ht
      · rw [if_neg ‹_›] at ht
        exact hv.tlns t' el' ht

theorem run_step (vs : Values C P) (hs : Sound h ts) {ops : List (Op C P)}
    (hops : h.AllowsAll ops) :
    ∃ h', h.run ops = some h' ∧ Sound h' (ops.foldl waiting ts) ∧
      (Shows h vs → Unshared h → (∀ op ∈ ops, op.isFlat = false) → Shows h' (vs.run ops)) := by
  induction ops generalizing h ts vs with
  | nil => exact ⟨h, rfl, hs, fun hv _ _ => hv⟩
  | cons op ops ih =>
    obtain ⟨hop, hrest⟩ := hops
    obtain ⟨h₁, hstep, hs₁⟩ := hs.step hop
    rw [hstep] at hrest
    obtain ⟨h', hrun, hs', hshows⟩ := ih (vs.step op) hs₁ hrest
    refine ⟨h', ?_, hs', fun hv hu hflat => ?_⟩
    · rw [Heap.run, List.foldlM_cons, hstep]
      exact hrun
    · obtain ⟨hv₁, hu₁⟩ := hv.step hs hu hop (hflat op List.mem_cons_self) hstep
      exact hshows hv₁ hu₁ fun op' hop' => hflat op' (List.mem_cons_of_mem op hop')

omit [Zero C] [OfNat C 50] in
theorem sound_start (pl : EdgePayload C) : Sound (Heap.start pl : Heap C P) ∅ where
  geoms := safe_empty
  lines := safe_empty
  owned _ hl := nomatch hl
  made _ ht := nomatch ht
  waiting _ ht := absurd ht (Finset.notMem_empty _)
  nodup _ hi := absurd hi (Finset.notMem_empty _)

/-- Whatever is done to payloads, in any order, no freed memory is used and nothing is deleted
twice. A geometry and a line are there as long as some payload points to them. Where no flat copies
are made, the payloads are values. -/
theorem payloads_counted (pl : EdgePayload C) (ops : List (Op C P))
    (hops : (Heap.start pl).AllowsAll ops) :
    ∃ h, (Heap.start pl).run ops = some h ∧
      (∀ l, h.geoms.count l = (h.live.filter fun i => (h.pl i).l = l).card ∧
        ((h.geoms.obj l).isSome ↔ ∃ i ∈ h.live, (h.pl i).l = l)) ∧
      (∀ t, h.tlns.count t = (h.live.filter fun i => t ∈ (h.pl i).lines).card ∧
        ((h.tlns.obj t).isSome ↔
          (∃ i ∈ h.live, t ∈ (h.pl i).lines) ∨ t ∈ ops.foldl waiting ∅)) ∧
      ((∀ op ∈ ops, op.isFlat = false) → Shows h (Values.start.run ops)) := by
  obtain ⟨h, hrun, hs, hshows⟩ := run_step .start (sound_start pl) hops
  refine ⟨h, hrun, fun l => ⟨?_, ?_⟩, fun t => ⟨?_, ?_⟩, ?_⟩
  · have honce : ∀ i ∈ h.live, ((holdsGeom ∘ h.pl) i).Nodup := fun i _ => Multiset.nodup_singleton _
    rw [hs.geoms.count, Heap.heldGeoms, count_held honce]
    simp [holdsGeom, eq_comm]
  · rw [← mem_heldGeoms]
    exact ⟨hs.owned l, hs.geoms.alive l⟩
  · have honce : ∀ i ∈ h.live, ((holdsLines ∘ h.pl) i).Nodup := hs.nodup
    rw [hs.lines.count, Heap.heldLines, count_held honce]
    rfl
  · rw [← mem_heldLines]
    exact ⟨hs.made t, fun ht => ht.elim (hs.lines.alive t) fun hwait => (hs.waiting t hwait).1⟩
  · apply hshows
    · exact ⟨fun _ hi => absurd hi (Finset.notMem_empty _), fun _ _ => rfl, fun _ _ ht => nomatch ht⟩
    · exact fun _ hi => absurd hi (Finset.notMem_empty _)

/-- A copy is drawn on after the first payload has gone. -/
theorem payloads_counted_copy :
    let ops : List (Op ℕ ℕ) := [.newLine 5 ⟨[], [], []⟩, .ctor 0 10, .addLine 0 5, .copy 1 0 11,
      .dtor 0, .editGeom 1 (· ++ [3])]
    ∃ h, (Heap.start ⟨defaultFields, 0, []⟩).run ops = some h ∧ h.tlns.count 5 = 1 ∧
      h.geoms.obj 10 = none ∧ ∃ v, (Values.start.run ops).pls 1 = some v ∧ Reads h 1 v := by
  intro ops
  obtain ⟨h, hrun, hgeoms, hlines, hshows⟩ :=
    payloads_counted ⟨defaultFields, 0, []⟩ ops (by decide)
  have hend : ((Heap.start ⟨defaultFields, 0, []⟩).run ops).get rfl = h :=
    Option.get_of_eq_some _ hrun
  have hlive : h.live = {1} ∧ (h.pl 1).l = 11 ∧ (h.pl 1).lines = [5] := by
    rw [← hend]
    decide
  obtain ⟨honly, hl, hls⟩ := hlive
  refine ⟨h, hrun, ?_, ?_, (hshows (by decide)).live 1 (by simp [honly])⟩
  · rw [(hlines 5).1, honly]
    simp [Finset.filter_singleton, hls]
  · have hgone := (hgeoms 10).2
    simpa [honly, hl] using hgone

end showing

end Pfaedle.PayloadMemory

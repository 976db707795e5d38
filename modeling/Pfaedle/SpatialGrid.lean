import Pfaedle.BoundingBox
import Mathlib.Algebra.Order.Floor.Semiring
import Mathlib.Algebra.Order.Archimedean.Basic
import Mathlib.Data.Finset.Lattice.Basic
import Mathlib.Data.Finset.Prod
import Mathlib.Data.Rat.Floor

set_option autoImplicit false

/-!
# `util::geo::Grid`

Coordinates are exact numbers, and a value may be added again after it was removed.
-/
namespace Pfaedle.Grids
open BoundingBoxes

/-- `getBoundingBox` and `intersects` of `G<T>` -/
class Geometry (G : Type*) (C : outParam (Type*)) where
  getBoundingBox : G → Box C
  intersects : G → Box C → Bool

/-- What the constructors fix. A cell has a size where there are cells. -/
structure Layout (C : Type*) [Field C] [LinearOrder C] where
  cellWidth : C
  cellHeight : C
  bb : Box C
  xWidth : ℕ
  yHeight : ℕ
  width_pos : 0 < xWidth → 0 < cellWidth
  height_pos : 0 < yHeight → 0 < cellHeight

/-- `index` is `_index`, where `none` stands for a value that is not among its keys. -/
structure Grid (V C : Type*) [Field C] [LinearOrder C] where
  layout : Layout C
  hasValIdx : Bool
  grid : ℕ × ℕ → Finset V
  index : V → Option (Finset (ℕ × ℕ))
  removed : Finset V

section layout
variable {C : Type*} [Field C] [LinearOrder C] [IsStrictOrderedRing C] [FloorSemiring C]

instance pointGeometry : Geometry (C × C) C where
  getBoundingBox p := ⟨p, p⟩
  intersects := boxContains

theorem abs_pos_of_ceil_div {width w : C} (h : 0 < ⌈width / |w|⌉₊) : 0 < |w| := by
  rw [Nat.ceil_pos] at h
  rcases (abs_nonneg w).eq_or_lt with hw | hw
  · rw [← hw, div_zero] at h
    exact absurd h (lt_irrefl _)
  · exact hw

/-- `Grid(w, h, bbox, buildValIdx)`: a box that is turned over leaves no cells. -/
def Layout.ofBox (w h : C) (bbox : Box C) : Layout C :=
  let width := bbox.upperRight.1 - bbox.lowerLeft.1
  let height := bbox.upperRight.2 - bbox.lowerLeft.2
  if width < 0 ∨ height < 0 then
    ⟨|w|, |h|, bbox, 0, 0, fun h => absurd h (lt_irrefl 0), fun h => absurd h (lt_irrefl 0)⟩
  else
    ⟨|w|, |h|, bbox, ⌈width / |w|⌉₊, ⌈height / |h|⌉₊, abs_pos_of_ceil_div, abs_pos_of_ceil_div⟩

def getCell (low cellSize pos : C) : ℕ :=
  let dist := pos - low
  ⌊(if dist < 0 then 0 else dist) / cellSize⌋₊

def Layout.getCellXFromX (l : Layout C) (lon : C) : ℕ := getCell l.bb.lowerLeft.1 l.cellWidth lon

def Layout.getCellYFromY (l : Layout C) (lat : C) : ℕ := getCell l.bb.lowerLeft.2 l.cellHeight lat

def Layout.getBox (l : Layout C) (c : ℕ × ℕ) : Box C where
  lowerLeft := (l.bb.lowerLeft.1 + c.1 * l.cellWidth, l.bb.lowerLeft.2 + c.2 * l.cellHeight)
  upperRight :=
    (l.bb.lowerLeft.1 + (c.1 + 1) * l.cellWidth, l.bb.lowerLeft.2 + (c.2 + 1) * l.cellHeight)

def loopRange (sw ne n : ℕ) : List ℕ := (List.range n).filter fun i => sw ≤ i ∧ i ≤ ne

/-- The cells below a box, in the order of the two loops of `add` and of `get`. -/
def Layout.covered (l : Layout C) (box : Box C) : List (ℕ × ℕ) :=
  loopRange (l.getCellXFromX box.lowerLeft.1) (l.getCellXFromX box.upperRight.1) l.xWidth ×ˢ
    loopRange (l.getCellYFromY box.lowerLeft.2) (l.getCellYFromY box.upperRight.2) l.yHeight

def Layout.cells {G : Type*} [Geometry G C] (l : Layout C) (geom : G) : List (ℕ × ℕ) :=
  (l.covered (Geometry.getBoundingBox geom)).filter fun c => Geometry.intersects geom (l.getBox c)

theorem mem_loopRange {sw ne n i : ℕ} : i ∈ loopRange sw ne n ↔ i < n ∧ sw ≤ i ∧ i ≤ ne := by
  simp [loopRange]

omit [IsStrictOrderedRing C] in
theorem Layout.mem_covered {l : Layout C} {box : Box C} {c : ℕ × ℕ} :
    c ∈ l.covered box ↔
      (c.1 < l.xWidth ∧
        l.getCellXFromX box.lowerLeft.1 ≤ c.1 ∧ c.1 ≤ l.getCellXFromX box.upperRight.1) ∧
      c.2 < l.yHeight ∧
        l.getCellYFromY box.lowerLeft.2 ≤ c.2 ∧ c.2 ≤ l.getCellYFromY box.upperRight.2 := by
  rw [covered, List.mem_product, mem_loopRange, mem_loopRange]

omit [IsStrictOrderedRing C] in
theorem Layout.cells_inside {G : Type*} [Geometry G C] {l : Layout C} {geom : G} {c : ℕ × ℕ}
    (h : c ∈ l.cells geom) : c.1 < l.xWidth ∧ c.2 < l.yHeight := by
  have hc := mem_covered.mp (List.mem_of_mem_filter h)
  exact ⟨hc.1.1, hc.2.1⟩

theorem getCell_corner {low cellSize : C} (h : 0 < cellSize) (i : ℕ) :
    getCell low cellSize (low + i * cellSize) = i := by
  have hpos : 0 ≤ (i : C) * cellSize := mul_nonneg i.cast_nonneg h.le
  simp [getCell, not_lt.mpr hpos, h.ne']

theorem Layout.covered_corner {l : Layout C} {c : ℕ × ℕ} (hx : c.1 < l.xWidth)
    (hy : c.2 < l.yHeight) :
    c ∈ l.covered ⟨(l.getBox c).lowerLeft, (l.getBox c).lowerLeft⟩ := by
  have hw := l.width_pos (by omega)
  have hh := l.height_pos (by omega)
  simp [mem_covered, getBox, getCellXFromX, getCellYFromY, getCell_corner hw, getCell_corner hh,
    hx, hy]

end layout

section model
variable {V C G : Type*} [DecidableEq V] [Field C] [LinearOrder C]
variable [FloorSemiring C] [Geometry G C]

def Grid.fresh (l : Layout C) (buildValIdx : Bool) : Grid V C where
  layout := l
  hasValIdx := buildValIdx
  grid := fun _ => ∅
  index := fun _ => none
  removed := ∅

def Grid.addCell (val : V) (s : Grid V C) (c : ℕ × ℕ) : Grid V C :=
  { s with
    grid := Function.update s.grid c (insert val (s.grid c))
    index :=
      if s.hasValIdx then
        Function.update s.index val (some (insert c ((s.index val).getD ∅)))
      else s.index }

def Grid.add (s : Grid V C) (geom : G) (val : V) : Grid V C :=
  (s.layout.cells geom).foldl (addCell val) s

def Grid.remove (s : Grid V C) (val : V) : Grid V C :=
  if s.hasValIdx then
    match s.index val with
    | none => s
    | some cells =>
      { s with
        grid := fun c => if c ∈ cells then (s.grid c).erase val else s.grid c
        index := Function.update s.index val none }
  else { s with removed := insert val s.removed }

def Grid.shown (s : Grid V C) (c : ℕ × ℕ) : Finset V :=
  if s.hasValIdx then s.grid c else (s.grid c).filter (· ∉ s.removed)

/-- `get(box, s)`: `vals` is what the caller hands in. -/
def Grid.get (s : Grid V C) (box : Box C) (vals : Finset V) : Finset V :=
  (s.layout.covered box).foldl (fun vals c => vals ∪ s.shown c) vals

inductive Op (G V : Type*) where
  | add (geom : G) (val : V)
  | remove (val : V)

def Grid.apply (s : Grid V C) : Op G V → Grid V C
  | .add geom val => s.add geom val
  | .remove val => s.remove val

def Grid.run (l : Layout C) (buildValIdx : Bool) (ops : List (Op G V)) : Grid V C :=
  ops.foldl apply (fresh l buildValIdx)

/-- A cell that the history puts a value in, and does not take it out of. -/
def Entered (l : Layout C) (ops : List (Op G V)) (c : ℕ × ℕ) (v : V) : Prop :=
  ∃ before geom after,
    ops = before ++ Op.add geom v :: after ∧ c ∈ l.cells geom ∧ Op.remove v ∉ after

/-- A value comes back to some cell after it was removed, and stays there. -/
def Reentered (l : Layout C) (ops : List (Op G V)) : Prop :=
  ∃ before geom v after,
    ops = before ++ Op.add geom v :: after ∧
      Op.remove v ∈ before ∧ Op.remove v ∉ after ∧ l.cells geom ≠ []

section
omit [DecidableEq V]

theorem not_entered_nil (l : Layout C) (c : ℕ × ℕ) (v : V) : ¬ Entered l ([] : List (Op G V)) c v := by
  rintro ⟨before, geom, after, h, -⟩
  simp at h

theorem snoc_eq_split {ops before after : List (Op G V)} {op mid : Op G V}
    (h : ops ++ [op] = before ++ mid :: after) :
    (after = [] ∧ before = ops ∧ mid = op) ∨
      ∃ rest, after = rest ++ [op] ∧ ops = before ++ mid :: rest := by
  rcases List.eq_nil_or_concat after with rfl | ⟨rest, last, rfl⟩
  · rw [List.append_inj_left' h rfl, List.cons.inj (List.append_inj_right' h rfl) |>.1]
    exact Or.inl ⟨rfl, rfl, rfl⟩
  · rw [List.concat_eq_append, ← List.cons_append, ← List.append_assoc] at h
    rw [List.append_inj_left' h rfl, List.cons.inj (List.append_inj_right' h rfl) |>.1]
    exact Or.inr ⟨rest, List.concat_eq_append, rfl⟩

theorem entered_add (l : Layout C) (ops : List (Op G V)) (geom : G) (w : V) (c : ℕ × ℕ) (v : V) :
    Entered l (ops ++ [Op.add geom w]) c v ↔ Entered l ops c v ∨ v = w ∧ c ∈ l.cells geom := by
  constructor
  · rintro ⟨before, geom', after, hsplit, hc, hafter⟩
    rcases snoc_eq_split hsplit with ⟨-, -, hop⟩ | ⟨rest, rfl, hops⟩
    · cases hop
      exact Or.inr ⟨rfl, hc⟩
    · exact Or.inl ⟨before, geom', rest, hops, hc, fun h => hafter (List.mem_append_left _ h)⟩
  · rintro (⟨before, geom', after, rfl, hc, hafter⟩ | ⟨rfl, hc⟩)
    · exact ⟨before, geom', after ++ [Op.add geom w], by simp, hc, by simpa using hafter⟩
    · exact ⟨ops, geom, [], rfl, hc, by simp⟩

theorem entered_remove (l : Layout C) (ops : List (Op G V)) (w : V) (c : ℕ × ℕ) (v : V) :
    Entered l (ops ++ [Op.remove w]) c v ↔ Entered l ops c v ∧ v ≠ w := by
  constructor
  · rintro ⟨before, geom, after, hsplit, hc, hafter⟩
    rcases snoc_eq_split hsplit with ⟨-, -, hop⟩ | ⟨rest, rfl, hops⟩
    · cases hop
    · refine ⟨⟨before, geom, rest, hops, hc, fun h => hafter (List.mem_append_left _ h)⟩, ?_⟩
      rintro rfl
      simp at hafter
  · rintro ⟨⟨before, geom, after, rfl, hc, hafter⟩, hne⟩
    exact ⟨before, geom, after ++ [Op.remove w], by simp, hc, by simpa [hne] using hafter⟩

end

/-- `_index` and the cells hold the same pairs. -/
def Grid.Consistent (s : Grid V C) : Prop := ∀ v c, c ∈ (s.index v).getD ∅ ↔ v ∈ s.grid c

section
omit [FloorSemiring C]

@[simp] theorem addCell_layout (s : Grid V C) (val : V) (c : ℕ × ℕ) :
    (s.addCell val c).layout = s.layout := rfl

@[simp] theorem addCell_hasValIdx (s : Grid V C) (val : V) (c : ℕ × ℕ) :
    (s.addCell val c).hasValIdx = s.hasValIdx := rfl

@[simp] theorem addCell_removed (s : Grid V C) (val : V) (c : ℕ × ℕ) :
    (s.addCell val c).removed = s.removed := rfl

theorem mem_addCell_grid (s : Grid V C) (val : V) (c c' : ℕ × ℕ) (v : V) :
    v ∈ (s.addCell val c).grid c' ↔ v ∈ s.grid c' ∨ v = val ∧ c' = c := by
  by_cases h : c' = c
  · subst h
    simp [Grid.addCell, or_comm]
  · simp [Grid.addCell, h]

theorem Grid.Consistent.addCell {s : Grid V C} (h : s.Consistent) (hidx : s.hasValIdx = true)
    (val : V) (c : ℕ × ℕ) : (s.addCell val c).Consistent := by
  intro v c'
  rw [mem_addCell_grid, ← h v c']
  by_cases hv : v = val
  · subst hv
    simp [Grid.addCell, hidx, or_comm]
  · simp [Grid.addCell, hidx, hv]

end

/-- What one `add(geom, val)` does, whether or not there is an index. -/
theorem mem_add_grid (s : Grid V C) (geom : G) (val : V) (c : ℕ × ℕ) (v : V) :
    v ∈ (s.add geom val).grid c ↔ v ∈ s.grid c ∨ v = val ∧ c ∈ s.layout.cells geom := by
  rw [Grid.add]
  generalize s.layout.cells geom = cs
  induction cs generalizing s with
  | nil => simp
  | cons c' cs ih =>
    rw [List.foldl_cons, ih, mem_addCell_grid, List.mem_cons]
    tauto

theorem add_fixed (s : Grid V C) (geom : G) (val : V) :
    (s.add geom val).layout = s.layout ∧ (s.add geom val).hasValIdx = s.hasValIdx ∧
      (s.add geom val).removed = s.removed := by
  rw [Grid.add]
  generalize s.layout.cells geom = cs
  induction cs generalizing s with
  | nil => exact ⟨rfl, rfl, rfl⟩
  | cons c cs ih => exact ih (s.addCell val c)

theorem Grid.Consistent.add {s : Grid V C} (h : s.Consistent) (hidx : s.hasValIdx = true)
    (geom : G) (val : V) : (s.add geom val).Consistent := by
  rw [Grid.add]
  generalize s.layout.cells geom = cs
  induction cs generalizing s with
  | nil => exact h
  | cons c cs ih => exact ih (h.addCell hidx val c) hidx

/-- A grid with an index holds what the history leaves in the cells. -/
structure Indexed (l : Layout C) (ops : List (Op G V)) (s : Grid V C) : Prop where
  layout : s.layout = l
  hasValIdx : s.hasValIdx = true
  grid : ∀ c v, v ∈ s.grid c ↔ Entered l ops c v
  consistent : s.Consistent

/-- A grid without an index holds all that was ever added, and the removed values beside it. -/
structure Filtered (l : Layout C) (ops : List (Op G V)) (s : Grid V C) : Prop where
  layout : s.layout = l
  hasValIdx : s.hasValIdx = false
  grid : ∀ c v, v ∈ s.grid c ↔ ∃ geom, Op.add geom v ∈ ops ∧ c ∈ l.cells geom
  removed : ∀ v, v ∈ s.removed ↔ Op.remove v ∈ ops

theorem Indexed.add {l : Layout C} {ops : List (Op G V)} {s : Grid V C} (h : Indexed l ops s)
    (geom : G) (val : V) : Indexed l (ops ++ [Op.add geom val]) (s.add geom val) := by
  have hfixed := add_fixed s geom val
  refine ⟨hfixed.1.trans h.layout, hfixed.2.1.trans h.hasValIdx, fun c v => ?_,
    h.consistent.add h.hasValIdx geom val⟩
  rw [mem_add_grid, entered_add, h.grid, h.layout]

/-- The index names every cell that holds the value, so `remove` leaves none behind. -/
theorem Indexed.remove {l : Layout C} {ops : List (Op G V)} {s : Grid V C} (h : Indexed l ops s)
    (val : V) : Indexed l (ops ++ [Op.remove val]) (s.remove val) := by
  have hidx := h.consistent val
  rw [Grid.remove, if_pos h.hasValIdx]
  cases hval : s.index val with
  | none =>
    simp only [hval, Option.getD_none, Finset.notMem_empty, false_iff] at hidx
    refine ⟨h.layout, h.hasValIdx, fun c v => ?_, h.consistent⟩
    rw [entered_remove, ← h.grid]
    exact ⟨fun hv => ⟨hv, fun heq => hidx c (heq ▸ hv)⟩, And.left⟩
  | some cells =>
    simp only [hval, Option.getD_some] at hidx
    have hgrid : ∀ c v, v ∈ (if c ∈ cells then (s.grid c).erase val else s.grid c) ↔
        v ∈ s.grid c ∧ v ≠ val := by
      intro c v
      split_ifs with hc
      · rw [Finset.mem_erase, and_comm]
      · exact ⟨fun hv => ⟨hv, fun heq => hc ((hidx c).mpr (heq ▸ hv))⟩, And.left⟩
    refine ⟨h.layout, h.hasValIdx, fun c v => ?_, fun v c => ?_⟩
    · rw [entered_remove, ← h.grid]
      exact hgrid c v
    · refine Iff.trans ?_ (hgrid c v).symm
      by_cases hv : v = val
      · simp [hv]
      · simp [hv, h.consistent v c]

theorem Filtered.add {l : Layout C} {ops : List (Op G V)} {s : Grid V C} (h : Filtered l ops s)
    (geom : G) (val : V) : Filtered l (ops ++ [Op.add geom val]) (s.add geom val) := by
  have hfixed := add_fixed s geom val
  refine ⟨hfixed.1.trans h.layout, hfixed.2.1.trans h.hasValIdx, fun c v => ?_, fun v => ?_⟩
  · rw [mem_add_grid, h.grid, h.layout]
    simp only [List.mem_append, List.mem_singleton, Op.add.injEq]
    constructor
    · rintro (⟨geom', hmem, hc⟩ | ⟨rfl, hc⟩)
      · exact ⟨geom', Or.inl hmem, hc⟩
      · exact ⟨geom, Or.inr ⟨rfl, rfl⟩, hc⟩
    · rintro ⟨geom', hmem | ⟨rfl, rfl⟩, hc⟩
      · exact Or.inl ⟨geom', hmem, hc⟩
      · exact Or.inr ⟨rfl, hc⟩
  · simp [hfixed.2.2, h.removed]

theorem Filtered.remove {l : Layout C} {ops : List (Op G V)} {s : Grid V C} (h : Filtered l ops s)
    (val : V) : Filtered l (ops ++ [Op.remove val]) (s.remove val) := by
  rw [Grid.remove, if_neg (by simp [h.hasValIdx])]
  refine ⟨h.layout, h.hasValIdx, fun c v => ?_, fun v => ?_⟩
  · simp [h.grid]
  · simp [h.removed, or_comm]

theorem run_snoc (l : Layout C) (buildValIdx : Bool) (ops : List (Op G V)) (op : Op G V) :
    Grid.run l buildValIdx (ops ++ [op]) = (Grid.run l buildValIdx ops).apply op := by
  simp [Grid.run]

theorem run_indexed (l : Layout C) (ops : List (Op G V)) : Indexed l ops (Grid.run l true ops) := by
  induction ops using List.reverseRecOn with
  | nil =>
    refine ⟨rfl, rfl, fun c v => ?_, fun v c => ?_⟩
    · simp [Grid.run, Grid.fresh, not_entered_nil]
    · simp [Grid.run, Grid.fresh]
  | append_singleton ops op ih =>
    rw [run_snoc]
    cases op with
    | add geom val => exact ih.add geom val
    | remove val => exact ih.remove val

theorem run_filtered (l : Layout C) (ops : List (Op G V)) :
    Filtered l ops (Grid.run l false ops) := by
  induction ops using List.reverseRecOn with
  | nil =>
    refine ⟨rfl, rfl, fun c v => ?_, fun v => ?_⟩
    · simp [Grid.run, Grid.fresh]
    · simp [Grid.run, Grid.fresh]
  | append_singleton ops op ih =>
    rw [run_snoc]
    cases op with
    | add geom val => exact ih.add geom val
    | remove val => exact ih.remove val

theorem mem_shown_true (l : Layout C) (ops : List (Op G V)) (c : ℕ × ℕ) (v : V) :
    v ∈ (Grid.run l true ops).shown c ↔ Entered l ops c v := by
  have h := run_indexed l ops
  rw [Grid.shown, if_pos h.hasValIdx, h.grid]

theorem mem_shown_false (l : Layout C) (ops : List (Op G V)) (c : ℕ × ℕ) (v : V) :
    v ∈ (Grid.run l false ops).shown c ↔
      (∃ geom, Op.add geom v ∈ ops ∧ c ∈ l.cells geom) ∧ Op.remove v ∉ ops := by
  have h := run_filtered l ops
  rw [Grid.shown, if_neg (by simp [h.hasValIdx]), Finset.mem_filter, h.grid, h.removed]

theorem mem_get (s : Grid V C) (box : Box C) (vals : Finset V) (v : V) :
    v ∈ s.get box vals ↔ v ∈ vals ∨ ∃ c ∈ s.layout.covered box, v ∈ s.shown c := by
  rw [Grid.get]
  generalize s.layout.covered box = cs
  induction cs generalizing vals with
  | nil => simp
  | cons c cs ih =>
    rw [List.foldl_cons, ih, Finset.mem_union, List.exists_mem_cons_iff, or_assoc]

omit [DecidableEq V] in
/-- Without a removal of the value both modes show it in the same cells. -/
theorem entered_iff_of_not_removed {l : Layout C} {ops : List (Op G V)} {v : V}
    (h : Op.remove v ∉ ops) (c : ℕ × ℕ) :
    Entered l ops c v ↔ ∃ geom, Op.add geom v ∈ ops ∧ c ∈ l.cells geom := by
  constructor
  · rintro ⟨before, geom, after, rfl, hc, -⟩
    exact ⟨geom, by simp, hc⟩
  · rintro ⟨geom, hmem, hc⟩
    obtain ⟨before, after, rfl⟩ := List.append_of_mem hmem
    exact ⟨before, geom, after, rfl, hc, fun hin => h (by simp [hin])⟩

omit [DecidableEq V] in
/-- A value that was removed is shown again only where it was added after that. -/
theorem Entered.reentered {l : Layout C} {ops : List (Op G V)} {c : ℕ × ℕ} {v : V}
    (h : Entered l ops c v) (hremoved : Op.remove v ∈ ops) : Reentered l ops := by
  obtain ⟨before, geom, after, rfl, hc, hafter⟩ := h
  refine ⟨before, geom, v, after, rfl, ?_, hafter, List.ne_nil_of_mem hc⟩
  simpa [hafter] using hremoved

theorem mem_shown_iff_of_not_reentered {l : Layout C} {ops : List (Op G V)}
    (h : ¬ Reentered l ops) (c : ℕ × ℕ) (v : V) :
    v ∈ (Grid.run l true ops).shown c ↔ v ∈ (Grid.run l false ops).shown c := by
  rw [mem_shown_true, mem_shown_false]
  by_cases hremoved : Op.remove v ∈ ops
  · simpa [hremoved] using fun hentered : Entered l ops c v => h (hentered.reentered hremoved)
  · simpa [hremoved] using entered_iff_of_not_removed hremoved c

variable [IsStrictOrderedRing C]

/-- `_removed` forgets that a value came back, and nothing else sets the two modes apart. -/
theorem get_modes_agree_iff (l : Layout C) (ops : List (Op G V)) :
    (∀ box vals, (Grid.run l false ops).get box vals = (Grid.run l true ops).get box vals) ↔
      ¬ Reentered l ops := by
  constructor
  · rintro h ⟨before, geom, v, after, hops, hbefore, hafter, hcells⟩
    obtain ⟨c, hc⟩ := List.exists_mem_of_ne_nil _ hcells
    have hin := Layout.cells_inside hc
    -- the box that is one corner of the cell
    have hcover := Layout.covered_corner hin.1 hin.2
    have htrue : v ∈ (Grid.run l true ops).get
        ⟨(l.getBox c).lowerLeft, (l.getBox c).lowerLeft⟩ ∅ := by
      rw [mem_get, (run_indexed l ops).layout]
      exact Or.inr ⟨c, hcover, (mem_shown_true l ops c v).mpr ⟨before, geom, after, hops, hc, hafter⟩⟩
    rw [← h, mem_get] at htrue
    rcases htrue with hnone | ⟨c', -, hshown⟩
    · simp at hnone
    · have hkept := ((mem_shown_false l ops c' v).mp hshown).2
      exact hkept (by simp [hops, hbefore])
  · intro h box vals
    ext v
    rw [mem_get, mem_get, (run_indexed l ops).layout, (run_filtered l ops).layout]
    simp only [mem_shown_iff_of_not_reentered h]

/-- A street is removed, and a street with another value is added. -/
theorem get_modes_agree_replaced :
    let l : Layout ℚ := Layout.ofBox 1 1 ⟨(0, 0), (2, 2)⟩
    let ops : List (Op (ℚ × ℚ) ℕ) :=
      [.add (1 / 2, 1 / 2) 7, .remove 7, .add (3 / 2, 1 / 2) 8]
    ∀ box vals, (Grid.run l false ops).get box vals = (Grid.run l true ops).get box vals := by
  intro l ops
  refine (get_modes_agree_iff l ops).mpr ?_
  rintro ⟨before, geom, v, after, hops, hbefore, -, -⟩
  have hlast : [.add (1 / 2, 1 / 2) 7, .remove 7] ++ [.add (3 / 2, 1 / 2) 8] =
      before ++ Op.add geom v :: after := hops
  rcases snoc_eq_split hlast with ⟨-, rfl, hop⟩ | ⟨rest, -, hrest⟩
  · cases hop
    simp at hbefore
  · have hmiddle : [.add (1 / 2, 1 / 2) 7] ++ [.remove 7] = before ++ Op.add geom v :: rest := hrest
    rcases snoc_eq_split hmiddle with ⟨-, -, hop⟩ | ⟨rest', -, hfirst⟩
    · cases hop
    · cases before with
      | nil => simp at hbefore
      | cons op before => simp at hfirst

end model

/-- A street is removed, and its value comes back with another street. -/
theorem reused_value_lost :
    let l : Layout ℚ := Layout.ofBox 1 1 ⟨(0, 0), (2, 2)⟩
    let ops : List (Op (ℚ × ℚ) ℕ) :=
      [.add (1 / 2, 1 / 2) 7, .remove 7, .add (3 / 2, 1 / 2) 7]
    (Grid.run l true ops).get ⟨(0, 0), (2, 2)⟩ ∅ = {7} ∧
      (Grid.run l false ops).get ⟨(0, 0), (2, 2)⟩ ∅ = ∅ := by
  decide +kernel

end Pfaedle.Grids

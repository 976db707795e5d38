import Pfaedle.SpatialGrid

set_option autoImplicit false

/-!
# What a grid finds inside its box

The number of cells is a ceiling and the cell of a point a floor, so a border that is a multiple
of the cell size belongs to no cell.
-/
namespace Pfaedle.Grids
open BoundingBoxes

section rounding
variable {C : Type*} [Field C] [LinearOrder C] [IsStrictOrderedRing C] [FloorSemiring C]
variable {low up w a b pos : C}

theorem getCell_eq_floor (hlow : low ≤ pos) : getCell low w pos = ⌊(pos - low) / w⌋₊ := by
  have hdist : ¬ pos - low < 0 := not_lt.2 (sub_nonneg.2 hlow)
  simp [getCell, hdist]

theorem getCell_mono (hw : 0 < w) (h : a ≤ b) : getCell low w a ≤ getCell low w b := by
  apply Nat.floor_mono
  apply div_le_div_of_nonneg_right _ hw.le
  split_ifs <;> linarith

theorem cell_le (hw : 0 < w) (hlow : low ≤ pos) : low + getCell low w pos * w ≤ pos := by
  have hfloor := Nat.floor_le (div_nonneg (sub_nonneg.2 hlow) hw.le)
  rw [← getCell_eq_floor hlow, le_div_iff₀ hw] at hfloor
  linarith

variable (low pos) in
theorem lt_next_cell (hw : 0 < w) : pos < low + (getCell low w pos + 1) * w := by
  have hfloor := Nat.lt_floor_add_one ((if pos - low < 0 then 0 else pos - low) / w)
  rw [div_lt_iff₀ hw] at hfloor
  change _ < ((getCell low w pos : C) + 1) * w at hfloor
  split_ifs at hfloor <;> linarith

/-- The ceiling leaves out only the end of a width that is a multiple of the cell size. -/
theorem getCell_lt_ceil_iff (hw : 0 < w) (hlow : low ≤ pos) (hup : pos ≤ up) :
    getCell low w pos < ⌈(up - low) / w⌉₊ ↔ ¬ (pos = up ∧ ∃ k : ℕ, up - low = k * w) := by
  rw [getCell_eq_floor hlow, Nat.lt_ceil]
  have hfloor : (⌊(pos - low) / w⌋₊ : C) ≤ (pos - low) / w :=
    Nat.floor_le (div_nonneg (sub_nonneg.2 hlow) hw.le)
  constructor
  · rintro hlt ⟨rfl, k, hk⟩
    rw [hk, mul_div_assoc, div_self hw.ne', mul_one, Nat.floor_natCast] at hlt
    exact lt_irrefl _ hlt
  · intro hnot
    rcases hup.lt_or_eq with hlt | heq
    · exact hfloor.trans_lt (div_lt_div_of_pos_right (by linarith) hw)
    · subst heq
      apply lt_of_le_of_ne hfloor
      intro hmultiple
      exact hnot ⟨rfl, _, (div_eq_iff hw.ne').1 hmultiple.symm⟩

/-- A cell between those of the two ends of an interval meets the interval. -/
theorem interval_touches (hw : 0 < w) (hab : a ≤ b) (hb : low ≤ b) {i : ℕ}
    (ha : getCell low w a ≤ i) (hi : i ≤ getCell low w b) :
    ∃ x, (a ≤ x ∧ x ≤ b) ∧ low + i * w ≤ x ∧ x ≤ low + (i + 1) * w := by
  have hlower : low + i * w ≤ b := by
    have hle : (i : C) * w ≤ getCell low w b * w :=
      mul_le_mul_of_nonneg_right (Nat.cast_le.2 hi) hw.le
    linarith [cell_le hw hb]
  have hupper : a ≤ low + (i + 1) * w := by
    have hle : ((getCell low w a : C) + 1) * w ≤ (i + 1) * w := by
      apply mul_le_mul_of_nonneg_right _ hw.le
      linarith [(Nat.cast_le (α := C)).2 ha]
    linarith [lt_next_cell low a hw]
  refine ⟨max a (low + i * w), ⟨le_max_left _ _, max_le hab hlower⟩, le_max_right _ _,
    max_le hupper ?_⟩
  linarith

end rounding

section coverage
variable {V C : Type*} [DecidableEq V] [Field C] [LinearOrder C] [IsStrictOrderedRing C]
variable [FloorSemiring C]

/-- A grid over `bbox` to which the points were added one after the other. -/
def pointGrid (w h : C) (bbox : Box C) (buildValIdx : Bool) (points : List ((C × C) × V)) :
    Grid V C :=
  Grid.run (Layout.ofBox w h bbox) buildValIdx (points.map fun e => Op.add e.1 e.2)

def Layout.Touches (l : Layout C) (box : Box C) (c : ℕ × ℕ) : Prop :=
  ∃ p, box.Has p ∧ (l.getBox c).Has p

/-- A query around an added point finds its value, and nothing from a cell that it does not
touch. -/
def MissesNothing (w h : C) (bbox : Box C) (buildValIdx : Bool) (points : List ((C × C) × V)) :
    Prop :=
  ∀ query : Box C, ∀ e ∈ points, query.Has e.1 →
    e.2 ∈ (pointGrid w h bbox buildValIdx points).get query ∅ ∧
      ∀ v ∈ (pointGrid w h bbox buildValIdx points).get query ∅, ∃ e' ∈ points, e'.2 = v ∧
        ∃ c, ((Layout.ofBox w h bbox).getBox c).Has e'.1 ∧
          (Layout.ofBox w h bbox).Touches query c

/-- The point is on the right or on the upper border of the box, at a whole number of cells. -/
def OnOpenBorder (w h : C) (bbox : Box C) (p : C × C) : Prop :=
  (p.1 = bbox.upperRight.1 ∧ ∃ k : ℕ, bbox.upperRight.1 - bbox.lowerLeft.1 = k * w) ∨
    p.2 = bbox.upperRight.2 ∧ ∃ k : ℕ, bbox.upperRight.2 - bbox.lowerLeft.2 = k * h

def Layout.cellOf (l : Layout C) (p : C × C) : ℕ × ℕ := (l.getCellXFromX p.1, l.getCellYFromY p.2)

theorem mem_get_pointGrid (w h : C) (bbox : Box C) (buildValIdx : Bool)
    (points : List ((C × C) × V)) (query : Box C) (v : V) :
    v ∈ (pointGrid w h bbox buildValIdx points).get query ∅ ↔
      ∃ c ∈ (Layout.ofBox w h bbox).covered query, ∃ e ∈ points, e.2 = v ∧
        c ∈ (Layout.ofBox w h bbox).cells e.1 := by
  have hnever : ∀ u, Op.remove u ∉ points.map fun e => (Op.add e.1 e.2 : Op (C × C) V) := by
    simp
  have hadded : ∀ c, (∃ geom, Op.add geom v ∈ points.map (fun e => (Op.add e.1 e.2 : Op (C × C) V))
      ∧ c ∈ (Layout.ofBox w h bbox).cells geom) ↔
        ∃ e ∈ points, e.2 = v ∧ c ∈ (Layout.ofBox w h bbox).cells e.1 := by
    intro c
    constructor
    · rintro ⟨geom, hmem, hc⟩
      obtain ⟨e, he, heq⟩ := List.mem_map.1 hmem
      cases heq
      exact ⟨e, he, rfl, hc⟩
    · rintro ⟨e, he, rfl, hc⟩
      exact ⟨e.1, List.mem_map_of_mem he, hc⟩
  rw [mem_get, pointGrid]
  cases buildValIdx with
  | true =>
    rw [(run_indexed _ _).layout]
    simp only [mem_shown_true, entered_iff_of_not_removed (hnever v), hadded]
    simp
  | false =>
    rw [(run_filtered _ _).layout]
    simp only [mem_shown_false, hadded, hnever]
    simp

variable {w h : C} {bbox : Box C}

theorem ofBox_valid (hbox : bbox.Valid) (hw : 0 < w) (hh : 0 < h) :
    (Layout.ofBox w h bbox).bb = bbox ∧ (Layout.ofBox w h bbox).cellWidth = w ∧
      (Layout.ofBox w h bbox).cellHeight = h ∧
      (Layout.ofBox w h bbox).xWidth = ⌈(bbox.upperRight.1 - bbox.lowerLeft.1) / w⌉₊ ∧
      (Layout.ofBox w h bbox).yHeight = ⌈(bbox.upperRight.2 - bbox.lowerLeft.2) / h⌉₊ := by
  have hturned : ¬ (bbox.upperRight.1 - bbox.lowerLeft.1 < 0 ∨
      bbox.upperRight.2 - bbox.lowerLeft.2 < 0) := by
    rw [not_or, not_lt, not_lt, sub_nonneg, sub_nonneg]
    exact hbox
  rw [Layout.ofBox, if_neg hturned]
  refine ⟨rfl, abs_of_pos hw, abs_of_pos hh, ?_, ?_⟩
  · change ⌈_ / |w|⌉₊ = _
    rw [abs_of_pos hw]
  · change ⌈_ / |h|⌉₊ = _
    rw [abs_of_pos hh]

theorem getBox_cellOf_has (hbox : bbox.Valid) (hw : 0 < w) (hh : 0 < h) {p : C × C}
    (hp : bbox.lowerLeft ≤ p) :
    ((Layout.ofBox w h bbox).getBox ((Layout.ofBox w h bbox).cellOf p)).Has p := by
  obtain ⟨hbb, hwidth, hheight, -, -⟩ := ofBox_valid hbox hw hh
  simp only [Layout.getBox, Layout.cellOf, Layout.getCellXFromX, Layout.getCellYFromY, hbb, hwidth,
    hheight]
  exact ⟨⟨cell_le hw hp.1, cell_le hh hp.2⟩, (lt_next_cell _ _ hw).le, (lt_next_cell _ _ hh).le⟩

/-- The cell of a point of the box is one of the grid, unless the point is on an open border. -/
theorem cellOf_inside_iff (hbox : bbox.Valid) (hw : 0 < w) (hh : 0 < h) {p : C × C}
    (hp : bbox.Has p) :
    ((Layout.ofBox w h bbox).cellOf p).1 < (Layout.ofBox w h bbox).xWidth ∧
        ((Layout.ofBox w h bbox).cellOf p).2 < (Layout.ofBox w h bbox).yHeight ↔
      ¬ OnOpenBorder w h bbox p := by
  obtain ⟨hbb, hwidth, hheight, hxWidth, hyHeight⟩ := ofBox_valid hbox hw hh
  simp only [Layout.cellOf, Layout.getCellXFromX, Layout.getCellYFromY, hbb, hwidth, hheight,
    hxWidth, hyHeight]
  rw [getCell_lt_ceil_iff hw hp.1.1 hp.2.1, getCell_lt_ceil_iff hh hp.1.2 hp.2.2, OnOpenBorder,
    not_or]

theorem mem_cells_point_iff (hbox : bbox.Valid) (hw : 0 < w) (hh : 0 < h) {p : C × C}
    (hp : bbox.Has p) (c : ℕ × ℕ) :
    c ∈ (Layout.ofBox w h bbox).cells p ↔
      c = (Layout.ofBox w h bbox).cellOf p ∧ ¬ OnOpenBorder w h bbox p := by
  rw [← cellOf_inside_iff hbox hw hh hp, Layout.cells, List.mem_filter, Layout.mem_covered]
  constructor
  · rintro ⟨⟨⟨hx, hxl, hxr⟩, hy, hyl, hyr⟩, -⟩
    obtain rfl : c = (Layout.ofBox w h bbox).cellOf p :=
      Prod.ext (le_antisymm hxr hxl) (le_antisymm hyr hyl)
    exact ⟨rfl, hx, hy⟩
  · rintro ⟨rfl, hx, hy⟩
    exact ⟨⟨⟨hx, le_refl _, le_refl _⟩, hy, le_refl _, le_refl _⟩,
      (boxContains_iff _ _).2 (getBox_cellOf_has hbox hw hh hp.1).near⟩

theorem mem_covered_cellOf (hbox : bbox.Valid) (hw : 0 < w) (hh : 0 < h) {p : C × C}
    {query : Box C} (hp : bbox.Has p) (hquery : query.Has p) :
    (Layout.ofBox w h bbox).cellOf p ∈ (Layout.ofBox w h bbox).covered query ↔
      ¬ OnOpenBorder w h bbox p := by
  rw [← cellOf_inside_iff hbox hw hh hp, Layout.mem_covered]
  obtain ⟨hbb, hwidth, hheight, -, -⟩ := ofBox_valid hbox hw hh
  simp only [Layout.cellOf, Layout.getCellXFromX, Layout.getCellYFromY, hbb, hwidth, hheight]
  constructor
  · rintro ⟨⟨hx, -⟩, hy, -⟩
    exact ⟨hx, hy⟩
  · rintro ⟨hx, hy⟩
    exact ⟨⟨hx, getCell_mono hw hquery.1.1, getCell_mono hw hquery.2.1⟩, hy,
      getCell_mono hh hquery.1.2, getCell_mono hh hquery.2.2⟩

theorem touches_of_covered (hbox : bbox.Valid) (hw : 0 < w) (hh : 0 < h) {query : Box C}
    (hquery : query.Valid) (hright : bbox.lowerLeft ≤ query.upperRight) {c : ℕ × ℕ}
    (hc : c ∈ (Layout.ofBox w h bbox).covered query) :
    (Layout.ofBox w h bbox).Touches query c := by
  rw [Layout.mem_covered] at hc
  obtain ⟨hbb, hwidth, hheight, -, -⟩ := ofBox_valid hbox hw hh
  simp only [Layout.getCellXFromX, Layout.getCellYFromY, hbb, hwidth, hheight] at hc
  obtain ⟨⟨-, hxl, hxr⟩, -, hyl, hyr⟩ := hc
  obtain ⟨x, ⟨hx₁, hx₂⟩, hx₃, hx₄⟩ := interval_touches hw hquery.1 hright.1 hxl hxr
  obtain ⟨y, ⟨hy₁, hy₂⟩, hy₃, hy₄⟩ := interval_touches hh hquery.2 hright.2 hyl hyr
  refine ⟨(x, y), ⟨⟨hx₁, hy₁⟩, hx₂, hy₂⟩, ?_⟩
  simp only [Layout.getBox, hbb, hwidth, hheight]
  exact ⟨⟨hx₃, hy₃⟩, hx₄, hy₄⟩

/-- A point is lost exactly if it is on an open border, and then also for the query that is the
point itself. -/
theorem missesNothing_iff (hbox : bbox.Valid) (hw : 0 < w) (hh : 0 < h) (buildValIdx : Bool)
    {points : List ((C × C) × V)} (hpoints : ∀ e ∈ points, bbox.Has e.1) :
    MissesNothing w h bbox buildValIdx points ↔ ∀ e ∈ points, ¬ OnOpenBorder w h bbox e.1 := by
  constructor
  · intro hall e he
    have hquery : (⟨e.1, e.1⟩ : Box C).Has e.1 := ⟨le_refl _, le_refl _⟩
    have hfound := (hall ⟨e.1, e.1⟩ e he hquery).1
    rw [mem_get_pointGrid] at hfound
    obtain ⟨c, hcovered, -⟩ := hfound
    obtain rfl : c = (Layout.ofBox w h bbox).cellOf e.1 := by
      obtain ⟨⟨-, hxl, hxr⟩, -, hyl, hyr⟩ := Layout.mem_covered.1 hcovered
      exact Prod.ext (le_antisymm hxr hxl) (le_antisymm hyr hyl)
    exact (mem_covered_cellOf hbox hw hh (hpoints e he) hquery).1 hcovered
  · intro hopen query e he hquery
    have hvalid : query.Valid := hquery.1.trans hquery.2
    have hright : bbox.lowerLeft ≤ query.upperRight := (hpoints e he).1.trans hquery.2
    constructor
    · rw [mem_get_pointGrid]
      exact ⟨_, (mem_covered_cellOf hbox hw hh (hpoints e he) hquery).2 (hopen e he), e, he, rfl,
        (mem_cells_point_iff hbox hw hh (hpoints e he) _).2 ⟨rfl, hopen e he⟩⟩
    · intro v hv
      rw [mem_get_pointGrid] at hv
      obtain ⟨c, hc, e', he', heq, hcell⟩ := hv
      obtain ⟨rfl, -⟩ := (mem_cells_point_iff hbox hw hh (hpoints e' he') c).1 hcell
      exact ⟨e', he', heq, _, getBox_cellOf_has hbox hw hh (hpoints e' he').1,
        touches_of_covered hbox hw hh hvalid hright hc⟩

end coverage

/-- Two points of a box of one and a half cells by one, the second on its right border. -/
theorem missesNothing_two_points :
    MissesNothing (1 : ℚ) 1 ⟨(0, 0), (3 / 2, 1)⟩ true [((0, 0), 7), ((3 / 2, 1 / 2), 8)] := by
  have hwidth : ∀ k : ℕ, (3 / 2 - 0 : ℚ) ≠ k * 1 := by
    intro k hk
    have htwice : (3 : ℚ) = (2 * k : ℕ) := by
      push_cast
      linarith
    have hodd : 3 = 2 * k := by exact_mod_cast htwice
    omega
  have hvalid : (⟨(0, 0), (3 / 2, 1)⟩ : Box ℚ).Valid := ⟨by norm_num, by norm_num⟩
  refine (missesNothing_iff hvalid one_pos one_pos true ?_).2 ?_
  · intro e he
    rcases List.mem_pair.1 he with rfl | rfl
    · exact ⟨⟨by norm_num, by norm_num⟩, by norm_num, by norm_num⟩
    · exact ⟨⟨by norm_num, by norm_num⟩, by norm_num, by norm_num⟩
  · intro e he
    rcases List.mem_pair.1 he with rfl | rfl
    · rintro (⟨h, -⟩ | ⟨h, -⟩) <;> norm_num at h
    · rintro (⟨-, k, hk⟩ | ⟨h, -⟩)
      · exact hwidth k hk
      · norm_num at h

/-- The upper right corner of a box of two cells by two. -/
theorem border_point_missed :
    (⟨(0, 0), (2, 2)⟩ : Box ℚ).Valid ∧ (⟨(0, 0), (2, 2)⟩ : Box ℚ).Has (2, 2) ∧
      (pointGrid (1 : ℚ) 1 ⟨(0, 0), (2, 2)⟩ true [((2, 2), 7)]).get ⟨(0, 0), (2, 2)⟩ ∅ = ∅ ∧
      ¬ MissesNothing (1 : ℚ) 1 ⟨(0, 0), (2, 2)⟩ true [((2, 2), 7)] := by
  have hvalid : (⟨(0, 0), (2, 2)⟩ : Box ℚ).Valid := ⟨by norm_num, by norm_num⟩
  have hcorner : (⟨(0, 0), (2, 2)⟩ : Box ℚ).Has (2, 2) := ⟨hvalid, le_refl _⟩
  have hnone : (pointGrid (1 : ℚ) 1 ⟨(0, 0), (2, 2)⟩ true [((2, 2), 7)]).get
      ⟨(0, 0), (2, 2)⟩ ∅ = ∅ := by
    decide +kernel
  refine ⟨hvalid, hcorner, hnone, fun hall => ?_⟩
  have hfound := (hall ⟨(0, 0), (2, 2)⟩ ((2, 2), 7) (by simp) hcorner).1
  rw [hnone] at hfound
  exact absurd hfound (Finset.notMem_empty _)

end Pfaedle.Grids

import Pfaedle.LoopRules
import Mathlib.Algebra.Order.Field.Basic
import Mathlib.Order.Lattice
import Mathlib.Tactic.Linarith

set_option autoImplicit false

/-!
# `osm::bounding_box`

Coordinates are exact numbers.
-/
namespace Pfaedle.BoundingBoxes
open LoopRules

structure Box (C : Type*) where
  lowerLeft : C × C
  upperRight : C × C
deriving DecidableEq

inductive Node (C : Type*) where
  | mk (box : Box C) (childs : List (Node C))

namespace Node
variable {C : Type*}

def box : Node C → Box C
  | mk box _ => box

def childs : Node C → List (Node C)
  | mk _ childs => childs

end Node

structure BoundingBox (C : Type*) where
  padding : C
  size : ℕ
  root : Node C

section model
variable {C : Type*} [Field C] [LinearOrder C]

def epsilon : C := 1 / 100000

def pad (box : Box C) (padding : C) : Box C where
  lowerLeft := (box.lowerLeft.1 - padding, box.lowerLeft.2 - padding)
  upperRight := (box.upperRight.1 + padding, box.upperRight.2 + padding)

def boxContains (p : C × C) (box : Box C) : Bool :=
  (|p.1 - box.lowerLeft.1| < epsilon ∨ box.lowerLeft.1 < p.1) ∧
    (|p.1 - box.upperRight.1| < epsilon ∨ p.1 < box.upperRight.1) ∧
    (|p.2 - box.lowerLeft.2| < epsilon ∨ box.lowerLeft.2 < p.2) ∧
    (|p.2 - box.upperRight.2| < epsilon ∨ p.2 < box.upperRight.2)

def extendPoint (p : C × C) (b : Box C) : Box C where
  lowerLeft := (if p.1 < b.lowerLeft.1 then p.1 else b.lowerLeft.1,
    if p.2 < b.lowerLeft.2 then p.2 else b.lowerLeft.2)
  upperRight := (if b.upperRight.1 < p.1 then p.1 else b.upperRight.1,
    if b.upperRight.2 < p.2 then p.2 else b.upperRight.2)

def extendBox (a b : Box C) : Box C := extendPoint a.upperRight (extendPoint a.lowerLeft b)

def commonArea (ba bb : Box C) : C :=
  let l := max ba.lowerLeft.1 bb.lowerLeft.1
  let r := min ba.upperRight.1 bb.upperRight.1
  let b := max ba.lowerLeft.2 bb.lowerLeft.2
  let t := min ba.upperRight.2 bb.upperRight.2
  if r < l ∨ t < b then 0 else (r - l) * (t - b)

/-- The best area with its index; `MIN_COM_AREA` is zero. -/
def bestStep (box : Box C) (best : C × Option ℕ) (child : Box C × ℕ) : C × Option ℕ :=
  let cur := commonArea box child.1
  if 0 < cur ∧ best.1 < cur then (cur, some child.2) else best

def bestChild (box : Box C) (childs : List (Box C)) : Option ℕ :=
  (childs.zipIdx.foldl (bestStep box) (0, none)).2

def addToTree (box : Box C) : ℕ → Node C → Node C
  | 0, nd => .mk (extendBox box nd.box) nd.childs
  | k + 1, nd =>
    .mk (extendBox box nd.box)
      (match bestChild box (nd.childs.map Node.box) with
      | none => nd.childs ++ [addToTree box k (.mk box [])]
      | some i => nd.childs.modify i (addToTree box k))

mutual

def treeHas (p : C × C) : Node C → Bool
  | .mk box [] => boxContains p box
  | .mk _ (child :: childs) => firstHas p (child :: childs)

def firstHas (p : C × C) : List (Node C) → Bool
  | [] => false
  | child :: childs => if boxContains p child.box then treeHas p child else firstHas p childs

end

mutual

def getLeafsRec : Node C → List (Box C)
  | .mk box [] => [box]
  | .mk _ (child :: childs) => childLeafs (child :: childs)

def childLeafs : List (Node C) → List (Box C)
  | [] => []
  | child :: childs => getLeafsRec child ++ childLeafs childs

end

def maxLvl : ℕ := 5

/-- `minbox` is the inverse box that a box has at first. -/
def newBoundingBox (minbox : Box C) (padding : C) : BoundingBox C := ⟨padding, 0, .mk minbox []⟩

namespace BoundingBox

def add (b : BoundingBox C) (box : Box C) : BoundingBox C :=
  { b with
    root := addToTree (pad box (b.padding / 83000)) maxLvl b.root
    size := b.size + 1 }

def contains (b : BoundingBox C) (p : C × C) : Bool := treeHas p b.root

def getLeafs (b : BoundingBox C) : List (Box C) := getLeafsRec b.root

def getFullBox (b : BoundingBox C) : Box C := b.root.box

end BoundingBox

end model

section boxes
variable {C : Type*} [LinearOrder C]

def Box.Has (box : Box C) (p : C × C) : Prop := box.lowerLeft ≤ p ∧ p ≤ box.upperRight

def Box.Valid (box : Box C) : Prop := box.lowerLeft ≤ box.upperRight

def Box.Inside (a b : Box C) : Prop := b.lowerLeft ≤ a.lowerLeft ∧ a.upperRight ≤ b.upperRight

theorem Box.Inside.refl (a : Box C) : a.Inside a := ⟨le_refl _, le_refl _⟩

theorem Box.Inside.trans {a b c : Box C} (h : a.Inside b) (h' : b.Inside c) : a.Inside c :=
  ⟨h'.1.trans h.1, h.2.trans h'.2⟩

theorem Box.Inside.has {a b : Box C} (h : a.Inside b) {p : C × C} (hp : a.Has p) : b.Has p :=
  ⟨h.1.trans hp.1, hp.2.trans h.2⟩

theorem extendPoint_eq (p : C × C) (b : Box C) :
    extendPoint p b = ⟨b.lowerLeft ⊓ p, b.upperRight ⊔ p⟩ := by
  have hmin : ∀ x y : C, (if x < y then x else y) = y ⊓ x := by
    intro x y
    split
    · rename_i h
      exact (inf_eq_right.2 h.le).symm
    · rename_i h
      exact (inf_eq_left.2 (not_lt.1 h)).symm
  have hmax : ∀ x y : C, (if y < x then x else y) = y ⊔ x := by
    intro x y
    split
    · rename_i h
      exact (sup_eq_right.2 h.le).symm
    · rename_i h
      exact (sup_eq_left.2 (not_lt.1 h)).symm
  simp only [extendPoint, hmin, hmax]
  rfl

theorem extendPoint_inside {p : C × C} {b r : Box C} :
    (extendPoint p b).Inside r ↔ b.Inside r ∧ r.Has p := by
  rw [extendPoint_eq, Box.Inside, Box.Inside, Box.Has, le_inf_iff, sup_le_iff]
  constructor
  · exact fun h => ⟨⟨h.1.1, h.2.1⟩, h.1.2, h.2.2⟩
  · exact fun h => ⟨⟨h.1.1, h.2.1⟩, h.1.2, h.2.2⟩

theorem extendBox_inside {a b r : Box C} :
    (extendBox a b).Inside r ↔ b.Inside r ∧ r.Has a.lowerLeft ∧ r.Has a.upperRight := by
  rw [extendBox, extendPoint_inside, extendPoint_inside, and_assoc]

theorem inside_extendBox (a b : Box C) : b.Inside (extendBox a b) :=
  (extendBox_inside.1 (Box.Inside.refl _)).1

theorem added_inside_extendBox (a b : Box C) : a.Inside (extendBox a b) := by
  obtain ⟨-, hlower, hupper⟩ := extendBox_inside.1 (Box.Inside.refl (extendBox a b))
  exact ⟨hlower.1, hupper.2⟩

theorem extendBox_mono (a : Box C) {b c : Box C} (h : b.Inside c) :
    (extendBox a b).Inside (extendBox a c) := by
  obtain ⟨-, hcorners⟩ := extendBox_inside.1 (Box.Inside.refl (extendBox a c))
  exact extendBox_inside.2 ⟨h.trans (inside_extendBox a c), hcorners⟩

theorem extendBox_self_inside (a b : Box C) : (extendBox a a).Inside (extendBox a b) := by
  obtain ⟨-, hcorners⟩ := extendBox_inside.1 (Box.Inside.refl (extendBox a b))
  exact extendBox_inside.2 ⟨added_inside_extendBox a b, hcorners⟩

variable [Field C]

/-- A point that is less than `epsilon` outside counts as inside. -/
def Box.Near (box : Box C) (p : C × C) : Prop :=
  (box.lowerLeft.1 - epsilon < p.1 ∧ p.1 < box.upperRight.1 + epsilon) ∧
    box.lowerLeft.2 - epsilon < p.2 ∧ p.2 < box.upperRight.2 + epsilon

variable [IsStrictOrderedRing C]

theorem epsilon_pos : (0 : C) < epsilon := div_pos one_pos (by norm_num)

theorem close_or_above (x l : C) : (|x - l| < epsilon ∨ l < x) ↔ l - epsilon < x := by
  have hpos : (0 : C) < epsilon := epsilon_pos
  rw [abs_lt]
  constructor
  · intro h
    cases h with
    | inl h => linarith [h.1]
    | inr h => linarith
  · intro h
    by_cases hx : l < x
    · exact Or.inr hx
    · exact Or.inl ⟨by linarith, by linarith⟩

theorem close_or_below (x r : C) : (|x - r| < epsilon ∨ x < r) ↔ x < r + epsilon := by
  have hpos : (0 : C) < epsilon := epsilon_pos
  rw [abs_lt]
  constructor
  · intro h
    cases h with
    | inl h => linarith [h.2]
    | inr h => linarith
  · intro h
    by_cases hx : x < r
    · exact Or.inr hx
    · exact Or.inl ⟨by linarith, by linarith⟩

theorem boxContains_iff (p : C × C) (box : Box C) : boxContains p box = true ↔ box.Near p := by
  rw [boxContains, decide_eq_true_iff, close_or_above, close_or_below, close_or_above,
    close_or_below, Box.Near, and_assoc]

theorem Box.Has.near {box : Box C} {p : C × C} (h : box.Has p) : box.Near p := by
  have hpos : (0 : C) < epsilon := epsilon_pos
  obtain ⟨⟨hleft, hlower⟩, hright, hupper⟩ := h
  exact ⟨⟨by linarith, by linarith⟩, by linarith, by linarith⟩

end boxes

section clusters
variable {C : Type*} [Field C] [LinearOrder C]

/-- What the tree keeps: a box extends the one it overlaps most, or it is kept by itself. -/
def insertBox (boxes : List (Box C)) (box : Box C) : List (Box C) :=
  match bestChild box boxes with
  | none => boxes ++ [extendBox box box]
  | some i => boxes.modify i (extendBox box)

theorem bestStep_found {box : Box C} {boxes : List (Box C)} {best : C × Option ℕ}
    {child : Box C × ℕ} (hchild : boxes[child.2]? = some child.1)
    (h : ∀ i, best.2 = some i → ∃ b, boxes[i]? = some b ∧ 0 < commonArea box b) (i : ℕ)
    (hi : (bestStep box best child).2 = some i) :
    ∃ b, boxes[i]? = some b ∧ 0 < commonArea box b := by
  rw [bestStep] at hi
  split at hi
  · rename_i hbetter
    obtain rfl := Option.some.inj hi
    exact ⟨child.1, hchild, hbetter.1⟩
  · exact h i hi

theorem bestChild_found {box : Box C} {boxes : List (Box C)} {i : ℕ}
    (h : bestChild box boxes = some i) : ∃ b, boxes[i]? = some b ∧ 0 < commonArea box b := by
  refine foldl_inv (bestStep box)
    (fun best => ∀ i, best.2 = some i → ∃ b, boxes[i]? = some b ∧ 0 < commonArea box b)
    boxes.zipIdx (s := ((0 : C), none)) (fun i hi => by cases hi) (fun best child hchild hbest =>
      bestStep_found (List.mem_zipIdx_iff_getElem?.1 hchild) hbest) i h

theorem bestChild_single {box b : Box C} (h : 0 < commonArea box b) :
    bestChild box [b] = some 0 := by
  change (bestStep box (0, none) (b, 0)).2 = some 0
  rw [bestStep, if_pos ⟨h, h⟩]

def Chain : ℕ → Node C → Prop
  | 0, nd => nd.childs = []
  | k + 1, nd => ∃ child, nd.childs = [child] ∧ child.box = nd.box ∧ Chain k child

theorem addToTree_box (box : Box C) (k : ℕ) (nd : Node C) :
    (addToTree box k nd).box = extendBox box nd.box := by
  cases k with
  | zero => rfl
  | succ k => rfl

theorem addToTree_childs (box : Box C) (k : ℕ) (nd : Node C) :
    (addToTree box (k + 1) nd).childs =
      (bestChild box (nd.childs.map Node.box)).elim (nd.childs ++ [addToTree box k (.mk box [])])
        fun i => nd.childs.modify i (addToTree box k) := by
  change (match bestChild box (nd.childs.map Node.box) with
    | none => nd.childs ++ [addToTree box k (.mk box [])]
    | some i => nd.childs.modify i (addToTree box k)) = _
  cases bestChild box (nd.childs.map Node.box) with
  | none => rfl
  | some i => rfl

theorem addToTree_fresh (box : Box C) (k : ℕ) : Chain k (addToTree box k (.mk box [])) := by
  induction k with
  | zero => rfl
  | succ k ih => exact ⟨_, rfl, addToTree_box box k _, ih⟩

theorem addToTree_chain {box : Box C} {k : ℕ} {nd : Node C} (h : Chain k nd)
    (harea : 0 < commonArea box nd.box) : Chain k (addToTree box k nd) := by
  induction k generalizing nd with
  | zero => exact h
  | succ k ih =>
    obtain ⟨child, hchilds, hbox, hchain⟩ := h
    rw [← hbox] at harea
    refine ⟨addToTree box k child, ?_, ?_, ih hchain harea⟩
    · rw [addToTree_childs, hchilds, List.map_singleton, bestChild_single harea]
      rfl
    · rw [addToTree_box, addToTree_box, hbox]

theorem Chain.treeHas {k : ℕ} {nd : Node C} (h : Chain k nd) (p : C × C) :
    treeHas p nd = boxContains p nd.box := by
  induction k generalizing nd with
  | zero =>
    obtain ⟨box, childs⟩ := nd
    obtain rfl : childs = [] := h
    rw [BoundingBoxes.treeHas]
    rfl
  | succ k ih =>
    obtain ⟨box, childs⟩ := nd
    obtain ⟨child, hchilds, hbox, hchain⟩ := h
    obtain rfl : childs = [child] := hchilds
    obtain rfl : child.box = box := hbox
    rw [BoundingBoxes.treeHas, firstHas, firstHas, ih hchain]
    change (if boxContains p child.box then boxContains p child.box else false) =
      boxContains p child.box
    cases boxContains p child.box with
    | false => rfl
    | true => rfl

omit [Field C] [LinearOrder C] in
theorem Chain.getLeafsRec {k : ℕ} {nd : Node C} (h : Chain k nd) :
    getLeafsRec nd = [nd.box] := by
  induction k generalizing nd with
  | zero =>
    obtain ⟨box, childs⟩ := nd
    obtain rfl : childs = [] := h
    rw [BoundingBoxes.getLeafsRec]
    rfl
  | succ k ih =>
    obtain ⟨box, childs⟩ := nd
    obtain ⟨child, hchilds, hbox, hchain⟩ := h
    obtain rfl : childs = [child] := hchilds
    obtain rfl : child.box = box := hbox
    rw [BoundingBoxes.getLeafsRec, childLeafs, childLeafs, ih hchain]
    rfl

theorem firstHas_chains {k : ℕ} (p : C × C) {childs : List (Node C)}
    (h : ∀ child ∈ childs, Chain k child) :
    firstHas p childs = childs.any fun child => boxContains p child.box := by
  induction childs with
  | nil => rfl
  | cons child childs ih =>
    rw [firstHas, List.any_cons, (h child List.mem_cons_self).treeHas p,
      ih fun child hchild => h child (List.mem_cons_of_mem _ hchild)]
    cases boxContains p child.box with
    | false => rfl
    | true => rfl

omit [Field C] [LinearOrder C] in
theorem childLeafs_chains {k : ℕ} {childs : List (Node C)} (h : ∀ child ∈ childs, Chain k child) :
    childLeafs childs = childs.map Node.box := by
  induction childs with
  | nil => rfl
  | cons child childs ih =>
    rw [childLeafs, List.map_cons, (h child List.mem_cons_self).getLeafsRec,
      ih fun child hchild => h child (List.mem_cons_of_mem _ hchild)]
    rfl

structure Keeps (root : Node C) (boxes : List (Box C)) : Prop where
  boxes : root.childs.map Node.box = boxes
  chains : ∀ child ∈ root.childs, Chain 4 child

omit [Field C] [LinearOrder C] in
theorem map_modify_box (f : Node C → Node C) (g : Box C → Box C)
    (h : ∀ nd : Node C, (f nd).box = g nd.box) (childs : List (Node C)) (i : ℕ) :
    (childs.modify i f).map Node.box = (childs.map Node.box).modify i g := by
  apply List.ext_getElem?
  intro j
  rw [List.getElem?_map, List.getElem?_modify, List.getElem?_modify, List.getElem?_map]
  cases childs[j]? with
  | none => rfl
  | some nd =>
    by_cases hij : i = j
    · simp only [hij, if_true, Option.map_eq_map, Option.map_some, h]
    · simp only [hij, if_false, Option.map_eq_map, Option.map_some]

theorem mem_modify {α : Type*} {f : α → α} {xs : List α} {i : ℕ} {x : α}
    (h : x ∈ xs.modify i f) : x ∈ xs ∨ ∃ y, xs[i]? = some y ∧ x = f y := by
  obtain ⟨j, hj⟩ := List.mem_iff_getElem?.1 h
  rw [List.getElem?_modify] at hj
  obtain ⟨y, hy, hx⟩ := Option.map_eq_some_iff.1 hj
  by_cases hij : i = j
  · rw [if_pos hij] at hx
    exact Or.inr ⟨y, hij ▸ hy, hx.symm⟩
  · rw [if_neg hij] at hx
    exact Or.inl (hx ▸ List.mem_iff_getElem?.2 ⟨j, hy⟩)

theorem Keeps.addToTree {root : Node C} {boxes : List (Box C)} (h : Keeps root boxes)
    (box : Box C) : Keeps (addToTree box maxLvl root) (insertBox boxes box) := by
  have hchilds := addToTree_childs box 4 root
  rw [h.boxes] at hchilds
  rw [insertBox]
  cases hbest : bestChild box boxes with
  | none =>
    rw [hbest, Option.elim_none] at hchilds
    constructor
    · rw [maxLvl, hchilds, List.map_append, h.boxes, List.map_singleton, addToTree_box]
      rfl
    · rw [maxLvl, hchilds]
      intro child hchild
      cases List.mem_append.1 hchild with
      | inl hold => exact h.chains child hold
      | inr hnew =>
        rw [List.mem_singleton.1 hnew]
        exact addToTree_fresh box 4
  | some i =>
    rw [hbest, Option.elim_some] at hchilds
    constructor
    · rw [maxLvl, hchilds, map_modify_box _ _ (addToTree_box box 4), h.boxes]
    · rw [maxLvl, hchilds]
      intro child hchild
      cases mem_modify hchild with
      | inl hold => exact h.chains child hold
      | inr hnew =>
        obtain ⟨nd, hnd, rfl⟩ := hnew
        obtain ⟨b, hb, harea⟩ := bestChild_found hbest
        rw [← h.boxes, List.getElem?_map, hnd] at hb
        obtain rfl := Option.some.inj hb
        exact addToTree_chain (h.chains nd (List.mem_of_getElem? hnd)) harea

omit [Field C] [LinearOrder C] in
theorem Keeps.empty (minbox : Box C) : Keeps (.mk minbox []) [] :=
  ⟨rfl, fun _ hchild => absurd hchild List.not_mem_nil⟩

omit [Field C] [LinearOrder C] in
/-- The leaves are the boxes that are kept, and the empty tree is a leaf. -/
theorem Keeps.leafs {root : Node C} {boxes : List (Box C)} (h : Keeps root boxes) :
    getLeafsRec root = if boxes = [] then [root.box] else boxes := by
  obtain ⟨box, childs⟩ := root
  obtain ⟨hboxes, hchains⟩ := h
  cases childs with
  | nil =>
    obtain rfl : boxes = [] := hboxes.symm
    rw [getLeafsRec]
    rfl
  | cons child childs =>
    obtain rfl : boxes = (child :: childs).map Node.box := hboxes.symm
    have hchains : ∀ nd ∈ child :: childs, Chain 4 nd := hchains
    rw [getLeafsRec, childLeafs_chains hchains]
    rfl

theorem Keeps.treeHas {root : Node C} {boxes : List (Box C)} (h : Keeps root boxes) (p : C × C) :
    treeHas p root = (getLeafsRec root).any fun leaf => boxContains p leaf := by
  rw [h.leafs]
  obtain ⟨box, childs⟩ := root
  obtain ⟨hboxes, hchains⟩ := h
  cases childs with
  | nil =>
    obtain rfl : boxes = [] := hboxes.symm
    rw [BoundingBoxes.treeHas, if_pos rfl, List.any_cons, List.any_nil, Bool.or_false]
    rfl
  | cons child childs =>
    obtain rfl : boxes = (child :: childs).map Node.box := hboxes.symm
    have hchains : ∀ nd ∈ child :: childs, Chain 4 nd := hchains
    rw [BoundingBoxes.treeHas, firstHas_chains p hchains, List.map_cons,
      if_neg (List.cons_ne_nil _ _), ← List.map_cons, List.any_map]
    rfl

theorem insertBox_keeps {boxes : List (Box C)} {b : Box C} (hb : b ∈ boxes) (box : Box C) :
    ∃ b' ∈ insertBox boxes box, b.Inside b' := by
  rw [insertBox]
  cases bestChild box boxes with
  | none => exact ⟨b, List.mem_append_left _ hb, Box.Inside.refl b⟩
  | some i =>
    obtain ⟨j, hj⟩ := List.mem_iff_getElem?.1 hb
    have hmod := List.getElem?_modify (extendBox box) i boxes j
    rw [hj] at hmod
    refine ⟨if i = j then extendBox box b else b, List.mem_of_getElem? hmod, ?_⟩
    split
    · exact inside_extendBox box b
    · exact Box.Inside.refl b

theorem insertBox_covers (boxes : List (Box C)) (box : Box C) :
    ∃ b ∈ insertBox boxes box, box.Inside b := by
  rw [insertBox]
  cases hbest : bestChild box boxes with
  | none =>
    exact ⟨_, List.mem_append_right _ (List.mem_singleton_self _), added_inside_extendBox box box⟩
  | some i =>
    obtain ⟨b, hb, -⟩ := bestChild_found hbest
    have hmod := List.getElem?_modify_eq (extendBox box) i boxes
    rw [hb] at hmod
    exact ⟨_, List.mem_of_getElem? hmod, added_inside_extendBox box b⟩

/-- No box that is kept reaches further than the box of the root. -/
theorem insertBox_inside {boxes : List (Box C)} {full : Box C} (h : ∀ b ∈ boxes, b.Inside full)
    (box : Box C) : ∀ b ∈ insertBox boxes box, b.Inside (extendBox box full) := by
  intro b hb
  rw [insertBox] at hb
  cases hbest : bestChild box boxes with
  | none =>
    rw [hbest] at hb
    cases List.mem_append.1 hb with
    | inl hold => exact (h b hold).trans (inside_extendBox box full)
    | inr hnew =>
      rw [List.mem_singleton.1 hnew]
      exact extendBox_self_inside box full
  | some i =>
    rw [hbest] at hb
    cases mem_modify hb with
    | inl hold => exact (h b hold).trans (inside_extendBox box full)
    | inr hnew =>
      obtain ⟨b', hb', rfl⟩ := hnew
      exact extendBox_mono box (h b' (List.mem_of_getElem? hb'))

end clusters

section run
variable {C : Type*} [Field C] [LinearOrder C]

/-- What the tree knows about the padded boxes that have been added. -/
structure Answers (b : BoundingBox C) (kept added : List (Box C)) : Prop where
  keeps : Keeps b.root kept
  covers : ∀ box ∈ added, ∃ k ∈ kept, box.Inside k
  full : ∀ k ∈ kept, k.Inside b.root.box

theorem Answers.add {b : BoundingBox C} {kept added : List (Box C)} (h : Answers b kept added)
    (box : Box C) :
    Answers (b.add box) (insertBox kept (pad box (b.padding / 83000)))
      (added ++ [pad box (b.padding / 83000)]) where
  keeps := h.keeps.addToTree _
  covers x hx := by
    cases List.mem_append.1 hx with
    | inl hold =>
      obtain ⟨k, hk, hin⟩ := h.covers x hold
      obtain ⟨k', hk', hin'⟩ := insertBox_keeps hk (pad box (b.padding / 83000))
      exact ⟨k', hk', hin.trans hin'⟩
    | inr hnew =>
      rw [List.mem_singleton.1 hnew]
      exact insertBox_covers kept _
  full k hk := by
    change k.Inside (addToTree (pad box (b.padding / 83000)) maxLvl b.root).box
    rw [addToTree_box]
    exact insertBox_inside h.full _ k hk

theorem foldl_add (boxes : List (Box C)) {b : BoundingBox C} {kept added : List (Box C)}
    (h : Answers b kept added) :
    ∃ kept', Answers (boxes.foldl BoundingBox.add b) kept'
      (added ++ boxes.map fun box => pad box (b.padding / 83000)) := by
  induction boxes generalizing b kept added with
  | nil =>
    rw [List.map_nil, List.append_nil]
    exact ⟨kept, h⟩
  | cons box boxes ih =>
    obtain ⟨kept', h'⟩ := ih (h.add box)
    rw [List.append_assoc] at h'
    exact ⟨kept', h'⟩

section
omit [Field C]

theorem Answers.new (minbox : Box C) (padding : C) :
    Answers (newBoundingBox minbox padding) [] [] :=
  ⟨Keeps.empty minbox, fun _ h => absurd h List.not_mem_nil, fun _ h => absurd h List.not_mem_nil⟩

theorem Answers.leafs_inside {b : BoundingBox C} {kept added : List (Box C)}
    (h : Answers b kept added) {leaf : Box C} (hleaf : leaf ∈ b.getLeafs) :
    leaf.Inside b.getFullBox := by
  rw [BoundingBox.getLeafs, h.keeps.leafs] at hleaf
  split at hleaf
  · rw [List.mem_singleton.1 hleaf]
    exact Box.Inside.refl _
  · exact h.full leaf hleaf

theorem Answers.covers_leafs {b : BoundingBox C} {kept added : List (Box C)}
    (h : Answers b kept added) {box : Box C} (hbox : box ∈ added) :
    ∃ leaf ∈ b.getLeafs, box.Inside leaf := by
  obtain ⟨k, hk, hin⟩ := h.covers box hbox
  rw [BoundingBox.getLeafs, h.keeps.leafs, if_neg (List.ne_nil_of_mem hk)]
  exact ⟨k, hk, hin⟩

end

variable [IsStrictOrderedRing C]

theorem Answers.contains_iff {b : BoundingBox C} {kept added : List (Box C)}
    (h : Answers b kept added) (p : C × C) :
    b.contains p = true ↔ ∃ leaf ∈ b.getLeafs, leaf.Near p := by
  rw [BoundingBox.contains, h.keeps.treeHas, List.any_eq_true]
  simp only [boxContains_iff]
  rfl

theorem contains_leafs (minbox : Box C) (padding : C) (boxes : List (Box C)) :
    let b := boxes.foldl BoundingBox.add (newBoundingBox minbox padding)
    (∀ box ∈ boxes, ∀ p, (pad box (padding / 83000)).Has p → b.contains p = true) ∧
      (∀ p, b.contains p = true ↔ ∃ leaf ∈ b.getLeafs, leaf.Near p) ∧
      ∀ leaf ∈ b.getLeafs, leaf.Inside b.getFullBox := by
  obtain ⟨kept, h⟩ := foldl_add boxes (Answers.new minbox padding)
  refine ⟨fun box hbox p hp => ?_, h.contains_iff, fun leaf hleaf => h.leafs_inside hleaf⟩
  obtain ⟨leaf, hleaf, hin⟩ := h.covers_leafs (List.mem_map_of_mem hbox)
  exact (h.contains_iff p).2 ⟨leaf, hleaf, (hin.has hp).near⟩

end run

def doubleMinbox : Box ℚ :=
  let max := (2 ^ 53 - 1) * 2 ^ 971
  ⟨(max, max), (-max, -max)⟩

/-- The third box overlaps the first one, and together they reach over the second one. -/
def crossing : List (Box ℚ) := [⟨(0, 0), (10, 1)⟩, ⟨(5, 5), (6, 6)⟩, ⟨(0, 0), (1, 10)⟩]

theorem contains_leafs_crossing :
    let b := crossing.foldl BoundingBox.add (newBoundingBox doubleMinbox 0)
    (∀ box ∈ crossing, ∀ p, (pad box (0 / 83000)).Has p → b.contains p = true) ∧
      (∀ p, b.contains p = true ↔ ∃ leaf ∈ b.getLeafs, leaf.Near p) ∧
      ∀ leaf ∈ b.getLeafs, leaf.Inside b.getFullBox :=
  contains_leafs doubleMinbox 0 crossing

/-- A point half of `epsilon` to the right of the unit square, which is added with the padding of
    the program. -/
theorem contains_beyond_leafs :
    ¬ ∀ (padding : ℚ) (boxes : List (Box ℚ)), (∀ box ∈ boxes, box.Valid) →
      let b := boxes.foldl BoundingBox.add (newBoundingBox doubleMinbox padding)
      (∀ box ∈ boxes, ∀ p, (pad box (padding / 83000)).Has p → b.contains p = true) ∧
        (∀ p, b.contains p = true ↔ ∃ leaf ∈ b.getLeafs, leaf.Has p) ∧
        ∀ leaf ∈ b.getLeafs, leaf.Inside b.getFullBox := by
  intro h
  have hvalid : ∀ box ∈ [(⟨(0, 0), (1, 1)⟩ : Box ℚ)], box.Valid := by
    intro box hbox
    rw [List.mem_singleton.1 hbox]
    exact ⟨zero_le_one, zero_le_one⟩
  have hiff := (h 2500 _ hvalid).2.1 (1 + 5 / 166 + 1 / 200000, 0)
  obtain ⟨leaf, hleaf, -, hright, -⟩ := hiff.1 (by decide +kernel)
  have hleafs : ([(⟨(0, 0), (1, 1)⟩ : Box ℚ)].foldl BoundingBox.add
      (newBoundingBox doubleMinbox 2500)).getLeafs =
      [⟨(-5 / 166, -5 / 166), (171 / 166, 171 / 166)⟩] := by
    decide +kernel
  rw [hleafs] at hleaf
  rw [List.mem_singleton.1 hleaf] at hright
  norm_num at hright

end Pfaedle.BoundingBoxes

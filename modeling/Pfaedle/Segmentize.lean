import Pfaedle.ClusterPartition
import Pfaedle.LineProjection
import Pfaedle.LineSimplify
import Mathlib.Analysis.SpecialFunctions.Log.Basic
import Mathlib.Analysis.SpecialFunctions.Trigonometric.Arctan

set_option autoImplicit false

/-!
# `eval::collector::segmentize`

The evaluation cuts the old and the new shape of a trip into pieces from stop to stop. Coordinates
are exact numbers, and a line that is read behind its end has no result.
-/
namespace Pfaedle.Eval
open Gtfs ShapeBuilder Geo PlaneSegment LoopRules

section model
variable {C : Type} [Field C] [LinearOrder C] (R : ExactRoot C) (M : Elementary C)

def upperBound (dists : List C) (x : C) : ℕ := dists.findIdx fun d => x < d

/-- What `getSegment` takes from the line between two of its points. -/
def innerPoints (pl : List (C × C)) (start stop : LinePoint C) : List (C × C) :=
  (pl.take (stop.lastIndex + 1)).drop (start.lastIndex + 1)

def getSegment (pl : List (C × C)) (start stop : LinePoint C) : Option (List (C × C)) :=
  if start.lastIndex + 1 ≤ stop.lastIndex then
    if stop.lastIndex < pl.length then
      let ret := start.p :: innerPoints pl start stop ++ [stop.p]
      simplify (distToSegment R) 0 ret.length ret
    else none
  else simplify (distToSegment R) 0 2 [start.p, stop.p]

/-- The points of a shape from one distance to another, with their distances. -/
def getWebMercLine (frm upTo : C) : List (ShapePoint C) → List ((C × C) × C)
  | [] => []
  | p :: points =>
    if frm < 0 ∨ -0.01 < p.shapeDistTraveled - frm then
      if 0 ≤ upTo ∧ 0.01 < p.shapeDistTraveled - upTo then []
      else (latLngToWebMerc M p.shapePtLat p.shapePtLon, p.shapeDistTraveled) ::
        getWebMercLine frm upTo points
    else getWebMercLine frm upTo points

/-- The loop that fills `cuts`: only the stops that are known count in `new_trip_dists`. -/
def tripCuts (f : Feed C) (newTripDists : Option (List C)) :
    ℕ → List (StopTime C) → Option (List ((C × C) × C))
  | _, [] => some []
  | i, st :: sts =>
    match ShapeBuilder.stopOf f st with
    | none => tripCuts f newTripDists i sts
    | some stop => do
      let d ← newTripDists.elim (some st.shapeDistTraveled) fun dists => dists[i]?
      let cuts ← tripCuts f newTripDists (i + 1) sts
      some ((latLngToWebMerc M stop.stopLat stop.stopLon, d) :: cuts)

/-- How much of the shape the projection of a stop may use: what comes before the next stop. -/
def sizeBefore (shape : List (C × C)) (dists : List C) : List ((C × C) × C) → ℕ
  | [] => shape.length
  | next :: _ => if -0.5 < next.2 then upperBound dists next.2 else shape.length

def cutFrom (shape : List (C × C)) (dists : List C) :
    LinePoint C → List ((C × C) × C) → Option (List (List (C × C)))
  | _, [] => some []
  | lastLp, cut :: cuts => do
    let curLp ← projectOnAfter R (shape.take (sizeBefore shape dists cuts)) cut.1 lastLp.lastIndex
    let seg ← getSegment R shape lastLp curLp
    let ret ← cutFrom shape dists curLp cuts
    some (seg :: ret)

def sizeFirst (shape : List (C × C)) (dists : List C) (second : C) : ℕ :=
  let before := upperBound dists second
  (if shape.length < before + 1 then shape.length - 1 else before) + 1

def cutLine (shape : List (C × C)) (dists : List C) :
    List ((C × C) × C) → Option (List (List (C × C)))
  | first :: second :: cuts => do
    let lastLp ← projectOnAfter R (shape.take (sizeFirst shape dists second.2)) first.1 0
    cutFrom R shape dists lastLp (second :: cuts)
  | _ => none

def segmentize (f : Feed C) (t : Trip) (shape : List (C × C)) (dists : List C)
    (newTripDists : Option (List C)) : Option (List (List (C × C))) := do
  let sts ← stopTimes f t
  if sts.length < 2 then some []
  else do
    let cuts ← tripCuts M f newTripDists 0 sts
    cutLine R shape dists cuts

/-- The pieces of the old and of the new shape that `add` compares. -/
def comparedPieces (f : Feed C) (t : Trip) (oldS newS : Shape C) (newTripDists : List C) :
    Option (List (List (C × C)) × List (List (C × C))) := do
  let sts ← stopTimes f t
  let first ← sts.head?
  let last ← sts.getLast?
  let oldLine := getWebMercLine M first.shapeDistTraveled last.shapeDistTraveled oldS.points
  let newLine := getWebMercLine M (-1) (-1) newS.points
  let oldSegs ← segmentize R M f t (oldLine.map Prod.fst) (oldLine.map Prod.snd) none
  let newSegs ← segmentize R M f t (newLine.map Prod.fst) (newLine.map Prod.snd)
    (some newTripDists)
  some (oldSegs, newSegs)

end model

section property
variable {C : Type} [Field C] [LinearOrder C] (R : ExactRoot C) (shape : List (C × C))

def ProjectedAt (lp : LinePoint C) (cut : (C × C) × C) : Prop :=
  lp.lastIndex + 1 < shape.length ∧
    lp.p = projectOn R (segmentStart shape lp.lastIndex) cut.1 (segmentEnd shape lp.lastIndex)

/-- A piece goes from one point to a later one. What it leaves out of the shape in between lies
on the segments that it keeps. -/
def PieceOf (ends : LinePoint C × LinePoint C) (seg : List (C × C)) : Prop :=
  ends.1.lastIndex ≤ ends.2.lastIndex ∧ ∃ kept,
    Simplified (distToSegment R) 0 (ends.1.p :: innerPoints shape ends.1 ends.2 ++ [ends.2.p]) seg
      kept

structure Pieces (lps : List (LinePoint C)) (cuts : List ((C × C) × C))
    (segs : List (List (C × C))) : Prop where
  projected : List.Forall₂ (ProjectedAt R shape) lps cuts
  pieces : List.Forall₂ (PieceOf R shape) (lps.zip lps.tail) segs

def known (f : Feed C) (st : StopTime C) : Bool := (ShapeBuilder.stopOf f st).isSome

variable (M : Elementary C)

/-- There is one piece from each known stop to the next one, a piece starts where the last one
ended, and what they take from the shape is all of it between the first and the last stop. -/
def Segmented (f : Feed C) (t : Trip) (newTripDists : Option (List C))
    (segs : List (List (C × C))) : Prop :=
  ∃ sts, stopTimes f t = some sts ∧ (sts.length < 2 → segs = []) ∧ (2 ≤ sts.length →
    segs.length + 1 = (sts.filter (known f)).length ∧
      segs.IsChain (fun seg next => seg.getLast? = next.head?) ∧
      ∃ cuts lps first last, tripCuts M f newTripDists 0 sts = some cuts ∧
        Pieces R shape lps cuts segs ∧ lps.head? = some first ∧ lps.getLast? = some last ∧
        (lps.zip lps.tail).flatMap (fun ends => innerPoints shape ends.1 ends.2) =
          innerPoints shape first last)

/-- The stops are in order on the shape, and a point of the shape lies before the second stop and
another one between the second and the third. -/
structure Cuttable (dists : List C) (cuts : List ((C × C) × C)) : Prop where
  stops : 2 ≤ cuts.length
  points : 2 ≤ shape.length
  sized : dists.length = shape.length
  placed : ∀ cut ∈ cuts, -0.5 < cut.2
  order : cuts.Pairwise fun a b => a.2 ≤ b.2
  started : ∀ second, cuts[1]? = some second → 0 < upperBound dists second.2
  apart : ∀ second third, cuts[1]? = some second → cuts[2]? = some third →
    upperBound dists second.2 < upperBound dists third.2

end property

section projecting
variable {C : Type} [Field C] [LinearOrder C] [IsStrictOrderedRing C] {R : ExactRoot C}
variable {shape pl : List (C × C)} {p : C × C} {a n : ℕ} {lp start stop : LinePoint C}

/-- Before the last point of the line there is a first nearest segment, also in a line without
length. -/
theorem projectOnAfter_first (ha : a + 1 < pl.length) (p : C × C) :
    ∃ s pos, FirstNearest R pl p a s ∧ projectOnAfter R pl p a =
      some ⟨s, pos, projectOn R (segmentStart pl s) p (segmentEnd pl s)⟩ := by
  obtain ⟨s, hrun, hscan⟩ := foldlM_range (scanSegment R pl p) (a + 1 + ·)
    (Scanned R pl p a) (pl.length - (a + 1)) ⟨a, 0, ⊤, 0⟩ scanned_init
    fun m s hm hscan => scanSegment_scanned (by omega) hscan
  rw [← List.range'_eq_map_range] at hrun
  have hbelow := hscan.least a le_rfl (by omega)
  obtain ⟨heq, hafter, hseen, hfirst, -⟩ :=
    hscan.found (ne_top_of_le_ne_top WithTop.coe_ne_top hbelow)
  have hnearest : FirstNearest R pl p a s.smallest :=
    ⟨hafter, by omega, fun k hk hlt => WithTop.coe_lt_coe.1 (heq ▸ hfirst k hk hlt),
      fun k hk hlt => WithTop.coe_le_coe.1 (heq ▸ hscan.least k hk (by omega))⟩
  obtain ⟨q, hq⟩ : ∃ q, pl[s.smallest]? = some q := ⟨_, List.getElem?_eq_getElem (by omega)⟩
  obtain ⟨r, hr⟩ : ∃ r, pl[s.smallest + 1]? = some r :=
    ⟨_, List.getElem?_eq_getElem hnearest.segment⟩
  have hfound : ∃ pos, projectOnAfter R pl p a =
      some ⟨s.smallest, pos, projectOn R (segmentStart pl s.smallest) p
        (segmentEnd pl s.smallest)⟩ := by
    rw [projectOnAfter, nearestSegmentAfter, hrun, segmentStart_of_getElem? hq,
      segmentEnd_of_getElem? hr]
    simp only [Option.bind_eq_bind, Option.bind_some, hq, hr]
    exact ⟨_, rfl⟩
  obtain ⟨pos, hpos⟩ := hfound
  exact ⟨s.smallest, pos, hnearest, hpos⟩

omit [LinearOrder C] [IsStrictOrderedRing C] in
theorem segment_take {k : ℕ} (hk : k + 1 < n) : segmentStart (pl.take n) k = segmentStart pl k ∧
    segmentEnd (pl.take n) k = segmentEnd pl k := by
  have hstart : segmentStart (pl.take n) k = segmentStart pl k := by
    simp [segmentStart, List.getD, List.getElem?_take_of_lt (show k < n by omega)]
  refine ⟨hstart, ?_⟩
  rw [segmentEnd, segmentEnd, hstart]
  simp [List.getD, List.getElem?_take_of_lt hk]

theorem projectOnAfter_take (h : projectOnAfter R (shape.take n) p a = some lp) (d : C) :
    a ≤ lp.lastIndex ∧ lp.lastIndex + 1 < n ∧ ProjectedAt R shape lp (p, d) := by
  by_cases ha : a + 1 < (shape.take n).length
  · obtain ⟨s, pos, hnearest, hrun⟩ := projectOnAfter_first (R := R) ha p
    rw [hrun] at h
    cases h
    have hsegment := hnearest.segment
    rw [List.length_take] at hsegment
    obtain ⟨hstart, hend⟩ : segmentStart (shape.take n) s = segmentStart shape s ∧
        segmentEnd (shape.take n) s = segmentEnd shape s :=
      segment_take (by omega)
    exact ⟨hnearest.after, by dsimp only; omega, by dsimp only; omega, by rw [hstart, hend]⟩
  · rw [projectOnAfter_last (not_lt.1 ha)] at h
    cases h

omit [IsStrictOrderedRing C] in
theorem getSegment_piece (hle : start.lastIndex ≤ stop.lastIndex)
    (hstop : stop.lastIndex < shape.length) :
    ∃ seg, getSegment R shape start stop = some seg ∧ PieceOf R shape (start, stop) seg := by
  obtain ⟨seg, kept, hrun, hseg⟩ := simplify_simplified (distToSegment R) (d := 0) le_rfl
    (start.p :: innerPoints shape start stop ++ [stop.p]) (by simp)
  refine ⟨seg, ?_, hle, kept, hseg⟩
  unfold getSegment
  split_ifs with hlt
  · exact hrun _ le_rfl
  · have hnil : innerPoints shape start stop = [] :=
      List.drop_eq_nil_of_le ((List.length_take_le _ _).trans (by omega))
    rw [hnil] at hrun
    exact hrun 2 le_rfl

end projecting

section pieces
variable {C : Type} [Field C] [LinearOrder C] {R : ExactRoot C} {shape : List (C × C)}
variable {lps : List (LinePoint C)} {cuts : List ((C × C) × C)} {segs : List (List (C × C))}

omit [Field C] [LinearOrder C] in
theorem innerPoints_append {a b c : LinePoint C} (hab : a.lastIndex ≤ b.lastIndex)
    (hbc : b.lastIndex ≤ c.lastIndex) (hb : b.lastIndex < shape.length) :
    innerPoints shape a b ++ innerPoints shape b c = innerPoints shape a c := by
  have htake : (shape.take (c.lastIndex + 1)).take (b.lastIndex + 1) =
      shape.take (b.lastIndex + 1) := by
    rw [List.take_take, min_eq_left (by omega)]
  have hlength : (shape.take (b.lastIndex + 1)).length = b.lastIndex + 1 := by
    rw [List.length_take]
    omega
  unfold innerPoints
  conv_rhs => rw [← List.take_append_drop (b.lastIndex + 1) (shape.take (c.lastIndex + 1)), htake]
  rw [List.drop_append_of_le_length (by omega)]

theorem PieceOf.ends {ends : LinePoint C × LinePoint C} {seg : List (C × C)}
    (h : PieceOf R shape ends seg) :
    seg.head? = some ends.1.p ∧ seg.getLast? = some ends.2.p := by
  obtain ⟨-, kept, hseg⟩ := h
  obtain ⟨hhead, hlast⟩ := hseg.ends
  rw [List.getLast?_concat] at hlast
  exact ⟨hhead, hlast⟩

/-- The end of a piece is the start of the next one. -/
theorem isChain_of_pieces {lp : LinePoint C}
    (h : List.Forall₂ (PieceOf R shape) ((lp :: lps).zip lps) segs) :
    segs.IsChain fun seg next => seg.getLast? = next.head? := by
  induction lps generalizing lp segs with
  | nil =>
    cases h
    exact .nil
  | cons next lps ih =>
    cases h with
    | cons hseg hrest =>
      have hchain := ih hrest
      cases lps with
      | nil =>
        cases hrest
        exact .singleton _
      | cons after lps =>
        cases hrest with
        | cons hnext hrest =>
          exact .cons_cons (hseg.ends.2.trans hnext.ends.1.symm) hchain

theorem flatMap_of_pieces {lp last : LinePoint C} (hlp : lp.lastIndex < shape.length)
    (hprojected : ∀ x ∈ lps, x.lastIndex < shape.length)
    (h : List.Forall₂ (PieceOf R shape) ((lp :: lps).zip lps) segs)
    (hlast : (lp :: lps).getLast? = some last) :
    lp.lastIndex ≤ last.lastIndex ∧
      ((lp :: lps).zip lps).flatMap (fun ends => innerPoints shape ends.1 ends.2) =
        innerPoints shape lp last := by
  induction lps generalizing lp segs with
  | nil =>
    cases hlast
    refine ⟨le_rfl, ?_⟩
    symm
    exact List.drop_eq_nil_of_le (List.length_take_le _ _)
  | cons next lps ih =>
    cases h with
    | cons hseg hrest =>
      rw [List.getLast?_cons_cons] at hlast
      have hnext := hprojected next List.mem_cons_self
      obtain ⟨hle, hall⟩ := ih hnext (fun x hx => hprojected x (List.mem_cons_of_mem _ hx)) hrest
        hlast
      refine ⟨hseg.1.trans hle, ?_⟩
      rw [List.zip_cons_cons, List.flatMap_cons, hall]
      exact innerPoints_append hseg.1 hle hnext

theorem bounded_of_projected (h : List.Forall₂ (ProjectedAt R shape) lps cuts) :
    ∀ x ∈ lps, x.lastIndex < shape.length := by
  intro x hx
  induction h with
  | nil => cases hx
  | cons hlp _ ih =>
    rcases List.mem_cons.1 hx with rfl | hx
    · exact Nat.lt_of_succ_lt hlp.1
    · exact ih hx

end pieces

section cutting
variable {C : Type} [Field C] [LinearOrder C] [IsStrictOrderedRing C] {R : ExactRoot C}
variable {M : Elementary C} {f : Feed C} {shape : List (C × C)} {dists : List C}
variable {cuts : List ((C × C) × C)} {lp : LinePoint C} {segs : List (List (C × C))}

/-- Each round projects its stop behind the last one and adds the piece in between. -/
theorem cutFrom_pieces (h : cutFrom R shape dists lp cuts = some segs) :
    ∃ lps, List.Forall₂ (ProjectedAt R shape) lps cuts ∧
      List.Forall₂ (PieceOf R shape) ((lp :: lps).zip lps) segs := by
  induction cuts generalizing lp segs with
  | nil =>
    cases h
    exact ⟨[], .nil, .nil⟩
  | cons cut cuts ih =>
    obtain ⟨curLp, hcur, h⟩ := Option.bind_eq_some_iff.1 h
    obtain ⟨seg, hseg, h⟩ := Option.bind_eq_some_iff.1 h
    obtain ⟨ret, hret, h⟩ := Option.bind_eq_some_iff.1 h
    cases h
    obtain ⟨hle, -, hprojected⟩ := projectOnAfter_take hcur cut.2
    obtain ⟨seg', hseg', hpiece⟩ := getSegment_piece (R := R) hle (Nat.lt_of_succ_lt hprojected.1)
    rw [hseg] at hseg'
    cases hseg'
    obtain ⟨lps, hlps, hpieces⟩ := ih hret
    exact ⟨curLp :: lps, .cons hprojected hlps, .cons hpiece hpieces⟩

theorem cutLine_pieces (h : cutLine R shape dists cuts = some segs) :
    ∃ lp lps, Pieces R shape (lp :: lps) cuts segs := by
  match cuts, h with
  | first :: second :: cuts, h =>
    obtain ⟨lastLp, hlast, h⟩ := Option.bind_eq_some_iff.1 h
    obtain ⟨-, -, hprojected⟩ := projectOnAfter_take hlast first.2
    obtain ⟨lps, hlps, hpieces⟩ := cutFrom_pieces h
    exact ⟨lastLp, lps, .cons hprojected hlps, hpieces⟩

omit [Field C] [IsStrictOrderedRing C] in
theorem upperBound_mono {x y : C} (h : x ≤ y) : upperBound dists x ≤ upperBound dists y := by
  apply List.findIdx_le_findIdx
  intro d _ hd
  rw [decide_eq_true_eq] at hd ⊢
  exact h.trans_lt hd

omit [IsStrictOrderedRing C] in
theorem sizeBefore_le (hdists : dists.length = shape.length) :
    sizeBefore shape dists cuts ≤ shape.length := by
  unfold sizeBefore
  split
  · exact le_rfl
  · split_ifs
    · exact hdists ▸ List.findIdx_le_length
    · exact le_rfl

omit [IsStrictOrderedRing C] in
theorem sizeBefore_mono (hdists : dists.length = shape.length) {next : (C × C) × C}
    (hplaced : -0.5 < next.2) (horder : ∀ cut ∈ cuts, next.2 ≤ cut.2) :
    sizeBefore shape dists (next :: cuts) ≤ sizeBefore shape dists cuts := by
  cases cuts with
  | nil => exact sizeBefore_le hdists
  | cons after cuts =>
    have hle := horder after List.mem_cons_self
    simp only [sizeBefore, if_pos hplaced, if_pos (hplaced.trans_le hle)]
    exact upperBound_mono hle

theorem projectOnAfter_before {n a : ℕ} (hn : n ≤ shape.length) (ha : a + 1 < n) (p : C × C) :
    ∃ cur, projectOnAfter R (shape.take n) p a = some cur ∧ a ≤ cur.lastIndex ∧
      cur.lastIndex + 1 < n := by
  have hlength : (shape.take n).length = n := by
    rw [List.length_take]
    omega
  obtain ⟨s, pos, hnearest, hrun⟩ := projectOnAfter_first (R := R)
    (show a + 1 < (shape.take n).length by omega) p
  exact ⟨_, hrun, hnearest.after, hlength ▸ hnearest.segment⟩

/-- No stop is looked for behind the end of its part of the shape. -/
theorem cutFrom_isSome (hdists : dists.length = shape.length)
    (hplaced : ∀ cut ∈ cuts, -0.5 < cut.2) (horder : cuts.Pairwise fun a b => a.2 ≤ b.2)
    (hlp : cuts ≠ [] → lp.lastIndex + 1 < sizeBefore shape dists cuts.tail) :
    ∃ segs, cutFrom R shape dists lp cuts = some segs := by
  induction cuts generalizing lp with
  | nil => exact ⟨[], rfl⟩
  | cons cut cuts ih =>
    obtain ⟨cur, hcur, hle, hlt⟩ := projectOnAfter_before (R := R) (sizeBefore_le hdists)
      (hlp (List.cons_ne_nil _ _)) cut.1
    rw [List.tail_cons] at hcur hlt
    have hshape : cur.lastIndex < shape.length :=
      (Nat.lt_of_succ_lt hlt).trans_le (sizeBefore_le hdists)
    obtain ⟨seg, hseg, -⟩ := getSegment_piece (R := R) hle hshape
    rw [List.pairwise_cons] at horder
    have hnext : cuts ≠ [] → cur.lastIndex + 1 < sizeBefore shape dists cuts.tail := by
      intro hne
      cases cuts with
      | nil => exact absurd rfl hne
      | cons next cuts =>
        refine hlt.trans_le (sizeBefore_mono hdists (hplaced next (by simp)) ?_)
        exact (List.pairwise_cons.1 horder.2).1
    obtain ⟨ret, hret⟩ := ih (fun c hc => hplaced c (List.mem_cons_of_mem _ hc)) horder.2 hnext
    refine ⟨seg :: ret, ?_⟩
    rw [cutFrom, hcur, Option.bind_eq_bind, Option.bind_some, hseg, Option.bind_eq_bind,
      Option.bind_some, hret]
    rfl

omit [Field C] [IsStrictOrderedRing C] in
theorem sizeFirst_le {second : C} (hpoints : 2 ≤ shape.length) (h : 0 < upperBound dists second) :
    2 ≤ sizeFirst shape dists second ∧ sizeFirst shape dists second ≤ shape.length ∧
      sizeFirst shape dists second ≤ upperBound dists second + 1 := by
  unfold sizeFirst
  dsimp only
  split_ifs <;> omega

theorem cutLine_isSome (h : Cuttable shape dists cuts) :
    ∃ segs, cutLine R shape dists cuts = some segs := by
  obtain ⟨hstops, hpoints, hdists, hplaced, horder, hstarted, hapart⟩ := h
  match cuts with
  | first :: second :: cuts =>
    obtain ⟨htwo, hshape, hbefore⟩ := sizeFirst_le hpoints (hstarted second rfl)
    obtain ⟨cur, hcur, -, hlt⟩ := projectOnAfter_before (R := R) hshape
      (show 0 + 1 < sizeFirst shape dists second.2 by omega) first.1
    have hnext : cur.lastIndex + 1 < sizeBefore shape dists cuts := by
      cases cuts with
      | nil => exact hlt.trans_le hshape
      | cons third cuts =>
        have hthird := hapart second third rfl rfl
        rw [sizeBefore, if_pos (hplaced third (by simp))]
        omega
    have hrest : ∃ segs, cutFrom R shape dists cur (second :: cuts) = some segs :=
      cutFrom_isSome hdists (fun c hc => hplaced c (List.mem_cons_of_mem _ hc))
        (List.pairwise_cons.1 horder).2 fun _ => hnext
    obtain ⟨segs, hsegs⟩ := hrest
    refine ⟨segs, ?_⟩
    rw [cutLine, hcur]
    exact hsegs
  | [_] => simp at hstops
  | [] => simp at hstops

omit [LinearOrder C] [IsStrictOrderedRing C] in
theorem tripCuts_length {newTripDists : Option (List C)} {sts : List (StopTime C)} {i : ℕ}
    (h : tripCuts M f newTripDists i sts = some cuts) :
    cuts.length = (sts.filter (known f)).length := by
  induction sts generalizing i cuts with
  | nil =>
    cases h
    rfl
  | cons st sts ih =>
    rw [tripCuts] at h
    cases hstop : ShapeBuilder.stopOf f st with
    | none =>
      rw [hstop] at h
      rw [List.filter_cons_of_neg (by simp [known, hstop])]
      exact ih h
    | some stop =>
      rw [hstop] at h
      obtain ⟨d, -, h⟩ := Option.bind_eq_some_iff.1 h
      obtain ⟨rest, hrest, h⟩ := Option.bind_eq_some_iff.1 h
      cases h
      rw [List.filter_cons_of_pos (by simp [known, hstop]), List.length_cons, List.length_cons,
        ih hrest]

theorem segmentize_segmented {t : Trip} {newTripDists : Option (List C)}
    (h : segmentize R M f t shape dists newTripDists = some segs) :
    Segmented R shape M f t newTripDists segs := by
  obtain ⟨sts, hsts, h⟩ := Option.bind_eq_some_iff.1 h
  refine ⟨sts, hsts, fun hshort => ?_, fun hlong => ?_⟩
  · rw [if_pos hshort] at h
    cases h
    rfl
  · rw [if_neg (Nat.not_lt.2 hlong)] at h
    obtain ⟨cuts, hcuts, h⟩ := Option.bind_eq_some_iff.1 h
    obtain ⟨lp, lps, hpieces⟩ := cutLine_pieces h
    obtain ⟨last, hlast⟩ : ∃ last, (lp :: lps).getLast? = some last :=
      ⟨_, List.getLast?_eq_some_getLast (List.cons_ne_nil _ _)⟩
    have hbounded := bounded_of_projected hpieces.projected
    have hcount := hpieces.pieces.length_eq
    have hlps := hpieces.projected.length_eq
    refine ⟨?_, isChain_of_pieces hpieces.pieces, cuts, lp :: lps, lp, last, hcuts, hpieces, rfl,
      hlast, (flatMap_of_pieces (hbounded lp List.mem_cons_self)
        (fun x hx => hbounded x (List.mem_cons_of_mem _ hx)) hpieces.pieces hlast).2⟩
    rw [← tripCuts_length hcuts, ← hlps, ← hcount]
    simp

/-- The old and the new shape are cut at the same stops. -/
theorem comparedPieces_length {t : Trip} {oldS newS : Shape C} {newTripDists : List C}
    {oldSegs newSegs : List (List (C × C))}
    (h : comparedPieces R M f t oldS newS newTripDists = some (oldSegs, newSegs)) :
    oldSegs.length = newSegs.length := by
  obtain ⟨sts, -, h⟩ := Option.bind_eq_some_iff.1 h
  obtain ⟨first, -, h⟩ := Option.bind_eq_some_iff.1 h
  obtain ⟨last, -, h⟩ := Option.bind_eq_some_iff.1 h
  obtain ⟨olds, hold, h⟩ := Option.bind_eq_some_iff.1 h
  obtain ⟨news, hnew, h⟩ := Option.bind_eq_some_iff.1 h
  cases h
  obtain ⟨sts, hsts, hshort, hlong⟩ := segmentize_segmented hold
  obtain ⟨sts', hsts', hshort', hlong'⟩ := segmentize_segmented hnew
  rw [hsts] at hsts'
  cases hsts'
  by_cases hlength : sts.length < 2
  · rw [hshort hlength, hshort' hlength]
  · have hcount := (hlong (Nat.le_of_not_lt hlength)).1
    have hcount' := (hlong' (Nat.le_of_not_lt hlength)).1
    omega

end cutting

section sample

noncomputable def realFunctions : Elementary ℝ :=
  ⟨Real.sin, Real.cos, Real.arctan, Real.exp, Real.log, Real.sqrt⟩

def equatorStop (id : Char) (lon : ℝ) : Stop ℝ :=
  ⟨[id], [id], true, 0, lon, [], [], [], [], [], 0, [], [], [], []⟩

def equatorStopTime (stop : Char) (sequence : ℕ) (dist : ℝ) : StopTime ℝ :=
  ⟨['t'], [stop], sequence, Time.default, Time.default, [], 0, 0, dist, 1⟩

/-- A trip with three stops on the equator, the first one at the origin. -/
def equator (second third : ℝ) : Feed ℝ :=
  { Feed.empty with
    stops := SortedMap.empty.insertAll [(['p'], equatorStop 'p' 0), (['q'], equatorStop 'q' second),
      (['r'], equatorStop 'r' third)]
    stopTimes := [equatorStopTime 'p' 0 0, equatorStopTime 'q' 1 second,
      equatorStopTime 'r' 2 third] }

def equatorTrip : Trip := ⟨[], [], ['t'], [], [], 0, [], [], 0, 0⟩

noncomputable def equatorCut (lon : ℝ) : (ℝ × ℝ) × ℝ := (latLngToWebMerc realFunctions 0 lon, lon)

theorem equator_cuttable : Cuttable ([0, 1, 2, 3].map fun lon => (equatorCut lon).1) [0, 1, 2, 3]
    [equatorCut 0, equatorCut 1, equatorCut 3] where
  stops := by simp
  points := by simp
  sized := rfl
  placed := by
    simp only [List.forall_mem_cons, equatorCut]
    norm_num
  order := by
    simp only [List.pairwise_cons, List.forall_mem_cons, equatorCut]
    norm_num
  started second h := by
    cases h
    norm_num [upperBound, equatorCut, List.findIdx_cons]
  apart second third h h' := by
    cases h
    cases h'
    norm_num [upperBound, equatorCut, List.findIdx_cons]

end sample

end Pfaedle.Eval

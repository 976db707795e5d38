import Pfaedle.BoundingBox
import Pfaedle.PlaneSegment
import Mathlib.Algebra.Order.Field.Basic
import Mathlib.Analysis.Real.Sqrt
import Mathlib.Order.WithBot
import Mathlib.Tactic.FieldSimp
import Mathlib.Tactic.Linarith
import Mathlib.Tactic.NormNum
import Mathlib.Tactic.Ring

set_option autoImplicit false

/-!
# `PolyLine::projectOnAfter`

Coordinates are exact numbers, and no distance reaches `DBL_MAX`. A read behind the last point of
a line has no result.
-/
namespace Pfaedle.Geo
open PlaneSegment LoopRules

section model
variable {C : Type*} [Field C] [LinearOrder C] (R : ExactRoot C)

def dist (p q : C × C) : C :=
  R.sqrt ((q.1 - p.1) * (q.1 - p.1) + (q.2 - p.2) * (q.2 - p.2))

def pointEq (p q : C × C) : Bool :=
  |p.1 - q.1| < BoundingBoxes.epsilon ∧ |p.2 - q.2| < BoundingBoxes.epsilon

def distToSegment (la lb p : C × C) : C :=
  let d := dist R la lb * dist R la lb
  if d = 0 then dist R p la
  else
    let t := ((p.1 - la.1) * (lb.1 - la.1) + (p.2 - la.2) * (lb.2 - la.2)) / d
    if t < 0 then dist R p la
    else if 1 < t then dist R p lb
    else dist R p (la.1 + t * (lb.1 - la.1), la.2 + t * (lb.2 - la.2))

/-- The foot of the perpendicular from `b` on the line of `a` and `c`. -/
def foot (a b c : C × C) : C × C :=
  if c.1 = a.1 then (a.1, b.2)
  else
    let m := (c.2 - a.2) / (c.1 - a.1)
    let bb := a.2 - m * a.1
    ((m * b.2 + b.1 - m * bb) / (m * m + 1), (m * m * b.2 + m * b.1 + bb) / (m * m + 1))

def projectOn (a b c : C × C) : C × C :=
  if pointEq a b then a
  else if pointEq a c then a
  else if pointEq b c then b
  else
    let ret := foot a b c
    let isBetween : Bool := dist R a ret < dist R a c ∧ dist R c ret < dist R a c
    let nearer : Bool := dist R a ret < dist R c ret
    if !isBetween then if nearer then a else c else ret

def len (g : List (C × C)) : C := (g.zip g.tail).foldl (fun ret s => ret + dist R s.1 s.2) 0

structure NearestScan (C : Type*) where
  smallest : ℕ
  totalDist : C
  dist : WithTop C
  smallestDist : C

def scanSegment (pl : List (C × C)) (p : C × C) (s : NearestScan C) (i : ℕ) :
    Option (NearestScan C) := do
  let startP ← pl[i - 1]?
  let endP ← pl[i]?
  let totalDist ← (if 1 < i then
      pl[i - 2]?.map fun before => s.totalDist + dist R before startP
    else some s.totalDist)
  let curDist := distToSegment R startP endP p
  if curDist < s.dist then some ⟨i - 1, totalDist, curDist, totalDist⟩
  else some { s with totalDist := totalDist }

def nearestSegmentAfter (pl : List (C × C)) (p : C × C) (a : ℕ) : Option (ℕ × C) := do
  let s ← (List.range' (a + 1) (pl.length - (a + 1))).foldlM (scanSegment R pl p)
    ⟨a, 0, ⊤, 0⟩
  some (s.smallest, if 0 < len R pl then s.smallestDist / len R pl else 0)

structure LinePoint (C : Type*) where
  lastIndex : ℕ
  totalPos : C
  p : C × C

def projectOnAfter (pl : List (C × C)) (p : C × C) (a : ℕ) : Option (LinePoint C) := do
  let bc ← nearestSegmentAfter R pl p a
  let first ← pl[bc.1]?
  let second ← pl[bc.1 + 1]?
  let ret := projectOn R first p second
  some ⟨bc.1, if 0 < len R pl then bc.2 + dist R first ret / len R pl else bc.2, ret⟩

end model

section property
variable {C : Type*} [Field C] [LinearOrder C] (R : ExactRoot C)
variable (pl : List (C × C)) (p : C × C) (a : ℕ)

/-- The ends of the segment that starts at a point of the line; at the last one, the point. -/
def segmentStart (k : ℕ) : C × C := pl.getD k 0

def segmentEnd (k : ℕ) : C × C := pl.getD (k + 1) (segmentStart pl k)

def OnSegment (k : ℕ) (x : C × C) : Prop :=
  ∃ t, 0 ≤ t ∧ t ≤ 1 ∧ x = pointAt (segmentStart pl k) (segmentEnd pl k) t

/-- `projectOnAfter` stays on the line, finds a point of the part from `a` on that is nearest
there, and its place as a fraction of the length. -/
def ProjectsExactly : Prop :=
  ∃ lp, projectOnAfter R pl p a = some lp ∧
    (∃ k, a ≤ k ∧ k < pl.length ∧ OnSegment pl k lp.p ∧
      lp.totalPos = (len R (pl.take (k + 1)) + dist R (segmentStart pl k) lp.p) / len R pl) ∧
    ∀ k x, a ≤ k → k < pl.length → OnSegment pl k x → dist R p lp.p ≤ dist R p x

def segmentDist (k : ℕ) : C := distToSegment R (segmentStart pl k) (segmentEnd pl k) p

/-- The first of the segments from `a` on that are nearest to `p`. -/
structure FirstNearest (s : ℕ) : Prop where
  after : a ≤ s
  segment : s + 1 < pl.length
  first : ∀ k, a ≤ k → k < s → segmentDist R pl p s < segmentDist R pl p k
  least : ∀ k, a ≤ k → k + 1 < pl.length → segmentDist R pl p s ≤ segmentDist R pl p k

/-- The comparisons up to `EPSILON` do no harm: a point that counts as the start, or that has a
segment whose ends count as equal, does not lie in the direction of the segment, and one that
counts as the end lies on it. -/
def SnapsRight (q r : C × C) : Prop :=
  if pointEq q p ∨ pointEq q r then dot q r p ≤ 0
  else pointEq p r → distToSegment R q r p = 0

structure Projectable : Prop where
  segment : a + 1 < pl.length
  start : len R (pl.take a) = 0
  snaps : ∀ s, FirstNearest R pl p a s →
    SnapsRight R p (segmentStart pl s) (segmentEnd pl s)

end property

section distance
variable {C : Type*} [Field C] [LinearOrder C] (R : ExactRoot C)

theorem dist_nonneg (p q : C × C) : 0 ≤ dist R p q := R.sqrt_nonneg _

variable [IsStrictOrderedRing C]

theorem dist_mul_self (p q : C × C) : dist R p q * dist R p q = sqDist p q :=
  R.mul_self_sqrt _ (sqDist_nonneg p q)

theorem dist_le_iff {p q p' q' : C × C} :
    dist R p q ≤ dist R p' q' ↔ sqDist p q ≤ sqDist p' q' :=
  sqrt_le_sqrt_iff R (sqDist_nonneg p q) (sqDist_nonneg p' q')

theorem dist_lt_iff {p q p' q' : C × C} :
    dist R p q < dist R p' q' ↔ sqDist p q < sqDist p' q' :=
  sqrt_lt_sqrt_iff R (sqDist_nonneg p q) (sqDist_nonneg p' q')

theorem dist_eq_zero_iff {p q : C × C} : dist R p q = 0 ↔ p = q :=
  (sqrt_eq_zero_iff R (sqDist_nonneg p q)).trans sqDist_eq_zero_iff

theorem distToSegment_eq (q r p : C × C) :
    distToSegment R q r p = dist R p (nearest q r p) := by
  rw [distToSegment, dist_mul_self]
  change (if sqDist q r = 0 then _ else if dot q r p / sqDist q r < 0 then _
    else if 1 < dot q r p / sqDist q r then _
    else dist R p (pointAt q r (dot q r p / sqDist q r))) = _
  split_ifs with hzero hlow hup
  · rw [nearest, param_of_nonpos (by rw [hzero, div_zero]), pointAt_zero]
  · rw [nearest, param_of_nonpos hlow.le, pointAt_zero]
  · rw [nearest, param_of_one_le hup.le, pointAt_one]
  · rw [nearest, param_of_between (not_lt.1 hlow) (not_lt.1 hup)]

theorem distToSegment_le {q r p : C × C} {t : C} (h₀ : 0 ≤ t) (h₁ : t ≤ 1) :
    distToSegment R q r p ≤ dist R p (pointAt q r t) := by
  rw [distToSegment_eq, dist_le_iff]
  exact sqDist_nearest_le q r p h₀ h₁

omit [IsStrictOrderedRing C] in
theorem foot_eq {a b c : C × C} (h : sqDist a c ≠ 0) :
    foot a b c = pointAt a c (dot a c b / sqDist a c) := by
  unfold foot
  split_ifs with hvertical
  · have hy : c.2 - a.2 ≠ 0 := by
      intro hy
      apply h
      simp [sqDist, hvertical, hy]
    apply Prod.ext
    · simp [pointAt, hvertical]
    · simp only [pointAt, dot, sqDist, hvertical, sub_self, mul_zero, zero_add]
      field_simp
      ring
  · have hx : c.1 - a.1 ≠ 0 := sub_ne_zero.2 hvertical
    have hsum : (c.2 - a.2) / (c.1 - a.1) * ((c.2 - a.2) / (c.1 - a.1)) + 1 =
        sqDist a c / ((c.1 - a.1) * (c.1 - a.1)) := by
      unfold sqDist
      field_simp
      ring
    apply Prod.ext
    · simp only [hsum, pointAt, dot]
      field_simp
      unfold sqDist
      ring
    · simp only [hsum, pointAt, dot]
      field_simp
      unfold sqDist
      ring

theorem projectOn_of_apart {a b c : C × C} (hab : pointEq a b = false) (hac : pointEq a c = false)
    (hbc : pointEq b c = false) : projectOn R a b c = nearest a c b := by
  have hpos : 0 < sqDist a c := by
    apply lt_of_le_of_ne (sqDist_nonneg a c)
    intro hzero
    have heq : a = c := sqDist_eq_zero_iff.1 hzero.symm
    subst heq
    simp [pointEq, BoundingBoxes.epsilon_pos] at hac
  have hscale : ∀ x y : C, x * sqDist a c < y * sqDist a c ↔ x < y :=
    fun x y => mul_lt_mul_iff_left₀ hpos
  have hone : ∀ x : C, x * sqDist a c < sqDist a c ↔ x < 1 := fun x => by
    rw [← hscale x 1, one_mul]
  unfold projectOn
  simp only [hab, hac, hbc, foot_eq hpos.ne', dist_lt_iff, sqDist_left_pointAt,
    sqDist_right_pointAt, hscale, hone]
  rw [nearest]
  generalize hu : dot a c b / sqDist a c = u
  rcases le_or_gt u 0 with hlow | hlow
  · have hout : ¬ (u - 1) * (u - 1) < 1 := by nlinarith
    have hnear : u * u < (u - 1) * (u - 1) := by nlinarith
    simp [hout, hnear, param_of_nonpos (hu.trans_le hlow)]
  rcases le_or_gt 1 u with hup | hup
  · have hout : ¬ u * u < 1 := by nlinarith
    have hfar : ¬ u * u < (u - 1) * (u - 1) := by nlinarith
    simp [hout, hfar, param_of_one_le (hup.trans_eq hu.symm)]
  · have hstart : u * u < 1 := by nlinarith
    have hend : (u - 1) * (u - 1) < 1 := by nlinarith
    simp [hstart, hend, param_of_between (hu ▸ hlow.le) (hu ▸ hup.le), hu]

/-- `projectOn` finds the nearest point of the segment, or snaps to a point that is none. -/
theorem projectOn_eq_nearest_iff {q p r : C × C} :
    projectOn R q p r = nearest q r p ↔ SnapsRight R p q r := by
  unfold SnapsRight
  by_cases hstart : pointEq q p ∨ pointEq q r
  · have hsnap : projectOn R q p r = q := by
      unfold projectOn
      rcases hstart with h | h <;> simp [h]
    rw [if_pos hstart, hsnap, eq_comm, nearest_eq_left_iff]
  · rw [if_neg hstart]
    simp only [not_or, Bool.not_eq_true] at hstart
    by_cases hend : pointEq p r
    · have hsnap : projectOn R q p r = p := by
        simp [projectOn, hstart.1, hstart.2, hend]
      rw [hsnap, distToSegment_eq, dist_eq_zero_iff]
      simp [hend]
    · have hfree := projectOn_of_apart R hstart.1 hstart.2 (Bool.not_eq_true _ ▸ hend)
      simp [hfree, hend]

theorem projectOn_cases (q p r : C × C) :
    projectOn R q p r = q ∨ projectOn R q p r = p ∨ projectOn R q p r = nearest q r p := by
  by_cases hqp : pointEq q p
  · exact .inl (by simp [projectOn, hqp])
  by_cases hqr : pointEq q r
  · exact .inl (by simp [projectOn, hqr])
  by_cases hpr : pointEq p r
  · exact .inr (.inl (by simp [projectOn, hqp, hqr, hpr]))
  · simp only [Bool.not_eq_true] at hqp hqr hpr
    exact .inr (.inr (projectOn_of_apart R hqp hqr hpr))

theorem projectOn_eq_nearest {q p r : C × C}
    (h : dist R p (projectOn R q p r) = distToSegment R q r p) :
    projectOn R q p r = nearest q r p := by
  rw [distToSegment_eq] at h
  rcases projectOn_cases R q p r with heq | heq | heq
  · rw [heq] at h ⊢
    have hstart := eq_nearest (a := q) (b := r) (p := p) (t := 0) le_rfl zero_le_one
    rw [pointAt_zero] at hstart
    exact hstart ((dist_le_iff R).1 h.le)
  · rw [heq] at h ⊢
    rw [(dist_eq_zero_iff R).2 rfl] at h
    exact (dist_eq_zero_iff R).1 h.symm
  · exact heq

end distance

section length
variable {C : Type*} [Field C] [LinearOrder C] (R : ExactRoot C)

@[simp]
theorem len_nil : len R [] = 0 := rfl

theorem len_cons_cons (p q : C × C) (rest : List (C × C)) :
    len R (p :: q :: rest) = dist R p q + len R (q :: rest) := by
  have hsum : ∀ (l : List ((C × C) × (C × C))) (c : C),
      l.foldl (fun ret s => ret + dist R s.1 s.2) c =
        c + l.foldl (fun ret s => ret + dist R s.1 s.2) 0 := by
    intro l
    induction l with
    | nil => simp
    | cons s l ih =>
      intro c
      rw [List.foldl_cons, List.foldl_cons, ih (c + _), ih (0 + _), zero_add, add_assoc]
  unfold len
  simp only [List.tail_cons, List.zip_cons_cons, List.foldl_cons, zero_add]
  rw [hsum]

/-- Also behind the end of the line, where nothing is added. -/
theorem len_take_succ [IsStrictOrderedRing C] (pl : List (C × C)) (k : ℕ) :
    len R (pl.take (k + 2)) =
      len R (pl.take (k + 1)) + dist R (segmentStart pl k) (segmentEnd pl k) := by
  induction k generalizing pl with
  | zero =>
    match pl with
    | [] => simp [segmentStart, segmentEnd, (dist_eq_zero_iff R).2]
    | [p] => simp [segmentStart, segmentEnd, (dist_eq_zero_iff R).2]
    | p :: q :: rest =>
      simp only [List.take_succ_cons, List.take_zero, len_cons_cons]
      simp [len, segmentStart, segmentEnd]
  | succ k ih =>
    match pl with
    | [] => simp [segmentStart, segmentEnd, (dist_eq_zero_iff R).2]
    | [p] => simp [segmentStart, segmentEnd, (dist_eq_zero_iff R).2]
    | p :: q :: rest =>
      have hrest := ih (q :: rest)
      simp only [List.take_succ_cons, len_cons_cons] at hrest ⊢
      rw [hrest, add_assoc]
      rfl

@[simp]
theorem len_take_one (pl : List (C × C)) : len R (pl.take 1) = 0 := by
  cases pl <;> simp [len]

theorem len_take_mono [IsStrictOrderedRing C] (pl : List (C × C)) {j k : ℕ} (h : j ≤ k) :
    len R (pl.take j) ≤ len R (pl.take k) := by
  induction h with
  | refl => exact le_rfl
  | step h ih =>
    rename_i k
    apply ih.trans
    cases k with
    | zero =>
      change _ ≤ len R (pl.take 1)
      simp
    | succ k =>
      rw [len_take_succ]
      exact le_add_of_nonneg_right (dist_nonneg R _ _)

end length

section scan
variable {C : Type*} [Field C] [LinearOrder C] {R : ExactRoot C}
variable {pl : List (C × C)} {p : C × C} {a : ℕ}

omit [LinearOrder C] in
theorem segmentStart_of_getElem? {k : ℕ} {q : C × C} (h : pl[k]? = some q) :
    segmentStart pl k = q := by
  simp [segmentStart, List.getD, h]

omit [LinearOrder C] in
theorem segmentEnd_of_getElem? {k : ℕ} {r : C × C} (h : pl[k + 1]? = some r) :
    segmentEnd pl k = r := by
  simp [segmentEnd, List.getD, h]

variable (R pl p a) in
/-- What the loop knows after `m` segments. The length counts from the segment `a` on. -/
structure Scanned (m : ℕ) (s : NearestScan C) : Prop where
  total : s.totalDist = len R (pl.take (a + m)) - len R (pl.take a)
  least : ∀ k, a ≤ k → k < a + m → s.dist ≤ segmentDist R pl p k
  found : s.dist ≠ ⊤ → s.dist = segmentDist R pl p s.smallest ∧ a ≤ s.smallest ∧
    s.smallest < a + m ∧ (∀ k, a ≤ k → k < s.smallest → s.dist < segmentDist R pl p k) ∧
    s.smallestDist = len R (pl.take (s.smallest + 1)) - len R (pl.take a)

theorem scanned_init : Scanned R pl p a 0 ⟨a, 0, ⊤, 0⟩ :=
  ⟨by simp, fun k hk hlt => by omega, fun h => absurd rfl h⟩

theorem scanSegment_scanned [IsStrictOrderedRing C] {m : ℕ} {s : NearestScan C}
    (hm : a + m + 1 < pl.length)
    (h : Scanned R pl p a m s) :
    ∃ s', scanSegment R pl p s (a + 1 + m) = some s' ∧ Scanned R pl p a (m + 1) s' := by
  obtain ⟨q, hq⟩ : ∃ q, pl[a + m]? = some q := ⟨_, List.getElem?_eq_getElem (by omega)⟩
  obtain ⟨r, hr⟩ : ∃ r, pl[a + m + 1]? = some r := ⟨_, List.getElem?_eq_getElem hm⟩
  have hdist : distToSegment R q r p = segmentDist R pl p (a + m) := by
    rw [segmentDist, segmentStart_of_getElem? hq, segmentEnd_of_getElem? hr]
  -- The segment before adds its length, but the one before `a` never does.
  have htotal : (if 1 < a + m + 1 then
      pl[a + m + 1 - 2]?.map fun before => s.totalDist + dist R before q
      else some s.totalDist) =
        some (len R (pl.take (a + (m + 1))) - len R (pl.take a)) := by
    rcases Nat.eq_zero_or_pos (a + m) with hzero | hpos
    · obtain ⟨rfl, rfl⟩ : a = 0 ∧ m = 0 := by omega
      simp [h.total]
    · obtain ⟨k, hk⟩ : ∃ k, a + m = k + 1 := ⟨a + m - 1, by omega⟩
      obtain ⟨before, hbefore⟩ : ∃ before, pl[k]? = some before :=
        ⟨_, List.getElem?_eq_getElem (by omega)⟩
      rw [if_pos (by omega), show a + m + 1 - 2 = k by omega, hbefore, Option.map_some, h.total,
        show a + (m + 1) = k + 2 by omega, len_take_succ, hk, segmentStart_of_getElem? hbefore,
        segmentEnd_of_getElem? (hk ▸ hq)]
      rw [add_sub_right_comm]
  rw [scanSegment, show a + 1 + m = a + m + 1 by omega, Nat.add_sub_cancel, hq, hr]
  simp only [Option.bind_eq_bind, Option.bind_some, htotal, hdist]
  have hcover : ∀ k, k < a + (m + 1) → k < a + m ∨ k = a + m := fun k hk => by omega
  split_ifs with hlt
  · refine ⟨_, rfl, rfl, ?_, fun _ => ⟨rfl, by simp, by simp, ?_, rfl⟩⟩
    · intro k hk hkm
      rcases hcover k hkm with hbefore | rfl
      · exact hlt.le.trans (h.least k hk hbefore)
      · exact le_rfl
    · intro k hk hkm
      exact hlt.trans_le (h.least k hk hkm)
  · refine ⟨_, rfl, rfl, ?_, fun hfound => ?_⟩
    · intro k hk hkm
      rcases hcover k hkm with hbefore | rfl
      · exact h.least k hk hbefore
      · exact not_lt.1 hlt
    · obtain ⟨heq, hafter, hseen, hfirst, hsmallest⟩ := h.found hfound
      exact ⟨heq, hafter, by simp; omega, hfirst, hsmallest⟩

theorem nearestSegmentAfter_spec [IsStrictOrderedRing C] (ha : a + 1 < pl.length)
    (hlen : 0 < len R pl) :
    ∃ s, FirstNearest R pl p a s ∧ nearestSegmentAfter R pl p a =
      some (s, (len R (pl.take (s + 1)) - len R (pl.take a)) / len R pl) := by
  obtain ⟨s, hrun, hscan⟩ := foldlM_range (scanSegment R pl p) (a + 1 + ·)
    (Scanned R pl p a) (pl.length - (a + 1)) ⟨a, 0, ⊤, 0⟩ scanned_init
    fun m s hm hscan => scanSegment_scanned (by omega) hscan
  rw [← List.range'_eq_map_range] at hrun
  have hbelow := hscan.least a le_rfl (by omega)
  obtain ⟨heq, hafter, hseen, hfirst, hsmallest⟩ :=
    hscan.found (ne_top_of_le_ne_top WithTop.coe_ne_top hbelow)
  refine ⟨s.smallest, ⟨hafter, by omega, ?_, ?_⟩, ?_⟩
  · intro k hk hlt
    exact WithTop.coe_lt_coe.1 (heq ▸ hfirst k hk hlt)
  · intro k hk hlt
    exact WithTop.coe_le_coe.1 (heq ▸ hscan.least k hk (by omega))
  · rw [nearestSegmentAfter, hrun]
    simp [hlen, hsmallest]

theorem FirstNearest.unique {s s' : ℕ} (h : FirstNearest R pl p a s)
    (h' : FirstNearest R pl p a s') : s = s' := by
  rcases lt_trichotomy s s' with hlt | heq | hlt
  · exact absurd (h.least s' h'.after h'.segment) (not_le.2 (h'.first s h.after hlt))
  · exact heq
  · exact absurd (h'.least s h.after h.segment) (not_le.2 (h.first s' h'.after hlt))

/-- From the last point on there is no segment, and the code reads one point too many. -/
theorem projectOnAfter_last (ha : pl.length ≤ a + 1) : projectOnAfter R pl p a = none := by
  have hnone : pl[a + 1]? = none := List.getElem?_eq_none ha
  have hloop : nearestSegmentAfter R pl p a =
      some (a, if 0 < len R pl then 0 / len R pl else 0) := by
    rw [nearestSegmentAfter, Nat.sub_eq_zero_of_le ha]
    rfl
  rw [projectOnAfter, hloop]
  cases hfirst : pl[a]? <;> simp [hfirst, hnone]

theorem projectOnAfter_spec [IsStrictOrderedRing C] {s : ℕ} (hlen : 0 < len R pl)
    (hs : FirstNearest R pl p a s) :
    projectOnAfter R pl p a = some ⟨s,
      (len R (pl.take (s + 1)) - len R (pl.take a)) / len R pl +
        dist R (segmentStart pl s) (projectOn R (segmentStart pl s) p (segmentEnd pl s)) /
          len R pl,
      projectOn R (segmentStart pl s) p (segmentEnd pl s)⟩ := by
  have hsegment := hs.segment
  have hafter := hs.after
  obtain ⟨s', hs', hrun⟩ :=
    nearestSegmentAfter_spec (p := p) (show a + 1 < pl.length by omega) hlen
  obtain rfl := hs.unique hs'
  obtain ⟨q, hq⟩ : ∃ q, pl[s]? = some q := ⟨_, List.getElem?_eq_getElem (by omega)⟩
  obtain ⟨r, hr⟩ : ∃ r, pl[s + 1]? = some r := ⟨_, List.getElem?_eq_getElem (by omega)⟩
  rw [projectOnAfter, hrun, segmentStart_of_getElem? hq, segmentEnd_of_getElem? hr]
  simp [hq, hr, hlen]

end scan

section exactness
variable {C : Type*} [Field C] [LinearOrder C] [IsStrictOrderedRing C] {R : ExactRoot C}
variable {pl : List (C × C)} {p : C × C} {a : ℕ}

theorem OnSegment.dist_ge {k : ℕ} {x : C × C} (h : OnSegment pl k x) :
    segmentDist R pl p k ≤ dist R p x := by
  obtain ⟨t, h₀, h₁, rfl⟩ := h
  exact distToSegment_le R h₀ h₁

theorem OnSegment.dist_start_le {k : ℕ} {x : C × C} (h : OnSegment pl k x) :
    dist R (segmentStart pl k) x ≤ dist R (segmentStart pl k) (segmentEnd pl k) := by
  obtain ⟨t, h₀, h₁, rfl⟩ := h
  rw [dist_le_iff, sqDist_left_pointAt]
  exact mul_le_of_le_one_left (sqDist_nonneg _ _) (mul_le_one₀ h₁ h₀ h₁)

variable (pl p) in
theorem onSegment_nearest (k : ℕ) :
    OnSegment pl k (nearest (segmentStart pl k) (segmentEnd pl k) p) :=
  ⟨_, param_nonneg _ _ _, param_le_one _ _ _, rfl⟩

theorem FirstNearest.dist_le {s k : ℕ} {x : C × C} (hs : FirstNearest R pl p a s) (hk : a ≤ k)
    (hlt : k < pl.length) (hx : OnSegment pl k x) : segmentDist R pl p s ≤ dist R p x := by
  by_cases hlast : k + 1 < pl.length
  · exact (hs.least k hk hlast).trans hx.dist_ge
  · have hsegment := hs.segment
    have hafter := hs.after
    obtain ⟨j, rfl⟩ : ∃ j, k = j + 1 := ⟨k - 1, by omega⟩
    apply (hs.least j (by omega) hlt).trans
    apply OnSegment.dist_ge
    obtain ⟨t, h₀, h₁, rfl⟩ := hx
    refine ⟨1, zero_le_one, le_rfl, ?_⟩
    have hend : segmentEnd pl (j + 1) = segmentStart pl (j + 1) := by
      simp [segmentEnd, segmentStart, not_lt.1 hlast]
    rw [hend, pointAt_self, pointAt_one]
    simp [segmentEnd, segmentStart, hlt]

theorem projectsExactly_of (hlen : 0 < len R pl) (h : Projectable R pl p a) :
    ProjectsExactly R pl p a := by
  obtain ⟨s, hs, -⟩ := nearestSegmentAfter_spec (p := p) h.segment hlen
  have hright := (projectOn_eq_nearest_iff R).2 (h.snaps s hs)
  have hsegment := hs.segment
  refine ⟨_, projectOnAfter_spec hlen hs, ⟨s, hs.after, by omega, ?_, ?_⟩, ?_⟩
  · rw [hright]
    exact onSegment_nearest pl p s
  · rw [h.start, sub_zero, add_div]
  · intro k x hk hlt hx
    rw [hright]
    have hle := hs.dist_le hk hlt hx
    rwa [segmentDist, distToSegment_eq] at hle

theorem ProjectsExactly.projectable (hlen : 0 < len R pl) (h : ProjectsExactly R pl p a) :
    Projectable R pl p a := by
  obtain ⟨lp, hrun, ⟨k, hk, hlt, hx, hpos⟩, hnear⟩ := h
  have hsegment : a + 1 < pl.length := by
    by_contra hlast
    rw [projectOnAfter_last (not_lt.1 hlast)] at hrun
    cases hrun
  obtain ⟨s, hs, -⟩ := nearestSegmentAfter_spec (p := p) hsegment hlen
  rw [projectOnAfter_spec hlen hs] at hrun
  cases hrun
  have hsafter := hs.after
  have hslt := hs.segment
  have hle := hnear s _ hsafter (by omega) (onSegment_nearest pl p s)
  rw [← distToSegment_eq] at hle
  have hdist := le_antisymm hle (hs.dist_le hk hlt hx)
  have hright := projectOn_eq_nearest R hdist
  refine ⟨hsegment, ?_, fun s' hs' => ?_⟩
  · simp only [hright] at hx hpos hdist
    rw [← add_div, div_left_inj' hlen.ne'] at hpos
    rcases lt_trichotomy k s with hbefore | rfl | hbehind
    · exact absurd hx.dist_ge (not_le.2 (hdist.trans_lt (hs.first k hk hbefore)))
    · linarith
    · have hmono := len_take_mono R pl (show s + 2 ≤ k + 1 by omega)
      rw [len_take_succ] at hmono
      have hinside := (onSegment_nearest pl p s).dist_start_le (R := R)
      have hend := dist_nonneg R (segmentStart pl k)
        (nearest (segmentStart pl s) (segmentEnd pl s) p)
      have htotal := len_take_mono R pl (Nat.zero_le a)
      rw [List.take_zero, len_nil] at htotal
      linarith
  · rw [← hs.unique hs']
    exact (projectOn_eq_nearest_iff R).1 hright

/-- `projectOnAfter` keeps its promise if and only if it starts before the last point, no length
lies before the segment in front of `a`, and the comparisons up to `EPSILON` do no harm. -/
theorem projectsExactly_iff (R : ExactRoot C) (pl : List (C × C)) (p : C × C) (a : ℕ)
    (hlen : 0 < len R pl) : ProjectsExactly R pl p a ↔ Projectable R pl p a :=
  ⟨fun h => h.projectable hlen, projectsExactly_of hlen⟩

end exactness

section examples

noncomputable def realRoot : ExactRoot ℝ :=
  ⟨Real.sqrt, Real.sqrt_nonneg, fun _ => Real.mul_self_sqrt⟩

theorem dist_right {c x y : ℝ} (h : c ≤ x) : dist realRoot (c, y) (x, y) = x - c := by
  simp [dist, realRoot, Real.sqrt_mul_self (sub_nonneg.2 h)]

theorem projectsExactly_two_points : ProjectsExactly realRoot [(0, 0), (3, 0)] (1, 1) 0 := by
  have hlen : 0 < len realRoot [(0, 0), (3, 0)] := by
    rw [len_cons_cons, dist_right (by norm_num)]
    norm_num [len]
  apply (projectsExactly_iff realRoot [(0, 0), (3, 0)] (1, 1) 0 hlen).2
  refine ⟨by decide, by simp, fun s hs => ?_⟩
  obtain rfl : s = 0 := by
    have hsegment := hs.segment
    simpa using hsegment
  norm_num [SnapsRight, segmentStart, segmentEnd, pointEq, BoundingBoxes.epsilon]

/-- Two of three parts of the line lie before the point at its end that is looked for from the
third point on. -/
theorem third_point_misplaced :
    ¬ ProjectsExactly realRoot [(0, 0), (1, 0), (2, 0), (3, 0)] (3, 0) 2 := by
  have hfirst : len realRoot [(0, 0), (1, 0)] = 1 := by
    rw [len_cons_cons, dist_right (by norm_num)]
    norm_num [len]
  have hlen : 0 < len realRoot [(0, 0), (1, 0), (2, 0), (3, 0)] := by
    simp only [len_cons_cons, dist_right (show (0 : ℝ) ≤ 1 by norm_num),
      dist_right (show (1 : ℝ) ≤ 2 by norm_num), dist_right (show (2 : ℝ) ≤ 3 by norm_num)]
    norm_num [len]
  intro h
  have hstart : len realRoot [(0, 0), (1, 0)] = 0 := (h.projectable hlen).start
  rw [hfirst] at hstart
  exact one_ne_zero hstart

end examples

end Pfaedle.Geo

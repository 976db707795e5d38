import Pfaedle.SetShape
import Pfaedle.ShapeLine
import Pfaedle.TripClusters

set_option autoImplicit false

/-!
# `shape_builder::get_gtfs_shape`

The points of a shape and the distances of the stops along it. A point is left out when it is within a
centimeter of the one before it.
-/
namespace Pfaedle.ShapeBuilder
open Router Gtfs

section model
variable {N E C : Type} [DecidableEq N] [DecidableEq E] [Field C] [LinearOrder C]

/-- `webMercToLatLng`, longitude first, and `get_max_speed`. -/
structure Rendering (E C : Type) where
  latLng : C × C → C × C
  maxSpeed : E → C

/-- The variables that the branches of `get_gtfs_shape` share. -/
structure Trace (C : Type) where
  points : List (ShapePoint C)
  seq : ℕ
  time : C
  lastTime : C
  lastSpeed : C
  dist : C
  lastDist : C
  last : C × C

variable (S : Setting N E C) (P : Polylines E C) (R : Rendering E C) (id : Text)

def travel (st : Trace C) (cur : C × C) : Trace C :=
  let distanceBetweenPoints := S.webMercMeterDist st.last cur
  { st with
    time := st.time + 3.6 * distanceBetweenPoints / st.lastSpeed
    dist := st.dist + distanceBetweenPoints
    last := cur }

def reach (st : Trace C) (cur : C × C) : Trace C :=
  if -0.5 < st.dist then travel S st cur
  else
    { st with
      time := 0
      dist := 0
      last := cur }

def emit (st : Trace C) (cur : C × C) : Trace C :=
  if 0.01 < st.dist - st.lastDist then
    { st with
      points := st.points ++ [⟨id, (R.latLng cur).2, (R.latLng cur).1, st.seq, st.dist⟩]
      seq := st.seq + 1
      lastDist := st.dist
      lastTime := st.time }
  else st

def visitPoint (st : Trace C) (cur : C × C) : Trace C := emit R id (reach S st cur) cur

def emptyHop (st : Trace C) (start end_ : C × C) : Trace C :=
  emit R id (travel S (visitPoint S R id st start) end_) end_

def visitEdge (x : Trace C × Option N) (e : E) : Trace C × Option N :=
  let line := if xor (some (S.g.getFrom e) = x.2) (P.is_reversed e) then P.geom e
    else (P.geom e).reverse
  (line.foldl (visitPoint S R id) { x.1 with lastSpeed := R.maxSpeed e - 10 },
    some (getOtherNd S e x.2))

/-- One round of the loop over the hops; `none` if a null pointer is followed. -/
def visitHop (st : Trace C) (hop : EdgeListHop N E C) : Option (Trace C) :=
  if hop.edges = [] then do
    let start ← hop.start
    let end_ ← hop.end_
    some (emptyHop S R id st (S.g.geom start) (S.g.geom end_))
  else some (hop.edges.reverse.foldl (visitEdge S P R id) (st, hop.start)).1

structure HopVectors (C : Type) where
  hopDists : List C
  hopTimes : List C
  costs : List C

def shapeRound (x : Trace C × HopVectors C) (hop : EdgeListHop N E C) :
    Option (Trace C × HopVectors C) := do
  let st ← visitHop S P R id x.1 hop
  some (st, ⟨x.2.hopDists ++ [st.lastDist], x.2.hopTimes ++ [st.lastTime], x.2.costs ++ [hop.cost]⟩)

def startTrace : Trace C := ⟨[], 0, 0, 0, 50.0, -1, -1, (0, 0)⟩

/-- `sts` are the stop times of the trip; `none` if the assertion on their number fails. -/
def getGtfsShape (sts : List (StopTime C)) (hops : List (EdgeListHop N E C)) :
    Option (Shape C × HopVectors C) :=
  if hops.length + 1 = sts.length then do
    let (st, v) ← hops.foldlM (shapeRound S P R id) (startTrace, ⟨[0], [], [0]⟩)
    some (⟨id, st.points⟩, v)
  else none

end model

section trace
variable {N E C : Type} [Field C] [LinearOrder C] {S : Setting N E C} {P : Polylines E C}
  (R : Rendering E C) (id : Text) {st st' : Trace C}

def Trace.dists (st : Trace C) : List C := st.points.map ShapePoint.shapeDistTraveled

structure Unstarted (st : Trace C) : Prop where
  points : st.points = []
  seq : st.seq = 0
  dist : st.dist = -1
  lastDist : st.lastDist = -1

/-- Points have been reached, and the last one that was emitted is at `lastDist`. -/
structure Started (st : Trace C) : Prop where
  seq : st.points.map ShapePoint.shapePtSequence = List.range st.seq
  head : st.dists.head? = some 0
  last : st.dists.getLast? = some st.lastDist
  sorted : st.dists.Pairwise (· < ·)
  nonneg : 0 ≤ st.lastDist
  le : st.lastDist ≤ st.dist

structure Extends (st st' : Trace C) : Prop where
  started : Started st'
  points : st.points <+: st'.points
  lastDist : st.lastDist ≤ st'.lastDist

theorem Extends.trans {st'' : Trace C} (h : Extends st st') (h' : Extends st' st'') :
    Extends st st'' :=
  ⟨h'.started, h.points.trans h'.points, h.lastDist.trans h'.lastDist⟩

theorem Started.refl (h : Started st) : Extends st st := ⟨h, List.prefix_rfl, le_refl _⟩

variable [IsStrictOrderedRing C]

theorem Started.emit (h : Started st) (cur : C × C) : Extends st (emit R id st cur) := by
  unfold ShapeBuilder.emit
  split
  · rename_i hfar
    have hlt : st.lastDist < st.dist := by linarith
    have hle : ∀ d ∈ st.dists, d ≤ st.lastDist := by
      intro d hd
      obtain ⟨ds, hds⟩ := List.getLast?_eq_some_iff.1 h.last
      rw [hds] at hd
      have hsorted := h.sorted
      rw [hds, List.pairwise_append] at hsorted
      rcases List.mem_append.1 hd with hd | hd
      · exact (hsorted.2.2 d hd _ (List.mem_singleton_self _)).le
      · rw [List.mem_singleton.1 hd]
    refine ⟨⟨?_, ?_, ?_, ?_, ?_, le_refl _⟩, List.prefix_append _ _, hlt.le⟩
    · simp [h.seq, List.range_succ]
    · have hhead := h.head
      unfold Trace.dists at hhead ⊢
      simp [hhead]
    · simp [Trace.dists]
    · have hsorted := h.sorted
      unfold Trace.dists at hsorted hle ⊢
      rw [List.map_append, List.pairwise_append]
      refine ⟨hsorted, by simp, ?_⟩
      intro d hd d' hd'
      have heq : d' = st.dist := by simpa using hd'
      rw [heq]
      exact (hle d hd).trans_lt hlt
    · exact h.nonneg.trans hlt.le
  · exact h.refl

theorem Started.travel (hmetric : ∀ p q, 0 ≤ S.webMercMeterDist p q) (h : Started st)
    (cur : C × C) : Extends st (travel S st cur) := by
  have hstep := hmetric st.last cur
  refine ⟨⟨h.seq, h.head, h.last, h.sorted, h.nonneg, ?_⟩, List.prefix_rfl, le_refl _⟩
  change st.lastDist ≤ st.dist + S.webMercMeterDist st.last cur
  linarith [h.le]

theorem Started.visitPoint (hmetric : ∀ p q, 0 ≤ S.webMercMeterDist p q) (h : Started st)
    (cur : C × C) : Extends st (visitPoint S R id st cur) := by
  unfold ShapeBuilder.visitPoint reach
  have hpos : -0.5 < st.dist := by linarith [h.nonneg, h.le]
  rw [if_pos hpos]
  have htravel := h.travel hmetric cur
  exact htravel.trans (htravel.started.emit R id cur)

theorem Unstarted.visitPoint (h : Unstarted st) (cur : C × C) :
    Extends st (visitPoint S R id st cur) := by
  have hneg : ¬ -0.5 < st.dist := by
    rw [h.dist]
    norm_num
  unfold ShapeBuilder.visitPoint reach ShapeBuilder.emit
  rw [if_neg hneg]
  dsimp only
  rw [h.lastDist, if_pos (by norm_num), h.points, h.seq]
  refine ⟨⟨?_, rfl, rfl, ?_, le_refl _, le_refl _⟩, ?_, ?_⟩
  · simp [List.range_succ]
  · simp [Trace.dists]
  · simp [h.points]
  · change st.lastDist ≤ 0
    rw [h.lastDist]
    norm_num

def Ready (st : Trace C) : Prop := Unstarted st ∨ Started st

theorem Ready.visitPoint (hmetric : ∀ p q, 0 ≤ S.webMercMeterDist p q) (h : Ready st)
    (cur : C × C) : Extends st (visitPoint S R id st cur) := by
  cases h with
  | inl hnew => exact hnew.visitPoint R id cur
  | inr hold => exact hold.visitPoint R id hmetric cur

theorem Ready.foldl_points (hmetric : ∀ p q, 0 ≤ S.webMercMeterDist p q) {line : List (C × C)}
    (hline : line ≠ []) (h : Ready st) :
    Extends st (line.foldl (ShapeBuilder.visitPoint S R id) st) := by
  induction line generalizing st with
  | nil => exact absurd rfl hline
  | cons p line ih =>
    have hstep := h.visitPoint R id hmetric p
    by_cases hnil : line = []
    · rw [hnil]
      exact hstep
    · exact hstep.trans (ih hnil (Or.inr hstep.started))

variable [DecidableEq N]

theorem Ready.visitEdge (hmetric : ∀ p q, 0 ≤ S.webMercMeterDist p q) {e : E}
    (hgeom : P.geom e ≠ []) (h : Ready st) (node : Option N) :
    Extends st (visitEdge S P R id (st, node) e).1 := by
  have hspeed : Ready { st with lastSpeed := R.maxSpeed e - 10 } := by
    cases h with
    | inl hnew => exact Or.inl ⟨hnew.points, hnew.seq, hnew.dist, hnew.lastDist⟩
    | inr hold =>
      exact Or.inr ⟨hold.seq, hold.head, hold.last, hold.sorted, hold.nonneg, hold.le⟩
  have hline : (if xor (some (S.g.getFrom e) = node) (P.is_reversed e) then P.geom e
      else (P.geom e).reverse) ≠ [] := by
    split
    · exact hgeom
    · simpa using hgeom
  have hext := hspeed.foldl_points R id hmetric hline
  exact ⟨hext.started, hext.points, hext.lastDist⟩

theorem Ready.foldl_edges (hmetric : ∀ p q, 0 ≤ S.webMercMeterDist p q) {es : List E}
    (hes : es ≠ []) (hgeom : ∀ e ∈ es, P.geom e ≠ []) (h : Ready st) (node : Option N) :
    Extends st (es.foldl (ShapeBuilder.visitEdge S P R id) (st, node)).1 := by
  induction es generalizing st node with
  | nil => exact absurd rfl hes
  | cons e es ih =>
    have hstep := h.visitEdge R id hmetric (hgeom e List.mem_cons_self) node
    rw [List.foldl_cons]
    by_cases hnil : es = []
    · rw [hnil]
      exact hstep
    · exact hstep.trans (ih hnil (fun x hx => hgeom x (List.mem_cons_of_mem _ hx))
        (Or.inr hstep.started) _)

/-- The polylines along a hop have points, and a hop without edges has two ends. -/
structure HopDrawn (P : Polylines E C) (hop : EdgeListHop N E C) : Prop where
  geom : ∀ e ∈ hop.edges, P.geom e ≠ []
  ends : hop.edges = [] → hop.start.isSome ∧ hop.end_.isSome

theorem Ready.visitHop (hmetric : ∀ p q, 0 ≤ S.webMercMeterDist p q) {hop : EdgeListHop N E C}
    (hhop : HopDrawn P hop) (h : Ready st) :
    ∃ st', visitHop S P R id st hop = some st' ∧ Extends st st' := by
  unfold ShapeBuilder.visitHop
  by_cases hnil : hop.edges = []
  · obtain ⟨hstart, hend⟩ := hhop.ends hnil
    obtain ⟨start, hstart⟩ := Option.isSome_iff_exists.1 hstart
    obtain ⟨end_, hend⟩ := Option.isSome_iff_exists.1 hend
    rw [if_pos hnil, hstart, hend]
    refine ⟨_, rfl, ?_⟩
    unfold emptyHop
    have hfst := h.visitPoint R id hmetric (S.g.geom start)
    have htravel := hfst.started.travel hmetric (S.g.geom end_)
    exact (hfst.trans htravel).trans (htravel.started.emit R id _)
  · rw [if_neg hnil]
    exact ⟨_, rfl, h.foldl_edges R id hmetric (by simpa using hnil)
      (fun e he => hhop.geom e (List.mem_reverse.1 he)) hop.start⟩

end trace

section shape
variable {N E C : Type} [DecidableEq N] [Field C] [LinearOrder C] {S : Setting N E C}
  {P : Polylines E C} (R : Rendering E C) (id : Text) {st : Trace C} {v : HopVectors C}

/-- The distances of the stops after `k` hops. -/
structure Measures (k : ℕ) (st : Trace C) (v : HopVectors C) : Prop where
  length : v.hopDists.length = k + 1
  costs : v.costs.length = k + 1
  head : v.hopDists.head? = some 0
  sorted : v.hopDists.Pairwise (· ≤ ·)
  le : ∀ d ∈ v.hopDists, d ≤ max st.lastDist 0
  ready : Ready st
  points : ∀ d ∈ v.hopDists, d = 0 ∨ d ∈ st.dists
  started : k ≠ 0 → Started st

theorem measures_start : Measures 0 (startTrace : Trace C) ⟨[0], [], [0]⟩ where
  length := rfl
  costs := rfl
  head := rfl
  sorted := List.pairwise_singleton _ _
  le := by simp
  ready := Or.inl ⟨rfl, rfl, rfl, rfl⟩
  points := by simp
  started h := absurd rfl h

theorem Extends.dists_subset {st' : Trace C} (h : Extends st st') : ∀ d ∈ st.dists, d ∈ st'.dists := by
  intro d hd
  unfold Trace.dists at hd ⊢
  exact (h.points.map _).subset hd

variable [IsStrictOrderedRing C]

theorem Measures.shapeRound (hmetric : ∀ p q, 0 ≤ S.webMercMeterDist p q) {k : ℕ}
    (h : Measures k st v) {hop : EdgeListHop N E C} (hhop : HopDrawn P hop) :
    ∃ st' v', shapeRound S P R id (st, v) hop = some (st', v') ∧ Measures (k + 1) st' v' := by
  obtain ⟨st', hvisit, hext⟩ := h.ready.visitHop R id hmetric hhop
  refine ⟨st', ⟨v.hopDists ++ [st'.lastDist], v.hopTimes ++ [st'.lastTime], v.costs ++ [hop.cost]⟩,
    ?_, ?_⟩
  · unfold ShapeBuilder.shapeRound
    rw [hvisit]
    rfl
  · have hnonneg := hext.started.nonneg
    have hmax : max st.lastDist 0 ≤ st'.lastDist := max_le hext.lastDist hnonneg
    have hlast : st'.lastDist ∈ st'.dists := List.mem_of_getLast? hext.started.last
    refine ⟨by simp [h.length], by simp [h.costs], by simp [h.head], ?_, ?_,
      Or.inr hext.started, ?_, fun _ => hext.started⟩
    · rw [List.pairwise_append]
      refine ⟨h.sorted, List.pairwise_singleton _ _, ?_⟩
      intro d hd d' hd'
      rw [List.mem_singleton.1 hd']
      exact (h.le d hd).trans hmax
    · intro d hd
      rcases List.mem_append.1 hd with hd | hd
      · exact ((h.le d hd).trans hmax).trans (le_max_left _ _)
      · rw [List.mem_singleton.1 hd]
        exact le_max_left _ _
    · intro d hd
      rcases List.mem_append.1 hd with hd | hd
      · exact (h.points d hd).imp_right (hext.dists_subset d)
      · rw [List.mem_singleton.1 hd]
        exact Or.inr hlast

theorem Measures.foldlM (hmetric : ∀ p q, 0 ≤ S.webMercMeterDist p q) {k : ℕ} (h : Measures k st v)
    {hops : List (EdgeListHop N E C)} (hhops : ∀ hop ∈ hops, HopDrawn P hop) :
    ∃ st' v', hops.foldlM (ShapeBuilder.shapeRound S P R id) (st, v) = some (st', v') ∧
      Measures (k + hops.length) st' v' := by
  induction hops generalizing k st v with
  | nil => exact ⟨st, v, rfl, h⟩
  | cons hop hops ih =>
    obtain ⟨st₁, v₁, hround, h₁⟩ := h.shapeRound R id hmetric (hhops hop List.mem_cons_self)
    obtain ⟨st₂, v₂, hloop, h₂⟩ := ih h₁ fun x hx => hhops x (List.mem_cons_of_mem _ hx)
    refine ⟨st₂, v₂, ?_, ?_⟩
    · rw [List.foldlM_cons, hround]
      exact hloop
    · rw [List.length_cons, Nat.add_comm hops.length 1, ← Nat.add_assoc]
      exact h₂

omit [IsStrictOrderedRing C] in
theorem Ready.written (h : Ready st) :
    st.points.map ShapePoint.shapePtSequence = List.range st.points.length ∧
      (∀ p ∈ st.points.head?, p.shapeDistTraveled = 0) ∧ st.dists.Pairwise (· < ·) := by
  cases h with
  | inl hnew =>
    unfold Trace.dists
    simp [hnew.points]
  | inr hold =>
    have hlen : st.points.length = st.seq := by
      have hmap := congrArg List.length hold.seq
      simpa using hmap
    refine ⟨hlen ▸ hold.seq, ?_, hold.sorted⟩
    intro p hp
    have hhead := hold.head
    unfold Trace.dists at hhead
    rw [List.head?_map, Option.mem_def.1 hp] at hhead
    exact Option.some.inj hhead

/-- The points are numbered and their distances increase, and the stops are at points. -/
theorem getGtfsShape_wellFormed (hmetric : ∀ p q, 0 ≤ S.webMercMeterDist p q)
    {sts : List (StopTime C)} {hops : List (EdgeListHop N E C)} (hlen : hops.length + 1 = sts.length)
    (hhops : ∀ hop ∈ hops, HopDrawn P hop) :
    ∃ s v, getGtfsShape S P R id sts hops = some (s, v) ∧
      s.points.map ShapePoint.shapePtSequence = List.range s.points.length ∧
      (∀ p ∈ s.points.head?, p.shapeDistTraveled = 0) ∧
      (s.points.map ShapePoint.shapeDistTraveled).Pairwise (· < ·) ∧
      v.hopDists.length = hops.length + 1 ∧ v.hopDists.head? = some 0 ∧
      v.hopDists.Pairwise (· ≤ ·) ∧
      (2 ≤ sts.length → (∀ d ∈ v.hopDists, ∃ p ∈ s.points, p.shapeDistTraveled = d) ∧
        ∀ (K : CostArithmetic C) (interpolateTimes : Bool),
          ∃ sts', interpolated K interpolateTimes sts v.hopDists v.costs = some sts' ∧
            ∀ st ∈ sts', ∃ p ∈ s.points, p.shapeDistTraveled = st.shapeDistTraveled) := by
  obtain ⟨st, v, hloop, h⟩ := measures_start.foldlM R id hmetric hhops
  rw [Nat.zero_add] at h
  obtain ⟨hseq, hfirst, hsorted⟩ := h.ready.written
  refine ⟨⟨id, st.points⟩, v, ?_, hseq, hfirst, hsorted, h.length, h.head, h.sorted, ?_⟩
  · unfold getGtfsShape
    rw [if_pos hlen, hloop]
    rfl
  · intro htwo
    have hstarted := h.started (by omega)
    have hpoints : ∀ d ∈ v.hopDists, ∃ p ∈ st.points, p.shapeDistTraveled = d := by
      intro d hd
      have hmem : d ∈ st.dists := by
        cases h.points d hd with
        | inl hzero => rw [hzero]; exact List.mem_of_mem_head? hstarted.head
        | inr hmem => exact hmem
      exact List.mem_map.1 hmem
    refine ⟨hpoints, ?_⟩
    intro K interpolateTimes
    have hne : sts ≠ [] := fun hnil => by simp [hnil] at htwo
    obtain ⟨sts', hsts, -, hmap⟩ := setStopTimes_some K interpolateTimes
      (h.length.trans hlen) (h.costs.trans hlen)
      (sizeT ((sts.getLast hne).departureTime.totalSeconds -
        (sts.head hne).departureTime.totalSeconds : ℤ))
      (v.costs.foldl K.add K.zero) true (sts.head hne).departureTime.totalSeconds
    refine ⟨sts', ?_, ?_⟩
    · unfold interpolated
      rw [if_pos ⟨h.length.trans hlen, h.costs.trans hlen⟩, List.head?_eq_some_head hne,
        List.getLast?_eq_some_getLast hne]
      exact hsts
    · intro st' hst'
      exact hpoints _ (hmap ▸ List.mem_map_of_mem hst')

def timelessStop : StopTime ℚ := ⟨[], [], 0, .default, .default, [], 0, 0, 0, 0⟩

/-- Along an edge of the fork, and from its end to another node. -/
theorem getGtfsShape_wellFormed_fork :
    let hops : List (EdgeListHop (Fin 4) (Fin 4) ℚ) :=
      [⟨[0], 2, some 0, some 1⟩, ⟨[], 1, some 1, some 2⟩]
    ∃ s v, getGtfsShape (forkSetting false true) forkLines ⟨fun p => p, fun _ => 60⟩ "shp_1".toList
        (List.replicate 3 timelessStop) hops = some (s, v) ∧
      v.hopDists.length = 3 ∧ ∀ d ∈ v.hopDists, ∃ p ∈ s.points, p.shapeDistTraveled = d := by
  intro hops
  have hmetric : ∀ p q, 0 ≤ (forkSetting false true).webMercMeterDist p q := fun p q => abs_nonneg _
  have hhops : ∀ hop ∈ hops, HopDrawn forkLines hop := by
    intro hop hhop
    rcases List.mem_pair.1 hhop with rfl | rfl
    · exact ⟨by decide, by decide⟩
    · exact ⟨by decide, by decide⟩
  obtain ⟨s, v, hshape, -, -, -, hlen, -, -, hpoints⟩ :=
    getGtfsShape_wellFormed ⟨fun p => p, fun _ => 60⟩ "shp_1".toList hmetric
      (show hops.length + 1 = (List.replicate 3 timelessStop).length from rfl) hhops
  exact ⟨s, v, hshape, hlen, (hpoints (by decide)).1⟩

end shape

section clusters
variable {D : Type} {B : Builder D} {f : Feed D}

def Long (f : Feed D) (ret : List (List Trip)) : Prop :=
  ∀ g ∈ ret, ∀ t ∈ g, ∃ sts, stopTimes f t = some sts ∧ 2 ≤ sts.length

theorem clusterTrip_long {mots : List ℤ} {c c' : Clusters} {trip : Trip}
    (h : clusterTrip B f mots c trip = some c') (hc : Long f c.ret) : Long f c'.ret := by
  unfold clusterTrip at h
  split at h
  · rw [← Option.some.inj h]
    exact hc
  · obtain ⟨sts, hsts, h⟩ := Option.bind_eq_some_iff.1 h
    split at h
    · rw [← Option.some.inj h]
      exact hc
    · rename_i htwo
      have hlong : ∃ sts, stopTimes f trip = some sts ∧ 2 ≤ sts.length := ⟨sts, hsts, by omega⟩
      split at h
      · rw [← Option.some.inj h]
        exact hc
      · split at h
        · rw [← Option.some.inj h]
          exact hc
        · obtain ⟨first, -, h⟩ := Option.bind_eq_some_iff.1 h
          obtain ⟨last, -, h⟩ := Option.bind_eq_some_iff.1 h
          obtain ⟨-, -, h⟩ := Option.bind_eq_some_iff.1 h
          obtain ⟨-, -, h⟩ := Option.bind_eq_some_iff.1 h
          obtain ⟨found, -, h⟩ := Option.bind_eq_some_iff.1 h
          split at h
          · rw [← Option.some.inj h]
            intro g hg t ht
            rcases mem_modify hg with hold | ⟨g', hg', rfl⟩
            · exact hc g hold t ht
            · rcases List.mem_append.1 ht with ht | ht
              · exact hc g' hg' t ht
              · exact List.mem_singleton.1 ht ▸ hlong
          · obtain ⟨-, -, h⟩ := Option.bind_eq_some_iff.1 h
            rw [← Option.some.inj h]
            intro g hg t ht
            rcases List.mem_append.1 hg with hold | hnew
            · exact hc g hold t ht
            · rw [List.mem_singleton.1 hnew] at ht
              exact List.mem_singleton.1 ht ▸ hlong

/-- `get_gtfs_shape` is called for trips with a hop. -/
theorem clusterTrips_long {mots : List ℤ} {clusters : List (List Trip)}
    (h : clusterTrips B f mots = some clusters) : Long f clusters := by
  have hfold : ∀ (trips : List Trip) (c c' : Clusters),
      trips.foldlM (clusterTrip B f mots) c = some c' → Long f c.ret → Long f c'.ret := by
    intro trips
    induction trips with
    | nil =>
      intro c c' h hc
      rw [← Option.some.inj h]
      exact hc
    | cons t trips ih =>
      intro c c' h hc
      obtain ⟨c₁, hstep, hrest⟩ := Option.bind_eq_some_iff.1 h
      exact ih c₁ c' hrest (clusterTrip_long hstep hc)
  obtain ⟨c, hc, rfl⟩ := Option.map_eq_some_iff.1 h
  exact hfold _ _ _ hc fun g hg => absurd hg List.not_mem_nil

end clusters

end Pfaedle.ShapeBuilder

import Pfaedle.StopSequence

set_option autoImplicit false

/-!
# `shape_builder::get_shape` for all trips

The routing of a trip is a parameter; what is modelled is which shapes are erased and which are
added. The clusters are shuffled before they are processed.
-/
namespace Pfaedle.ShapeBuilder

open Gtfs

section builder
variable {D C : Type}

/-- What `get_gtfs_shape` computes from a route, apart from the shape id that it puts into the
points. -/
structure GtfsShape (D C : Type) where
  points : Text → List (ShapePoint D)
  hopDists : List D
  costs : List C

/-- The state of the loops: the feed, `shpUsage` and `_curShpCnt`. -/
structure Replacement (D : Type) where
  feed : Feed D
  shpUsage : SortedMap Text ℕ
  curShpCnt : ℕ

def countUsage (f : Feed D) (shpUsage : SortedMap Text ℕ) (t : Trip) : SortedMap Text ℕ :=
  match shapeOf f t with
  | none => shpUsage
  | some shape =>
    if shape.points.isEmpty then shpUsage
    else shpUsage.alter shape.shapeId fun old => old.getD 0 + 1

def Replacement.start (f : Feed D) : Replacement D where
  feed := f
  shpUsage := f.trips.values.foldl (countUsage f) .empty
  curShpCnt := 0

def Replacement.usage (r : Replacement D) (id : Text) : ℕ := (r.shpUsage.find? id).getD 0

/-- The id that `get_free_shapeId` tries for a value of the counter. -/
def shapeIdFor (f : Feed D) (t : Trip) (curShpCnt : ℕ) : Text :=
  "shp_".toList ++
    (match routeOf f t with
      | some r => r.routeId ++ "_".toList ++ toStr (sizeT r.routeType)
      | none => t.tripId) ++ "_".toList ++ toStr curShpCnt

/-- The loop of `get_free_shapeId`, with a bound on its rounds. -/
def findFreeId (f : Feed D) (t : Trip) : ℕ → ℕ → Option (Text × ℕ)
  | 0, _ => none
  | rounds + 1, curShpCnt =>
    let curShpCnt := curShpCnt + 1
    let ret := shapeIdFor f t curShpCnt
    if (f.shapes.find? ret).isSome then findFreeId f t rounds curShpCnt else some (ret, curShpCnt)

def getFreeShapeId (r : Replacement D) (t : Trip) : Option (Text × ℕ) :=
  findFreeId r.feed t (r.feed.shapes.entries.length + 1) r.curShpCnt

variable (getGtfsShape : Feed D → Trip → Option (GtfsShape D C)) (K : CostArithmetic C)
variable (interpolateTimes : Bool)

/-- The shape of a cluster is built for its first trip; `none` if the routing throws. -/
def buildShape (r : Replacement D) (first : Trip) :
    Option ((Shape D × GtfsShape D C) × Replacement D) := do
  let m ← getGtfsShape r.feed first
  let (id, curShpCnt) ← getFreeShapeId r first
  some ((⟨id, m.points id⟩, m), { r with curShpCnt })

def Replacement.eraseShape (r : Replacement D) (id : Text) : Replacement D :=
  { r with feed := { r.feed with shapes := r.feed.shapes.erase id } }

def decrement (n : ℕ) : ℕ := if n = 0 then 2 ^ 64 - 1 else n - 1

/-- The old shape of a trip loses one user, and is erased with the last one. -/
def releaseShape (r : Replacement D) (t : Trip) : Replacement D :=
  match shapeOf r.feed t with
  | none => r
  | some shape =>
    if !shape.points.isEmpty && 0 < r.usage shape.shapeId then
      let r := { r with shpUsage := r.shpUsage.set t.shapeId (decrement (r.usage t.shapeId)) }
      if r.usage t.shapeId = 0 then r.eraseShape t.shapeId else r
    else r

def replaceTrip (shp : Shape D × GtfsShape D C) (r : Replacement D) (trip : Trip) :
    Option (Replacement D) := do
  let t ← r.feed.trips.find? trip.tripId
  let r := releaseShape r t
  let feed ← setShape K interpolateTimes trip.tripId shp.1 shp.2.hopDists shp.2.costs r.feed
  some { r with feed }

def matchCluster (r : Replacement D) (cluster : List Trip) : Option (Replacement D) := do
  let first ← cluster.head?
  let (shp, r) ← buildShape getGtfsShape r first
  cluster.foldlM (replaceTrip K interpolateTimes shp) r

/-- The loop over the clusters in the order that `shuffle` left them in. -/
def matchClusters (f : Feed D) (clusters : List (List Trip)) : Option (Replacement D) :=
  clusters.foldlM (matchCluster getGtfsShape K interpolateTimes) (.start f)

def getShape (B : Builder D) (mots : List ℤ) (shuffle : List (List Trip) → List (List Trip))
    (f : Feed D) : Option (Feed D) := do
  let clusters ← clusterTrips B f mots
  let r ← matchClusters getGtfsShape K interpolateTimes f (shuffle clusters)
  some r.feed

end builder

section freeIds
variable {D : Type}

theorem toStr_injective {m n : ℕ} (h : toStr (m : ℤ) = toStr (n : ℤ)) : m = n := by
  have hdigits : ∀ k : ℕ, toStr (k : ℤ) = Nat.toDigits 10 k := fun k => by
    rw [toStr, if_neg (by omega), Int.natAbs_natCast]
  rw [hdigits, hdigits] at h
  rw [← Nat.ofDigitChars_ten_toDigits (n := m), h, Nat.ofDigitChars_ten_toDigits]

theorem shapeIdFor_injective (f : Feed D) (t : Trip) {m n : ℕ}
    (h : shapeIdFor f t m = shapeIdFor f t n) : m = n :=
  toStr_injective (List.append_cancel_left h)

theorem findFreeId_spec {f : Feed D} {t : Trip} {rounds curShpCnt n : ℕ} {id : Text}
    (h : findFreeId f t rounds curShpCnt = some (id, n)) :
    id ∉ f.shapes.keys ∧ curShpCnt < n ∧ id = shapeIdFor f t n := by
  induction rounds generalizing curShpCnt with
  | zero => cases h
  | succ rounds ih =>
    rw [findFreeId] at h
    split_ifs at h with hused
    · obtain ⟨hfree, hlt, hid⟩ := ih h
      exact ⟨hfree, Nat.lt_of_succ_lt hlt, hid⟩
    · cases h
      rw [SortedMap.find?_isSome_iff] at hused
      exact ⟨hused, Nat.lt_succ_self _, rfl⟩

/-- Of more ids than there are shapes, one is free. -/
theorem findFreeId_none {f : Feed D} {t : Trip} {rounds curShpCnt : ℕ}
    (h : findFreeId f t rounds curShpCnt = none) :
    ∀ k, k < rounds → shapeIdFor f t (curShpCnt + 1 + k) ∈ f.shapes.keys := by
  induction rounds generalizing curShpCnt with
  | zero => exact fun k hk => absurd hk (Nat.not_lt_zero k)
  | succ rounds ih =>
    rw [findFreeId] at h
    split_ifs at h with hused
    intro k hk
    cases k with
    | zero => exact (SortedMap.find?_isSome_iff _ _).1 hused
    | succ k =>
      have hnext := ih h k (by omega)
      rwa [show curShpCnt + 1 + 1 + k = curShpCnt + 1 + (k + 1) from by omega] at hnext

theorem getFreeShapeId_some (r : Replacement D) (t : Trip) : ∃ out, getFreeShapeId r t = some out := by
  cases h : getFreeShapeId r t with
  | some out => exact ⟨out, rfl⟩
  | none =>
    have hused := findFreeId_none h
    have hsub : ((List.range (r.feed.shapes.entries.length + 1)).map
        fun k => shapeIdFor r.feed t (r.curShpCnt + 1 + k)) ⊆ r.feed.shapes.keys := by
      intro id hid
      obtain ⟨k, hk, rfl⟩ := List.mem_map.1 hid
      exact hused k (List.mem_range.1 hk)
    have hnodup : ((List.range (r.feed.shapes.entries.length + 1)).map
        fun k => shapeIdFor r.feed t (r.curShpCnt + 1 + k)).Nodup := by
      refine List.Nodup.map (fun k k' heq => ?_) List.nodup_range
      have hcnt := shapeIdFor_injective _ _ heq
      omega
    have hle := (hnodup.subperm hsub).length_le
    rw [List.length_map, List.length_range, SortedMap.keys, List.length_map] at hle
    omega

end freeIds

section invariant
variable {D C : Type} {f : Feed D} {r r' : Replacement D}

structure Keyed (f : Feed D) : Prop where
  trips : ∀ id t, f.trips.find? id = some t → t.tripId = id
  shapes : ∀ id s, f.shapes.find? id = some s → s.shapeId = id

def usesShape (f : Feed D) (id : Text) (t : Trip) : Bool := t.shapeId = id && hasShape f t

/-- A new shape that is in use; it is never counted, so it is never erased. -/
def Settled (r : Replacement D) (s : Shape D) : Prop :=
  r.feed.shapes.find? s.shapeId = some s ∧ r.usage s.shapeId = 0

def Current (r : Replacement D) (s : Shape D) : Prop :=
  r.usage s.shapeId = 0 ∧ ∀ s', r.feed.shapes.find? s.shapeId = some s' → s' = s

/-- The trips `todo` of the feed `f` have their old shapes yet; the counts are theirs. -/
structure Replacing (f : Feed D) (r : Replacement D) (todo : List Trip) : Prop where
  keyed : Keyed r.feed
  nodup : (todo.map Trip.tripId).Nodup
  trips : ∀ t ∈ todo, r.feed.trips.find? t.tripId = some t
  origin : ∀ t ∈ todo, f.trips.find? t.tripId = some t
  domain : ∀ id, (r.feed.trips.find? id).isSome = (f.trips.find? id).isSome
  live : ∀ t ∈ todo, ∀ s, shapeOf f t = some s → shapeOf r.feed t = some s
  usage : ∀ id, r.usage id = todo.countP (usesShape f id)
  settled : ∀ id t, r.feed.trips.find? id = some t →
    t ∈ todo ∨ ∃ s, Settled r s ∧ t.shapeId = s.shapeId

theorem hasShape_iff {t : Trip} :
    hasShape f t = true ↔ ∃ s, shapeOf f t = some s ∧ s.points.isEmpty = false := by
  rw [hasShape, Option.any_eq_true]
  simp only [Bool.not_eq_true']

theorem usesShape_iff {id : Text} {t : Trip} :
    usesShape f id t = true ↔ t.shapeId = id ∧ hasShape f t = true := by
  rw [usesShape, Bool.and_eq_true, decide_eq_true_iff]

theorem hasShape_congr {t t' : Trip} (h : t.shapeId = t'.shapeId) :
    hasShape f t = hasShape f t' := by
  rw [hasShape, hasShape, shapeOf, shapeOf, h]

theorem usage_set (r : Replacement D) (id : Text) (n : ℕ) (id' : Text) :
    Replacement.usage { r with shpUsage := r.shpUsage.set id n } id' =
      if id' = id then n else r.usage id' := by
  rw [Replacement.usage, SortedMap.find?_set]
  split_ifs
  · rfl
  · rfl

/-- What becomes of the old shape of a trip: nothing, or its last user was this trip. -/
structure Released (f : Feed D) (r r' : Replacement D) (t : Trip) (rest : List Trip) : Prop where
  usage : ∀ id, r'.usage id = rest.countP (usesShape f id)
  feed : r'.feed = r.feed ∨ r'.feed = (r.eraseShape t.shapeId).feed ∧ 0 < r.usage t.shapeId ∧
    r'.usage t.shapeId = 0 ∧ hasShape f t = true

theorem releaseShape_released {t : Trip} {rest : List Trip} (h : Replacing f r (t :: rest)) :
    Released f r (releaseShape r t) t rest := by
  have hcount : ∀ id, r.usage id =
      rest.countP (usesShape f id) + if usesShape f id t = true then 1 else 0 := fun id => by
    rw [h.usage, List.countP_cons]
  have hunused : hasShape f t = false → Released f r r t rest := by
    intro hnot
    refine ⟨fun id => ?_, Or.inl rfl⟩
    rw [hcount, if_neg, Nat.add_zero]
    rw [usesShape_iff, hnot]
    exact fun hh => Bool.false_ne_true hh.2
  have hshared : 0 < r.usage t.shapeId ↔ hasShape f t = true := by
    rw [h.usage, List.countP_pos_iff]
    constructor
    · rintro ⟨t', -, huses⟩
      rw [usesShape_iff] at huses
      rw [← hasShape_congr huses.1]
      exact huses.2
    · exact fun hhas => ⟨t, List.mem_cons_self, usesShape_iff.2 ⟨rfl, hhas⟩⟩
  rw [releaseShape]
  cases hshape : shapeOf r.feed t with
  | none =>
    refine hunused (Bool.eq_false_iff.2 fun hhas => ?_)
    obtain ⟨s, hs, -⟩ := hasShape_iff.1 hhas
    rw [h.live t List.mem_cons_self s hs] at hshape
    cases hshape
  | some shape =>
    have hid : shape.shapeId = t.shapeId := h.keyed.shapes _ _ hshape
    dsimp only
    rw [hid]
    by_cases hhas : hasShape f t = true
    · obtain ⟨s, hs, hne⟩ := hasShape_iff.1 hhas
      have hsame : s = shape := Option.some.inj ((h.live t List.mem_cons_self s hs).symm.trans hshape)
      rw [if_pos (by rw [← hsame, hne, decide_eq_true (hshared.2 hhas)]; rfl)]
      have hdecrement : decrement (r.usage t.shapeId) = rest.countP (usesShape f t.shapeId) := by
        rw [decrement, if_neg (Nat.pos_iff_ne_zero.1 (hshared.2 hhas)), hcount,
          if_pos (usesShape_iff.2 ⟨rfl, hhas⟩)]
        omega
      have husage : ∀ id, Replacement.usage { r with
          shpUsage := r.shpUsage.set t.shapeId (decrement (r.usage t.shapeId)) } id =
            rest.countP (usesShape f id) := by
        intro id
        rw [usage_set]
        split_ifs with heq
        · rw [heq, hdecrement]
        · rw [hcount, if_neg fun huses => heq (usesShape_iff.1 huses).1.symm, Nat.add_zero]
      split_ifs with hzero
      · exact ⟨husage, Or.inr ⟨rfl, hshared.2 hhas, hzero, hhas⟩⟩
      · exact ⟨husage, Or.inl rfl⟩
    · rw [if_neg]
      · exact hunused (Bool.eq_false_iff.2 hhas)
      · rw [Bool.and_eq_true, decide_eq_true_iff]
        exact fun hh => hhas (hshared.1 hh.2)

end invariant

section rounds
variable {D C : Type} {f : Feed D} {r r' : Replacement D} {K : CostArithmetic C}
variable {interpolateTimes : Bool} {shp : Shape D × GtfsShape D C} {t : Trip} {rest : List Trip}

structure Replaced (f : Feed D) (r r' : Replacement D) (s : Shape D) (t : Trip)
    (rest : List Trip) : Prop where
  usage : ∀ id, r'.usage id = rest.countP (usesShape f id)
  current : r'.feed.shapes.find? s.shapeId = some s
  others : ∀ id, id ≠ s.shapeId → r'.feed.shapes.find? id = r.feed.shapes.find? id ∨
    r'.feed.shapes.find? id = none ∧ id = t.shapeId ∧ 0 < r.usage id ∧ r'.usage id = 0 ∧
      hasShape f t = true
  trip : r'.feed.trips.find? t.tripId = some { t with shapeId := s.shapeId }
  otherTrips : ∀ id, id ≠ t.tripId → r'.feed.trips.find? id = r.feed.trips.find? id

theorem replaceTrip_replaced (h : Replacing f r (t :: rest)) (hcurrent : Current r shp.1)
    (hstep : replaceTrip K interpolateTimes shp r t = some r') :
    Replaced f r r' shp.1 t rest := by
  rw [replaceTrip, h.trips t List.mem_cons_self, Option.bind_eq_bind, Option.bind_some] at hstep
  obtain ⟨g, hg, heq⟩ := Option.bind_eq_some_iff.1 hstep
  cases heq
  have hreleased := releaseShape_released h
  obtain ⟨-, -, -, hfeed⟩ := setShape_spec hg
  have hshapes : ∀ id, g.shapes.find? id = if id = shp.1.shapeId
      then some (((releaseShape r t).feed.shapes.find? shp.1.shapeId).getD shp.1)
      else (releaseShape r t).feed.shapes.find? id := fun id => by
    rw [hfeed]
    change (SortedMap.insert _ _ _).find? id = _
    rw [SortedMap.find?_insert]
    split_ifs
    · rfl
    · rfl
  have hfind : ∀ id, g.trips.find? id = (r.feed.trips.find? id).map fun t' =>
      if id = t.tripId then { t' with shapeId := shp.1.shapeId } else t' := fun id => by
    have hkeep : (releaseShape r t).feed.trips = r.feed.trips := by
      rcases hreleased.feed with hsame | ⟨herased, -⟩
      · rw [hsame]
      · rw [herased]
        rfl
    rw [hfeed, ← hkeep]
    exact SortedMap.find?_map _ _ _
  have htrip : g.trips.find? t.tripId = some { t with shapeId := shp.1.shapeId } := by
    rw [hfind, h.trips t List.mem_cons_self, Option.map_some, if_pos rfl]
  have hothers : ∀ id, id ≠ t.tripId → g.trips.find? id = r.feed.trips.find? id := fun id hne => by
    simp only [hfind, if_neg hne, Option.map_id']
  have hcur : ∀ s', r.feed.shapes.find? shp.1.shapeId = some s' → s' = shp.1 := hcurrent.2
  have hgetD : (r.feed.shapes.find? shp.1.shapeId).getD shp.1 = shp.1 := by
    cases hfind : r.feed.shapes.find? shp.1.shapeId with
    | none => rfl
    | some s' => exact hcur s' hfind
  rcases hreleased.feed with hsame | ⟨herased, hpos, hzero, hhas⟩
  · refine ⟨hreleased.usage, ?_, fun id hne => Or.inl ?_, htrip, hothers⟩
    · rw [hshapes, if_pos rfl, hsame, hgetD]
    · rw [hshapes, if_neg hne, hsame]
  · have hrest : ∀ id, (releaseShape r t).feed.shapes.find? id =
        if id = t.shapeId then none else r.feed.shapes.find? id := fun id => by
      rw [herased]
      change (SortedMap.erase _ _).find? id = _
      rw [SortedMap.find?_erase]
      split_ifs
      · rfl
      · rfl
    have hkeep : shp.1.shapeId ≠ t.shapeId := fun heq => by
      rw [← heq, hcurrent.1] at hpos
      exact absurd hpos (Nat.lt_irrefl 0)
    refine ⟨hreleased.usage, ?_, fun id hne => ?_, htrip, hothers⟩
    · rw [hshapes, if_pos rfl, hrest, if_neg hkeep, hgetD]
    · rw [hshapes, if_neg hne, hrest]
      by_cases hid : id = t.shapeId
      · rw [if_pos hid, hid]
        exact Or.inr ⟨rfl, rfl, hpos, hzero, hhas⟩
      · rw [if_neg hid]
        exact Or.inl rfl

theorem Replaced.usage_le (h : Replacing f r (t :: rest)) (hstep : Replaced f r r' shp.1 t rest)
    (id : Text) : r'.usage id ≤ r.usage id := by
  rw [h.usage, hstep.usage, List.countP_cons]
  exact Nat.le_add_right _ _

theorem Replaced.settled_current (hcurrent : Current r shp.1) (h : Replacing f r (t :: rest))
    (hstep : Replaced f r r' shp.1 t rest) : Settled r' shp.1 :=
  ⟨hstep.current, Nat.le_zero.1 (hcurrent.1 ▸ Replaced.usage_le h hstep _)⟩

theorem Replaced.settled (hcurrent : Current r shp.1) (h : Replacing f r (t :: rest))
    (hstep : Replaced f r r' shp.1 t rest) {s : Shape D} (hs : Settled r s) : Settled r' s := by
  refine ⟨?_, Nat.le_zero.1 (hs.2 ▸ Replaced.usage_le h hstep _)⟩
  by_cases hid : s.shapeId = shp.1.shapeId
  · have heq : s = shp.1 := hcurrent.2 s (hid ▸ hs.1)
    rw [heq]
    exact hstep.current
  · rcases hstep.others _ hid with hsame | ⟨-, -, hpos, -⟩
    · rw [hsame]
      exact hs.1
    · rw [hs.2] at hpos
      exact absurd hpos (Nat.lt_irrefl 0)

theorem Replaced.replacing (hcurrent : Current r shp.1) (h : Replacing f r (t :: rest))
    (hstep : Replaced f r r' shp.1 t rest) : Replacing f r' rest := by
  have hnodup := h.nodup
  rw [List.map_cons, List.nodup_cons] at hnodup
  have hne : ∀ t' ∈ rest, t'.tripId ≠ t.tripId := fun t' ht' heq =>
    hnodup.1 (heq ▸ List.mem_map_of_mem ht')
  have hold : ∀ id t', id ≠ t.tripId → r'.feed.trips.find? id = some t' →
      r.feed.trips.find? id = some t' := by
    intro id t' hid hfind
    rwa [hstep.otherTrips id hid] at hfind
  have hself : ∀ t', r'.feed.trips.find? t.tripId = some t' →
      t' = { t with shapeId := shp.1.shapeId } := by
    intro t' hfind
    rw [hstep.trip] at hfind
    exact (Option.some.inj hfind).symm
  refine ⟨⟨fun id t' hfind => ?_, fun id s hfind => ?_⟩, hnodup.2, fun t' ht' => ?_,
    fun t' ht' => h.origin t' (List.mem_cons_of_mem _ ht'), fun id => ?_, fun t' ht' s hs => ?_,
    hstep.usage, fun id t' hfind => ?_⟩
  · by_cases hid : id = t.tripId
    · rw [hid] at hfind ⊢
      rw [hself t' hfind]
    · exact h.keyed.trips id t' (hold id t' hid hfind)
  · by_cases hid : id = shp.1.shapeId
    · rw [hid, hstep.current] at hfind
      rw [← Option.some.inj hfind, hid]
    · rcases hstep.others _ hid with hsame | ⟨hnone, -⟩
      · exact h.keyed.shapes id s (hsame ▸ hfind)
      · rw [hnone] at hfind
        cases hfind
  · rw [hstep.otherTrips _ (hne t' ht')]
    exact h.trips t' (List.mem_cons_of_mem _ ht')
  · rw [← h.domain]
    by_cases hid : id = t.tripId
    · rw [hid, hstep.trip, h.trips t List.mem_cons_self]
      rfl
    · rw [hstep.otherTrips id hid]
  · have hlive := h.live t' (List.mem_cons_of_mem _ ht') s hs
    rw [shapeOf] at hlive ⊢
    by_cases hid : t'.shapeId = shp.1.shapeId
    · rw [hid] at hlive ⊢
      rw [hstep.current, hcurrent.2 s hlive]
    · rcases hstep.others _ hid with hsame | ⟨-, heq, -, hzero, hhas⟩
      · rw [hsame]
        exact hlive
      · -- the last user was counted out, but `t'` would still be counted
        rw [hstep.usage, List.countP_eq_zero] at hzero
        exact absurd (usesShape_iff.2 ⟨rfl, hasShape_congr heq ▸ hhas⟩) (hzero t' ht')
  · by_cases hid : id = t.tripId
    · rw [hid] at hfind
      exact Or.inr ⟨shp.1, hstep.settled_current hcurrent h, by rw [hself t' hfind]⟩
    · have hfind' := hold id t' hid hfind
      rcases h.settled id t' hfind' with hmem | ⟨s, hs, heq⟩
      · cases List.mem_cons.1 hmem with
        | inl heq => exact absurd (heq ▸ (h.keyed.trips id t' hfind').symm) hid
        | inr hrest => exact Or.inl hrest
      · exact Or.inr ⟨s, hstep.settled hcurrent h hs, heq⟩

theorem Replaced.unreferenced (hcurrent : Current r shp.1) (h : Replacing f r (t :: rest))
    (hstep : Replaced f r r' shp.1 t rest) {id : Text} (hid : id ∈ r.feed.shapes.keys)
    (herased : id ∉ r'.feed.shapes.keys) {key : Text} {t' : Trip}
    (ht' : r'.feed.trips.find? key = some t') : t'.shapeId ≠ id := by
  intro heq
  rw [← SortedMap.find?_eq_none_iff] at herased
  have hnew : id ≠ shp.1.shapeId := fun hh => by
    rw [hh, hstep.current] at herased
    cases herased
  rcases hstep.others id hnew with hsame | ⟨-, heqt, -, -, hhas⟩
  · rw [← SortedMap.find?_isSome_iff, ← hsame, herased] at hid
    cases hid
  · have hinv := hstep.replacing hcurrent h
    rcases hinv.settled key t' ht' with hmem | ⟨s, hs, hshape⟩
    · have heqt' : _ = t'.shapeId := heqt.symm.trans heq.symm
      rw [hasShape_congr heqt'] at hhas
      obtain ⟨s, hs, -⟩ := hasShape_iff.1 hhas
      have hlive := hinv.live t' hmem s hs
      rw [shapeOf, heq, herased] at hlive
      cases hlive
    · rw [← heq, hshape, hs.1] at herased
      cases herased

end rounds

section runs
variable {D C : Type} {f : Feed D} {r r' : Replacement D} {K : CostArithmetic C}
variable {interpolateTimes : Bool} {getGtfsShape : Feed D → Trip → Option (GtfsShape D C)}

theorem Replacing.perm {todo todo' : List Trip} (h : Replacing f r todo) (hperm : todo.Perm todo') :
    Replacing f r todo' where
  keyed := h.keyed
  nodup := (hperm.map _).nodup_iff.1 h.nodup
  trips t ht := h.trips t (hperm.mem_iff.2 ht)
  origin t ht := h.origin t (hperm.mem_iff.2 ht)
  domain := h.domain
  live t ht := h.live t (hperm.mem_iff.2 ht)
  usage id := (h.usage id).trans (hperm.countP_eq _)
  settled id t ht := (h.settled id t ht).imp_left hperm.mem_iff.1

/-- A trip that referred to a shape before the call refers to one. -/
theorem Replacing.references {todo : List Trip} (h : Replacing f r todo) {id : Text} {t : Trip}
    (ht : f.trips.find? id = some t) (hshape : (shapeOf f t).isSome) :
    ∃ t', r.feed.trips.find? id = some t' ∧ (shapeOf r.feed t').isSome := by
  have hsome := h.domain id
  rw [ht, Option.isSome_some] at hsome
  obtain ⟨t', ht'⟩ := Option.isSome_iff_exists.1 hsome
  refine ⟨t', ht', ?_⟩
  rcases h.settled id t' ht' with hmem | ⟨s, hs, heq⟩
  · have horigin := h.origin t' hmem
    rw [h.keyed.trips id t' ht', ht] at horigin
    cases horigin
    obtain ⟨s, hs⟩ := Option.isSome_iff_exists.1 hshape
    rw [h.live t hmem s hs]
    rfl
  · rw [shapeOf, heq, hs.1]
    rfl

theorem buildShape_spec {todo : List Trip} (h : Replacing f r todo) {first : Trip}
    {shp : Shape D × GtfsShape D C} {r₁ : Replacement D}
    (hbuild : buildShape getGtfsShape r first = some (shp, r₁)) :
    shp.1.shapeId ∉ r.feed.shapes.keys ∧ r₁ = { r with curShpCnt := r₁.curShpCnt } ∧
      Current r₁ shp.1 ∧ Replacing f r₁ todo := by
  rw [buildShape] at hbuild
  obtain ⟨m, -, hbuild⟩ := Option.bind_eq_some_iff.1 hbuild
  obtain ⟨⟨id, n⟩, hid, hbuild⟩ := Option.bind_eq_some_iff.1 hbuild
  cases hbuild
  obtain ⟨hfree, -, -⟩ := findFreeId_spec hid
  refine ⟨hfree, rfl, ⟨?_, fun s' hs' => ?_⟩, ⟨h.keyed, h.nodup, h.trips, h.origin, h.domain, h.live,
    h.usage, h.settled⟩⟩
  · refine (h.usage id).trans (List.countP_eq_zero.2 fun t ht huses => hfree ?_)
    obtain ⟨heq, hhas⟩ := usesShape_iff.1 huses
    obtain ⟨s, hs, -⟩ := hasShape_iff.1 hhas
    rw [← SortedMap.find?_isSome_iff, ← heq]
    exact Option.isSome_of_mem (h.live t ht s hs)
  · exact absurd ((SortedMap.find?_isSome_iff _ _).1 (Option.isSome_of_mem hs')) hfree

structure ClusterDone (r r' : Replacement D) (s : Shape D) (cluster : List Trip) : Prop where
  settled : ∀ s', Settled r s' → Settled r' s'
  trips : ∀ t ∈ cluster, r'.feed.trips.find? t.tripId = some { t with shapeId := s.shapeId }
  others : ∀ id, (∀ t ∈ cluster, id ≠ t.tripId) →
    r'.feed.trips.find? id = r.feed.trips.find? id

theorem foldlM_replaceTrip {shp : Shape D × GtfsShape D C} {cluster rest : List Trip}
    (h : Replacing f r (cluster ++ rest)) (hcurrent : Current r shp.1)
    (hrun : cluster.foldlM (replaceTrip K interpolateTimes shp) r = some r') :
    Replacing f r' rest ∧ Current r' shp.1 ∧ ClusterDone r r' shp.1 cluster ∧
      (cluster ≠ [] → Settled r' shp.1) := by
  induction cluster generalizing r with
  | nil =>
    cases hrun
    exact ⟨h, hcurrent, ⟨fun _ hs => hs, fun t ht => absurd ht List.not_mem_nil, fun _ _ => rfl⟩,
      fun hne => absurd rfl hne⟩
  | cons t cluster ih =>
    rw [List.foldlM_cons] at hrun
    obtain ⟨r₁, hstep, hrun⟩ := Option.bind_eq_some_iff.1 hrun
    have hreplaced := replaceTrip_replaced h hcurrent hstep
    have hsettled := hreplaced.settled_current hcurrent h
    have hcurrent₁ : Current r₁ shp.1 :=
      ⟨hsettled.2, fun s' hs' => Option.some.inj (hs'.symm.trans hsettled.1)⟩
    obtain ⟨hinv, hcurrent', hdone, -⟩ := ih (hreplaced.replacing hcurrent h) hcurrent₁ hrun
    have hnodup := h.nodup
    rw [List.cons_append, List.map_cons, List.nodup_cons] at hnodup
    refine ⟨hinv, hcurrent', ⟨fun s hs => hdone.settled s (hreplaced.settled hcurrent h hs),
      fun t' ht' => ?_, fun id hid => ?_⟩, fun _ => hdone.settled _ hsettled⟩
    · cases List.mem_cons.1 ht' with
      | inl heq =>
        rw [heq, hdone.others _ fun t'' ht'' heq' => hnodup.1 ?_, hreplaced.trip]
        rw [heq']
        exact List.mem_map_of_mem (List.mem_append_left _ ht'')
      | inr hmem => exact hdone.trips t' hmem
    · rw [List.forall_mem_cons] at hid
      rw [hdone.others id hid.2, hreplaced.otherTrips id hid.1]

structure ClustersDone (r r' : Replacement D) (clusters : List (List Trip)) : Prop where
  settled : ∀ s, Settled r s → Settled r' s
  others : ∀ id, (∀ t ∈ clusters.flatten, id ≠ t.tripId) →
    r'.feed.trips.find? id = r.feed.trips.find? id

theorem foldlM_matchCluster {clusters : List (List Trip)} {skipped : List Trip}
    (h : Replacing f r (clusters.flatten ++ skipped))
    (hrun : clusters.foldlM (matchCluster getGtfsShape K interpolateTimes) r = some r') :
    Replacing f r' skipped ∧ ClustersDone r r' clusters := by
  induction clusters generalizing r with
  | nil =>
    cases hrun
    exact ⟨h, fun _ hs => hs, fun _ _ => rfl⟩
  | cons cluster clusters ih =>
    rw [List.foldlM_cons] at hrun
    obtain ⟨r₂, hcluster, hrun⟩ := Option.bind_eq_some_iff.1 hrun
    rw [matchCluster] at hcluster
    obtain ⟨first, -, hcluster⟩ := Option.bind_eq_some_iff.1 hcluster
    obtain ⟨⟨shp, r₁⟩, hbuild, hcluster⟩ := Option.bind_eq_some_iff.1 hcluster
    obtain ⟨-, hr₁, hcurrent, hinv⟩ := buildShape_spec h hbuild
    rw [List.flatten_cons, List.append_assoc] at hinv
    obtain ⟨hinv₂, -, hdone, -⟩ := foldlM_replaceTrip hinv hcurrent hcluster
    obtain ⟨hinv', hdone'⟩ := ih hinv₂ hrun
    have hsettled : ∀ s, Settled r s → Settled r₁ s := fun s hs => by
      rw [hr₁]
      exact hs
    have hfeed : r₁.feed = r.feed := by rw [hr₁]
    refine ⟨hinv', fun s hs => hdone'.settled s (hdone.settled s (hsettled s hs)), fun id hid => ?_⟩
    rw [List.flatten_cons] at hid
    rw [hdone'.others id fun t ht => hid t (List.mem_append_right _ ht),
      hdone.others id fun t ht => hid t (List.mem_append_left _ ht), hfeed]

theorem usage_foldl_countUsage (hkeys : ∀ id s, f.shapes.find? id = some s → s.shapeId = id)
    (trips : List Trip) (u : SortedMap Text ℕ) (id : Text) :
    ((trips.foldl (countUsage f) u).find? id).getD 0 =
      (u.find? id).getD 0 + trips.countP (usesShape f id) := by
  induction trips generalizing u with
  | nil => rfl
  | cons t trips ih =>
    rw [List.foldl_cons, ih, List.countP_cons, Nat.add_comm (trips.countP _), ← Nat.add_assoc,
      Nat.add_right_cancel_iff]
    rw [countUsage]
    cases hshape : shapeOf f t with
    | none =>
      rw [if_neg, Nat.add_zero]
      rw [usesShape_iff, hasShape_iff, hshape]
      rintro ⟨-, s, hs, -⟩
      cases hs
    | some shape =>
      have hid : shape.shapeId = t.shapeId := hkeys _ _ hshape
      dsimp only
      split_ifs with hempty huses huses
      · obtain ⟨s, hs, hne⟩ := hasShape_iff.1 (usesShape_iff.1 huses).2
        rw [hshape, Option.some.injEq] at hs
        rw [← hs, hempty] at hne
        cases hne
      · rw [Nat.add_zero]
      · rw [SortedMap.find?_alter, if_pos ((usesShape_iff.1 huses).1.symm.trans hid.symm)]
        rw [hid, (usesShape_iff.1 huses).1]
        rfl
      · rw [SortedMap.find?_alter, if_neg, Nat.add_zero]
        intro heq
        refine huses (usesShape_iff.2 ⟨hid.symm.trans heq.symm, hasShape_iff.2 ⟨shape, hshape, ?_⟩⟩)
        exact (Bool.not_eq_true _).mp hempty

theorem Keyed.find?_of_mem (hf : Keyed f) {t : Trip} (ht : t ∈ f.trips.values) :
    f.trips.find? t.tripId = some t := by
  obtain ⟨⟨id, t'⟩, he, rfl⟩ := List.mem_map.1 ht
  have hfind := (SortedMap.find?_eq_some_iff f.trips id t').2 he
  rwa [← hf.trips id t' hfind] at hfind

theorem Keyed.tripIds (hf : Keyed f) : f.trips.values.map Trip.tripId = f.trips.keys := by
  rw [SortedMap.values, SortedMap.keys, List.map_map]
  refine List.map_congr_left fun e he => ?_
  exact hf.trips e.1 e.2 ((SortedMap.find?_eq_some_iff f.trips e.1 e.2).2 he)

theorem replacing_start (hf : Keyed f) : Replacing f (.start f) f.trips.values where
  keyed := hf
  nodup := hf.tripIds ▸ SortedMap.keys_nodup _
  trips _ ht := hf.find?_of_mem ht
  origin _ ht := hf.find?_of_mem ht
  domain _ := rfl
  live _ _ _ hs := hs
  usage id := by
    rw [Replacement.usage, Replacement.start, usage_foldl_countUsage hf.shapes]
    exact Nat.zero_add _
  settled id t ht :=
    Or.inl (List.mem_map.2 ⟨(id, t), (SortedMap.find?_eq_some_iff _ _ _).1 ht, rfl⟩)

end runs

section safety
variable {D C : Type} (getGtfsShape : Feed D → Trip → Option (GtfsShape D C))
variable (K : CostArithmetic C) (interpolateTimes : Bool) (f : Feed D)

/-- The shape of a cluster is built in the state `r`. -/
def Built (order : List (List Trip)) (cluster : List Trip) (r : Replacement D)
    (shp : Shape D × GtfsShape D C) (r₁ : Replacement D) : Prop :=
  ∃ before after first, order = before ++ cluster :: after ∧
    matchClusters getGtfsShape K interpolateTimes f before = some r ∧
    cluster.head? = some first ∧ buildShape getGtfsShape r first = some (shp, r₁)

def Round (order : List (List Trip)) (r : Replacement D) (shp : Shape D × GtfsShape D C)
    (trip : Trip) (r' : Replacement D) : Prop :=
  ∃ done rest r₀ r₁, Built getGtfsShape K interpolateTimes f order (done ++ trip :: rest) r₀ shp r₁ ∧
    done.foldlM (replaceTrip K interpolateTimes shp) r₁ = some r ∧
    replaceTrip K interpolateTimes shp r trip = some r'

def KeepsReferences (g : Feed D) : Prop :=
  ∀ id t, f.trips.find? id = some t → (shapeOf f t).isSome →
    ∃ t', g.trips.find? id = some t' ∧ (shapeOf g t').isSome

/-- New ids are free, and nothing is erased that a trip refers to. -/
structure SafeSteps (order : List (List Trip)) : Prop where
  fresh : ∀ {cluster r shp r₁},
    Built getGtfsShape K interpolateTimes f order cluster r shp r₁ → shp.1.shapeId ∉ r.feed.shapes.keys
  erased : ∀ {r shp trip r'}, Round getGtfsShape K interpolateTimes f order r shp trip r' →
    ∀ id ∈ r.feed.shapes.keys, id ∉ r'.feed.shapes.keys →
      ∀ t ∈ r'.feed.trips.values, t.shapeId ≠ id
  references : ∀ {r shp trip r'}, Round getGtfsShape K interpolateTimes f order r shp trip r' →
    KeepsReferences f r'.feed

def Shaped (order : List (List Trip)) (g : Feed D) (cluster : List Trip) : Prop :=
  ∃ r shp r₁, Built getGtfsShape K interpolateTimes f order cluster r shp r₁ ∧
    g.shapes.find? shp.1.shapeId = some shp.1 ∧
    ∀ t ∈ cluster, g.trips.find? t.tripId = some { t with shapeId := shp.1.shapeId }

/-- No step of `get_shape` takes a shape away from a trip, and every cluster gets its own. -/
def SafeReplacement (B : Builder D) (mots : List ℤ)
    (shuffle : List (List Trip) → List (List Trip)) : Prop :=
  (∀ clusters, clusterTrips B f mots = some clusters →
    SafeSteps getGtfsShape K interpolateTimes f (shuffle clusters)) ∧
  ∀ g, getShape getGtfsShape K interpolateTimes B mots shuffle f = some g →
    KeepsReferences f g ∧ ∃ clusters, clusterTrips B f mots = some clusters ∧
      ∀ cluster ∈ clusters, Shaped getGtfsShape K interpolateTimes f (shuffle clusters) g cluster

variable {getGtfsShape K interpolateTimes f}
variable {order : List (List Trip)} {skipped : List Trip}

theorem Built.replacing (hf : Keyed f) (horder : f.trips.values.Perm (order.flatten ++ skipped))
    {cluster : List Trip} {r : Replacement D} {shp : Shape D × GtfsShape D C} {r₁ : Replacement D}
    (h : Built getGtfsShape K interpolateTimes f order cluster r shp r₁) :
    shp.1.shapeId ∉ r.feed.shapes.keys ∧ Current r₁ shp.1 ∧
      ∃ rest, Replacing f r₁ (cluster ++ rest) := by
  obtain ⟨before, after, first, rfl, hrun, -, hbuild⟩ := h
  rw [List.flatten_append, List.flatten_cons, List.append_assoc, List.append_assoc] at horder
  have hinv := (foldlM_matchCluster ((replacing_start hf).perm horder) hrun).1
  obtain ⟨hfree, -, hcurrent, hinv₁⟩ := buildShape_spec hinv hbuild
  exact ⟨hfree, hcurrent, _, hinv₁⟩

theorem Round.replacing (hf : Keyed f) (horder : f.trips.values.Perm (order.flatten ++ skipped))
    {r : Replacement D} {shp : Shape D × GtfsShape D C} {trip : Trip} {r' : Replacement D}
    (h : Round getGtfsShape K interpolateTimes f order r shp trip r') :
    ∃ rest, Replacing f r (trip :: rest) ∧ Current r shp.1 ∧ Replaced f r r' shp.1 trip rest := by
  obtain ⟨done, rest, r₀, r₁, hbuilt, hrun, hstep⟩ := h
  obtain ⟨-, hcurrent, rest', hinv⟩ := hbuilt.replacing hf horder
  rw [List.append_assoc] at hinv
  obtain ⟨hinv', hcurrent', -⟩ := foldlM_replaceTrip hinv hcurrent hrun
  exact ⟨rest ++ rest', hinv', hcurrent', replaceTrip_replaced hinv' hcurrent' hstep⟩

theorem safeSteps (hf : Keyed f) (horder : f.trips.values.Perm (order.flatten ++ skipped)) :
    SafeSteps getGtfsShape K interpolateTimes f order where
  fresh h := (h.replacing hf horder).1
  erased h id hid herased t ht := by
    obtain ⟨rest, hinv, hcurrent, hreplaced⟩ := h.replacing hf horder
    obtain ⟨⟨key, t'⟩, he, rfl⟩ := List.mem_map.1 ht
    exact hreplaced.unreferenced hcurrent hinv hid herased ((SortedMap.find?_eq_some_iff _ _ _).2 he)
  references h := by
    obtain ⟨rest, hinv, hcurrent, hreplaced⟩ := h.replacing hf horder
    exact fun id t => (hreplaced.replacing hcurrent hinv).references

theorem shaped_of_run (hf : Keyed f) (horder : f.trips.values.Perm (order.flatten ++ skipped))
    (hne : ∀ g ∈ order, g ≠ []) {r : Replacement D}
    (hrun : matchClusters getGtfsShape K interpolateTimes f order = some r) {cluster : List Trip}
    (hmem : cluster ∈ order) :
    Shaped getGtfsShape K interpolateTimes f order r.feed cluster := by
  obtain ⟨before, after, horder'⟩ := List.append_of_mem hmem
  rw [matchClusters, horder', List.foldlM_append] at hrun
  obtain ⟨r₀, hbefore, hrun⟩ := Option.bind_eq_some_iff.1 hrun
  rw [List.foldlM_cons] at hrun
  obtain ⟨r₂, hcluster, hafter⟩ := Option.bind_eq_some_iff.1 hrun
  rw [matchCluster] at hcluster
  obtain ⟨first, hfirst, hcluster⟩ := Option.bind_eq_some_iff.1 hcluster
  obtain ⟨⟨shp, r₁⟩, hbuild, hcluster⟩ := Option.bind_eq_some_iff.1 hcluster
  have hbuilt : Built getGtfsShape K interpolateTimes f order cluster r₀ shp r₁ :=
    ⟨before, after, first, horder', hbefore, hfirst, hbuild⟩
  rw [horder', List.flatten_append, List.flatten_cons, List.append_assoc, List.append_assoc]
    at horder
  have hinv := (foldlM_matchCluster ((replacing_start hf).perm horder) hbefore).1
  obtain ⟨-, -, hcurrent, hinv₁⟩ := buildShape_spec hinv hbuild
  obtain ⟨hinv₂, -, hdone, hsettled⟩ := foldlM_replaceTrip hinv₁ hcurrent hcluster
  obtain ⟨-, hdone'⟩ := foldlM_matchCluster hinv₂ hafter
  refine ⟨r₀, shp, r₁, hbuilt, (hdone'.settled _ (hsettled (hne cluster hmem))).1, fun t ht => ?_⟩
  rw [hdone'.others t.tripId fun t' ht' heq => ?_, hdone.trips t ht]
  have hnodup := hinv₁.nodup
  rw [List.map_append, List.nodup_append] at hnodup
  exact hnodup.2.2 _ (List.mem_map_of_mem ht) _
    (List.mem_map_of_mem (List.mem_append_left _ ht')) heq

theorem clusters_perm {B : Builder D} {mots : List ℤ} {clusters : List (List Trip)}
    (hclusters : clusterTrips B f mots = some clusters) (horder : order.Perm clusters) :
    f.trips.values.Perm
      (order.flatten ++ f.trips.values.filter fun t => !isClustered B f mots t) := by
  refine (List.filter_append_perm (isClustered B f mots) f.trips.values).symm.trans ?_
  exact ((clusterTrips_some hclusters).2.symm.trans horder.flatten.symm).append_right _

/-- Replacing shapes is safe at every step of every run, in every order of the clusters. -/
theorem getShape_safe (B : Builder D) (mots : List ℤ)
    {shuffle : List (List Trip) → List (List Trip)} (hshuffle : ∀ l, (shuffle l).Perm l)
    (hf : Keyed f) : SafeReplacement getGtfsShape K interpolateTimes f B mots shuffle := by
  refine ⟨fun clusters hclusters => safeSteps hf (clusters_perm hclusters (hshuffle clusters)),
    fun g hg => ?_⟩
  rw [getShape] at hg
  obtain ⟨clusters, hclusters, hg⟩ := Option.bind_eq_some_iff.1 hg
  obtain ⟨r, hrun, hg⟩ := Option.bind_eq_some_iff.1 hg
  cases hg
  have hperm := clusters_perm hclusters (hshuffle clusters)
  refine ⟨fun id t => ?_, clusters, hclusters, fun cluster hmem => ?_⟩
  · exact (foldlM_matchCluster ((replacing_start hf).perm hperm) hrun).1.references
  · refine shaped_of_run hf hperm (fun c hc => ?_) hrun ((hshuffle clusters).mem_iff.2 hmem)
    exact (clusterTrips_some hclusters).1 c ((hshuffle clusters).mem_iff.1 hc)

theorem getShape_keyed {B : Builder D} {mots : List ℤ}
    {shuffle : List (List Trip) → List (List Trip)} (hshuffle : ∀ l, (shuffle l).Perm l)
    (hf : Keyed f) {g : Feed D}
    (hg : getShape getGtfsShape K interpolateTimes B mots shuffle f = some g) : Keyed g := by
  rw [getShape] at hg
  obtain ⟨clusters, hclusters, hg⟩ := Option.bind_eq_some_iff.1 hg
  obtain ⟨r, hrun, hg⟩ := Option.bind_eq_some_iff.1 hg
  cases hg
  have hperm := clusters_perm hclusters (hshuffle clusters)
  exact (foldlM_matchCluster ((replacing_start hf).perm hperm) hrun).1.keyed

end safety

section feeds
variable {D : Type}

theorem insertAll_keyed {A : Type} {key : A → Text} {es : List A} {id : Text} {e : A}
    (h : (es.foldl (fun m e => m.insert (key e) e) SortedMap.empty).find? id = some e) :
    key e = id := by
  rw [foldl_insert_eq, SortedMap.find?_eq_some_iff] at h
  obtain ⟨e', -, heq⟩ := List.mem_map.1 ((SortedMap.mem_insertAll _ h).resolve_left List.not_mem_nil)
  cases heq
  rfl

theorem foldl_addPoint_keyed {pts : List (ShapePoint D)} {m : SortedMap Text (Shape D)}
    (hm : ∀ id s, m.find? id = some s → s.shapeId = id) {id : Text} {s : Shape D}
    (h : (pts.foldl addPoint m).find? id = some s) : s.shapeId = id := by
  induction pts generalizing m with
  | nil => exact hm id s h
  | cons pt pts ih =>
    refine ih (fun id s hs => ?_) h
    rw [addPoint, SortedMap.find?_alter] at hs
    split_ifs at hs with hid
    · cases hs
      rw [pushPoint]
      dsimp only
      split_ifs with hempty
      · exact hid.symm
      · cases hfind : m.find? pt.shapeId with
        | none =>
          rw [hfind] at hempty
          exact absurd rfl hempty
        | some s =>
          rw [Option.getD_some, hid]
          exact hm _ s hfind
    · exact hm id s hs

/-- The feeds that are read have their records under their ids. -/
theorem read_keyed {R : Doubles D} {files : Files} {config : ReadConfig} {f : Feed D} {res : Result}
    (hread : read R files config .empty = some (res, f)) (hok : res.code = .ok) : Keyed f where
  trips id t ht := by
    have htrips := (read_ok R files hread hok).trips
    rw [Loaded] at htrips
    split_ifs at htrips
    · obtain ⟨-, es, -, hes⟩ := htrips
      rw [hes] at ht
      exact insertAll_keyed ht
    · rw [htrips] at ht
      cases ht
  shapes id s hs := by
    have hshapes := (read_ok R files hread hok).shapes
    rw [Loaded] at hshapes
    split_ifs at hshapes
    · obtain ⟨es, -, hes⟩ := hshapes
      rw [hes] at hs
      exact foldl_addPoint_keyed (fun id s h => (by cases h)) hs
    · rw [hshapes] at hs
      cases hs

end feeds

section sample

def sharedShapeFeed : Feed ℤ :=
  let trip (id : String) : Trip :=
    ⟨"bus".toList, [], id.toList, [], [], 0, [], "old".toList, 0, 0⟩
  let stopTime (trip stop : String) (sequence : ℕ) : StopTime ℤ :=
    ⟨trip.toList, stop.toList, sequence, Time.default, Time.default, [], 0, 0, 0, 1⟩
  { entranceFeed 0 with
    trips := SortedMap.empty.insertAll [("a".toList, trip "a"), ("b".toList, trip "b")]
    shapes := SortedMap.empty.insertAll
      [("old".toList, ⟨"old".toList, [⟨"old".toList, 0, 0, 0, 0⟩]⟩)]
    stopTimes := [stopTime "a" "entrance" 0, stopTime "b" "entrance" 0, stopTime "a" "platform" 1,
      stopTime "b" "platform" 1] }

def droppingBuilder : Builder ℤ := { busBuilder with dropShapes := true }

def wholeCosts : CostArithmetic ℕ := ⟨0, Nat.add, fun _ _ _ previous => previous⟩

def onePoint (_ : Feed ℤ) (_ : Trip) : Option (GtfsShape ℤ ℕ) :=
  some ⟨fun id => [⟨id, 0, 0, 0, 0⟩], [0, 1], [0, 1]⟩

theorem sharedShapeFeed_keyed : Keyed sharedShapeFeed where
  trips id t ht := by
    have hall : ∀ e ∈ sharedShapeFeed.trips.entries, e.2.tripId = e.1 := by decide
    exact hall _ ((SortedMap.find?_eq_some_iff _ _ _).1 ht)
  shapes id s hs := by
    have hall : ∀ e ∈ sharedShapeFeed.shapes.entries, e.2.shapeId = e.1 := by decide
    exact hall _ ((SortedMap.find?_eq_some_iff _ _ _).1 hs)

set_option maxRecDepth 8000 in
/-- The old shape is erased with its second user; both get the new one. -/
theorem getShape_safe_shared :
    (getShape onePoint wholeCosts false droppingBuilder [RouteType.bus] List.reverse
      sharedShapeFeed).map (fun g => (g.shapes.keys, g.trips.values.map Trip.shapeId)) =
        some (["shp_bus_3_1".toList], ["shp_bus_3_1".toList, "shp_bus_3_1".toList]) ∧
      SafeReplacement onePoint wholeCosts false sharedShapeFeed droppingBuilder [RouteType.bus]
        List.reverse :=
  ⟨by decide, getShape_safe droppingBuilder [RouteType.bus] List.reverse_perm sharedShapeFeed_keyed⟩

end sample

end Pfaedle.ShapeBuilder

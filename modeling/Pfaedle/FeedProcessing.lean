import Pfaedle.BoundingBox
import Pfaedle.StopSequence

set_option autoImplicit false

/-!
# Which feeds can be processed

`write_mot_stops`, `get_gtfs_box` and `cluster_trips` go through the same trips with different
guards.
-/
namespace Pfaedle.ShapeBuilder

open Gtfs LoopRules BoundingBoxes

section gtfsBox
variable {C : Type} [Field C] [LinearOrder C] (f : Feed C)

def extendStop (cur : Box C) (st : StopTime C) : Box C :=
  match stopOf f st with
  | none => cur
  | some s => extendPoint (s.stopLon, s.stopLat) cur

/-- `fresh` is a `DBox` that nothing has been added to. -/
def getGtfsBox (mots : List ℤ) (tid : Text) (dropShapes : Bool) (fresh : Box C)
    (box : BoundingBox C) : Option (BoundingBox C) :=
  f.trips.values.foldlM (fun box t =>
    if tid ≠ [] ∧ t.tripId ≠ tid then some box
    else if tid = [] ∧ hasShape f t ∧ !dropShapes then some box
    else do
      let sts ← stopTimes f t
      if sts.length < 2 then some box
      else
        match routeOf f t with
        | none => some box
        | some r =>
          if r.routeType ∈ mots then some (box.add (sts.foldl (extendStop f) fresh))
          else some box) box

end gtfsBox

section visits
variable {D : Type} (f : Feed D)

def Timed (t : Trip) : Prop := ∃ st ∈ f.stopTimes, st.tripId = t.tripId

def asked (tid : Text) (t : Trip) : Bool := tid = [] ∨ t.tripId = tid

def routed (mots : List ℤ) (t : Trip) : Bool := (routeOf f t).any fun r => r.routeType ∈ mots

def manyTimes (t : Trip) : Bool := (stopTimes f t).any fun sts => 2 ≤ sts.length

/-- `get_gtfs_box` looks at the stop times of the trip. -/
def looksAt (tid : Text) (dropShapes : Bool) (t : Trip) : Bool :=
  asked tid t && !(tid = [] && hasShape f t && !dropShapes)

theorem stopTimes_isSome {t : Trip} : (stopTimes f t).isSome ↔ Timed f t := by
  rw [stopTimes, Timed]
  split_ifs with hnil
  · rw [List.filter_eq_nil_iff] at hnil
    simp only [decide_eq_true_eq] at hnil
    simpa using hnil
  · rw [List.filter_eq_nil_iff] at hnil
    simpa using hnil

theorem stopTimes_none {t : Trip} : stopTimes f t = none ↔ ¬ Timed f t := by
  rw [← stopTimes_isSome, Option.not_isSome_iff_eq_none]

theorem not_asked {tid : Text} {t : Trip} : (tid ≠ [] ∧ t.tripId ≠ tid) ↔ asked tid t = false := by
  simp [asked]

theorem ite_looksAt {A : Type} (tid : Text) (dropShapes : Bool) (t : Trip) (skip look : A) :
    (if tid ≠ [] ∧ t.tripId ≠ tid then skip
      else if tid = [] ∧ hasShape f t ∧ !dropShapes then skip else look) =
      if looksAt f tid dropShapes t then look else skip := by
  unfold looksAt asked
  cases hasShape f t <;> cases dropShapes <;> simp <;> split_ifs <;> tauto

theorem writeMotStops_eq_some {N : Type} (mots : List ℤ) (tid : Text) (ret : FeedStops N) :
    writeMotStops f mots tid = some ret ↔
      (∀ t ∈ f.trips.values, (asked tid t && routed f mots t) = true → Timed f t) ∧
        ret = (f.trips.values.filter fun t => asked tid t && routed f mots t).foldl
          (fun ret t => ((stopTimes f t).getD []).foldl (writeMotStop f) ret) .empty := by
  refine foldlM_filter (fun ret t h => ?_) (fun ret t h => ?_) _ _ _
  · simp only [not_asked]
    cases hasked : asked tid t with
    | false => rfl
    | true =>
      unfold routed at h ⊢
      rw [hasked] at h
      cases hroute : routeOf f t with
      | none => rfl
      | some r =>
        rw [hroute] at h
        by_cases hr : r.routeType ∈ mots
        · obtain ⟨sts, hsts⟩ := Option.isSome_iff_exists.1
            ((stopTimes_isSome f).2 (h (decide_eq_true hr)))
          simp [hr, hsts]
        · simp [hr]
  · rw [Classical.not_imp, Bool.and_eq_true, ← stopTimes_none] at h
    obtain ⟨⟨hasked, hrouted⟩, hnone⟩ := h
    obtain ⟨r, hr, hmots⟩ := (Option.any_eq_true _ _).1 hrouted
    simp [not_asked, hasked, hr, of_decide_eq_true hmots, hnone]

end visits

section boxes
variable {C : Type} [Field C] [LinearOrder C] (f : Feed C)

theorem getGtfsBox_eq_some (mots : List ℤ) (tid : Text) (dropShapes : Bool) (fresh : Box C)
    (box ret : BoundingBox C) :
    getGtfsBox f mots tid dropShapes fresh box = some ret ↔
      (∀ t ∈ f.trips.values, looksAt f tid dropShapes t = true → Timed f t) ∧
        ret = (f.trips.values.filter fun t =>
            looksAt f tid dropShapes t && (manyTimes f t && routed f mots t)).foldl
          (fun box t => box.add (((stopTimes f t).getD []).foldl (extendStop f) fresh)) box := by
  refine foldlM_filter (fun box t h => ?_) (fun box t h => ?_) _ _ _
  · rw [ite_looksAt]
    cases hlooks : looksAt f tid dropShapes t with
    | false => rfl
    | true =>
      obtain ⟨sts, hsts⟩ := Option.isSome_iff_exists.1 ((stopTimes_isSome f).2 (h hlooks))
      have hmany : manyTimes f t = decide (2 ≤ sts.length) := by rw [manyTimes, hsts, Option.any_some]
      rw [hmany, hsts, Option.getD_some, Option.bind_eq_bind, Option.bind_some]
      by_cases hlength : sts.length < 2
      · rw [if_pos rfl, if_pos hlength, decide_eq_false (Nat.not_le_of_lt hlength)]
        rfl
      · rw [if_pos rfl, if_neg hlength, decide_eq_true (Nat.le_of_not_lt hlength), routed]
        cases hroute : routeOf f t with
        | none => rfl
        | some r => by_cases hr : r.routeType ∈ mots <;> simp [hr]
  · rw [Classical.not_imp, ← stopTimes_none] at h
    rw [ite_looksAt, if_pos h.1, h.2]
    rfl

end boxes

section comparing
variable {D : Type} (B : Builder D) (f : Feed D)

def KnownEnds (t : Trip) : Prop :=
  ∃ sts first last, stopTimes f t = some sts ∧ sts.head? = some first ∧ sts.getLast? = some last ∧
    (stopOf f first).isSome ∧ (stopOf f last).isSome

def endPair (t : Trip) : Option (Text ×ₗ Text) := do
  let sts ← stopTimes f t
  let first ← sts.head?
  let last ← sts.getLast?
  some (toLex (first.stopId, last.stopId))

def Comparable (a b : Trip) : Prop :=
  ∀ as bs, stopTimes f a = some as → stopTimes f b = some bs → as.length = bs.length →
    getRAttrs B f a = getRAttrs B f b →
      SearchMeets (fun x => stopsEqual B f x.1 x.2 = some true)
        (fun x => (stopOf f x.1).isSome ∧ (stopOf f x.2).isSome) (as.zip bs)

def sameEnds (ahead : List Trip) (t : Trip) : List Trip :=
  ahead.filter fun h => endPair f h = endPair f t

/-- A trip leads if it is equal to no earlier leader with its first and last stop. -/
def addLeader (mots : List ℤ) (ahead : List Trip) (t : Trip) : List Trip :=
  if isClustered B f mots t ∧ ∀ h ∈ sameEnds f ahead t, routingEqual B f h t ≠ some true then
    ahead ++ [t]
  else ahead

def leaders (mots : List ℤ) (trips : List Trip) : List Trip :=
  trips.foldl (addLeader B f mots) []

/-- The trip can be compared with the leaders up to one that it is equal to. -/
def Placed (ahead : List Trip) (t : Trip) : Prop :=
  SearchMeets (fun h => routingEqual B f h t ≠ some true) (fun h => Comparable B f h t)
    (sameEnds f ahead t)

variable {B f}

theorem stopsEqual_isSome {a b : StopTime D} :
    (stopsEqual B f a b).isSome ↔ (stopOf f a).isSome ∧ (stopOf f b).isSome := by
  rw [stopsEqual]
  cases stopOf f a <;> cases stopOf f b <;> simp

theorem allEqual_isSome {as bs : List (StopTime D)} :
    (allEqual B f as bs).isSome ↔ SearchMeets (fun x => stopsEqual B f x.1 x.2 = some true)
      (fun x => (stopOf f x.1).isSome ∧ (stopOf f x.2).isSome) (as.zip bs) := by
  induction as generalizing bs with
  | nil => exact ⟨fun _ => SearchMeets.nil, fun _ => rfl⟩
  | cons a as ih =>
    cases bs with
    | nil => exact ⟨fun _ => SearchMeets.nil, fun _ => rfl⟩
    | cons b bs =>
      rw [List.zip_cons_cons, searchMeets_cons, ← ih, allEqual, ← stopsEqual_isSome]
      cases stopsEqual B f a b with
      | none => simp
      | some e => cases e <;> simp

theorem getRAttrs_isSome {t : Trip} (hroute : (routeOf f t).isSome) (hends : KnownEnds f t) :
    (getRAttrs B f t).isSome := by
  obtain ⟨sts, first, last, hsts, hfirst, hlast, hs, hs'⟩ := hends
  obtain ⟨r, hr⟩ := Option.isSome_iff_exists.1 hroute
  obtain ⟨s, hs⟩ := Option.isSome_iff_exists.1 hs
  obtain ⟨s', hs'⟩ := Option.isSome_iff_exists.1 hs'
  simp [getRAttrs, hr, hsts, hfirst, hlast, hs, hs']

theorem routingEqual_isSome {a b : Trip} (ha : (routeOf f a).isSome ∧ KnownEnds f a)
    (hb : (routeOf f b).isSome ∧ KnownEnds f b) :
    (routingEqual B f a b).isSome ↔ Comparable B f a b := by
  obtain ⟨attrsA, hattrsA⟩ := Option.isSome_iff_exists.1 (getRAttrs_isSome (B := B) ha.1 ha.2)
  obtain ⟨attrsB, hattrsB⟩ := Option.isSome_iff_exists.1 (getRAttrs_isSome (B := B) hb.1 hb.2)
  obtain ⟨as, -, -, has, -⟩ := ha.2
  obtain ⟨bs, -, -, hbs, -⟩ := hb.2
  unfold routingEqual Comparable
  simp only [has, hbs, hattrsA, hattrsB, Option.bind_eq_bind, Option.bind_some, Option.some.injEq,
    ← allEqual_isSome]
  split_ifs with hlength hattrs
  · simp [hlength]
  · simp [hattrs]
  · rw [not_not] at hlength hattrs
    simp [hlength, hattrs]

end comparing

section clustering
variable {D : Type} {B : Builder D} {f : Feed D}

/-- The cluster that a trip joins is found among the first trips `hs` of the clusters `is`. -/
theorem findCluster_of_heads {ret : List (List Trip)} {t : Trip} {is : List ℕ} {hs : List Trip}
    (hheads : is.map (fun i => ret[i]? >>= List.head?) = hs.map some) :
    ((findCluster B f ret t is).isSome ↔
      SearchMeets (fun h => routingEqual B f h t ≠ some true)
        (fun h => (routingEqual B f h t).isSome) hs) ∧
      (findCluster B f ret t is = some none → ∀ h ∈ hs, routingEqual B f h t ≠ some true) ∧
      ∀ i, findCluster B f ret t is = some (some i) →
        i ∈ is ∧ ∃ h ∈ hs, routingEqual B f h t = some true := by
  induction is generalizing hs with
  | nil =>
    cases hs with
    | nil => simp [findCluster, SearchMeets.nil]
    | cons h hs => cases hheads
  | cons i is ih =>
    cases hs with
    | nil => cases hheads
    | cons h hs =>
      rw [List.map_cons, List.map_cons, List.cons.injEq] at hheads
      obtain ⟨hhead, hrest⟩ := hheads
      have hih := ih hrest
      rw [findCluster, hhead, searchMeets_cons, List.forall_mem_cons]
      cases heq : routingEqual B f h t with
      | none => simp [heq]
      | some e =>
        cases e with
        | true => simp [heq]
        | false =>
          refine ⟨?_, fun hnone => ?_, fun j hj => ?_⟩
          · simpa [heq] using hih.1
          · exact ⟨by simp, hih.2.1 (by simpa [heq] using hnone)⟩
          · obtain ⟨hmem, h', hh', heq'⟩ := hih.2.2 j (by simpa [heq] using hj)
            exact ⟨List.mem_cons_of_mem _ hmem, h', List.mem_cons_of_mem _ hh', heq'⟩

structure Mirrors (B : Builder D) (f : Feed D) (mots : List ℤ) (c : Clusters) (seen : List Trip) :
    Prop where
  ne_nil : ∀ g ∈ c.ret, g ≠ []
  heads : ∀ pair, ((c.clusterIdx.find? pair).getD []).map (fun i => c.ret[i]? >>= List.head?) =
    ((leaders B f mots seen).filter fun h => endPair f h = some pair).map some
  known : ∀ h ∈ leaders B f mots seen, (routeOf f h).isSome ∧ KnownEnds f h
  perm : c.ret.flatten.Perm (seen.filter (isClustered B f mots))

theorem Mirrors.lt {mots : List ℤ} {c : Clusters} {seen : List Trip} (h : Mirrors B f mots c seen)
    {pair : Text ×ₗ Text} {i : ℕ} (hi : i ∈ (c.clusterIdx.find? pair).getD []) :
    i < c.ret.length := by
  have hmem := List.mem_map_of_mem (f := fun i => c.ret[i]? >>= List.head?) hi
  rw [h.heads, List.mem_map] at hmem
  obtain ⟨a, -, ha⟩ := hmem
  by_contra hge
  rw [List.getElem?_eq_none (Nat.le_of_not_lt hge)] at ha
  cases ha

theorem leaders_snoc (mots : List ℤ) (seen : List Trip) (t : Trip) :
    leaders B f mots (seen ++ [t]) = addLeader B f mots (leaders B f mots seen) t := by
  unfold leaders
  rw [List.foldl_append, List.foldl_cons, List.foldl_nil]

theorem Mirrors.skip {mots : List ℤ} {c : Clusters} {seen : List Trip}
    (h : Mirrors B f mots c seen) {t : Trip} (ht : isClustered B f mots t = false) :
    Mirrors B f mots c (seen ++ [t]) := by
  have hleaders : leaders B f mots (seen ++ [t]) = leaders B f mots seen := by
    rw [leaders_snoc, addLeader, if_neg (by simp [ht])]
  refine ⟨h.ne_nil, ?_, ?_, ?_⟩
  · rw [hleaders]
    exact h.heads
  · rw [hleaders]
    exact h.known
  · rw [List.filter_append, List.filter_singleton, ht]
    simpa using h.perm

theorem head?_modify_append {ret : List (List Trip)} (hne : ∀ g ∈ ret, g ≠ []) {i : ℕ} {t : Trip}
    (j : ℕ) : (ret.modify i (· ++ [t]))[j]? >>= List.head? = ret[j]? >>= List.head? := by
  rw [List.getElem?_modify]
  cases hj : ret[j]? with
  | none => rfl
  | some g =>
    have hg := hne g (List.mem_of_getElem? hj)
    by_cases hij : i = j
    · simp [hij, List.head?_append_of_ne_nil _ hg]
    · simp [hij]

theorem Mirrors.join {mots : List ℤ} {c : Clusters} {seen : List Trip}
    (h : Mirrors B f mots c seen) {t : Trip} (ht : isClustered B f mots t = true)
    (hequal : ∃ a ∈ sameEnds f (leaders B f mots seen) t, routingEqual B f a t = some true)
    {i : ℕ} (hi : i < c.ret.length) (pair : Text ×ₗ Text) :
    Mirrors B f mots ⟨c.ret.modify i (· ++ [t]), c.clusterIdx.alter pair fun old => old.getD []⟩
      (seen ++ [t]) := by
  have hleaders : leaders B f mots (seen ++ [t]) = leaders B f mots seen := by
    obtain ⟨a, ha, heq⟩ := hequal
    rw [leaders_snoc, addLeader, if_neg fun hnew => hnew.2 a ha heq]
  refine ⟨fun g hg => ?_, fun pair' => ?_, ?_, ?_⟩
  · rcases mem_modify hg with hold | ⟨g', -, rfl⟩
    · exact h.ne_nil g hold
    · exact List.append_ne_nil_of_right_ne_nil _ (List.cons_ne_nil _ _)
  · rw [hleaders, ← h.heads pair', SortedMap.find?_alter]
    simp only [head?_modify_append h.ne_nil]
    split_ifs with hpair
    · rw [hpair, Option.getD_some]
    · rfl
  · rw [hleaders]
    exact h.known
  · refine (flatten_modify_perm hi t).trans ?_
    rw [List.filter_append, List.filter_singleton, ht, cond_true]
    exact (h.perm.cons t).trans (@List.perm_append_comm _ [t] _)

theorem Mirrors.create {mots : List ℤ} {c : Clusters} {seen : List Trip}
    (h : Mirrors B f mots c seen) {t : Trip} (ht : isClustered B f mots t = true)
    (hnew : ∀ a ∈ sameEnds f (leaders B f mots seen) t, routingEqual B f a t ≠ some true)
    (hknown : (routeOf f t).isSome ∧ KnownEnds f t) {pair : Text ×ₗ Text}
    (hpair : endPair f t = some pair) :
    Mirrors B f mots
      ⟨c.ret ++ [[t]], (c.clusterIdx.alter pair fun old => old.getD []).alter pair fun old =>
        old.getD [] ++ [c.ret.length]⟩ (seen ++ [t]) := by
  have hleaders : leaders B f mots (seen ++ [t]) = leaders B f mots seen ++ [t] := by
    rw [leaders_snoc, addLeader, if_pos ⟨ht, hnew⟩]
  have hold : ∀ pair', ∀ i ∈ (c.clusterIdx.find? pair').getD [],
      (c.ret ++ [[t]])[i]? >>= List.head? = c.ret[i]? >>= List.head? := by
    intro pair' i hi
    rw [List.getElem?_append_left (h.lt hi)]
  refine ⟨fun g hg => ?_, fun pair' => ?_, fun a ha => ?_, ?_⟩
  · cases List.mem_append.1 hg with
    | inl hmem => exact h.ne_nil g hmem
    | inr hmem => exact List.mem_singleton.1 hmem ▸ List.cons_ne_nil _ _
  · rw [hleaders, List.filter_append, List.map_append, ← h.heads pair', List.filter_singleton,
      SortedMap.find?_alter]
    by_cases heq : pair' = pair
    · subst heq
      rw [if_pos rfl, SortedMap.find?_alter, if_pos rfl, Option.getD_some, Option.getD_some,
        List.map_append, List.map_congr_left (hold pair')]
      simp [hpair]
    · rw [if_neg heq, SortedMap.find?_alter, if_neg heq, List.map_congr_left (hold pair'), hpair]
      simp [Ne.symm heq]
  · rw [hleaders] at ha
    cases List.mem_append.1 ha with
    | inl hmem => exact h.known a hmem
    | inr hmem => exact List.mem_singleton.1 hmem ▸ hknown
  · rw [List.flatten_append, List.filter_append, List.filter_singleton, ht]
    exact h.perm.append_right _

theorem clusterTrip_skip {mots : List ℤ} {c : Clusters} {t : Trip}
    (ht : isClustered B f mots t = false) :
    clusterTrip B f mots c t =
      if (hasShape f t && !B.dropShapes) = false ∧ stopTimes f t = none then none else some c := by
  rw [← Bool.not_eq_true, isClustered_iff] at ht
  unfold clusterTrip
  cases hshape : hasShape f t && !B.dropShapes with
  | true => simp
  | false =>
    cases hsts : stopTimes f t with
    | none => simp
    | some sts =>
      rw [Option.bind_eq_bind, Option.bind_some]
      by_cases hlength : sts.length < 2
      · rw [if_pos hlength]
        simp
      · rw [if_neg hlength]
        cases hroute : routeOf f t with
        | none => simp
        | some r =>
          have htypes : r.routeType ∉ mots ∨ r.routeType ∉ B.routeTypes := by
            by_contra hin
            rw [not_or, not_not, not_not] at hin
            exact ht ⟨hshape, sts, hsts, Nat.le_of_not_lt hlength, r, hroute, hin⟩
          simp [htypes]

def placeTrip (B : Builder D) (f : Feed D) (c : Clusters) (t : Trip) (pair : Text ×ₗ Text) :
    Option Clusters :=
  let idx := c.clusterIdx.alter pair fun old => old.getD []
  (findCluster B f c.ret t ((c.clusterIdx.find? pair).getD [])).bind fun found =>
    match found with
    | some i => some ⟨c.ret.modify i (· ++ [t]), idx⟩
    | none => (getRAttrs B f t).bind fun _ =>
        some ⟨c.ret ++ [[t]], idx.alter pair fun old => old.getD [] ++ [c.ret.length]⟩

theorem clusterTrip_clustered {mots : List ℤ} {c : Clusters} {t : Trip}
    (ht : isClustered B f mots t = true) :
    (¬ KnownEnds f t → clusterTrip B f mots c t = none) ∧
      (KnownEnds f t → ∃ pair, endPair f t = some pair ∧
        clusterTrip B f mots c t = placeTrip B f c t pair) := by
  obtain ⟨hshape, sts, hsts, hlength, r, hr, hmots, hcfg⟩ := isClustered_iff.1 ht
  have hne : sts ≠ [] := fun hnil => by rw [hnil] at hlength; simp at hlength
  have hhead := List.head?_eq_some_head hne
  have hlast := List.getLast?_eq_some_getLast hne
  have hends : KnownEnds f t ↔
      (stopOf f (sts.head hne)).isSome ∧ (stopOf f (sts.getLast hne)).isSome := by
    simp [KnownEnds, hsts, hhead, hlast]
  have hrun : clusterTrip B f mots c t =
      (stopOf f (sts.head hne)).bind fun _ => (stopOf f (sts.getLast hne)).bind fun _ =>
        placeTrip B f c t (toLex ((sts.head hne).stopId, (sts.getLast hne).stopId)) := by
    unfold clusterTrip
    rw [hshape, hsts, hr]
    simp only [Option.bind_eq_bind, Option.bind_some, hhead, hlast, Bool.false_eq_true, if_false,
      Nat.not_lt_of_le hlength, hmots, hcfg, not_true_eq_false, or_self]
    rfl
  rw [hends, hrun]
  constructor
  · intro hnot
    cases hfirst : stopOf f (sts.head hne) with
    | none => rfl
    | some s =>
      cases hlast : stopOf f (sts.getLast hne) with
      | none => rfl
      | some s' => exact absurd ⟨by rw [hfirst]; rfl, by rw [hlast]; rfl⟩ hnot
  · intro h
    obtain ⟨s, hs⟩ := Option.isSome_iff_exists.1 h.1
    obtain ⟨s', hs'⟩ := Option.isSome_iff_exists.1 h.2
    refine ⟨toLex ((sts.head hne).stopId, (sts.getLast hne).stopId), ?_, ?_⟩
    · simp [endPair, hsts, hhead, hlast]
    · rw [hs, hs', Option.bind_some, Option.bind_some]

/-- What `cluster_trips` needs of a trip after the trips `seen`. -/
structure Clusterable (B : Builder D) (f : Feed D) (mots : List ℤ) (seen : List Trip) (t : Trip) :
    Prop where
  timed : (hasShape f t && !B.dropShapes) = false → Timed f t
  ends : isClustered B f mots t = true → KnownEnds f t
  placed : isClustered B f mots t = true → Placed B f (leaders B f mots seen) t

theorem clusterTrip_step {mots : List ℤ} {c : Clusters} {seen : List Trip}
    (h : Mirrors B f mots c seen) (t : Trip) :
    ((clusterTrip B f mots c t).isSome ↔ Clusterable B f mots seen t) ∧
      ∀ c', clusterTrip B f mots c t = some c' → Mirrors B f mots c' (seen ++ [t]) := by
  cases ht : isClustered B f mots t with
  | false =>
    rw [clusterTrip_skip ht]
    split_ifs with huntimed
    · refine ⟨⟨fun hsome => (by cases hsome), fun hable => ?_⟩, fun c' hc' => (by cases hc')⟩
      exact absurd (hable.timed huntimed.1) ((stopTimes_none f).1 huntimed.2)
    · refine ⟨⟨fun _ => ⟨fun hshape => ?_, ?_, ?_⟩, fun _ => rfl⟩, fun c' hc' => ?_⟩
      · by_contra hnot
        exact huntimed ⟨hshape, (stopTimes_none f).2 hnot⟩
      · simp [ht]
      · simp [ht]
      · exact Option.some.inj hc' ▸ h.skip ht
  | true =>
    obtain ⟨-, sts, hsts, -, r, hr, -⟩ := isClustered_iff.1 ht
    have htimed : Timed f t := (stopTimes_isSome f).1 (by rw [hsts]; rfl)
    by_cases hends : KnownEnds f t
    · obtain ⟨pair, hpair, hrun⟩ := (clusterTrip_clustered (c := c) ht).2 hends
      have hknown : (routeOf f t).isSome ∧ KnownEnds f t := ⟨by rw [hr]; rfl, hends⟩
      have hsame : (leaders B f mots seen).filter (fun a => endPair f a = some pair) =
          sameEnds f (leaders B f mots seen) t := by
        rw [sameEnds, hpair]
      have hheads := h.heads pair
      rw [hsame] at hheads
      obtain ⟨hsome, hnone, hfound⟩ := findCluster_of_heads (B := B) (t := t) hheads
      have hplaced : (findCluster B f c.ret t ((c.clusterIdx.find? pair).getD [])).isSome ↔
          Placed B f (leaders B f mots seen) t := by
        refine hsome.trans (searchMeets_congr fun a ha => ?_)
        exact routingEqual_isSome (h.known a (List.mem_of_mem_filter ha)) hknown
      have hable : Clusterable B f mots seen t ↔ Placed B f (leaders B f mots seen) t :=
        ⟨fun hable => hable.placed ht, fun hp => ⟨fun _ => htimed, fun _ => hends, fun _ => hp⟩⟩
      rw [hrun, hable, ← hplaced, placeTrip]
      cases hfind : findCluster B f c.ret t ((c.clusterIdx.find? pair).getD []) with
      | none => simp
      | some found =>
        cases found with
        | none =>
          obtain ⟨attrs, hattrs⟩ := Option.isSome_iff_exists.1
            (getRAttrs_isSome (B := B) hknown.1 hends)
          rw [hattrs]
          refine ⟨⟨fun _ => rfl, fun _ => rfl⟩, fun c' hc' => ?_⟩
          exact Option.some.inj hc' ▸ h.create ht (hnone hfind) hknown hpair
        | some i =>
          obtain ⟨hi, hequal⟩ := hfound i hfind
          refine ⟨⟨fun _ => rfl, fun _ => rfl⟩, fun c' hc' => ?_⟩
          exact Option.some.inj hc' ▸ h.join ht hequal (h.lt hi) pair
    · rw [(clusterTrip_clustered ht).1 hends]
      exact ⟨⟨fun hsome => (by cases hsome), fun hable => absurd (hable.ends ht) hends⟩,
        fun c' hc' => (by cases hc')⟩

theorem clusterTrips_isSome (mots : List ℤ) :
    ((clusterTrips B f mots).isSome ↔ ∀ before t after,
        f.trips.values = before ++ t :: after → Clusterable B f mots before t) ∧
      ∀ clusters, clusterTrips B f mots = some clusters →
        clusters.flatten.Perm (f.trips.values.filter (isClustered B f mots)) := by
  have hstart : Mirrors B f mots ⟨[], .empty⟩ [] := by
    refine ⟨fun g hg => absurd hg List.not_mem_nil, fun pair => rfl, fun h hh => ?_, ?_⟩
    · exact absurd hh List.not_mem_nil
    · exact List.Perm.refl _
  obtain ⟨hiff, hrun⟩ := foldlM_prefix (Mirrors B f mots)
    (fun _ _ t h => (clusterTrip_step h t).1) (fun _ _ t c h hc => (clusterTrip_step h t).2 c hc)
    f.trips.values hstart
  unfold clusterTrips
  constructor
  · rw [Option.map_eq_map, Option.isSome_map]
    exact hiff
  · intro clusters hclusters
    obtain ⟨c, hc, rfl⟩ := Option.map_eq_some_iff.1 hclusters
    exact (hrun c hc).perm

end clustering

section processable
variable {D : Type} {B : Builder D} {f : Feed D}

/-- The trips that a function looks at have stop times, and a trip that is clustered ends at stops
of the feed and is compared at such stops only. -/
structure Processable (B : Builder D) (f : Feed D) (snapMots mots : List ℤ) (tid : Text)
    (dropShapes : Bool) : Prop where
  snapped : ∀ t ∈ f.trips.values, (asked tid t && routed f snapMots t) = true → Timed f t
  boxed : ∀ t ∈ f.trips.values, looksAt f tid dropShapes t = true → Timed f t
  clustered : ∀ t ∈ f.trips.values, (hasShape f t && !B.dropShapes) = false → Timed f t
  ends : ∀ t ∈ f.trips.values, isClustered B f mots t = true → KnownEnds f t
  placed : ∀ before t after, f.trips.values = before ++ t :: after →
    isClustered B f mots t = true → Placed B f (leaders B f mots before) t

/-- A feed without broken references can be processed. -/
theorem Resolved.processable (h : Resolved f) (snapMots mots : List ℤ) (tid : Text)
    (dropShapes : Bool) : Processable B f snapMots mots tid dropShapes where
  snapped t ht _ := h.stopTimes t ht
  boxed t ht _ := h.stopTimes t ht
  clustered t ht _ := h.stopTimes t ht
  ends t ht _ := by
    obtain ⟨sts, hsts⟩ := h.stopTimes_some ht
    obtain ⟨⟨first, hfirst, s, hs⟩, last, hlast, s', hs'⟩ := h.ends hsts
    exact ⟨sts, first, last, hsts, hfirst, hlast, by rw [hs]; rfl, by rw [hs']; rfl⟩
  placed before t after _ _ l a r _ _ as bs has hbs _ _ l' x r' hsplit _ := by
    have hx : x ∈ as.zip bs := hsplit ▸ List.mem_append_right _ List.mem_cons_self
    obtain ⟨ha, hb⟩ := List.of_mem_zip hx
    exact ⟨h.stops _ ((mem_stopTimes has).2 _ ha).1, h.stops _ ((mem_stopTimes hbs).2 _ hb).1⟩

end processable

section processing
variable {C N : Type} [Field C] [LinearOrder C] {B : Builder C} {f : Feed C}

/-- The functions come to their end, without the trips that they cannot route. -/
structure Processed (N : Type) (B : Builder C) (f : Feed C) (snapMots boxMots mots : List ℤ)
    (tid : Text) (dropShapes : Bool) (fresh : Box C) (box : BoundingBox C) : Prop where
  snaps : writeMotStops (N := N) f snapMots tid = some
    ((f.trips.values.filter fun t => asked tid t && routed f snapMots t).foldl
      (fun ret t => ((stopTimes f t).getD []).foldl (writeMotStop f) ret) .empty)
  boxes : getGtfsBox f boxMots tid dropShapes fresh box = some
    ((f.trips.values.filter fun t =>
        looksAt f tid dropShapes t && (manyTimes f t && routed f boxMots t)).foldl
      (fun box t => box.add (((stopTimes f t).getD []).foldl (extendStop f) fresh)) box)
  clusters : ∃ clusters, clusterTrips B f mots = some clusters ∧
    clusters.flatten.Perm (f.trips.values.filter (isClustered B f mots))

theorem processed_iff (snapMots boxMots mots : List ℤ) (tid : Text) (dropShapes : Bool)
    (fresh : Box C) (box : BoundingBox C) :
    Processed N B f snapMots boxMots mots tid dropShapes fresh box ↔
      Processable B f snapMots mots tid dropShapes := by
  have hclusters := clusterTrips_isSome (B := B) (f := f) mots
  constructor
  · intro h
    obtain ⟨clusters, hrun, -⟩ := h.clusters
    have hable := hclusters.1.1 (by rw [hrun]; rfl)
    have hsplit : ∀ t ∈ f.trips.values, ∃ before, Clusterable B f mots before t := by
      intro t ht
      obtain ⟨before, after, heq⟩ := List.append_of_mem ht
      exact ⟨before, hable before t after heq⟩
    refine ⟨((writeMotStops_eq_some f _ _ _).1 h.snaps).1,
      ((getGtfsBox_eq_some f _ _ _ _ _ _).1 h.boxes).1, fun t ht => ?_, fun t ht => ?_,
      fun before t after heq => (hable before t after heq).placed⟩
    · exact (hsplit t ht).choose_spec.timed
    · exact (hsplit t ht).choose_spec.ends
  · intro h
    have hable : (clusterTrips B f mots).isSome := hclusters.1.2 fun before t after heq => by
      have ht : t ∈ f.trips.values := heq ▸ List.mem_append_right _ List.mem_cons_self
      exact ⟨h.clustered t ht, h.ends t ht, h.placed before t after heq⟩
    obtain ⟨clusters, hrun⟩ := Option.isSome_iff_exists.1 hable
    exact ⟨(writeMotStops_eq_some f _ _ _).2 ⟨h.snapped, rfl⟩,
      (getGtfsBox_eq_some f _ _ _ _ _ _).2 ⟨h.boxed, rfl⟩, clusters, hrun, hclusters.2 _ hrun⟩

end processing

section sample

def wholeDegrees : Doubles ℚ where
  stod s := (wholeNumbers.stod s).map fun z => (z : ℚ)
  fixed d := wholeNumbers.fixed d.floor
  ofInt z := z
  lt a b := a < b

def untimed : Files := fun filename =>
  if filename = "agency.txt" then
    some "agency_id,agency_name,agency_url,agency_timezone
A,A,u,z
".toList
  else if filename = "stops.txt" then
    some "stop_id,stop_name,stop_lat,stop_lon
P,P,1,1
Q,Q,2,2
".toList
  else if filename = "routes.txt" then
    some "route_id,route_short_name,route_type
R,1,3
".toList
  else if filename = "trips.txt" then
    some "route_id,service_id,trip_id
R,W,T
R,W,U
".toList
  else if filename = "stop_times.txt" then
    some "trip_id,stop_id,stop_sequence,arrival_time,departure_time
T,P,1,,
T,Q,2,,
".toList
  else none

def degreeBuilder : Builder ℚ := ⟨false, [RouteType.bus], id, id, id, fun _ _ => true⟩

theorem read_not_processed :
    ∃ res f, read wholeDegrees untimed ReadConfig.default Feed.empty = some (res, f) ∧
      res.code = .ok ∧ (writeMotStops (N := Text) f [RouteType.bus] []).isNone ∧
      (getGtfsBox f [RouteType.bus] [] false doubleMinbox
        (newBoundingBox doubleMinbox 2500)).isNone ∧
      (clusterTrips degreeBuilder f [RouteType.bus]).isNone := by
  have hrun : (read wholeDegrees untimed ReadConfig.default Feed.empty).map (fun out =>
      (out.1.code, (writeMotStops (N := Text) out.2 [RouteType.bus] []).isNone,
        (getGtfsBox out.2 [RouteType.bus] [] false doubleMinbox
          (newBoundingBox doubleMinbox 2500)).isNone,
        (clusterTrips degreeBuilder out.2 [RouteType.bus]).isNone)) =
      some (.ok, true, true, true) := by
    decide +kernel
  obtain ⟨⟨res, f⟩, hread, hout⟩ := Option.map_eq_some_iff.1 hrun
  simp only [Prod.mk.injEq] at hout
  exact ⟨res, f, hread, hout⟩

end sample

end Pfaedle.ShapeBuilder

import Pfaedle.FeedProcessing

set_option autoImplicit false

/-!
# Clustering is a partition

The index names the clusters whose first trip has the two stops, and a trip is compared with the
first trips of these clusters only.
-/
namespace Pfaedle.ShapeBuilder

open Gtfs

section mercator
variable {C : Type} [Field C]

structure Elementary (C : Type) where
  sin : C → C
  cos : C → C
  atan : C → C
  exp : C → C
  log : C → C
  sqrt : C → C

variable (M : Elementary C)

def latLngToWebMerc (lat lng : C) : C × C :=
  let a := lat * 0.017453292519943295
  (6378137.0 * lng * 0.017453292519943295,
    3189068.5 * M.log ((1 + M.sin a) / (1 - M.sin a)))

def pointDist (p q : C × C) : C :=
  M.sqrt ((q.1 - p.1) * (q.1 - p.1) + (q.2 - p.2) * (q.2 - p.2))

def mercLat (p : C × C) : C := 2.0 * M.atan (M.exp (p.2 / 6378137.0)) - 1.5707965

def webMercMeterDist (p q : C × C) : C :=
  pointDist M p q * M.cos ((mercLat M p + mercLat M q) / 2.0)

def withinMeter [LinearOrder C] (p q : C × C) : Bool :=
  let d := webMercMeterDist M (latLngToWebMerc M p.1 p.2) (latLngToWebMerc M q.1 q.2)
  if d > 1 then false else true

/-- The builder compares positions as `routingEqual` does. -/
def Builder.measured [LinearOrder C] (B : Builder C) : Builder C := { B with near := withinMeter M }

theorem pointDist_comm (p q : C × C) : pointDist M p q = pointDist M q p := by
  have hsq : ∀ x y : C, (y - x) * (y - x) = (x - y) * (x - y) := fun x y => by
    rw [← neg_sub x y, neg_mul_neg]
  rw [pointDist, pointDist, hsq p.1, hsq p.2]

theorem webMercMeterDist_comm (p q : C × C) :
    webMercMeterDist M p q = webMercMeterDist M q p := by
  rw [webMercMeterDist, webMercMeterDist, pointDist_comm M p q, add_comm (mercLat M p)]

theorem withinMeter_comm [LinearOrder C] (p q : C × C) : withinMeter M p q = withinMeter M q p := by
  unfold withinMeter
  rw [webMercMeterDist_comm]

end mercator

section symmetry
variable {D : Type} {B : Builder D} {f : Feed D}

theorem stopsEqual_comm (hnear : ∀ p q, B.near p q = B.near q p) (a b : StopTime D) :
    stopsEqual B f a b = stopsEqual B f b a := by
  unfold stopsEqual
  cases stopOf f a with
  | none => cases stopOf f b <;> rfl
  | some sa =>
    cases stopOf f b with
    | none => rfl
    | some sb =>
      simp only [Option.bind_eq_bind, Option.bind_some]
      rw [hnear, Bool.beq_comm (a := a.stopId), Bool.beq_comm (a := B.statNorm sa.stopName),
        Bool.beq_comm (a := B.trackNorm sa.platformCode)]

theorem allEqual_comm (hnear : ∀ p q, B.near p q = B.near q p) (as bs : List (StopTime D)) :
    allEqual B f as bs = allEqual B f bs as := by
  induction as generalizing bs with
  | nil => cases bs <;> rfl
  | cons a as ih =>
    cases bs with
    | nil => rfl
    | cons b bs => rw [allEqual, allEqual, stopsEqual_comm hnear, ih]

end symmetry

section alike
variable {D : Type} {B : Builder D} {f : Feed D}

structure Alike (B : Builder D) (f : Feed D) (first t : Trip) : Prop where
  ends : ∃ pair, endPair f first = some pair ∧ endPair f t = some pair
  attrs : ∃ attrs, getRAttrs B f first = some attrs ∧ getRAttrs B f t = some attrs
  stops : ∃ as bs, stopTimes f first = some as ∧ stopTimes f t = some bs ∧
    as.length = bs.length ∧ ∀ x ∈ as.zip bs, stopsEqual B f x.1 x.2 = some true

theorem allEqual_iff {as bs : List (StopTime D)} :
    allEqual B f as bs = some true ↔ ∀ x ∈ as.zip bs, stopsEqual B f x.1 x.2 = some true := by
  induction as generalizing bs with
  | nil => simp [allEqual]
  | cons a as ih =>
    cases bs with
    | nil => simp [allEqual]
    | cons b bs =>
      rw [List.zip_cons_cons, List.forall_mem_cons, ← ih, allEqual]
      cases stopsEqual B f a b with
      | none => simp
      | some e => cases e <;> simp

theorem routingEqual_iff {a b : Trip} :
    routingEqual B f a b = some true ↔
      (∃ attrs, getRAttrs B f a = some attrs ∧ getRAttrs B f b = some attrs) ∧
        ∃ as bs, stopTimes f a = some as ∧ stopTimes f b = some bs ∧ as.length = bs.length ∧
          ∀ x ∈ as.zip bs, stopsEqual B f x.1 x.2 = some true := by
  rw [routingEqual]
  cases has : stopTimes f a with
  | none => simp
  | some as =>
    cases hbs : stopTimes f b with
    | none => simp
    | some bs =>
      simp only [Option.bind_eq_bind, Option.bind_some, Option.some.injEq, ← allEqual_iff]
      by_cases hlength : as.length = bs.length
      · rw [if_neg (not_not.2 hlength)]
        cases getRAttrs B f a with
        | none => simp
        | some attrsA =>
          cases getRAttrs B f b with
          | none => simp
          | some attrsB =>
            rw [Option.bind_some, Option.bind_some]
            by_cases hattrs : attrsA = attrsB
            · simp [hattrs, hlength]
            · simp [hattrs, Ne.symm hattrs]
      · simp [hlength]

theorem routingEqual_comm (hnear : ∀ p q, B.near p q = B.near q p) {a b : Trip} :
    routingEqual B f a b = some true ↔ routingEqual B f b a = some true := by
  rw [routingEqual_iff, routingEqual_iff]
  simp only [← allEqual_iff]
  constructor
  · rintro ⟨⟨attrs, ha, hb⟩, as, bs, has, hbs, hlength, hall⟩
    exact ⟨⟨attrs, hb, ha⟩, bs, as, hbs, has, hlength.symm, allEqual_comm hnear bs as ▸ hall⟩
  · rintro ⟨⟨attrs, ha, hb⟩, as, bs, has, hbs, hlength, hall⟩
    exact ⟨⟨attrs, hb, ha⟩, bs, as, hbs, has, hlength.symm, allEqual_comm hnear bs as ▸ hall⟩

theorem allEqual_self {sts : List (StopTime D)} (h : ∀ st ∈ sts, (stopOf f st).isSome) :
    allEqual B f sts sts = some true := by
  induction sts with
  | nil => rfl
  | cons st sts ih =>
    obtain ⟨s, hs⟩ := Option.isSome_iff_exists.1 (h st List.mem_cons_self)
    have hself : stopsEqual B f st st = some true := by
      rw [stopsEqual, hs]
      simp
    rw [allEqual, hself, ih fun x hx => h x (List.mem_cons_of_mem _ hx)]
    rfl

theorem Resolved.alike_self (h : Resolved f) {t : Trip} (ht : t ∈ f.trips.values) :
    Alike B f t t := by
  obtain ⟨sts, hsts⟩ := h.stopTimes_some ht
  obtain ⟨⟨first, hfirst, -⟩, last, hlast, -⟩ := h.ends hsts
  obtain ⟨attrs, hattrs⟩ := h.rAttrs (B := B) ht
  have hpair : endPair f t = some (toLex (first.stopId, last.stopId)) := by
    simp [endPair, hsts, hfirst, hlast]
  have hself : ShapeBuilder.allEqual B f sts sts = some true :=
    allEqual_self fun st hst => h.stops st ((mem_stopTimes hsts).2 st hst).1
  exact ⟨⟨_, hpair, hpair⟩, ⟨attrs, hattrs, hattrs⟩, sts, sts, hsts, hsts, rfl,
    allEqual_iff.1 hself⟩

end alike

section grouping
variable {D : Type} {B : Builder D} {f : Feed D}

theorem findCluster_new {ret : List (List Trip)} {t : Trip} {is : List ℕ}
    (h : findCluster B f ret t is = some none) {i : ℕ} (hi : i ∈ is) {first : Trip}
    (hfirst : ret[i]? >>= List.head? = some first) : routingEqual B f first t ≠ some true := by
  induction is with
  | nil => exact absurd hi List.not_mem_nil
  | cons j is ih =>
    rw [findCluster] at h
    obtain ⟨first', hfirst', h⟩ := Option.bind_eq_some_iff.1 h
    obtain ⟨equal, hequal, h⟩ := Option.bind_eq_some_iff.1 h
    split_ifs at h with htrue
    · cases h
    · cases List.mem_cons.1 hi with
      | inl heq =>
        subst heq
        cases hfirst'.symm.trans hfirst
        rw [hequal]
        exact fun hsome => htrue (Option.some.inj hsome)
      | inr hmem => exact ih h hmem

structure Grouped (B : Builder D) (f : Feed D) (c : Clusters) : Prop where
  alike : ∀ g ∈ c.ret, ∃ first, g.head? = some first ∧ ∀ t ∈ g, Alike B f first t
  indexed : ∀ pair i, i ∈ (c.clusterIdx.find? pair).getD [] ↔
    ∃ first, c.ret[i]? >>= List.head? = some first ∧ endPair f first = some pair
  apart : ∀ (i j : ℕ) a b, i < j → c.ret[i]? >>= List.head? = some a →
    c.ret[j]? >>= List.head? = some b → endPair f a = endPair f b →
      routingEqual B f a b ≠ some true

theorem Grouped.ne_nil {c : Clusters} (h : Grouped B f c) : ∀ g ∈ c.ret, g ≠ [] := by
  intro g hg hnil
  obtain ⟨first, hfirst, -⟩ := h.alike g hg
  rw [hnil] at hfirst
  cases hfirst

theorem Grouped.join {c : Clusters} (h : Grouped B f c) {t : Trip} {pair : Text ×ₗ Text}
    (hpair : endPair f t = some pair) {i : ℕ} (hi : i ∈ (c.clusterIdx.find? pair).getD [])
    {first : Trip} (hfirst : c.ret[i]? >>= List.head? = some first)
    (hequal : routingEqual B f first t = some true) :
    Grouped B f
      ⟨c.ret.modify i (· ++ [t]), c.clusterIdx.alter pair fun old => old.getD []⟩ := by
  obtain ⟨first', hfirst', hends⟩ := (h.indexed pair i).1 hi
  cases hfirst.symm.trans hfirst'
  have hlike : Alike B f first t :=
    have hparts := routingEqual_iff.1 hequal
    ⟨⟨pair, hends, hpair⟩, hparts.1, hparts.2⟩
  refine ⟨fun g hg => ?_, fun pair' j => ?_, fun j k a b hjk ha hb => ?_⟩
  · obtain ⟨j, hj⟩ := List.mem_iff_getElem?.1 hg
    rw [List.getElem?_modify, Option.map_eq_map, Option.map_eq_some_iff] at hj
    obtain ⟨g', hg', heq⟩ := hj
    obtain ⟨first', hhead, hall⟩ := h.alike g' (List.mem_of_getElem? hg')
    by_cases hij : i = j
    · rw [if_pos hij] at heq
      rw [hij, hg'] at hfirst
      cases hfirst.symm.trans hhead
      refine ⟨first, ?_, fun x hx => ?_⟩
      · rw [← heq, List.head?_append, hhead]
        rfl
      · rw [← heq] at hx
        cases List.mem_append.1 hx with
        | inl hmem => exact hall x hmem
        | inr hmem => exact List.mem_singleton.1 hmem ▸ hlike
    · rw [if_neg hij] at heq
      exact heq ▸ ⟨first', hhead, hall⟩
  · rw [head?_modify_append h.ne_nil, ← h.indexed pair' j, SortedMap.find?_alter]
    split_ifs with heq
    · rw [heq, Option.getD_some]
    · exact Iff.rfl
  · rw [head?_modify_append h.ne_nil] at ha hb
    exact h.apart j k a b hjk ha hb

theorem head?_lt {ret : List (List Trip)} {i : ℕ} {a : Trip}
    (h : ret[i]? >>= List.head? = some a) : i < ret.length := by
  obtain ⟨g, hg, -⟩ := Option.bind_eq_some_iff.1 h
  exact (List.getElem?_eq_some_iff.1 hg).1

theorem head?_append_new {ret : List (List Trip)} {t a : Trip} {i : ℕ} :
    (ret ++ [[t]])[i]? >>= List.head? = some a ↔
      ret[i]? >>= List.head? = some a ∨ i = ret.length ∧ a = t := by
  by_cases hlt : i < ret.length
  · rw [List.getElem?_append_left hlt]
    exact ⟨Or.inl, fun h => h.resolve_right fun hnew => Nat.ne_of_lt hlt hnew.1⟩
  · have hold : ret[i]? >>= List.head? ≠ some a := fun h => hlt (head?_lt h)
    rw [List.getElem?_append_right (Nat.le_of_not_lt hlt), or_iff_right hold]
    by_cases heq : i = ret.length
    · rw [heq, Nat.sub_self]
      change some t = some a ↔ _
      rw [Option.some.injEq, eq_self, true_and, eq_comm]
    · have hrest : i - ret.length ≠ 0 := by omega
      obtain ⟨k, hk⟩ := Nat.exists_eq_succ_of_ne_zero hrest
      rw [hk]
      exact ⟨fun h => (by cases h), fun h => absurd h.1 heq⟩

theorem Grouped.create {c : Clusters} (h : Grouped B f c) {t : Trip} (hself : Alike B f t t)
    {pair : Text ×ₗ Text} (hpair : endPair f t = some pair)
    (hnew : ∀ i ∈ (c.clusterIdx.find? pair).getD [], ∀ first,
      c.ret[i]? >>= List.head? = some first → routingEqual B f first t ≠ some true) :
    Grouped B f
      ⟨c.ret ++ [[t]], (c.clusterIdx.alter pair fun old => old.getD []).alter pair fun old =>
        old.getD [] ++ [c.ret.length]⟩ := by
  refine ⟨fun g hg => ?_, fun pair' i => ?_, fun i j a b hij ha hb hends => ?_⟩
  · cases List.mem_append.1 hg with
    | inl hmem => exact h.alike g hmem
    | inr hmem =>
      rw [List.mem_singleton.1 hmem]
      exact ⟨t, rfl, fun x hx => List.mem_singleton.1 hx ▸ hself⟩
  · have hold := h.indexed pair' i
    simp only [head?_append_new, SortedMap.find?_alter]
    split_ifs with heq
    · subst heq
      rw [Option.getD_some, Option.getD_some, List.mem_append, hold, List.mem_singleton]
      constructor
      · rintro (⟨a, ha, hends⟩ | hi)
        · exact ⟨a, Or.inl ha, hends⟩
        · exact ⟨t, Or.inr ⟨hi, rfl⟩, hpair⟩
      · rintro ⟨a, ha | ⟨hi, -⟩, hends⟩
        · exact Or.inl ⟨a, ha, hends⟩
        · exact Or.inr hi
    · rw [hold]
      constructor
      · rintro ⟨a, ha, hends⟩
        exact ⟨a, Or.inl ha, hends⟩
      · rintro ⟨a, ha | ⟨-, rfl⟩, hends⟩
        · exact ⟨a, ha, hends⟩
        · exact absurd (Option.some.inj (hends.symm.trans hpair)) heq
  · rcases head?_append_new.1 ha with holdA | ⟨hi, -⟩
    · rcases head?_append_new.1 hb with holdB | ⟨-, rfl⟩
      · exact h.apart i j a b hij holdA holdB hends
      · exact hnew i ((h.indexed pair i).2 ⟨a, holdA, hends.trans hpair⟩) a holdA
    · rcases head?_append_new.1 hb with holdB | ⟨hj, -⟩
      · exact absurd (head?_lt holdB) (Nat.not_lt_of_lt (hi ▸ hij))
      · exact absurd (hi.trans hj.symm) (Nat.ne_of_lt hij)

theorem Grouped.placeTrip {c c' : Clusters} (h : Grouped B f c) {t : Trip}
    (hself : Alike B f t t) {pair : Text ×ₗ Text} (hpair : endPair f t = some pair)
    (hrun : placeTrip B f c t pair = some c') : Grouped B f c' := by
  unfold ShapeBuilder.placeTrip at hrun
  obtain ⟨found, hfound, hrun⟩ := Option.bind_eq_some_iff.1 hrun
  cases found with
  | some i =>
    obtain ⟨hi, first, hfirst, hequal⟩ := findCluster_equal hfound
    exact Option.some.inj hrun ▸ h.join hpair hi hfirst hequal
  | none =>
    obtain ⟨attrs, -, hrun⟩ := Option.bind_eq_some_iff.1 hrun
    exact Option.some.inj hrun ▸ h.create hself hpair fun i hi first => findCluster_new hfound hi

theorem Grouped.clusterTrip (hresolved : Resolved f) {mots : List ℤ} {c c' : Clusters}
    (h : Grouped B f c) {t : Trip} (ht : t ∈ f.trips.values)
    (hrun : clusterTrip B f mots c t = some c') : Grouped B f c' := by
  cases hclustered : isClustered B f mots t with
  | false =>
    rw [clusterTrip_skip hclustered] at hrun
    split_ifs at hrun
    exact Option.some.inj hrun ▸ h
  | true =>
    have hplaced := clusterTrip_clustered (c := c) hclustered
    by_cases hends : KnownEnds f t
    · obtain ⟨pair, hpair, hplace⟩ := hplaced.2 hends
      exact h.placeTrip (hresolved.alike_self ht) hpair (hplace ▸ hrun)
    · rw [hplaced.1 hends] at hrun
      cases hrun

theorem Grouped.foldlM (hresolved : Resolved f) {mots : List ℤ} {trips : List Trip}
    (htrips : ∀ t ∈ trips, t ∈ f.trips.values) {c c' : Clusters} (h : Grouped B f c)
    (hrun : trips.foldlM (ShapeBuilder.clusterTrip B f mots) c = some c') : Grouped B f c' := by
  induction trips generalizing c with
  | nil => exact Option.some.inj hrun ▸ h
  | cons t trips ih =>
    rw [List.foldlM_cons] at hrun
    obtain ⟨c₁, hc₁, hrun⟩ := Option.bind_eq_some_iff.1 hrun
    exact ih (fun x hx => htrips x (List.mem_cons_of_mem _ hx))
      (h.clusterTrip hresolved (htrips t List.mem_cons_self) hc₁) hrun

theorem grouped_start : Grouped B f ⟨[], .empty⟩ := by
  refine ⟨fun g hg => absurd hg List.not_mem_nil, fun pair i => ?_, fun i j a b _ ha => ?_⟩
  · constructor
    · intro hi
      rw [SortedMap.find?_empty] at hi
      exact absurd hi List.not_mem_nil
    · rintro ⟨a, ha, -⟩
      exact absurd (head?_lt ha) (Nat.not_lt_zero i)
  · exact absurd (head?_lt ha) (Nat.not_lt_zero i)

theorem clusterTrips_grouped (h : Resolved f) {mots : List ℤ} {clusters : List (List Trip)}
    (hrun : clusterTrips B f mots = some clusters) :
    ∃ idx, Grouped B f ⟨clusters, idx⟩ := by
  obtain ⟨c, hc, rfl⟩ := Option.map_eq_some_iff.1 hrun
  exact ⟨c.clusterIdx, grouped_start.foldlM h (fun _ ht => ht) hc⟩

end grouping

section partition
variable {C : Type} [Field C] [LinearOrder C]

/-- Each trip that is not skipped is in one cluster, with trips like its first one, and the first
trips of two clusters differ. -/
theorem clusterTrips_partition (M : Elementary C) (B : Builder C) {f : Feed C} (h : Resolved f)
    (mots : List ℤ) :
    ∃ clusters, clusterTrips (B.measured M) f mots = some clusters ∧
      clusters.flatten.Perm (f.trips.values.filter (isClustered (B.measured M) f mots)) ∧
      (∀ g ∈ clusters, ∃ first, g.head? = some first ∧
        ∀ t ∈ g, Alike (B.measured M) f first t) ∧
      ∀ (i j : ℕ) g g' a b, i ≠ j → clusters[i]? = some g → clusters[j]? = some g' →
        g.head? = some a → g'.head? = some b →
          ¬ (endPair f a = endPair f b ∧ routingEqual (B.measured M) f a b = some true) := by
  obtain ⟨clusters, hrun, -, hperm⟩ := clusterTrips_perm (B := B.measured M) h mots
  obtain ⟨idx, hgrouped⟩ := clusterTrips_grouped h hrun
  refine ⟨clusters, hrun, hperm, hgrouped.alike, ?_⟩
  rintro i j g g' a b hij hg hg' ha hb ⟨hends, hequal⟩
  have hfirst : clusters[i]? >>= List.head? = some a := by
    rw [hg]
    exact ha
  have hsecond : clusters[j]? >>= List.head? = some b := by
    rw [hg']
    exact hb
  rcases Nat.lt_or_gt_of_ne hij with hlt | hgt
  · exact hgrouped.apart i j a b hlt hfirst hsecond hends hequal
  · have hequal' := (routingEqual_comm (withinMeter_comm M)).1 hequal
    exact hgrouped.apart j i b a hgt hsecond hfirst hends.symm hequal'

end partition

section sample

def atOrigin : Elementary ℚ where
  sin x := x
  cos _ := 1
  atan x := 0.78539816 * x
  exp x := 1 + x
  log x := x - 1
  sqrt x := x

def twoTrips : Feed ℚ :=
  let stop (id : String) : Stop ℚ :=
    ⟨id.toList, id.toList, true, 0, 0, [], [], [], [], [], 0, [], [], [], []⟩
  let trip (id : String) : Trip :=
    ⟨"bus".toList, [], id.toList, [], [], 0, [], [], 0, 0⟩
  let stopTime (id stop : String) (sequence : ℕ) : StopTime ℚ :=
    ⟨id.toList, stop.toList, sequence, Time.default, Time.default, [], 0, 0, 0, 1⟩
  { Feed.empty with
    stops := SortedMap.empty.insertAll [("p".toList, stop "p"), ("q".toList, stop "q")]
    routes := SortedMap.empty.insertAll
      [("bus".toList, ⟨"bus".toList, RouteType.bus, [], "1".toList, [], [], [], [], [], 0⟩)]
    trips := SortedMap.empty.insertAll [("a".toList, trip "a"), ("b".toList, trip "b")]
    stopTimes := [stopTime "a" "p" 0, stopTime "a" "q" 1, stopTime "b" "p" 0,
      stopTime "b" "q" 1] }

theorem clusterTrips_partition_twoTrips :
    ∃ clusters,
      clusterTrips (degreeBuilder.measured atOrigin) twoTrips [RouteType.bus] = some clusters ∧
      clusters.flatten.Perm twoTrips.trips.values ∧
      ∀ g ∈ clusters, ∃ first, g.head? = some first ∧
        ∀ t ∈ g, Alike (degreeBuilder.measured atOrigin) twoTrips first t := by
  have hresolved : Resolved twoTrips := by decide +kernel
  have hall : twoTrips.trips.values.filter
      (isClustered (degreeBuilder.measured atOrigin) twoTrips [RouteType.bus]) =
        twoTrips.trips.values := by
    decide +kernel
  obtain ⟨clusters, hrun, hperm, halike, -⟩ :=
    clusterTrips_partition atOrigin degreeBuilder hresolved [RouteType.bus]
  exact ⟨clusters, hrun, hall ▸ hperm, halike⟩

end sample

end Pfaedle.ShapeBuilder

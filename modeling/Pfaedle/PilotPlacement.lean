import Mathlib.Data.Finset.Max
import Pfaedle.PilotRun

set_option autoImplicit false

/-!
# Placements of candidates that mislead the pilot run

For a placement that is not safe there are streets on which the pilot run stops at a target that is
not nearest.
-/
namespace Pfaedle.Router
open LabelSetting
open EDijkstra (DirGraph)

section trial
variable {E C : Type} [DecidableEq E] [Field C] [LinearOrder C]

/-- Streets whose lengths are what they cost. There are two nodes at the position of each edge. -/
def trial (M : Metric C) (pos : E → C × C) (edges : List E) (getFrom getTo : E → E ⊕ E)
    (length : E → C) : Setting (E ⊕ E) E C where
  g :=
    { DirGraph.ofEdges edges getFrom getTo with
      geom := Sum.elim pos pos
      si := fun _ => none
      component := fun _ => 0
      minEdgeLvl := fun _ => 0
      level := fun _ => 0
      length := length
      oneWay := fun _ => 0
      is_restricted := fun _ => false
      lines := fun _ => [] }
  rOpts := ⟨0, 0, 0, 0, 0, 0, 0, 0, fun _ => 1, false, false⟩
  may _ _ _ := true
  simi _ _ := 0
  webMercMeterDist := M.dist
  innerProd _ _ _ := 0
  caching := false
  pq := EDijkstra.routeQueue
  edgeSet := .dedup
  candPq := EDijkstra.routeQueue
  candSet := .dedup

variable {M : Metric C} {pos : E → C × C} {edges : List E} {getFrom getTo : E → E ⊕ E}
  {length : E → C} {rAttrs : RoutingAttributes} {a b : EdgeCandidateGroup E C}

theorem trial_weight (u v : E) :
    (pilotNetwork (trial M pos edges getFrom getTo length) rAttrs a b).weight u v = length u := by
  simp [pilotNetwork, EDijkstra.network, costFunc, edgePairCost, edgeCost, trial, List.range_succ]

theorem trial_step {u v : E} :
    (pilotNetwork (trial M pos edges getFrom getTo length) rAttrs a b).step u v ↔
      u ∈ edges ∧ v ∈ edges ∧ getFrom v = getTo u := by
  change u ∈ edges ∧ v ∈ (trial M pos edges getFrom getTo length).g.adjListOut (getTo u) ↔ _
  rw [(trial M pos edges getFrom getTo length).g.mem_adjListOut]
  rfl

theorem trial_walk {v : E} {p : List E} {c : C}
    (hw : Walk (pilotNetwork (trial M pos edges getFrom getTo length) rAttrs a b) v p c) :
    (v ∈ edgesOf a ∧ c = 0) ∨ ∃ u q d,
      Walk (pilotNetwork (trial M pos edges getFrom getTo length) rAttrs a b) u q d ∧
        getFrom v = getTo u ∧ c = d + length u := by
  cases hw with
  | source hs => exact Or.inl ⟨hs.2, rfl⟩
  | @snoc u _ q d hw hstep =>
    refine Or.inr ⟨u, q, d, hw, (trial_step.1 hstep).2.2, ?_⟩
    rw [trial_weight]

theorem trial_source {s : E} (hs : s ∈ edgesOf a) (hin : s ∈ edges) :
    Walk (pilotNetwork (trial M pos edges getFrom getTo length) rAttrs a b) s [s] 0 :=
  .source ⟨hin, hs⟩

theorem trial_snoc {u v : E} {p : List E} {c : C}
    (hw : Walk (pilotNetwork (trial M pos edges getFrom getTo length) rAttrs a b) u p c)
    (hu : u ∈ edges) (hv : v ∈ edges) (hmeet : getFrom v = getTo u) :
    Walk (pilotNetwork (trial M pos edges getFrom getTo length) rAttrs a b) v (v :: p)
      (c + length u) := by
  have h := hw.snoc (trial_step.2 ⟨hu, hv, hmeet⟩)
  rwa [trial_weight] at h

theorem trial_spanned [IsStrictOrderedRing C] (h : ∀ e ∈ edges,
    M.dist (Sum.elim pos pos (getFrom e)) (Sum.elim pos pos (getTo e)) ≤ length e) :
    Spanned M (trial M pos edges getFrom getTo length) where
  dist := rfl
  length := h
  level_lt _ _ := Nat.zero_lt_succ 7
  levelPunish _ _ _ _ := le_refl _
  opts := ⟨le_refl _, le_refl _, le_refl _, le_refl _, le_refl _, le_refl _, le_refl _,
    fun _ => zero_le_one⟩

theorem le_pendingDistance (hplaced : Placed pos (trial M pos edges getFrom getTo length) a b)
    {s t : E} (hs : s ∈ edgesOf a) (ht : t ∈ edgesOf b) :
    M.dist (pos s) (pos t) ≤ pendingDistance (trial M pos edges getFrom getTo length) a b := by
  obtain ⟨i, hi, rfl⟩ := List.mem_map.1 hs
  obtain ⟨j, hj, rfl⟩ := List.mem_map.1 ht
  rw [← (hplaced i.e (Or.inl hs)).2, ← (hplaced j.e (Or.inr ht)).2]
  exact le_maxFrom (List.mem_flatMap.2 ⟨i, hi, List.mem_map.2 ⟨j, hj, rfl⟩⟩)

theorem trial_compConned (ha : a ≠ []) (hb : b ≠ []) :
    compConned (trial M pos edges getFrom getTo length) a b := by
  obtain ⟨i, hi⟩ := List.exists_mem_of_ne_nil a ha
  obtain ⟨j, hj⟩ := List.exists_mem_of_ne_nil b hb
  exact List.any_eq_true.2 ⟨i, hi, List.any_eq_true.2 ⟨j, hj, decide_eq_true rfl⟩⟩

/-- Where the pilot run is right, it stops at a target that is cheap, and cheapest together with its
distance from the centre. -/
theorem trial_stops [IsStrictOrderedRing C]
    (hspan : Spanned M (trial M pos edges getFrom getTo length)) (ha : a ≠ [])
    (hb : b ≠ []) (hplaced : Placed pos (trial M pos edges getFrom getTo length) a b)
    {thread : ℕ} {caches : Caches E C}
    (hnearest : Nearest (trial M pos edges getFrom getTo length) thread rAttrs a b caches) {t : E}
    (ht : t ∈ edgesOf b) {p : List E} {c : C}
    (hw : Walk (pilotNetwork (trial M pos edges getFrom getTo length) rAttrs a b) t p c)
    (hbelow : c < pilotBound (trial M pos edges getFrom getTo length) a b) :
    ∃ x ∈ edgesOf b, ∃ q d,
      Walk (pilotNetwork (trial M pos edges getFrom getTo length) rAttrs a b) x q d ∧ d ≤ c ∧
        ∀ u ∈ edgesOf b, ∀ r e,
          Walk (pilotNetwork (trial M pos edges getFrom getTo length) rAttrs a b) u r e →
            e < pilotBound (trial M pos edges getFrom getTo length) a b →
              d + centreDist M pos (edgesOf b) x ≤ e + centreDist M pos (edgesOf b) u := by
  have hle := hnearest t ht p c hw hbelow
  have hbound := (hspan.walk_nonneg hw).trans_lt hbelow
  rcases getHopBand_minD hspan thread caches (fun e he => (hplaced e (Or.inl he)).1)
    (trial_compConned ha hb) hbound with ⟨cur, hcur, hmin⟩ | ⟨-, hfar⟩
  · have htarget : cur.e ∈ edgesOf b := PointerSet.dedup.mem.1 hcur.target
    have hpos := fun e (he : e ∈ edgesOf b) => (hplaced e (Or.inr he)).2
    obtain ⟨radius, hheur⟩ := distHeur_edgeSet (S := trial M pos edges getFrom getTo length)
      (M := M) rfl hpos
    obtain ⟨q, hwalk⟩ := hcur.walk
    refine ⟨cur.e, htarget, q, cur.d, hwalk, hmin ▸ hle, fun u hu r e hr he => ?_⟩
    have hleast := hcur.least u (PointerSet.dedup.mem.2 hu) r e hr (WithTop.coe_lt_coe.2 he)
    rw [hheur _ (hpos _ htarget), hheur u (hpos u hu)] at hleast
    have hone : (trial M pos edges getFrom getTo length).rOpts.levelPunish 0 = 1 := rfl
    rw [hone, mul_one, mul_one] at hleast
    linarith
  · exact absurd hbelow (not_lt_of_ge (hfar t ht p c hw))

end trial

section shared
variable {E C : Type} [DecidableEq E] [Field C] [LinearOrder C] {M : Metric C} {pos : E → C × C}
  {a b : EdgeCandidateGroup E C}

/-- The end of the edge `s` is the start of `t`, and no other edges meet. -/
def shortcut (M : Metric C) (pos : E → C × C) (edges : List E) (s t : E) (long : C) :
    Setting (E ⊕ E) E C :=
  trial M pos edges Sum.inl (fun e => if e = s then .inl t else .inr e)
    fun e => if e = s then long else 0

theorem shortcut_spanned [IsStrictOrderedRing C] {edges : List E} {s t : E} {long : C}
    (hlong : M.dist (pos s) (pos t) ≤ long) : Spanned M (shortcut M pos edges s t long) := by
  refine trial_spanned fun e _ => ?_
  by_cases he : e = s
  · subst he
    simpa using hlong
  · simp [he, M.self]

theorem shortcut_walk {edges : List E} {s t : E} {long : C} (hst : s ≠ t)
    {rAttrs : RoutingAttributes} {v : E} {p : List E} {c : C}
    (hw : Walk (pilotNetwork (shortcut M pos edges s t long) rAttrs a b) v p c) :
    v ∈ edgesOf a ∧ c = 0 ∨ v = t ∧ c = long := by
  have hinto : ∀ u v : E, (Sum.inl v : E ⊕ E) = (if u = s then .inl t else .inr u) →
      u = s ∧ v = t := by
    intro u v h
    split_ifs at h with hu
    exact ⟨hu, Sum.inl.inj h⟩
  rcases trial_walk hw with hsource | ⟨u, q, d, hq, hmeet, rfl⟩
  · exact Or.inl hsource
  · obtain ⟨rfl, rfl⟩ := hinto u v hmeet
    rcases trial_walk hq with ⟨-, rfl⟩ | ⟨w, -, -, -, hmeet', -⟩
    · exact Or.inr ⟨rfl, by rw [zero_add, if_pos rfl]⟩
    · exact absurd (hinto w u hmeet').2 hst

theorem centreDist_le (M : Metric C) (pos : E → C × C) (es : List E) (s t : E) :
    centreDist M pos es s ≤ M.dist (pos s) (pos t) + centreDist M pos es t :=
  M.triangle _ _ _

/-- A target that is close to the centre is settled before the common edges, although it costs
more. -/
theorem not_nearest_shared [IsStrictOrderedRing C] {s t x : E} (hs : s ∈ edgesOf a)
    (ht : t ∈ edgesOf b)
    (hxa : x ∈ edgesOf a) (hxb : x ∈ edgesOf b)
    (hleast : ∀ y ∈ edgesOf a, y ∈ edgesOf b →
      centreDist M pos (edgesOf b) x ≤ centreDist M pos (edgesOf b) y)
    (hless : M.dist (pos s) (pos t) + centreDist M pos (edgesOf b) t <
      centreDist M pos (edgesOf b) x) :
    ∃ S : Setting (E ⊕ E) E C, Spanned M S ∧ Placed pos S a b ∧ compConned S a b ∧
      ∀ thread rAttrs caches, ¬ Nearest S thread rAttrs a b caches := by
  have ha : a ≠ [] := fun hnil => List.ne_nil_of_mem hs (congrArg edgesOf hnil)
  have hb : b ≠ [] := fun hnil => List.ne_nil_of_mem ht (congrArg edgesOf hnil)
  have hst : s ≠ t := by
    rintro rfl
    rw [M.self, zero_add] at hless
    exact absurd (hleast s hs ht) (not_le_of_gt hless)
  let long := (M.dist (pos s) (pos t) + centreDist M pos (edgesOf b) x -
    centreDist M pos (edgesOf b) t) / 2
  have hlong : M.dist (pos s) (pos t) < long := by
    rw [lt_div_iff₀ zero_lt_two]
    linarith
  have hstart : Spanned M (shortcut M pos (edgesOf a ++ edgesOf b) s t long) :=
    shortcut_spanned hlong.le
  have hplaced : Placed pos (shortcut M pos (edgesOf a ++ edgesOf b) s t long) a b :=
    fun e he => ⟨List.mem_append.2 he, rfl⟩
  refine ⟨_, hstart, hplaced, trial_compConned ha hb, fun thread rAttrs caches hnearest => ?_⟩
  have hpositive : 0 < long := (M.nonneg _ _).trans_lt hlong
  have hfar := le_pendingDistance hplaced hs ht
  have hcommon := le_pendingDistance hplaced hxa ht
  have hapart := centreDist_le M pos (edgesOf b) x t
  have hhalf : long * 2 = M.dist (pos s) (pos t) + centreDist M pos (edgesOf b) x -
    centreDist M pos (edgesOf b) t := div_mul_cancel₀ _ two_ne_zero
  obtain ⟨y, hy, q, d, hw, hd, hall⟩ := trial_stops hstart ha hb hplaced hnearest hxb
    (trial_source hxa (List.mem_append_left _ hxa)) (by rw [pilotBound_eq]; linarith)
  have hto : Walk (pilotNetwork (shortcut M pos (edgesOf a ++ edgesOf b) s t long) rAttrs a b) t
      [t, s] (0 + if s = s then long else 0) :=
    trial_snoc (trial_source hs (List.mem_append_left _ hs)) (List.mem_append_left _ hs)
      (List.mem_append_right _ ht) (if_pos rfl).symm
  rw [if_pos rfl, zero_add] at hto
  have hkey := hall t ht _ _ hto (by rw [pilotBound_eq]; linarith)
  rcases shortcut_walk hst hw with ⟨hya, rfl⟩ | ⟨rfl, rfl⟩
  · have hyx := hleast y hya hy
    linarith
  · exact absurd hd (not_le_of_gt hpositive)

end shared

section junction
variable {E C : Type} [DecidableEq E] [Field C] [LinearOrder C] {M : Metric C} {pos : E → C × C}
  {a b : EdgeCandidateGroup E C}

/-- From the end of `s` the edge `v` leads to `t`, and `v'` leads to `t'`. -/
def junction (M : Metric C) (pos : E → C × C) (edges : List E) (s v v' t t' : E) (long short : C) :
    Setting (E ⊕ E) E C :=
  trial M pos edges (fun e => if e = v ∨ e = v' then .inr s else .inl e)
    (fun e => if e = v then .inl t else if e = v' then .inl t' else .inr e)
    fun e => if e = v then long else if e = v' then short else 0

variable {edges : List E} {s v v' t t' : E} {long short : C} {rAttrs : RoutingAttributes}

theorem junction_spanned [IsStrictOrderedRing C] (hlong : M.dist (pos s) (pos t) ≤ long)
    (hshort : M.dist (pos s) (pos t') ≤ short) :
    Spanned M (junction M pos edges s v v' t t' long short) := by
  refine trial_spanned fun e _ => ?_
  by_cases hv : e = v
  · simpa [hv] using hlong
  · by_cases hv' : e = v'
    · have hvv : ¬ v' = v := hv' ▸ hv
      simpa [hv', hvv] using hshort
    · simp [hv, hv', M.self]

theorem junction_into {u e : E} (hv : e ≠ v) (hv' : e ≠ v')
    (hmeet : (if e = v ∨ e = v' then Sum.inr s else Sum.inl e : E ⊕ E) =
      if u = v then .inl t else if u = v' then .inl t' else .inr u) :
    u = v ∧ e = t ∨ u = v' ∧ e = t' := by
  rw [if_neg (not_or.2 ⟨hv, hv'⟩)] at hmeet
  split_ifs at hmeet with hu hu'
  · exact Or.inl ⟨hu, Sum.inl.inj hmeet⟩
  · exact Or.inr ⟨hu', Sum.inl.inj hmeet⟩

theorem junction_walk_branch {e : E} (he : e = v ∨ e = v') (hva : v ∉ edgesOf a) (hva' : v' ∉ edgesOf a)
    (hs : s ∈ edgesOf a) (hst : s ≠ t) (hst' : s ≠ t') {p : List E} {c : C}
    (hw : Walk (pilotNetwork (junction M pos edges s v v' t t' long short) rAttrs a b) e p c) :
    c = 0 := by
  have hsv : s ≠ v := fun heq => hva (heq ▸ hs)
  have hsv' : s ≠ v' := fun heq => hva' (heq ▸ hs)
  rcases trial_walk hw with ⟨-, hzero⟩ | ⟨u, q, d, hq, hmeet, rfl⟩
  · exact hzero
  · rw [if_pos he] at hmeet
    split_ifs at hmeet with hu hu'
    cases hmeet
    rw [if_neg hu, if_neg hu', add_zero]
    rcases trial_walk hq with ⟨-, hzero⟩ | ⟨w, -, -, -, hmeet', -⟩
    · exact hzero
    · rcases junction_into hsv hsv' hmeet' with ⟨-, heq⟩ | ⟨-, heq⟩
      · exact absurd heq hst
      · exact absurd heq hst'

theorem junction_walk (hvv : v ≠ v') (hva : v ∉ edgesOf a) (hva' : v' ∉ edgesOf a)
    (hs : s ∈ edgesOf a) (hst : s ≠ t) (hst' : s ≠ t') {e : E} (hea : e ∉ edgesOf a) (hev : e ≠ v)
    (hev' : e ≠ v') {p : List E} {c : C}
    (hw : Walk (pilotNetwork (junction M pos edges s v v' t t' long short) rAttrs a b) e p c) :
    e = t ∧ c = long ∨ e = t' ∧ c = short := by
  rcases trial_walk hw with ⟨hsource, -⟩ | ⟨u, q, d, hq, hmeet, rfl⟩
  · exact absurd hsource hea
  · rcases junction_into hev hev' hmeet with ⟨rfl, rfl⟩ | ⟨rfl, rfl⟩
    · have hzero := junction_walk_branch (Or.inl rfl) hva hva' hs hst hst' hq
      exact Or.inl ⟨rfl, by rw [hzero, zero_add, if_pos rfl]⟩
    · have hzero := junction_walk_branch (Or.inr rfl) hva hva' hs hst hst' hq
      exact Or.inr ⟨rfl, by rw [hzero, zero_add, if_neg hvv.symm, if_pos rfl]⟩

theorem junction_ways (hvv : v ≠ v') (hva : v ∉ edgesOf a) (hva' : v' ∉ edgesOf a)
    (hs : s ∈ edgesOf a) (hin : ∀ e ∈ edgesOf a ++ (edgesOf b ++ [v, v']), e ∈ edges)
    {e : E} (he : e ∈ edgesOf b) (hev : e ≠ v) (hev' : e ≠ v') {c : C}
    (hend : e = t ∧ c = long ∨ e = t' ∧ c = short) : ∃ p,
      Walk (pilotNetwork (junction M pos edges s v v' t t' long short) rAttrs a b) e p c := by
  have hsv : s ≠ v := fun heq => hva (heq ▸ hs)
  have hsv' : s ≠ v' := fun heq => hva' (heq ▸ hs)
  have hsin : s ∈ edges := hin s (List.mem_append_left _ hs)
  have hein : e ∈ edges := hin e (List.mem_append_right _ (List.mem_append_left _ he))
  have hstart : Walk (pilotNetwork (junction M pos edges s v v' t t' long short) rAttrs a b) s [s] 0 :=
    trial_source hs hsin
  have hbranch : ∀ u, u = v ∨ u = v' → ∃ p,
      Walk (pilotNetwork (junction M pos edges s v v' t t' long short) rAttrs a b) u p 0 := by
    intro u hu
    have huin : u ∈ edges := hin u (List.mem_append_right _ (List.mem_append_right _ (by simpa)))
    have hstep := trial_snoc hstart hsin huin
      ((if_pos hu).trans ((if_neg hsv).trans (if_neg hsv')).symm)
    rw [if_neg hsv, if_neg hsv', add_zero] at hstep
    exact ⟨_, hstep⟩
  have hfrom : (if e = v ∨ e = v' then Sum.inr s else Sum.inl e : E ⊕ E) = Sum.inl e :=
    if_neg (not_or.2 ⟨hev, hev'⟩)
  rcases hend with ⟨rfl, rfl⟩ | ⟨rfl, rfl⟩
  · obtain ⟨p, hp⟩ := hbranch v (Or.inl rfl)
    have hstep := trial_snoc hp (hin v (by simp)) hein (hfrom.trans (if_pos rfl).symm)
    rw [if_pos rfl, zero_add] at hstep
    exact ⟨_, hstep⟩
  · obtain ⟨p, hp⟩ := hbranch v' (Or.inr rfl)
    have hstep := trial_snoc hp (hin v' (by simp)) hein
      (hfrom.trans ((if_neg hvv.symm).trans (if_pos rfl)).symm)
    rw [if_neg hvv.symm, if_pos rfl, zero_add] at hstep
    exact ⟨_, hstep⟩

variable (M pos s t t' long short) in
theorem junction_placed (hv : v ∉ edgesOf a ++ edgesOf b) (hv' : v' ∉ edgesOf a ++ edgesOf b) :
    Placed pos (junction M pos (edgesOf a ++ (edgesOf b ++ [v, v'])) s v v' t t' long short) a b := by
  intro e he
  have hmem : e ∈ edgesOf a ++ edgesOf b := List.mem_append.2 he
  have hne : ¬ (e = v ∨ e = v') := by
    rintro (rfl | rfl)
    · exact hv hmem
    · exact hv' hmem
  constructor
  · exact List.mem_append.2 (he.imp_right fun he => List.mem_append_left _ he)
  · change Sum.elim pos pos (if e = v ∨ e = v' then Sum.inr s else Sum.inl e) = pos e
    rw [if_neg hne]
    rfl

/-- Of two targets the one that is cheaper together with its distance from the centre is settled
first, although it costs more. -/
theorem junction_not_nearest [IsStrictOrderedRing C] (hs : s ∈ edgesOf a) (ht : t ∈ edgesOf b)
    (ht' : t' ∈ edgesOf b)
    (hapart : ∀ e ∈ edgesOf a, e ∉ edgesOf b) (hvv : v ≠ v')
    (hv : v ∉ edgesOf a ++ edgesOf b) (hv' : v' ∉ edgesOf a ++ edgesOf b)
    (hspan : Spanned M (junction M pos (edgesOf a ++ (edgesOf b ++ [v, v'])) s v v' t t' long short))
    (hless : short < long)
    (hkey : long + centreDist M pos (edgesOf b) t < short + centreDist M pos (edgesOf b) t')
    (hbelow : long <
      pilotBound (junction M pos (edgesOf a ++ (edgesOf b ++ [v, v'])) s v v' t t' long short) a b)
    {thread : ℕ} {caches : Caches E C} :
    ¬ Nearest (junction M pos (edgesOf a ++ (edgesOf b ++ [v, v'])) s v v' t t' long short) thread
      rAttrs a b caches := by
  intro hnearest
  have ha : a ≠ [] := fun hnil => List.ne_nil_of_mem hs (congrArg edgesOf hnil)
  have hb : b ≠ [] := fun hnil => List.ne_nil_of_mem ht (congrArg edgesOf hnil)
  have hplaced := junction_placed M pos s t t' long short hv hv'
  rw [List.mem_append, not_or] at hv hv'
  have hst : s ≠ t := fun heq => hapart s hs (heq ▸ ht)
  have hst' : s ≠ t' := fun heq => hapart s hs (heq ▸ ht')
  have hne : ∀ e ∈ edgesOf b, e ≠ v ∧ e ≠ v' := fun e he =>
    ⟨fun heq => hv.2 (heq ▸ he), fun heq => hv'.2 (heq ▸ he)⟩
  have hways : ∀ e ∈ edgesOf b, ∀ c, e = t ∧ c = long ∨ e = t' ∧ c = short → ∃ p,
      Walk (pilotNetwork (junction M pos (edgesOf a ++ (edgesOf b ++ [v, v'])) s v v' t t' long short)
        rAttrs a b) e p c :=
    fun e he c hend =>
      junction_ways hvv hv.1 hv'.1 hs (fun _ he => he) he (hne e he).1 (hne e he).2 hend
  obtain ⟨p, hway⟩ := hways t' ht' short (Or.inr ⟨rfl, rfl⟩)
  obtain ⟨p', hway'⟩ := hways t ht long (Or.inl ⟨rfl, rfl⟩)
  obtain ⟨y, hy, q, d, hw, hd, hall⟩ := trial_stops hspan ha hb hplaced hnearest ht' hway
    (hless.trans hbelow)
  have hle := hall t ht _ _ hway' hbelow
  rcases junction_walk hvv hv.1 hv'.1 hs hst hst' (fun hya => hapart y hya hy) (hne y hy).1
    (hne y hy).2 hw with ⟨rfl, rfl⟩ | ⟨rfl, rfl⟩
  · exact absurd hd (not_le_of_gt hless)
  · exact absurd hle (not_le_of_gt hkey)

theorem not_nearest_unequal [IsStrictOrderedRing C] (hs : s ∈ edgesOf a) (ht : t ∈ edgesOf b)
    (ht' : t' ∈ edgesOf b)
    (hapart : ∀ e ∈ edgesOf a, e ∉ edgesOf b) (hvv : v ≠ v')
    (hv : v ∉ edgesOf a ++ edgesOf b) (hv' : v' ∉ edgesOf a ++ edgesOf b)
    (hless : centreDist M pos (edgesOf b) t < centreDist M pos (edgesOf b) t') :
    ∃ S : Setting (E ⊕ E) E C, Spanned M S ∧ Placed pos S a b ∧ compConned S a b ∧
      ∀ thread rAttrs caches, ¬ Nearest S thread rAttrs a b caches := by
  have ha : a ≠ [] := fun hnil => List.ne_nil_of_mem hs (congrArg edgesOf hnil)
  have hb : b ≠ [] := fun hnil => List.ne_nil_of_mem ht (congrArg edgesOf hnil)
  obtain ⟨short, hshort⟩ : ∃ short, short = max (M.dist (pos s) (pos t)) (M.dist (pos s) (pos t')) :=
    ⟨_, rfl⟩
  obtain ⟨half, hhalf⟩ : ∃ half : C, half * 2 =
      centreDist M pos (edgesOf b) t' - centreDist M pos (edgesOf b) t :=
    ⟨_, div_mul_cancel₀ _ two_ne_zero⟩
  have hlong : short < short + half := by linarith
  have hspan : Spanned M
      (junction M pos (edgesOf a ++ (edgesOf b ++ [v, v'])) s v v' t t' (short + half) short) :=
    junction_spanned (((le_max_left _ _).trans hshort.ge).trans hlong.le)
      ((le_max_right _ _).trans hshort.ge)
  have hplaced := junction_placed M pos s t t' (short + half) short hv hv'
  refine ⟨_, hspan, hplaced, trial_compConned ha hb, fun thread rAttrs caches => ?_⟩
  refine junction_not_nearest hs ht ht' hapart hvv hv hv' hspan hlong (by linarith) ?_
  -- the centre is no nearer to one target than the targets are apart
  have hfar := le_pendingDistance hplaced hs ht
  have hfar' := le_pendingDistance hplaced hs ht'
  have hcentre := centreDist_le M pos (edgesOf b) t' t
  have htriangle := M.triangle (pos t') (pos s) (pos t)
  rw [M.comm (pos t') (pos s)] at htriangle
  have hmax : short ≤ _ := hshort.trans_le (max_le hfar hfar')
  unfold junction
  rw [pilotBound_eq]
  linarith

end junction

section main
variable {E C : Type} [DecidableEq E] [Field C] [LinearOrder C] {a b : EdgeCandidateGroup E C}

/-- The least distance is right, whatever the graph is that the candidates belong to. -/
def AlwaysNearest (M : Metric C) (pos : E → C × C) (a b : EdgeCandidateGroup E C) : Prop :=
  ∀ (N : Type) [DecidableEq N] (S : Setting N E C) (thread : ℕ) (rAttrs : RoutingAttributes)
    (caches : Caches E C), Spanned M S → Placed pos S a b → compConned S a b →
      Nearest S thread rAttrs a b caches

variable [IsStrictOrderedRing C] {M : Metric C} {pos : E → C × C}

/-- Where the placement of two groups is not safe, there are streets that mislead the pilot run. -/
theorem exists_not_nearest [Infinite E] (ha : a ≠ [])
    (hnot : ¬ SafePair M pos (edgesOf a) (edgesOf b)) :
    ∃ S : Setting (E ⊕ E) E C, Spanned M S ∧ Placed pos S a b ∧ compConned S a b ∧
      ∀ thread rAttrs caches, ¬ Nearest S thread rAttrs a b caches := by
  rw [SafePair, not_or, not_and] at hnot
  obtain ⟨hunequal, hshared⟩ := hnot
  by_cases hapart : ∀ e ∈ edgesOf a, e ∉ edgesOf b
  · have hdiffer := hunequal hapart
    simp only [not_forall] at hdiffer
    obtain ⟨t, ht, t', ht', hne⟩ := hdiffer
    obtain ⟨c, hc⟩ := List.exists_mem_of_ne_nil a ha
    have hs : c.e ∈ edgesOf a := List.mem_map_of_mem hc
    obtain ⟨v, hv⟩ := Infinite.exists_notMem_finset (edgesOf a ++ edgesOf b).toFinset
    obtain ⟨v', hv'⟩ := Infinite.exists_notMem_finset (v :: (edgesOf a ++ edgesOf b)).toFinset
    rw [List.mem_toFinset] at hv hv'
    rw [List.mem_cons, not_or] at hv'
    rcases lt_or_gt_of_ne hne with hlt | hgt
    · exact not_nearest_unequal hs ht ht' hapart (Ne.symm hv'.1) hv hv'.2 hlt
    · exact not_nearest_unequal hs ht' ht hapart (Ne.symm hv'.1) hv hv'.2 hgt
  · simp only [not_forall, not_exists, not_and, not_le, exists_prop] at hapart hshared
    obtain ⟨s, hs, t, ht, hless⟩ := hshared
    obtain ⟨y, hya, hyb⟩ := hapart
    have hne : ((edgesOf a).filter (· ∈ edgesOf b)).toFinset.Nonempty :=
      ⟨y, List.mem_toFinset.2 (List.mem_filter.2 ⟨hya, decide_eq_true (not_not.1 hyb)⟩)⟩
    obtain ⟨x, hx, hleast⟩ := Finset.exists_min_image _ (centreDist M pos (edgesOf b)) hne
    obtain ⟨hxa, hxb⟩ := List.mem_filter.1 (List.mem_toFinset.1 hx)
    have hxb : x ∈ edgesOf b := of_decide_eq_true hxb
    refine not_nearest_shared hs ht hxa hxb (fun z hza hzb => ?_) (hless x hxa hxb)
    exact hleast z (List.mem_toFinset.2 (List.mem_filter.2 ⟨hza, decide_eq_true hzb⟩))

/-- The pilot run finds a nearest pair on every graph exactly for groups whose placement is safe. -/
theorem pilotRun_nearest_iff [Infinite E] (ha : a ≠ []) :
    AlwaysNearest M pos a b ↔ SafePair M pos (edgesOf a) (edgesOf b) := by
  constructor
  · intro h
    by_contra hnot
    obtain ⟨S, hspan, hplaced, hconn, hmisled⟩ := exists_not_nearest ha hnot
    exact hmisled 0 ⟨"", "", ""⟩ (fun _ _ _ _ => none)
      (h _ S 0 ⟨"", "", ""⟩ (fun _ _ _ _ => none) hspan hplaced hconn)
  · intro hsafe N _ S thread rAttrs caches hspan hplaced hconn
    exact nearest_of_safe hspan thread caches hplaced hconn hsafe

end main

section sample

/-- Three edges that start on a line, of which two start at the same place. -/
def tripleStart (e : ℕ) : ℚ × ℚ := [(0, 0), (1, 0), (1, 0), (4, 0)].getD e (0, 0)

theorem pilotRun_nearest_pair : AlwaysNearest taxicab tripleStart [⟨0, 0⟩] [⟨2, 0⟩, ⟨3, 0⟩] :=
  (pilotRun_nearest_iff (by decide)).2 (Or.inl ⟨by decide, by decide +kernel⟩)

def twoWays : Setting (ℕ ⊕ ℕ) ℕ ℚ :=
  junction taxicab tripleStart [0, 1, 2, 3, 4, 5] 0 4 5 1 3 4.5 4

/-- The edge 1 is settled before the edge 3, which is farther from the centre of the targets. -/
theorem pilotRun_farther :
    Spanned taxicab twoWays ∧ Placed tripleStart twoWays [⟨0, 0⟩] [⟨1, 0⟩, ⟨2, 0⟩, ⟨3, 0⟩] ∧
      compConned twoWays [⟨0, 0⟩] [⟨1, 0⟩, ⟨2, 0⟩, ⟨3, 0⟩] ∧
      (getHopBand twoWays 0 ⟨"", "", ""⟩ [⟨0, 0⟩] [⟨1, 0⟩, ⟨2, 0⟩, ⟨3, 0⟩]
        fun _ _ _ _ => none).1.minD = 4.5 ∧
      (∃ p, Walk (pilotNetwork twoWays ⟨"", "", ""⟩ [⟨0, 0⟩] [⟨1, 0⟩, ⟨2, 0⟩, ⟨3, 0⟩]) 3 p 4) ∧
      4 < pilotBound twoWays [⟨0, 0⟩] [⟨1, 0⟩, ⟨2, 0⟩, ⟨3, 0⟩] := by
  refine ⟨junction_spanned (by decide +kernel) (by decide +kernel), ?_, by decide +kernel,
    by decide +kernel, ?_, by decide +kernel⟩
  · exact junction_placed taxicab tripleStart 0 1 3 4.5 4 (by decide) (by decide)
  · exact junction_ways (by decide) (by decide) (by decide) (by decide) (by decide) (by decide)
      (by decide) (by decide) (Or.inr ⟨rfl, rfl⟩)

end sample

end Pfaedle.Router

import Pfaedle.EDijkstraInvariant
import Mathlib.Order.Bounds.Basic
import Mathlib.Data.Fin.VecNotation

set_option autoImplicit false

/-! # The edge-based search returns shortest edge paths -/
namespace Pfaedle.EDijkstra
open LabelSetting

section
variable {N E C : Type*} [DecidableEq N] [DecidableEq E] [AddCommGroup C] [LinearOrder C]
  [IsOrderedAddMonoid C]
variable (pq : PriorityQueue (RouteEdge N E C) RouteEdge.less) {g : DirGraph N E}
  {costFunc : CostFunc N E C} {heurFunc : HeurFunc E C} {tos : List E} {source : E → Prop}

/-- The set-to-set loop stops at a target that no other target undercuts, up to their
    heuristics, or finds all targets out of reach. -/
def SetOutcome (P : Network E C) (inf : WithTop C) (heurFunc : HeurFunc E C) (tos : List E) :
    Option (RouteEdge N E C × Settled N E C) → Prop
  | none => ∀ t ∈ tos, ∀ p c, Walk P t p c → inf ≤ (c : WithTop C)
  | some (cur, settled) =>
    cur.e ∈ tos ∧ cur ∈ settled ∧ Linked P settled ∧ (cur.d : WithTop C) < inf ∧
      ∀ t ∈ tos, heurFunc cur.e tos = heurFunc t tos → ∀ p c, Walk P t p c → cur.d ≤ c

omit [DecidableEq N] [DecidableEq E] [AddCommGroup C] [LinearOrder C] [IsOrderedAddMonoid C] in
theorem unsettled_of_fresh {settled : Settled N E C} (hfresh : ∀ r ∈ settled, r.e ∉ tos) {t : E}
    (ht : t ∈ tos) : ¬ ∃ d, dist settled t d := by
  intro h
  obtain ⟨d, r, hr, he, _⟩ := h
  exact hfresh r hr (he ▸ ht)

theorem searchSet_spec (hc : Consistent (network g costFunc source) fun e => heurFunc e tos)
    (k : ℕ) (settled : Settled N E C) (queue : List (RouteEdge N E C))
    (I : LoopInvariant g costFunc heurFunc tos source settled queue)
    (hfresh : ∀ r ∈ settled, r.e ∉ tos) (hk : pending g settled queue < k) :
    SetOutcome (network g costFunc source) costFunc.inf heurFunc tos
      (searchSet pq g costFunc heurFunc tos k settled queue) := by
  induction k generalizing settled queue with
  | zero => omega
  | succ k ih =>
    rw [searchSet]
    cases hpop : pq.pop queue with
    | none =>
      dsimp only
      have hempty := pq.eq_nil_of_pop hpop
      intro t ht p c hw
      by_contra hlt
      refine unsettled_of_fresh hfresh ht (I.labels.exhausted hc ?_ hw (not_le.1 hlt))
      intro v d hv
      simp [dist, hempty] at hv
    | some popped =>
      obtain ⟨cur, rest⟩ := popped
      dsimp only
      have hcur : cur ∈ queue := (pq.mem_iff hpop cur).2 (.inl rfl)
      have hlen := pq.length_pop hpop
      split
      · rename_i hold
        apply ih settled rest (I.stale hpop hold) hfresh
        simp only [pending] at hk ⊢
        omega
      · rename_i hnot
        have hnew : (settled.find cur.e).isSome = false := Bool.eq_false_iff.2 hnot
        have hnext := I.settle hc hpop hnew
        split
        · rename_i htarget
          have hlt := I.labels.front_lt cur.e cur.d ⟨cur, hcur, rfl, rfl⟩
          refine ⟨htarget, List.mem_cons_self, hnext.linked, hlt, ?_⟩
          intro t ht hsame p c hw
          by_cases hreach : (c : WithTop C) < costFunc.inf
          · obtain ⟨u, d, hopen, _, hle⟩ :=
              I.labels.frontier hc hw hreach (unsettled_of_fresh hfresh ht)
            have hall := (pop_least I hpop u d hopen).trans hle
            rw [hsame] at hall
            exact le_of_add_le_add_right hall
          · exact le_of_lt (WithTop.coe_lt_coe.1 (hlt.trans_le (not_lt.1 hreach)))
        · rename_i hother
          apply ih _ _ hnext
          · intro r hr
            cases List.mem_cons.1 hr with
            | inl he => exact he ▸ hother
            | inr hin => exact hfresh r hin
          · have := pending_settle costFunc heurFunc tos (I.inside cur hcur) hpop hnew
            omega

/-- What the edge-to-set loop has written for a target is final for the settled ones and
    untouched for the others. -/
structure ResultsInvariant (P : Network E C) (inf : WithTop C) (tos : List E)
    (settled : Settled N E C) (res : Results E C) : Prop where
  found : res.found = (tos.filter fun t => (settled.find t).isSome).length
  hit : ∀ r ∈ settled, r.e ∈ tos → res.costs r.e = r.d ∧ Walk P r.e (res.resEdges r.e) r.d
  miss : ∀ t ∈ tos, (settled.find t).isSome = false → res.costs t = inf ∧ res.resEdges t = []

omit [DecidableEq N] [AddCommGroup C] [LinearOrder C] [IsOrderedAddMonoid C] in
theorem filter_settle_length {settled : Settled N E C} {cur : RouteEdge N E C}
    (hnodup : tos.Nodup) (hnew : (settled.find cur.e).isSome = false) :
    (tos.filter fun t => (Settled.find (cur :: settled) t).isSome).length =
      (tos.filter fun t => (settled.find t).isSome).length + if cur.e ∈ tos then 1 else 0 := by
  induction tos with
  | nil => simp
  | cons t tos ih =>
    have hrest := ih (List.nodup_cons.1 hnodup).2
    have ht := (List.nodup_cons.1 hnodup).1
    by_cases he : cur.e = t
    · subst he
      have hcur : (Settled.find (cur :: settled) cur.e).isSome := by simp [Settled.find]
      rw [if_neg ht] at hrest
      simp [hcur, hnew, hrest]
    · have hsame : Settled.find (cur :: settled) t = settled.find t := by simp [Settled.find, he]
      have hmem : cur.e ∈ t :: tos ↔ cur.e ∈ tos := by simp [he]
      simp only [List.filter_cons, hsame, hmem]
      split
      · simp only [List.length_cons, hrest]
        omega
      · exact hrest

omit [DecidableEq N] [LinearOrder C] [IsOrderedAddMonoid C] in
theorem ResultsInvariant.settle {P : Network E C} {settled : Settled N E C}
    {res : Results E C} {cur : RouteEdge N E C} (R : ResultsInvariant P costFunc.inf tos settled res)
    (hnodup : tos.Nodup) (hlinked : Linked P (cur :: settled))
    (hnew : (settled.find cur.e).isSome = false) :
    ResultsInvariant P costFunc.inf tos (cur :: settled)
      (if cur.e ∈ tos then res.hit cur (cur :: settled) else res) := by
  have hne : ∀ r ∈ settled, r.e ≠ cur.e := hlinked.1
  have hmiss : ∀ t, (Settled.find (cur :: settled) t).isSome = false →
      t ≠ cur.e ∧ (settled.find t).isSome = false := by
    intro t h
    by_cases he : cur.e = t
    · simp [Settled.find, he] at h
    · have hsame : Settled.find (cur :: settled) t = settled.find t := by simp [Settled.find, he]
      exact ⟨fun h => he h.symm, hsame ▸ h⟩
  have hcount := filter_settle_length hnodup hnew
  split
  · rename_i htarget
    rw [if_pos htarget, ← R.found] at hcount
    refine ⟨hcount.symm, ?_, ?_⟩
    · intro r hr ht
      cases List.mem_cons.1 hr with
      | inl he =>
        subst he
        simp only [Results.hit, Function.update_self]
        exact ⟨trivial, buildPath_walk hlinked (le_refl _) hr⟩
      | inr hin =>
        simp only [Results.hit, Function.update_of_ne (hne r hin)]
        exact R.hit r hin ht
    · intro t ht hnone
      have h := hmiss t hnone
      simp only [Results.hit, Function.update_of_ne h.1]
      exact R.miss t ht h.2
  · rename_i hother
    rw [if_neg hother, ← R.found] at hcount
    refine ⟨hcount.symm, ?_, fun t ht hnone => R.miss t ht (hmiss t hnone).2⟩
    intro r hr ht
    cases List.mem_cons.1 hr with
    | inl he => exact absurd (he ▸ ht) hother
    | inr hin => exact R.hit r hin ht

def TargetOutcome (P : Network E C) (inf : WithTop C) (res : Results E C) (t : E) : Prop :=
  (∃ d : C, res.costs t = d ∧ (d : WithTop C) < inf ∧ Walk P t (res.resEdges t) d ∧
    ∀ p c, Walk P t p c → d ≤ c) ∨
  (res.costs t = inf ∧ res.resEdges t = [] ∧ ∀ p c, Walk P t p c → inf ≤ (c : WithTop C))

omit [DecidableEq N] [IsOrderedAddMonoid C] in
theorem target_settled {settled : Settled N E C} {queue : List (RouteEdge N E C)}
    {res : Results E C} (I : LoopInvariant g costFunc heurFunc tos source settled queue)
    (R : ResultsInvariant (network g costFunc source) costFunc.inf tos settled res) {t : E}
    (ht : t ∈ tos) (hset : (settled.find t).isSome) :
    TargetOutcome (network g costFunc source) costFunc.inf res t := by
  obtain ⟨r, hr, he⟩ := Settled.find_isSome.1 hset
  subst he
  have hd : dist settled r.e r.d := ⟨r, hr, rfl, rfl⟩
  have hhit := R.hit r hr ht
  exact .inl ⟨r.d, hhit.1, I.labels.dist_lt _ _ hd, hhit.2, I.labels.optimal _ _ hd⟩

theorem searchAll_spec (hc : Consistent (network g costFunc source) fun e => heurFunc e tos)
    (hnodup : tos.Nodup) (k : ℕ) (settled : Settled N E C) (queue : List (RouteEdge N E C))
    (res : Results E C) (I : LoopInvariant g costFunc heurFunc tos source settled queue)
    (R : ResultsInvariant (network g costFunc source) costFunc.inf tos settled res)
    (hk : pending g settled queue < k) (t : E) (ht : t ∈ tos) :
    TargetOutcome (network g costFunc source) costFunc.inf
      (searchAll pq g costFunc heurFunc tos k settled queue res) t := by
  induction k generalizing settled queue res with
  | zero => omega
  | succ k ih =>
    rw [searchAll]
    cases hpop : pq.pop queue with
    | none =>
      dsimp only
      have hempty := pq.eq_nil_of_pop hpop
      cases hset : (settled.find t).isSome with
      | true => exact target_settled I R ht hset
      | false =>
        have hmiss := R.miss t ht hset
        refine .inr ⟨hmiss.1, hmiss.2, ?_⟩
        intro p c hw
        by_contra hlt
        have hreach := I.labels.exhausted hc (by simp [dist, hempty]) hw (not_le.1 hlt)
        rw [← dist_isSome, hset] at hreach
        exact Bool.false_ne_true hreach
    | some popped =>
      obtain ⟨cur, rest⟩ := popped
      dsimp only
      have hcur : cur ∈ queue := (pq.mem_iff hpop cur).2 (.inl rfl)
      have hlen := pq.length_pop hpop
      split
      · rename_i hold
        apply ih settled rest res (I.stale hpop hold) R
        simp only [pending] at hk ⊢
        omega
      · rename_i hnot
        have hnew : (settled.find cur.e).isSome = false := Bool.eq_false_iff.2 hnot
        have hnext := I.settle hc hpop hnew
        have hres := R.settle hnodup hnext.linked hnew
        generalize (if cur.e ∈ tos then res.hit cur (cur :: settled) else res) = res' at hres ⊢
        split
        · rename_i hall
          rw [hres.found, List.length_filter_eq_length_iff] at hall
          exact target_settled hnext hres ht (hall t ht)
        · apply ih _ _ _ hnext hres
          have := pending_settle costFunc heurFunc tos (I.inside cur hcur) hpop hnew
          omega

omit [DecidableEq N] [LinearOrder C] [IsOrderedAddMonoid C] in
theorem results_initial (P : Network E C) (inf : WithTop C) (tos : List E) :
    ResultsInvariant P inf tos ([] : Settled N E C) ⟨0, fun _ => inf, fun _ => []⟩ :=
  ⟨by simp [Settled.find], fun _ hr => absurd hr (by simp), fun _ _ _ => ⟨rfl, rfl⟩⟩

omit [LinearOrder C] [IsOrderedAddMonoid C] in
theorem pending_initial (froms : List E) :
    pending g [] (froms.map (initial costFunc heurFunc tos)) < rounds g froms.length := by
  simp only [pending, rounds, unpaid_nil, List.length_map]
  omega

theorem shortestPathAll_spec {fromE : E}
    (hc : Consistent (network g costFunc (· ∈ [fromE])) fun e => heurFunc e tos)
    (hnodup : tos.Nodup) (hin : fromE ∈ g.edges)
    (hlt : (costFunc.start fromE : WithTop C) < costFunc.inf) {t : E} (ht : t ∈ tos) :
    TargetOutcome (network g costFunc (· ∈ [fromE])) costFunc.inf
      (shortestPathAll pq g costFunc heurFunc tos fromE) t := by
  unfold shortestPathAll
  rw [if_neg (List.ne_nil_of_mem ht)]
  have hstart : LoopInvariant g costFunc heurFunc tos (· ∈ [fromE]) [] _ :=
    loopInvariant_initial [fromE] (by simpa using hin) (by simpa using hlt)
  exact searchAll_spec pq hc hnodup _ _ _ _ hstart (results_initial _ _ _) (pending_initial _) t ht

theorem shortestPathSet_spec {froms : List E}
    (hc : Consistent (network g costFunc (· ∈ froms)) fun e => heurFunc e tos)
    (hin : ∀ e ∈ froms, e ∈ g.edges)
    (hlt : ∀ e ∈ froms, (costFunc.start e : WithTop C) < costFunc.inf) (P : Network E C)
    (hP : P = network g costFunc (· ∈ froms)) (res : WithTop C × List E)
    (hres : res = shortestPathSet pq g costFunc heurFunc tos froms) :
    (∃ t ∈ tos, ∃ d : C, res.1 = d ∧ (d : WithTop C) < costFunc.inf ∧ Walk P t res.2 d ∧
      ∀ t' ∈ tos, heurFunc t tos = heurFunc t' tos → ∀ p c, Walk P t' p c → d ≤ c) ∨
    (res = (costFunc.inf, []) ∧
      ∀ t ∈ tos, ∀ p c, Walk P t p c → costFunc.inf ≤ (c : WithTop C)) := by
  subst hP hres
  unfold shortestPathSet
  by_cases hnone : froms = [] ∨ tos = []
  · rw [if_pos hnone]
    refine .inr ⟨rfl, ?_⟩
    intro t ht p c hw
    cases hnone with
    | inr htos => simp [htos] at ht
    | inl hfroms =>
      obtain ⟨s, _, _, hs⟩ := hw.isPath.1.head
      simp [hfroms] at hs
  · rw [if_neg hnone]
    have hspec := searchSet_spec pq hc _ [] _ (loopInvariant_initial froms hin hlt)
      (fun r hr => absurd hr (by simp)) (pending_initial froms)
    cases hs : searchSet pq g costFunc heurFunc tos (rounds g froms.length) []
      (froms.map (initial costFunc heurFunc tos)) with
    | none =>
      rw [hs] at hspec
      exact .inr ⟨rfl, hspec⟩
    | some found =>
      obtain ⟨cur, settled⟩ := found
      rw [hs] at hspec
      obtain ⟨ht, hcur, hlinked, hltd, hbest⟩ := hspec
      exact .inl ⟨cur.e, ht, cur.d, rfl, hltd, buildPath_walk hlinked (le_refl _) hcur, hbest⟩

/-! Results stated over edge paths. -/

def pathCosts (P : Network E C) (ts : List E) : Set (WithTop C) :=
  {c | ∃ t ∈ ts, ∃ p, IsPath P p t ∧ c = ((pathCost P p : C) : WithTop C)}

/-- `v` is the least cost of an edge path to one of `ts`, or `inf` when none is cheaper than
    `inf`, and `el` read backwards is a path of that cost. -/
structure ShortestTo (P : Network E C) (inf : WithTop C) (ts : List E) (v : WithTop C)
    (el : List E) : Prop where
  least : IsLeast (insert inf (pathCosts P ts)) v
  path : v ≠ inf → ∃ t ∈ ts, IsPath P el.reverse t ∧ ((pathCost P el.reverse : C) : WithTop C) = v

omit [DecidableEq E] [IsOrderedAddMonoid C] in
theorem shortestTo_of_walk {P : Network E C} {inf : WithTop C} {ts : List E} {t : E}
    {el : List E} {d : C} (ht : t ∈ ts) (hlt : (d : WithTop C) < inf) (hw : Walk P t el d)
    (hbest : ∀ t' ∈ ts, ∀ p c, Walk P t' p c → d ≤ c) : ShortestTo P inf ts d el := by
  have hpath := hw.isPath
  refine ⟨⟨.inr ⟨t, ht, el.reverse, hpath.1, by rw [hpath.2]⟩, ?_⟩, fun _ => ?_⟩
  · intro c hc
    cases hc with
    | inl he => exact he ▸ hlt.le
    | inr hc =>
      obtain ⟨t', ht', p, hp, he⟩ := hc
      rw [he]
      exact WithTop.coe_le_coe.2 (hbest t' ht' _ _ hp.walk)
  · exact ⟨t, ht, hpath.1, by rw [hpath.2]⟩

omit [DecidableEq E] [IsOrderedAddMonoid C] in
theorem shortestTo_of_none {P : Network E C} {inf : WithTop C} {ts : List E}
    (hnone : ∀ t ∈ ts, ∀ p c, Walk P t p c → inf ≤ (c : WithTop C)) :
    ShortestTo P inf ts inf [] := by
  refine ⟨⟨.inl rfl, ?_⟩, fun h => absurd rfl h⟩
  intro c hc
  cases hc with
  | inl he => exact he ▸ le_refl _
  | inr hc =>
    obtain ⟨t, ht, p, hp, he⟩ := hc
    exact he ▸ hnone t ht _ _ hp.walk

omit [DecidableEq N] [DecidableEq E] [IsOrderedAddMonoid C] in
theorem consistent_network (hnonneg : ∀ e n e', 0 ≤ costFunc.cost e n e')
    (hcons : ∀ e ∈ g.edges, ∀ e' ∈ g.adjListOut (g.getTo e),
      heurFunc e tos ≤ costFunc.cost e (g.getTo e) e' + heurFunc e' tos) (source : E → Prop) :
    Consistent (network g costFunc source) fun e => heurFunc e tos :=
  ⟨fun _ _ => hnonneg _ _ _, fun _ hs => hcons _ hs.1 _ hs.2⟩

theorem shortestPathAll_shortest {fromE : E}
    (hc : Consistent (network g costFunc (· ∈ [fromE])) fun e => heurFunc e tos)
    (hnodup : tos.Nodup) (hin : fromE ∈ g.edges)
    (hlt : (costFunc.start fromE : WithTop C) < costFunc.inf) {t : E} (ht : t ∈ tos) :
    ShortestTo (network g costFunc (· ∈ [fromE])) costFunc.inf [t]
      ((shortestPathAll pq g costFunc heurFunc tos fromE).costs t)
      ((shortestPathAll pq g costFunc heurFunc tos fromE).resEdges t) := by
  cases shortestPathAll_spec pq hc hnodup hin hlt ht with
  | inl h =>
    obtain ⟨d, hd, hdlt, hw, hbest⟩ := h
    rw [hd]
    exact shortestTo_of_walk List.mem_cons_self hdlt hw
      fun t' ht' => by rw [List.mem_singleton.1 ht']; exact hbest
  | inr h =>
    rw [h.1, h.2.1]
    exact shortestTo_of_none fun t' ht' => by rw [List.mem_singleton.1 ht']; exact h.2.2

theorem shortestPathSet_shortest {froms : List E}
    (hc : Consistent (network g costFunc (· ∈ froms)) fun e => heurFunc e tos)
    (hsame : ∀ t ∈ tos, ∀ t' ∈ tos, heurFunc t tos = heurFunc t' tos)
    (hin : ∀ e ∈ froms, e ∈ g.edges)
    (hlt : ∀ e ∈ froms, (costFunc.start e : WithTop C) < costFunc.inf) :
    ShortestTo (network g costFunc (· ∈ froms)) costFunc.inf tos
      (shortestPathSet pq g costFunc heurFunc tos froms).1
      (shortestPathSet pq g costFunc heurFunc tos froms).2 := by
  cases shortestPathSet_spec pq hc hin hlt _ rfl _ rfl with
  | inl h =>
    obtain ⟨t, ht, d, hd, hdlt, hw, hbest⟩ := h
    rw [hd]
    exact shortestTo_of_walk ht hdlt hw fun t' ht' => hbest t' ht' (hsame t ht t' ht')
  | inr h =>
    rw [h.1]
    exact shortestTo_of_none h.2

omit [DecidableEq E] [IsOrderedAddMonoid C] in
theorem ShortestTo.least_of_each {P : Network E C} {inf v : WithTop C} {ts el : List E}
    {costs : E → WithTop C} {resEdges : E → List E} (hts : ts ≠ []) (hv : ShortestTo P inf ts v el)
    (heach : ∀ t ∈ ts, ShortestTo P inf [t] (costs t) (resEdges t)) :
    IsLeast {c | ∃ t ∈ ts, c = costs t} v := by
  have hlower : ∀ t ∈ ts, v ≤ costs t := by
    intro t ht
    apply hv.least.2
    cases (heach t ht).least.1 with
    | inl he => exact .inl he
    | inr hp =>
      obtain ⟨t', ht', p⟩ := hp
      rw [List.mem_singleton.1 ht'] at p
      exact .inr ⟨t, ht, p⟩
  refine ⟨?_, ?_⟩
  · cases hv.least.1 with
    | inl he =>
      obtain ⟨t, ht⟩ := List.exists_mem_of_ne_nil ts hts
      have hup : costs t ≤ inf := (heach t ht).least.2 (.inl rfl)
      exact ⟨t, ht, le_antisymm (hlower t ht) (he ▸ hup)⟩
    | inr hp =>
      obtain ⟨t, ht, p, hp, he⟩ := hp
      have hup : costs t ≤ v :=
        (heach t ht).least.2 (.inr ⟨t, List.mem_cons_self, p, hp, he⟩)
      exact ⟨t, ht, le_antisymm (hlower t ht) hup⟩
  · intro c hc
    obtain ⟨t, ht, he⟩ := hc
    exact he ▸ hlower t ht

/-- Both searches return shortest edge paths for a consistent heuristic, and they agree. -/
theorem shortestPath_shortest (pq : PriorityQueue (RouteEdge N E C) RouteEdge.less)
    (g : DirGraph N E) (costFunc : CostFunc N E C) (heurFunc : HeurFunc E C) (tos : List E)
    (hnodup : tos.Nodup) (hnonneg : ∀ e n e', 0 ≤ costFunc.cost e n e')
    (hcons : ∀ e ∈ g.edges, ∀ e' ∈ g.adjListOut (g.getTo e),
      heurFunc e tos ≤ costFunc.cost e (g.getTo e) e' + heurFunc e' tos) :
    (∀ fromE ∈ g.edges, (costFunc.start fromE : WithTop C) < costFunc.inf →
      ∀ t ∈ tos, ShortestTo (network g costFunc (· ∈ [fromE])) costFunc.inf [t]
        ((shortestPathAll pq g costFunc heurFunc tos fromE).costs t)
        ((shortestPathAll pq g costFunc heurFunc tos fromE).resEdges t)) ∧
    ((∀ t ∈ tos, ∀ t' ∈ tos, heurFunc t tos = heurFunc t' tos) →
      (∀ froms : List E, (∀ e ∈ froms, e ∈ g.edges) →
        (∀ e ∈ froms, (costFunc.start e : WithTop C) < costFunc.inf) →
        ShortestTo (network g costFunc (· ∈ froms)) costFunc.inf tos
          (shortestPathSet pq g costFunc heurFunc tos froms).1
          (shortestPathSet pq g costFunc heurFunc tos froms).2) ∧
      ∀ fromE ∈ g.edges, (costFunc.start fromE : WithTop C) < costFunc.inf → tos ≠ [] →
        IsLeast {c | ∃ t ∈ tos, c = (shortestPathAll pq g costFunc heurFunc tos fromE).costs t}
          (shortestPathSet pq g costFunc heurFunc tos [fromE]).1) := by
  have hc := consistent_network hnonneg hcons
  have hone : ∀ fromE ∈ g.edges, (costFunc.start fromE : WithTop C) < costFunc.inf →
      ∀ t ∈ tos, ShortestTo (network g costFunc (· ∈ [fromE])) costFunc.inf [t] _ _ :=
    fun fromE hin hlt t ht => shortestPathAll_shortest pq (hc _) hnodup hin hlt ht
  refine ⟨hone, fun hsame => ?_⟩
  have hset : ∀ froms : List E, (∀ e ∈ froms, e ∈ g.edges) →
      (∀ e ∈ froms, (costFunc.start e : WithTop C) < costFunc.inf) →
      ShortestTo (network g costFunc (· ∈ froms)) costFunc.inf tos _ _ :=
    fun froms hin hlt => shortestPathSet_shortest pq (hc _) hsame hin hlt
  refine ⟨hset, fun fromE hin hlt htos => ?_⟩
  have hall := hset [fromE] (by simpa using hin) (by simpa using hlt)
  exact hall.least_of_each htos fun t ht => hone fromE hin hlt t ht

def chain : DirGraph (Fin 3) (Fin 3) := .ofEdges [0, 1, 2] ![0, 1, 1] ![1, 2, 1]

theorem shortestPath_shortest_chain :
    ShortestTo (network chain ⟨fun _ => 1, fun _ _ _ => 2, (9 : ℤ)⟩ (· ∈ [0])) (9 : ℤ) [1]
      ((shortestPathAll routeQueue chain ⟨fun _ => 1, fun _ _ _ => 2, (9 : ℤ)⟩
        (fun e _ => -(e : ℤ)) [1] 0).costs 1)
      ((shortestPathAll routeQueue chain ⟨fun _ => 1, fun _ _ _ => 2, (9 : ℤ)⟩
        (fun e _ => -(e : ℤ)) [1] 0).resEdges 1) :=
  (shortestPath_shortest routeQueue chain _ _ [1] (by decide) (by decide) (by decide)).1 0
    (by decide) (by decide) 1 (by decide)

end

end Pfaedle.EDijkstra

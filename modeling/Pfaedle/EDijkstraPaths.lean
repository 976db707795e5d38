import Pfaedle.EDijkstraInvariant

set_option autoImplicit false

/-!
# The edge-based search returns paths

Whatever the edges cost, the edges that a search lists follow each other. A search that nothing is
too expensive for finds a target if there is a way to one.
-/
namespace Pfaedle.EDijkstra
open LabelSetting

section
variable {N E C : Type*} [AddCommGroup C] [LinearOrder C]
  {pq : PriorityQueue (RouteEdge N E C) RouteEdge.less} {g : DirGraph N E}
  {costFunc : CostFunc N E C} {heurFunc : HeurFunc E C} {tos : List E} {source : E → Prop}
  {settled : Settled N E C} {queue rest : List (RouteEdge N E C)} {cur : RouteEdge N E C}

structure Traced (g : DirGraph N E) (costFunc : CostFunc N E C) (source : E → Prop)
    (settled : Settled N E C) (queue : List (RouteEdge N E C)) : Prop where
  linked : Linked (network g costFunc source) settled
  parented : ∀ r ∈ queue, Parented (network g costFunc source) settled r
  inside : ∀ r ∈ queue, r.e ∈ g.edges

theorem Traced.stale (h : Traced g costFunc source settled queue)
    (hpop : pq.pop queue = some (cur, rest)) : Traced g costFunc source settled rest := by
  have hsub : ∀ r ∈ rest, r ∈ queue := fun r hr => (pq.mem_iff hpop r).2 (Or.inr hr)
  exact ⟨h.linked, fun r hr => h.parented r (hsub r hr), fun r hr => h.inside r (hsub r hr)⟩

variable [DecidableEq E]

theorem Traced.linked_settle (h : Traced g costFunc source settled queue)
    (hpop : pq.pop queue = some (cur, rest)) (hnew : (settled.find cur.e).isSome = false) :
    Linked (network g costFunc source) (cur :: settled) := by
  have hcur : cur ∈ queue := (pq.mem_iff hpop cur).2 (Or.inl rfl)
  refine ⟨fun q hq he => ?_, h.parented cur hcur, h.linked⟩
  have hfind := Settled.find_isSome.2 ⟨q, hq, he⟩
  rw [hnew] at hfind
  cases hfind

variable [DecidableEq N]

theorem Traced.settle (h : Traced g costFunc source settled queue)
    (hpop : pq.pop queue = some (cur, rest)) (hnew : (settled.find cur.e).isSome = false) :
    Traced g costFunc source (cur :: settled) (rest ++ relax g costFunc heurFunc tos cur) := by
  have hin : cur.e ∈ g.edges := h.inside cur ((pq.mem_iff hpop cur).2 (Or.inl rfl))
  have hrest := h.stale hpop
  refine ⟨h.linked_settle hpop hnew, ?_, ?_⟩
  · intro r hr
    cases List.mem_append.1 hr with
    | inl hr => exact (hrest.parented r hr).mono (List.subset_cons_self _ _)
    | inr hr =>
      have hspec := mem_relax source hin hr
      exact Or.inr ⟨cur, List.mem_cons_self, hspec.2.1, hspec.1, hspec.2.2.1⟩
  · intro r hr
    cases List.mem_append.1 hr with
    | inl hr => exact hrest.inside r hr
    | inr hr => exact (g.mem_adjListOut.1 (mem_relax source hin hr).1.2).1

omit [DecidableEq N] [DecidableEq E] [LinearOrder C] in
theorem traced_initial {froms : List E} (hin : ∀ e ∈ froms, e ∈ g.edges) :
    Traced g costFunc (· ∈ froms) [] (froms.map (initial costFunc heurFunc tos)) := by
  refine ⟨trivial, ?_, ?_⟩
  · intro r hr
    obtain ⟨e, he, rfl⟩ := List.mem_map.1 hr
    exact Or.inl ⟨rfl, ⟨hin e he, he⟩, rfl⟩
  · intro r hr
    obtain ⟨e, he, rfl⟩ := List.mem_map.1 hr
    exact hin e he

theorem searchSet_walk (k : ℕ) (h : Traced g costFunc source settled queue)
    {found : RouteEdge N E C × Settled N E C}
    (hfound : searchSet pq g costFunc heurFunc tos k settled queue = some found) :
    found.1.e ∈ tos ∧ Walk (network g costFunc source) found.1.e
      (buildPath found.2 found.2.length found.1.e) found.1.d := by
  induction k generalizing settled queue with
  | zero => cases hfound
  | succ k ih =>
    rw [searchSet] at hfound
    cases hpop : pq.pop queue with
    | none =>
      rw [hpop] at hfound
      cases hfound
    | some popped =>
      obtain ⟨cur, rest⟩ := popped
      rw [hpop] at hfound
      dsimp only at hfound
      split at hfound
      · exact ih (h.stale hpop) hfound
      · rename_i hnot
        have hnew := Bool.eq_false_iff.2 hnot
        split at hfound
        · rename_i htarget
          cases hfound
          exact ⟨htarget, buildPath_walk (h.linked_settle hpop hnew) (le_refl _) List.mem_cons_self⟩
        · exact ih (h.settle hpop hnew) hfound

variable (pq) in
/-- The list of the set-to-set search is empty or the way to a target. -/
theorem shortestPathSet_walk {froms : List E} (hin : ∀ e ∈ froms, e ∈ g.edges) :
    (shortestPathSet pq g costFunc heurFunc tos froms).2 = [] ∨ ∃ t ∈ tos, ∃ d,
      Walk (network g costFunc (· ∈ froms)) t (shortestPathSet pq g costFunc heurFunc tos froms).2
        d := by
  rw [shortestPathSet]
  split
  · exact Or.inl rfl
  · split
    · exact Or.inl rfl
    · rename_i cur settled hfound
      obtain ⟨ht, hwalk⟩ := searchSet_walk _ (traced_initial hin) hfound
      exact Or.inr ⟨cur.e, ht, cur.d, hwalk⟩

def Arrives (P : Network E C) (res : Results E C) : Prop :=
  ∀ t, res.resEdges t = [] ∨ ∃ d, Walk P t (res.resEdges t) d

theorem searchAll_walk (k : ℕ) (h : Traced g costFunc source settled queue) {res : Results E C}
    (hres : Arrives (network g costFunc source) res) :
    Arrives (network g costFunc source)
      (searchAll pq g costFunc heurFunc tos k settled queue res) := by
  induction k generalizing settled queue res with
  | zero => exact hres
  | succ k ih =>
    rw [searchAll]
    cases hpop : pq.pop queue with
    | none => exact hres
    | some popped =>
      obtain ⟨cur, rest⟩ := popped
      dsimp only
      split
      · exact ih (h.stale hpop) hres
      · rename_i hnot
        have hnew := Bool.eq_false_iff.2 hnot
        have hnext : Arrives (network g costFunc source)
            (if cur.e ∈ tos then res.hit cur (cur :: settled) else res) := by
          split
          · intro t
            rw [Results.hit]
            dsimp only
            by_cases ht : t = cur.e
            · subst ht
              rw [Function.update_self]
              exact Or.inr ⟨cur.d, buildPath_walk (h.linked_settle hpop hnew) (le_refl _)
                List.mem_cons_self⟩
            · rw [Function.update_of_ne ht]
              exact hres t
          · exact hres
        generalize (if cur.e ∈ tos then res.hit cur (cur :: settled) else res) = res' at hnext ⊢
        split
        · exact hnext
        · exact ih (h.settle hpop hnew) hnext

variable (pq) in
theorem shortestPathAll_walk {fromE : E} (hin : fromE ∈ g.edges) :
    Arrives (network g costFunc (· ∈ [fromE]))
      (shortestPathAll pq g costFunc heurFunc tos fromE) := by
  have hempty : Arrives (network g costFunc (· ∈ [fromE]))
      (⟨0, fun _ => costFunc.inf, fun _ => []⟩ : Results E C) := fun _ => Or.inl rfl
  rw [shortestPathAll]
  split
  · exact hempty
  · have htraced : Traced g costFunc (· ∈ [fromE]) []
        ([fromE].map (initial costFunc heurFunc tos)) := by
      refine traced_initial fun e he => ?_
      rw [List.mem_singleton.1 he]
      exact hin
    exact searchAll_walk _ htraced hempty

structure Closed (g : DirGraph N E) (costFunc : CostFunc N E C) (source : E → Prop)
    (settled : Settled N E C) (queue : List (RouteEdge N E C)) : Prop where
  sources : ∀ e, (network g costFunc source).source e →
    (settled.find e).isSome ∨ ∃ r ∈ queue, r.e = e
  step : ∀ q ∈ settled, ∀ e, (network g costFunc source).step q.e e →
    (settled.find e).isSome ∨ ∃ r ∈ queue, r.e = e

omit [DecidableEq N] [AddCommGroup C] in
theorem Closed.stale (h : Closed g costFunc source settled queue)
    (hpop : pq.pop queue = some (cur, rest)) (hold : (settled.find cur.e).isSome) :
    Closed g costFunc source settled rest := by
  have hkeep : ∀ e, (settled.find e).isSome ∨ (∃ r ∈ queue, r.e = e) →
      (settled.find e).isSome ∨ ∃ r ∈ rest, r.e = e := by
    intro e he
    cases he with
    | inl he => exact Or.inl he
    | inr he =>
      obtain ⟨r, hr, rfl⟩ := he
      cases (pq.mem_iff hpop r).1 hr with
      | inl hcur => exact Or.inl (hcur ▸ hold)
      | inr hr => exact Or.inr ⟨r, hr, rfl⟩
  exact ⟨fun e he => hkeep e (h.sources e he), fun q hq e he => hkeep e (h.step q hq e he)⟩

theorem Closed.settle (h : Closed g costFunc source settled queue) (hinf : costFunc.inf = ⊤)
    (hpop : pq.pop queue = some (cur, rest)) :
    Closed g costFunc source (cur :: settled) (rest ++ relax g costFunc heurFunc tos cur) := by
  have hself : (Settled.find (cur :: settled) cur.e).isSome :=
    Settled.find_isSome.2 ⟨cur, List.mem_cons_self, rfl⟩
  have hkeep : ∀ e, (settled.find e).isSome ∨ (∃ r ∈ queue, r.e = e) →
      (Settled.find (cur :: settled) e).isSome ∨
        ∃ r ∈ rest ++ relax g costFunc heurFunc tos cur, r.e = e := by
    intro e he
    cases he with
    | inl he =>
      obtain ⟨q, hq, hqe⟩ := Settled.find_isSome.1 he
      exact Or.inl (Settled.find_isSome.2 ⟨q, List.mem_cons_of_mem _ hq, hqe⟩)
    | inr he =>
      obtain ⟨r, hr, rfl⟩ := he
      cases (pq.mem_iff hpop r).1 hr with
      | inl hcur => exact Or.inl (hcur ▸ hself)
      | inr hr => exact Or.inr ⟨r, List.mem_append_left _ hr, rfl⟩
  refine ⟨fun e he => hkeep e (h.sources e he), fun q hq e he => ?_⟩
  cases List.mem_cons.1 hq with
  | inr hq => exact hkeep e (h.step q hq e he)
  | inl hq =>
    subst hq
    by_cases hne : e = q.e
    · exact Or.inl (hne ▸ hself)
    · have hlt : ((q.d + (network g costFunc source).weight q.e e : C) : WithTop C) <
          costFunc.inf := by
        rw [hinf]
        exact WithTop.coe_lt_top _
      obtain ⟨r, hr, hre, -⟩ := relax_complete heurFunc tos source hne he hlt
      exact Or.inr ⟨r, List.mem_append_right _ hr, hre⟩

omit [DecidableEq N] [LinearOrder C] in
theorem Closed.walk (h : Closed g costFunc source settled []) {t : E} {p : List E} {d : C}
    (hw : Walk (network g costFunc source) t p d) : (settled.find t).isSome := by
  induction hw with
  | source hs => exact (h.sources _ hs).resolve_right fun hr => by simp at hr
  | snoc _ hstep ih =>
    obtain ⟨q, hq, rfl⟩ := Settled.find_isSome.1 ih
    exact (h.step q hq _ hstep).resolve_right fun hr => by simp at hr

variable (pq heurFunc) in
theorem searchSet_found (hinf : costFunc.inf = ⊤) {t : E} (ht : t ∈ tos) {p : List E} {d : C}
    (hw : Walk (network g costFunc source) t p d) (k : ℕ)
    (h : Traced g costFunc source settled queue) (hclosed : Closed g costFunc source settled queue)
    (hfresh : ∀ r ∈ settled, r.e ∉ tos) (hk : pending g settled queue < k) :
    (searchSet pq g costFunc heurFunc tos k settled queue).isSome := by
  induction k generalizing settled queue with
  | zero => omega
  | succ k ih =>
    rw [searchSet]
    cases hpop : pq.pop queue with
    | none =>
      rw [pq.eq_nil_of_pop hpop] at hclosed
      obtain ⟨q, hq, rfl⟩ := Settled.find_isSome.1 (hclosed.walk hw)
      exact absurd ht (hfresh q hq)
    | some popped =>
      obtain ⟨cur, rest⟩ := popped
      have hlen := pq.length_pop hpop
      dsimp only
      split
      · rename_i hold
        apply ih (h.stale hpop) (hclosed.stale hpop hold) hfresh
        simp only [pending] at hk ⊢
        omega
      · rename_i hnot
        have hnew := Bool.eq_false_iff.2 hnot
        split
        · rfl
        · rename_i hother
          apply ih (h.settle hpop hnew) (hclosed.settle hinf hpop)
          · intro r hr
            cases List.mem_cons.1 hr with
            | inl he => exact he ▸ hother
            | inr hin => exact hfresh r hin
          · have hless := pending_settle costFunc heurFunc tos
              (h.inside cur ((pq.mem_iff hpop cur).2 (Or.inl rfl))) hpop hnew
            omega

variable (pq heurFunc) in
theorem shortestPathSet_found (hinf : costFunc.inf = ⊤) {froms : List E}
    (hin : ∀ e ∈ froms, e ∈ g.edges) {t : E} (ht : t ∈ tos) {p : List E} {d : C}
    (hw : Walk (network g costFunc (· ∈ froms)) t p d) :
    (shortestPathSet pq g costFunc heurFunc tos froms).2 ≠ [] := by
  have hclosed : Closed g costFunc (· ∈ froms) []
      (froms.map (initial costFunc heurFunc tos)) := by
    refine ⟨fun e he => ?_, fun q hq => absurd hq List.not_mem_nil⟩
    exact Or.inr ⟨_, List.mem_map.2 ⟨e, he.2, rfl⟩, rfl⟩
  have hsome := searchSet_found pq heurFunc hinf ht hw (rounds g froms.length)
    (traced_initial hin) hclosed (fun r hr => absurd hr List.not_mem_nil) (by
      rw [pending, unpaid_nil, List.length_map, rounds]
      omega)
  obtain ⟨s, -, hs⟩ := hw.isPath.1.head
  have hne : ¬(froms = [] ∨ tos = []) := by
    rintro (rfl | rfl)
    · exact absurd hs.2 List.not_mem_nil
    · exact absurd ht List.not_mem_nil
  rw [shortestPathSet, if_neg hne]
  obtain ⟨⟨cur, settled⟩, hfound⟩ := Option.isSome_iff_exists.1 hsome
  rw [hfound]
  obtain ⟨-, hwalk⟩ := searchSet_walk _ (traced_initial hin) hfound
  intro hnil
  dsimp only at hwalk hnil
  rw [hnil] at hwalk
  cases hwalk

end

end Pfaedle.EDijkstra

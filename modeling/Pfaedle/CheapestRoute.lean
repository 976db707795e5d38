import Pfaedle.HeuristicCosts
import Pfaedle.LoopRules
import Pfaedle.RouteOptimal

set_option autoImplicit false

/-!
# No travel beats a route

A travel takes one candidate of every group and any walk from each of them to the next. Without the
cache, a hop of `route` costs no more than any of these walks, and it is a walk itself unless it is
cut off by the band.
-/
namespace Pfaedle.Router
open DirGraphs NamedGraph LabelSetting LoopRules

section delivered
variable {N E C : Type*} [DecidableEq N] [DecidableEq E] [Field C] [LinearOrder C]
  (S : Setting N E C) (thread : ℕ) (rAttrs : RoutingAttributes) (route : EdgeCandidateRoute E C)

/-- What `hops` returns for an edge of group `i`, whatever the caches hold. -/
def HopsOf (i : ℕ) (e : E) (res : HopResults E C) : Prop :=
  ∃ caches caches', res = (hops S thread rAttrs e
    (S.edgeSet.toList ((group route i).map EdgeCandidate.e))
    (S.edgeSet.toList ((group route (i + 1)).map EdgeCandidate.e))
    (targetGroup S (group route (i + 1)))
    (getHopBand S thread rAttrs (group route i) (group route (i + 1)) caches).1.maxD caches').1

def DeliveredTo (i : ℕ) (st : RouteState N E C) : Prop :=
  ∀ j < i, ∀ x ∈ group route j, HopsOf S thread rAttrs route j x.e (st.delivered j x.e)

variable {S thread rAttrs route} {st : RouteState N E C} {ν : ℕ → CandName E}
  {pay : Arc E → CandPayload N E C}

variable (S thread rAttrs st) in
theorem routeFroms_delivered (i : ℕ) (last : Bool) (sink : ℕ) (a b : EdgeCandidateGroup E C)
    (maxD : C) (xs : List E) (hnodes : ∀ x ∈ xs, (st.nodes x).isSome) :
    let st' := xs.foldl (routeFrom S thread rAttrs i last sink a b maxD) st
    (∀ j, j ≠ i → st'.delivered j = st.delivered j) ∧
    ∀ x ∈ xs, ∃ caches, st'.delivered i x = (hops S thread rAttrs x
      (S.edgeSet.toList (a.map EdgeCandidate.e)) (S.edgeSet.toList (b.map EdgeCandidate.e))
      (targetGroup S b) maxD caches).1 := by
  intro st'
  have hround : ∀ s : RouteState N E C, ∀ x ∈ xs, s.nodes = st.nodes →
      (routeFrom S thread rAttrs i last sink a b maxD s x).nodes = s.nodes ∧
      ∃ caches, (routeFrom S thread rAttrs i last sink a b maxD s x).delivered =
        Function.update s.delivered i (Function.update (s.delivered i) x (hops S thread rAttrs x
          (S.edgeSet.toList (a.map EdgeCandidate.e)) (S.edgeSet.toList (b.map EdgeCandidate.e))
          (targetGroup S b) maxD caches).1) := by
    intro s x hx hs
    obtain ⟨n, hn⟩ := Option.isSome_iff_exists.1 (hnodes x hx)
    rw [← hs] at hn
    unfold routeFrom
    rw [hn]
    exact ⟨rfl, s.caches, rfl⟩
  have hframe := foldl_inv (routeFrom S thread rAttrs i last sink a b maxD)
    (fun s => s.nodes = st.nodes ∧ ∀ j, j ≠ i → s.delivered j = st.delivered j) xs
    ⟨rfl, fun _ _ => rfl⟩ fun s x hx hs => by
      obtain ⟨hnds, caches, hdel⟩ := hround s x hx hs.1
      refine ⟨hnds.trans hs.1, fun j hj => ?_⟩
      rw [hdel, Function.update_of_ne hj]
      exact hs.2 j hj
  refine ⟨hframe.2, ?_⟩
  refine foldl_each (routeFrom S thread rAttrs i last sink a b maxD) (fun s => s.nodes = st.nodes)
    (fun x s => ∃ caches, s.delivered i x = (hops S thread rAttrs x
      (S.edgeSet.toList (a.map EdgeCandidate.e)) (S.edgeSet.toList (b.map EdgeCandidate.e))
      (targetGroup S b) maxD caches).1) xs rfl (fun s x hx hs => ?_) (fun s x hx hs => ?_)
    fun s x hx y hs hy => ?_
  · exact (hround s x hx hs).1.trans hs
  · obtain ⟨-, caches, hdel⟩ := hround s x hx hs
    refine ⟨caches, ?_⟩
    rw [hdel, Function.update_self, Function.update_self]
  · obtain ⟨-, caches, hdel⟩ := hround s x hx hs
    rw [hdel, Function.update_self]
    by_cases hxy : y = x
    · rw [hxy, Function.update_self]
      exact ⟨caches, rfl⟩
    · rw [Function.update_of_ne hxy]
      exact hy

omit [DecidableEq N] [DecidableEq E] in
theorem Layered.nodes_isSome {i : ℕ} (h : Layered S route i ν pay st) {x : E}
    (hx : x ∈ S.edgeSet.toList ((group route i).map EdgeCandidate.e)) : (st.nodes x).isSome := by
  obtain ⟨c, hc, rfl⟩ := List.mem_map.1 (S.edgeSet.mem.1 hx)
  have hname : CandName.cand i c.e ∈ namesTo route i :=
    Or.inr (Or.inr ⟨i, Nat.le_refl i, c, hc, rfl⟩)
  obtain ⟨n, hn⟩ := h.building.drawn.node _ hname
  rw [(h.nodes c.e n).2 hn]
  rfl

theorem routeHops_delivered (hwf : WellFormed route) (rest : EdgeCandidateRoute E C) {i : ℕ}
    {a : EdgeCandidateGroup E C} (hdrop : route.drop i = a :: rest)
    (h : Layered S route i ν pay st) (hd : DeliveredTo S thread rAttrs route i st) :
    DeliveredTo S thread rAttrs route (route.length - 1)
      (routeHops S thread rAttrs sink i a rest st) := by
  induction rest generalizing i a ν pay st with
  | nil =>
    have hlen := congrArg List.length hdrop
    rw [List.length_drop, List.length_singleton] at hlen
    have hi : route.length - 1 = i := by omega
    rw [hi]
    exact hd
  | cons b rest ih =>
    obtain ⟨ha, hdrop', -⟩ := group_of_drop hdrop
    obtain ⟨hb, -, hi⟩ := group_of_drop hdrop'
    have hlast : rest.isEmpty = decide (i + 2 = route.length) := by
      have hlen := congrArg List.length hdrop
      rw [List.length_drop, List.length_cons, List.length_cons] at hlen
      cases rest with
      | nil => rw [List.length_nil] at hlen; simp; omega
      | cons c rest => rw [List.length_cons] at hlen; simp; omega
    rw [routeHops, routeLayer]
    dsimp only
    rw [hlast, ← ha, ← hb]
    obtain ⟨ν', pay', h'⟩ := h.hop thread rAttrs hwf hi
      (getHopBand S thread rAttrs (group route i) (group route (i + 1)) st.caches).2
      (getHopBand S thread rAttrs (group route i) (group route (i + 1)) st.caches).1.maxD
    have hlayer := routeFroms_delivered S thread rAttrs
      { st with
        caches := (getHopBand S thread rAttrs (group route i) (group route (i + 1)) st.caches).2
        nextNodes := fun _ => none }
      i (decide (i + 2 = route.length)) sink (group route i) (group route (i + 1))
      (getHopBand S thread rAttrs (group route i) (group route (i + 1)) st.caches).1.maxD
      (S.edgeSet.toList ((group route i).map EdgeCandidate.e)) fun x hx => h.nodes_isSome hx
    rw [hb] at h' hlayer ⊢
    refine ih hdrop' h' fun j hj x hx => ?_
    by_cases hji : j = i
    · subst hji
      obtain ⟨caches, hcaches⟩ := hlayer.2 x.e (S.edgeSet.mem.2 (List.mem_map_of_mem hx))
      refine ⟨st.caches, caches, ?_⟩
      rw [hb]
      exact hcaches
    · have hold := hd j (by omega) x hx
      rw [← congrFun (hlayer.1 j hji) x.e] at hold
      exact hold

variable (S thread rAttrs) in
theorem routeGraph_delivered (hwf : WellFormed route) (hlen : 2 ≤ route.length)
    (caches : Caches E C) : DeliveredTo S thread rAttrs route (route.length - 1)
      (routeGraph S thread rAttrs route caches) := by
  cases hroute : route with
  | nil =>
    rw [hroute] at hlen
    exact absurd hlen (by simp)
  | cons a rest =>
    obtain ⟨ν, pay, h⟩ := sourceEdges_layered S hwf hroute caches
    subst hroute
    exact routeHops_delivered hwf rest rfl h fun j hj => absurd hj (Nat.not_lt_zero j)

end delivered

section hops
variable {N E C : Type*} [DecidableEq N] [DecidableEq E] [Field C] [LinearOrder C]
  (S : Setting N E C) (rAttrs : RoutingAttributes)

/-- The cost at which the search of `hops` gives up. -/
def bandMax (a b : EdgeCandidateGroup E C) : C :=
  (getHopBand S 0 rAttrs a b fun _ _ _ _ => none).1.maxD

variable {S rAttrs}

theorem getHopBand_maxD (thread : ℕ) (a b : EdgeCandidateGroup E C) (caches : Caches E C) :
    (getHopBand S thread rAttrs a b caches).1.maxD = bandMax S rAttrs a b := by
  unfold bandMax getHopBand
  dsimp only
  split
  · rfl
  · rfl

/-- A hop between two groups is walked along, or it is cut off by the band. -/
structure HopCosts (S : Setting N E C) (rAttrs : RoutingAttributes) (a b : EdgeCandidateGroup E C)
    (frm to_ : E) (res : HopResults E C) : Prop where
  nonneg : 0 ≤ res.costs to_
  least : isShortcut S frm to_ = false → ∀ p d,
    Walk (hopNetwork S rAttrs (targetGroup S b) frm) to_ p d → res.costs to_ ≤ d
  walk : (isShortcut S frm to_ = false ∧ res.costs to_ < bandMax S rAttrs a b ∧
      Walk (hopNetwork S rAttrs (targetGroup S b) frm) to_ (res.edges to_) (res.costs to_)) ∨
    res.costs to_ = bandMax S rAttrs a b

variable [IsStrictOrderedRing C] {route : EdgeCandidateRoute E C}

variable (rAttrs) in
theorem Graded.hops_outcome (hS : Graded S) (hcaching : S.caching = false) (thread : ℕ) {frm t : E}
    (hfrm : frm ∈ S.g.edges) (froms : List E) {tos : List E} (hnodup : tos.Nodup) (ht : t ∈ tos)
    (tgGrp : Option ℕ) {maxD : C} (hmax : 0 ≤ maxD) (caches : Caches E C) :
    let res := (hops S thread rAttrs frm froms tos tgGrp maxD caches).1
    (isShortcut S frm t = true ∧ res.costs t = maxD) ∨
    (isShortcut S frm t = false ∧
      ((res.costs t < maxD ∧ Walk (hopNetwork S rAttrs tgGrp frm) t (res.edges t) (res.costs t) ∧
        ∀ p d, Walk (hopNetwork S rAttrs tgGrp frm) t p d → res.costs t ≤ d) ∨
      (res.costs t = maxD ∧ ∀ p d, Walk (hopNetwork S rAttrs tgGrp frm) t p d → maxD ≤ d))) := by
  have huncached : cachedHop S thread rAttrs caches frm t = none := by
    unfold cachedHop
    rw [hcaching]
    rfl
  unfold hops
  dsimp only
  rw [if_neg (not_not.2 ht), if_neg (not_not.2 ht), huncached]
  dsimp only
  cases hshort : isShortcut S frm t with
  | true => exact Or.inl ⟨rfl, if_pos rfl⟩
  | false =>
    right
    rw [if_neg Bool.false_ne_true, if_neg Bool.false_ne_true]
    have hrem : t ∈ hopTargets S thread rAttrs frm tos caches := by
      simp [hopTargets, getCachedHops, ht, huncached, hshort]
    refine ⟨rfl, ?_⟩
    cases hS.weighed.hopSearch_outcome (hS.consistent_distHeur _) hfrm
      ((hnodup.filter _).filter _) hmax hrem with
    | inl hfound => exact Or.inl hfound
    | inr hnone => exact Or.inr ⟨hnone.1, hnone.2.2⟩

theorem HopsOf.hopCosts {thread i : ℕ} {x y : EdgeCandidate E C} {res : HopResults E C}
    (h : HopsOf S thread rAttrs route i x.e res) (hS : Graded S) (hcaching : S.caching = false)
    (hx : x.e ∈ S.g.edges) (hy : y ∈ group route (i + 1)) :
    HopCosts S rAttrs (group route i) (group route (i + 1)) x.e y.e res := by
  obtain ⟨caches, caches', rfl⟩ := h
  rw [getHopBand_maxD]
  have hmax : 0 ≤ bandMax S rAttrs (group route i) (group route (i + 1)) :=
    hS.opts.maxD_nonneg 0 _ _ _
  have hmem : y.e ∈ S.edgeSet.toList ((group route (i + 1)).map EdgeCandidate.e) :=
    S.edgeSet.mem.2 (List.mem_map_of_mem hy)
  have houtcome := hS.hops_outcome rAttrs hcaching thread hx
    (S.edgeSet.toList ((group route i).map EdgeCandidate.e)) (S.edgeSet.nodup _) hmem
    (targetGroup S (group route (i + 1))) hmax caches'
  dsimp only at houtcome
  generalize (hops S thread rAttrs x.e _ _ _ _ caches').1 = res at houtcome ⊢
  cases houtcome with
  | inl hshort =>
    refine ⟨hshort.2.symm ▸ hmax, fun hnot => ?_, Or.inr hshort.2⟩
    rw [hshort.1] at hnot
    cases hnot
  | inr hsearched =>
    obtain ⟨hshort, hfound | hnone⟩ := hsearched
    · exact ⟨hS.weighed.walk_nonneg hfound.2.1, fun _ => hfound.2.2,
        Or.inl ⟨hshort, hfound.1, hfound.2.1⟩⟩
    · refine ⟨hnone.1.symm ▸ hmax, fun _ p d hw => ?_, Or.inr hnone.1⟩
      rw [hnone.1]
      exact hnone.2 p d hw

end hops

section travels
variable {N E C : Type*} [DecidableEq N] [DecidableEq E] [Field C] [LinearOrder C]
  (S : Setting N E C) (rAttrs : RoutingAttributes)

/-- From a candidate of the first group along walks over one candidate of every group. The cost has
    the penalties of all candidates but the first one. -/
inductive Travel : EdgeCandidateRoute E C → EdgeCandidate E C → List (List E) → C → Prop
  | stop {b : EdgeCandidateGroup E C} {x : EdgeCandidate E C} (hx : x ∈ b) : Travel [b] x [] 0
  | hop {a b : EdgeCandidateGroup E C} {rest : EdgeCandidateRoute E C} {x y : EdgeCandidate E C}
      {p : List E} {ps : List (List E)} {d c : C} (hx : x ∈ a)
      (hshort : isShortcut S x.e y.e = false)
      (hw : Walk (hopNetwork S rAttrs (targetGroup S b) x.e) y.e p d)
      (hrest : Travel (b :: rest) y ps c) : Travel (a :: b :: rest) x (p :: ps) (y.pen + d + c)

def Priced (route : EdgeCandidateRoute E C) (delivered : ℕ → E → HopResults E C) : Prop :=
  ∀ i < route.length - 1, ∀ x ∈ group route i, ∀ y ∈ group route (i + 1),
    HopCosts S rAttrs (group route i) (group route (i + 1)) x.e y.e (delivered i x.e)

/-- The choice has a hop that is cut off by the band. -/
def CutOff (route : EdgeCandidateRoute E C) (delivered : ℕ → E → HopResults E C)
    (cs : List (EdgeCandidate E C)) (i : ℕ) : Prop :=
  ∃ k x y, cs[k]? = some x ∧ cs[k + 1]? = some y ∧
    (delivered (i + k) x.e).costs y.e =
      bandMax S rAttrs (group route (i + k)) (group route (i + k + 1))

def choiceWalks (delivered : ℕ → E → HopResults E C) : ℕ → List (EdgeCandidate E C) → List (List E)
  | i, x :: y :: cs => (delivered i x.e).edges y.e :: choiceWalks delivered (i + 1) (y :: cs)
  | _, _ => []

variable {S rAttrs} {route : EdgeCandidateRoute E C} {delivered : ℕ → E → HopResults E C}

theorem Travel.mem {b : EdgeCandidateGroup E C} {rest : EdgeCandidateRoute E C}
    {x : EdgeCandidate E C} {ps : List (List E)} {c : C} (h : Travel S rAttrs (b :: rest) x ps c) :
    x ∈ b := by
  cases h with
  | stop hx => exact hx
  | hop hx => exact hx

omit [DecidableEq N] [DecidableEq E] in
theorem choiceHops_cost (i : ℕ) (cs : List (EdgeCandidate E C)) :
    ((choiceHops S delivered i cs).map EdgeListHop.cost).sum = hopsCost delivered i cs := by
  induction cs generalizing i with
  | nil => rfl
  | cons x cs ih =>
    cases cs with
    | nil => rfl
    | cons y cs =>
      rw [choiceHops, List.map_cons, List.sum_cons, ih, hopsCost]
      rfl

omit [DecidableEq N] [DecidableEq E] in
theorem choiceHops_edges (i : ℕ) (cs : List (EdgeCandidate E C)) :
    (choiceHops S delivered i cs).map EdgeListHop.edges =
      (choiceWalks delivered i cs).map fun p => if S.rOpts.popReachEdge then p.tail else p := by
  induction cs generalizing i with
  | nil => rfl
  | cons x cs ih =>
    cases cs with
    | nil => rfl
    | cons y cs =>
      rw [choiceHops, List.map_cons, ih, choiceWalks, List.map_cons]
      rfl

/-- The candidates of a travel make a choice that costs no more. -/
theorem Priced.choice_le [IsStrictOrderedRing C] (h : Priced S rAttrs route delivered)
    {groups : EdgeCandidateRoute E C}
    {x : EdgeCandidate E C} {ps : List (List E)} {c : C} (ht : Travel S rAttrs groups x ps c)
    {i : ℕ} (hdrop : route.drop i = groups) :
    ∃ cs, Choice (x :: cs) groups ∧ hopsCost delivered i (x :: cs) ≤ c := by
  induction ht generalizing i with
  | stop hx => exact ⟨[], List.Forall₂.cons hx List.Forall₂.nil, le_refl _⟩
  | @hop a b rest x y p ps d c hx hshort hw hrest ih =>
    obtain ⟨ha, hdrop', hi⟩ := group_of_drop hdrop
    obtain ⟨hb, -, hi'⟩ := group_of_drop hdrop'
    obtain ⟨cs, hcs, hle⟩ := ih hdrop'
    have hcosts := h i (by omega) x (ha ▸ hx) y (hb ▸ hrest.mem)
    have hhop : (delivered i x.e).costs y.e ≤ d := hcosts.least hshort p d (hb ▸ hw)
    refine ⟨y :: cs, List.Forall₂.cons hx hcs, ?_⟩
    rw [hopsCost]
    exact add_le_add (add_le_add_right hhop y.pen) hle

/-- A choice none of whose hops is cut off is a travel. -/
theorem Priced.travel (h : Priced S rAttrs route delivered) (cs : List (EdgeCandidate E C)) {i : ℕ}
    {x : EdgeCandidate E C} (hcs : Choice (x :: cs) (route.drop i)) :
    CutOff S rAttrs route delivered (x :: cs) i ∨
      Travel S rAttrs (route.drop i) x (choiceWalks delivered i (x :: cs))
        (hopsCost delivered i (x :: cs)) := by
  induction cs generalizing i x with
  | nil =>
    generalize route.drop i = groups at hcs
    cases hcs with
    | cons hx hnil =>
      cases hnil
      exact Or.inr (Travel.stop hx)
  | cons y cs ih =>
    obtain ⟨hi, hx, hrest⟩ := hcs.drop_cons
    obtain ⟨hi', hy, -⟩ := hrest.drop_cons
    cases ih hrest with
    | inl hcut =>
      obtain ⟨k, u, v, hu, hv, hcost⟩ := hcut
      have hk : i + 1 + k = i + (k + 1) := by omega
      rw [hk] at hcost
      exact Or.inl ⟨k + 1, u, v, hu, hv, hcost⟩
    | inr htravel =>
      have hcosts := h i (by omega) x hx y hy
      cases hcosts.walk with
      | inl hwalk =>
        right
        have ha : route.drop i = group route i :: group route (i + 1) :: route.drop (i + 2) := by
          rw [List.drop_eq_getElem_cons hi, List.drop_eq_getElem_cons hi', group, group,
            List.getD_eq_getElem?_getD, List.getElem?_eq_getElem hi, List.getD_eq_getElem?_getD,
            List.getElem?_eq_getElem hi']
          rfl
        have hb : route.drop (i + 1) = group route (i + 1) :: route.drop (i + 2) := by
          rw [List.drop_eq_getElem_cons hi', group, List.getD_eq_getElem?_getD,
            List.getElem?_eq_getElem hi']
          rfl
        rw [hb] at htravel
        rw [ha, hopsCost]
        exact Travel.hop hx hwalk.1 hwalk.2.2 htravel
      | inr hcut => exact Or.inl ⟨0, x, y, rfl, rfl, hcut⟩

end travels

end Pfaedle.Router

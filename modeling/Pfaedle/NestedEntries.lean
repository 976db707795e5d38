import Pfaedle.HopPaths
import Pfaedle.RouteOptimal

set_option autoImplicit false

/-!
# The entries of a searched hop

A part of a cheapest way that ends at its target is a cheapest way itself, so a search that was
made for one start edge has found the hops of all start edges on its way.
-/
namespace Pfaedle.Router

section cheapest
variable {N E C : Type*} [AddCommGroup C] [LinearOrder C] [IsOrderedAddMonoid C]
  {g : EDijkstra.DirGraph N E} {cost : EDijkstra.CostFunc N E C}

/-- A way to `t` from one of the sources, and none is cheaper. -/
structure CheapestWay (g : EDijkstra.DirGraph N E) (cost : EDijkstra.CostFunc N E C)
    (source : E → Prop) (t : E) (l : List E) : Prop where
  way : ∃ s, source s ∧ Way g s t l ∧ ∀ s' l', source s' → Way g s' t l' →
    cost.start s + wayCost g cost l ≤ cost.start s' + wayCost g cost l'

theorem Way.exists_concat {f t : E} {l : List E} (h : Way g f t l) : ∃ l', l = l' ++ [f] :=
  List.getLast?_eq_some_iff.1 h.last

theorem Way.replace {s f t : E} {pre pre' post : List E} (h : Way g s t (pre ++ f :: post))
    (h' : Way g f t (pre' ++ [f])) : Way g s t (pre' ++ f :: post) := by
  have hpost : (f :: post).IsChain (Follows g) := h.chain.right_of_append
  refine ⟨?_, ?_, ?_⟩
  · rw [List.append_cons]
    cases post with
    | nil => simpa using h'.chain
    | cons e post =>
      refine h'.chain.append hpost.tail ?_
      intro x hx y hy
      rw [List.getLast?_concat] at hx
      obtain rfl : f = x := Option.some.inj hx
      obtain rfl : e = y := Option.some.inj hy
      exact (List.isChain_cons_cons.1 hpost).1
  · have hfirst := h'.first
    cases pre' with
    | nil => exact hfirst
    | cons x pre' => exact hfirst
  · have hlast := h.last
    rw [List.getLast?_append_cons] at hlast ⊢
    exact hlast

/-- The end of a cheapest way is a cheapest way from where it begins. -/
theorem CheapestWay.cut {source : E → Prop} {t f : E} {pre post : List E}
    (h : CheapestWay g cost source t (pre ++ f :: post)) :
    CheapestWay g cost (· = f) t (pre ++ [f]) := by
  obtain ⟨s, hs, hway, hbest⟩ := h.way
  refine ⟨f, rfl, hway.cut, ?_⟩
  rintro f' l' rfl hl'
  obtain ⟨pre', rfl⟩ := hl'.exists_concat
  have hle := hbest s _ hs (hway.replace hl')
  rw [wayCost_append, wayCost_append g cost pre'] at hle
  have hle := le_of_add_le_add_left hle
  exact add_le_add_right (le_of_add_le_add_right hle) _

end cheapest

section searched
variable {N E C : Type*} [DecidableEq N] [DecidableEq E] [Field C] [LinearOrder C]
  {S : Setting N E C} {rAttrs : RoutingAttributes} {tgGrp : Option ℕ} {maxD : C}

/-- The lists that `hops` and `getHopBand` hand to `nestedCache`. -/
inductive SearchedHop (S : Setting N E C) (rAttrs : RoutingAttributes) :
    Option ℕ → C → List E → Prop
  | hop {frm : E} (rem : List E) (t : E) (tgGrp : Option ℕ) (maxD : C) : frm ∈ S.g.edges →
      SearchedHop S rAttrs tgGrp maxD ((hopSearch S rAttrs frm rem tgGrp maxD).resEdges t)
  | pilot {a : EdgeCandidateGroup E C} (b : EdgeCandidateGroup E C) :
      (∀ c ∈ a, c.e ∈ S.g.edges) →
      SearchedHop S rAttrs (targetGroup S b) (pendingDistance S a b * 50) (pilotRun S rAttrs a b).2

theorem SearchedHop.way {el : List E} (h : SearchedHop S rAttrs tgGrp maxD el) :
    el = [] ∨ ∃ s t, Way S.g.toDirGraph s t el := by
  cases h with
  | hop rem t tgGrp maxD hfrm =>
    exact (hopSearch_way hfrm rem t).imp_right fun hway => ⟨_, t, hway⟩
  | pilot b hin => exact pilotRun_way hin

/-- An entry of `f` that is right: a part of the list that leads from `f` to `t`, at its cost. -/
structure RightEntry (g : EDijkstra.DirGraph N E) (cost : EDijkstra.CostFunc N E C) (el : List E)
    (f t : E) (cv : C × List E) : Prop where
  part : cv.2 <+: el
  way : Way g f t cv.2
  value : cv.1 = cost.start f + wayCost g cost cv.2
  cheapest : ∀ source, CheapestWay g cost source t el → CheapestWay g cost (· = f) t cv.2

variable [IsStrictOrderedRing C]

omit [DecidableEq N] [DecidableEq E] in
theorem EntryOf.right {cost : EDijkstra.CostFunc N E C} {el : List E} {f t : E} {cv : C × List E}
    (h : EntryOf S cost el f cv) (hway : ∃ s, Way S.g.toDirGraph s t el) :
    RightEntry S.g.toDirGraph cost el f t cv := by
  obtain ⟨l, hprefix, rfl⟩ := h
  obtain ⟨post, rfl⟩ := hprefix
  obtain ⟨s, hway⟩ := hway
  refine ⟨List.prefix_append _ _, ?_, rfl, ?_⟩
  · rw [List.append_assoc] at hway
    exact hway.cut
  · intro source hcheapest
    rw [List.append_assoc] at hcheapest
    exact hcheapest.cut

/-- What `nestedCache` stores for a searched list: a right entry for every start edge on it apart
    from the target, and nothing else. -/
theorem nestedCache_right (thread : ℕ) {el : List E} (hel : SearchedHop S rAttrs tgGrp maxD el)
    (froms : List E) (caches : Caches E C) (th : ℕ) (attrs : RoutingAttributes) (f t : E) :
    let cost := costFunc S rAttrs tgGrp maxD
    let entry := nestedCache S thread rAttrs el froms cost caches th attrs f t
    if S.caching ∧ f ∈ el ∧ f ∈ froms ∧ el.head? = some t ∧ f ≠ t ∧ th = thread ∧ attrs = rAttrs
    then
      ∃ cv, entry = some cv ∧ RightEntry S.g.toDirGraph cost el f t cv
    else entry = caches th attrs f t := by
  intro cost entry
  by_cases hcaching : S.caching
  · cases nestedCache_spec thread rAttrs froms cost caches hcaching el th attrs f t with
    | inl hnew =>
      obtain ⟨hf, hhead, hnested, cv, hcv, hentry⟩ := hnew
      rw [if_pos ⟨hcaching, hf, hnested.start, hhead, hnested.ne, hnested.thread, hnested.attrs⟩]
      refine ⟨cv, hcv, hentry.right ?_⟩
      cases hel.way with
      | inl hnil =>
        rw [hnil] at hf
        exact absurd hf List.not_mem_nil
      | inr hway =>
        obtain ⟨s, t', hway⟩ := hway
        obtain rfl : t' = t := Option.some.inj (hway.first.symm.trans hhead)
        exact ⟨s, hway⟩
    | inr hold =>
      rw [if_neg]
      · exact hold.2
      · rintro ⟨-, hf, hstart, hhead, hne, hth, hattrs⟩
        exact hold.1 ⟨hf, hhead, hth, hattrs, rfl, hne, hstart⟩
  · rw [if_neg fun h => hcaching h.1]
    change nestedCache S thread rAttrs el froms cost caches th attrs f t = _
    rw [nestedCache_off hcaching]

/-- The search for the last edge of the fork has found the hop of the edge that leads back. -/
theorem nestedCache_right_fork :
    let S := forkSetting false true
    let noTrip : RoutingAttributes := ⟨"", "", ""⟩
    let el := (hopSearch S noTrip 0 [3] none 1000).resEdges 3
    let cost := costFunc S noTrip none 1000
    ∃ cv, nestedCache S 0 noTrip el [0, 1] cost (fun _ _ _ _ => none) 0 noTrip 1 3 = some cv ∧
      RightEntry S.g.toDirGraph cost el 1 3 cv := by
  intro S noTrip el cost
  have hel : SearchedHop S noTrip none 1000 el := .hop [3] 3 none 1000 (by decide)
  have hentry := nestedCache_right 0 hel [0, 1] (fun _ _ _ _ => none) 0 noTrip 1 3
  exact (if_pos (by decide +kernel)).mp hentry

end searched

end Pfaedle.Router

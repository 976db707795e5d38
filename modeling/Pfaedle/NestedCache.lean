import Pfaedle.Router

set_option autoImplicit false

/-!
# What `nestedCache` stores

The list of edges is read from the target on. After each edge the loop holds the edges read so far
and what they cost, and an edge that hops may start from gets both as its entry.
-/
namespace Pfaedle.Router

section wayCost
variable {N E C : Type*} [AddCommMonoid C] (g : EDijkstra.DirGraph N E)
  (cost : EDijkstra.CostFunc N E C)

/-- The costs between the consecutive edges of a list, the last edge first. -/
def wayCost : List E → C
  | e' :: e :: l => cost.cost e (g.getTo e) e' + wayCost (e :: l)
  | _ => 0

@[simp] theorem wayCost_singleton (e : E) : wayCost g cost [e] = 0 := rfl

theorem wayCost_cons_cons (e' e : E) (l : List E) :
    wayCost g cost (e' :: e :: l) = cost.cost e (g.getTo e) e' + wayCost g cost (e :: l) := rfl

theorem wayCost_append (pre post : List E) (f : E) :
    wayCost g cost (pre ++ f :: post) =
      wayCost g cost (pre ++ [f]) + wayCost g cost (f :: post) := by
  induction pre with
  | nil => simp
  | cons a pre ih =>
    cases pre with
    | nil => simp [wayCost_cons_cons]
    | cons b pre =>
      simp only [List.cons_append] at ih ⊢
      rw [wayCost_cons_cons, wayCost_cons_cons, ih, add_assoc]

theorem wayCost_concat (l : List E) (back e : E) :
    wayCost g cost (l ++ [back] ++ [e]) =
      wayCost g cost (l ++ [back]) + cost.cost e (g.getTo e) back := by
  have hsplit := wayCost_append g cost l [e] back
  rw [wayCost_cons_cons, wayCost_singleton, add_zero] at hsplit
  rw [List.append_assoc]
  exact hsplit

end wayCost

section entries
variable {N E C : Type*} [DecidableEq E] [Field C] [LinearOrder C] {S : Setting N E C} {thread : ℕ}
  {rAttrs : RoutingAttributes}

omit [Field C] in
theorem cache_apply (caches : Caches E C) (frm to_ : E) (c : C) (edges : List E) (th : ℕ)
    (attrs : RoutingAttributes) (f t : E) :
    cache S thread rAttrs caches frm to_ c edges th attrs f t =
      if (S.caching ∧ frm ≠ to_) ∧ th = thread ∧ attrs = rAttrs ∧ f = frm ∧ t = to_ then
        some (c, edges)
      else caches th attrs f t := by
  rw [cache]
  by_cases hwrite : ¬ S.caching ∨ frm = to_
  · rw [if_pos hwrite, if_neg]
    rintro ⟨⟨hcaching, hne⟩, -⟩
    exact hwrite.elim (fun h => h hcaching) hne
  · rw [if_neg hwrite]
    have hwrite : S.caching ∧ frm ≠ to_ := by
      simpa only [not_or, not_not] using hwrite
    by_cases hth : th = thread
    · subst hth
      by_cases hattrs : attrs = rAttrs
      · subst hattrs
        by_cases hf : f = frm
        · subst hf
          by_cases ht : t = to_ <;> simp [ht, hwrite.1, hwrite.2]
        · simp [hf]
      · simp [hattrs]
    · simp [hth]

/-- The entries that belong to a list which begins with `front`. -/
structure Nested (thread : ℕ) (rAttrs : RoutingAttributes) (front : E) (froms : List E) (th : ℕ)
    (attrs : RoutingAttributes) (f t : E) : Prop where
  thread : th = thread
  attrs : attrs = rAttrs
  target : t = front
  ne : f ≠ t
  start : f ∈ froms

variable (S) in
/-- The entry of `f`, read off the part of the list that ends with it. -/
def EntryOf (cost : EDijkstra.CostFunc N E C) (el : List E) (f : E) (cv : C × List E) : Prop :=
  ∃ l, l ++ [f] <+: el ∧
    cv = (cost.start f + wayCost S.g.toDirGraph cost (l ++ [f]), l ++ [f])

omit [DecidableEq E] in
theorem EntryOf.concat {cost : EDijkstra.CostFunc N E C} {el : List E} {f : E} {cv : C × List E}
    (h : EntryOf S cost el f cv) (e : E) : EntryOf S cost (el ++ [e]) f cv := by
  obtain ⟨l, hl, hcv⟩ := h
  exact ⟨l, hl.trans (List.prefix_append el [e]), hcv⟩

/-- The loop of `nestedCache` after the edges `el`. -/
structure NestedRun (S : Setting N E C) (thread : ℕ) (rAttrs : RoutingAttributes) (front : E)
    (froms : List E) (cost : EDijkstra.CostFunc N E C) (caches : Caches E C) (el : List E)
    (st : NestedState E C) : Prop where
  curEdges : st.curEdges = el
  curCost : st.curCost = wayCost S.g.toDirGraph cost el
  stored : ∀ {th attrs f t}, Nested thread rAttrs front froms th attrs f t → f ∈ el →
    ∃ cv, st.caches th attrs f t = some cv ∧ EntryOf S cost el f cv
  kept : ∀ {th attrs f t}, ¬ (Nested thread rAttrs front froms th attrs f t ∧ f ∈ el) →
    st.caches th attrs f t = caches th attrs f t

variable {front : E} {froms : List E} {cost : EDijkstra.CostFunc N E C} {caches : Caches E C}

theorem NestedRun.step (hcaching : S.caching) {el : List E} {st : NestedState E C}
    (h : NestedRun S thread rAttrs front froms cost caches el st) (e : E) :
    NestedRun S thread rAttrs front froms cost caches (el ++ [e])
      (nestedCacheStep S thread rAttrs front froms cost st e) := by
  classical
  have hcost : (nestedCacheStep S thread rAttrs front froms cost st e).curCost =
      wayCost S.g.toDirGraph cost (el ++ [e]) := by
    rw [nestedCacheStep]
    dsimp only
    rw [h.curEdges, h.curCost]
    cases hlast : el.getLast? with
    | none =>
      rw [List.getLast?_eq_none_iff.1 hlast]
      rfl
    | some back =>
      obtain ⟨l, rfl⟩ := List.getLast?_eq_some_iff.1 hlast
      exact (wayCost_concat S.g.toDirGraph cost l back e).symm
  have hedges : (nestedCacheStep S thread rAttrs front froms cost st e).curEdges = el ++ [e] := by
    rw [nestedCacheStep, h.curEdges]
  have hentry : ∀ th attrs f t,
      (nestedCacheStep S thread rAttrs front froms cost st e).caches th attrs f t =
        if Nested thread rAttrs front froms th attrs f t ∧ f = e then
          some (cost.start f + wayCost S.g.toDirGraph cost (el ++ [e]), el ++ [e])
        else st.caches th attrs f t := by
    intro th attrs f t
    rw [← hcost, ← hedges, nestedCacheStep]
    dsimp only
    by_cases hfrom : e ∈ froms
    · rw [if_pos hfrom, cache_apply]
      by_cases hnew : Nested thread rAttrs front froms th attrs f t ∧ f = e
      · obtain ⟨⟨rfl, rfl, rfl, hne, -⟩, rfl⟩ := hnew
        rw [if_pos ⟨⟨hcaching, hne⟩, rfl, rfl, rfl, rfl⟩, if_pos ⟨⟨rfl, rfl, rfl, hne, hfrom⟩, rfl⟩]
      · rw [if_neg hnew, if_neg]
        rintro ⟨⟨-, hne⟩, rfl, rfl, rfl, rfl⟩
        exact hnew ⟨⟨rfl, rfl, rfl, hne, hfrom⟩, rfl⟩
    · rw [if_neg hfrom, if_neg]
      rintro ⟨hnested, rfl⟩
      exact hfrom hnested.start
  refine ⟨hedges, hcost, ?_, ?_⟩
  · intro th attrs f t hnested hf
    rw [hentry]
    by_cases hfe : f = e
    · subst hfe
      rw [if_pos ⟨hnested, rfl⟩]
      exact ⟨_, rfl, el, List.prefix_refl _, rfl⟩
    · have hold : f ∈ el := by
        simpa [hfe] using hf
      obtain ⟨cv, hcv, hval⟩ := h.stored hnested hold
      rw [if_neg fun hnew => hfe hnew.2]
      exact ⟨cv, hcv, hval.concat e⟩
  · intro th attrs f t hnot
    rw [hentry, if_neg, h.kept]
    · rintro ⟨hnested, hf⟩
      exact hnot ⟨hnested, List.mem_append_left _ hf⟩
    · rintro ⟨hnested, rfl⟩
      exact hnot ⟨hnested, by simp⟩

theorem nestedRun (hcaching : S.caching) (el : List E) :
    NestedRun S thread rAttrs front froms cost caches el
      (el.foldl (nestedCacheStep S thread rAttrs front froms cost) ⟨[], 0, caches⟩) := by
  induction el using List.reverseRecOn with
  | nil =>
    refine ⟨rfl, rfl, ?_, fun _ => rfl⟩
    intro th attrs f t _ hf
    exact absurd hf List.not_mem_nil
  | append_singleton el e ih =>
    rw [List.foldl_append]
    exact ih.step hcaching e

theorem nestedCache_off (hcaching : ¬ S.caching) (el : List E) :
    nestedCache S thread rAttrs el froms cost caches = caches := by
  unfold nestedCache
  rw [if_pos hcaching]

variable (thread rAttrs froms cost caches) in
/-- `nestedCache` writes the entries of the start edges on the list, and no others. -/
theorem nestedCache_spec (hcaching : S.caching) (el : List E) (th : ℕ) (attrs : RoutingAttributes)
    (f t : E) :
    (f ∈ el ∧ el.head? = some t ∧ Nested thread rAttrs t froms th attrs f t ∧
      ∃ cv, nestedCache S thread rAttrs el froms cost caches th attrs f t = some cv ∧
        EntryOf S cost el f cv) ∨
    (¬ (f ∈ el ∧ el.head? = some t ∧ Nested thread rAttrs t froms th attrs f t) ∧
      nestedCache S thread rAttrs el froms cost caches th attrs f t = caches th attrs f t) := by
  cases el with
  | nil =>
    have hnil : nestedCache S thread rAttrs [] froms cost caches = caches :=
      if_neg (not_not_intro hcaching)
    rw [hnil]
    exact Or.inr ⟨fun h => List.not_mem_nil h.1, rfl⟩
  | cons front el =>
    have hcons : nestedCache S thread rAttrs (front :: el) froms cost caches =
        ((front :: el).foldl (nestedCacheStep S thread rAttrs front froms cost)
          ⟨[], 0, caches⟩).caches := if_neg (not_not_intro hcaching)
    rw [hcons]
    have hrun : NestedRun S thread rAttrs front froms cost caches (front :: el) _ :=
      nestedRun hcaching (front :: el)
    by_cases hnested : Nested thread rAttrs front froms th attrs f t ∧ f ∈ front :: el
    · obtain rfl := hnested.1.target
      exact Or.inl ⟨hnested.2, rfl, hnested.1, hrun.stored hnested.1 hnested.2⟩
    · refine Or.inr ⟨?_, hrun.kept hnested⟩
      rintro ⟨hf, hhead, hentry⟩
      obtain rfl : front = t := Option.some.inj hhead
      exact hnested ⟨hentry, hf⟩

end entries

end Pfaedle.Router

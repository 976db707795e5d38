import Pfaedle.EDijkstraPaths
import Pfaedle.HopCache
import Pfaedle.LoopRules

set_option autoImplicit false

/-!
# The edges of a hop

Whatever the edges cost, a hop that is not empty is a way from its first edge to its last one, and
so is the part of it that the cache keeps for an edge on the way.
-/
namespace Pfaedle.Router
open LabelSetting LoopRules

section ways
variable {N E : Type*} {g : EDijkstra.DirGraph N E}

def Follows (g : EDijkstra.DirGraph N E) (e' e : E) : Prop :=
  e ∈ g.edges ∧ e' ∈ g.adjListOut (g.getTo e)

/-- The edges from `f` to `t`, the last one first. -/
structure Way (g : EDijkstra.DirGraph N E) (f t : E) (l : List E) : Prop where
  chain : l.IsChain (Follows g)
  first : l.head? = some t
  last : l.getLast? = some f

def Leads (g : EDijkstra.DirGraph N E) : N → List E → N → Prop
  | a, [], b => a = b
  | a, e :: es, b => e ∈ g.edges ∧ g.getFrom e = a ∧ Leads g (g.getTo e) es b

theorem Leads.concat {a b : N} {es : List E} {e : E} (h : Leads g a es b) (he : e ∈ g.edges)
    (hb : g.getFrom e = b) : Leads g a (es ++ [e]) (g.getTo e) := by
  induction es generalizing a with
  | nil => exact ⟨he, hb.trans h.symm, rfl⟩
  | cons x es ih => exact ⟨h.1, h.2.1, ih h.2.2⟩

theorem Leads.mem {a b : N} {es : List E} (h : Leads g a es b) {e : E} (he : e ∈ es) :
    e ∈ g.edges := by
  induction es generalizing a with
  | nil => exact absurd he List.not_mem_nil
  | cons x es ih =>
    cases List.mem_cons.1 he with
    | inl heq => exact heq ▸ h.1
    | inr hmem => exact ih h.2.2 hmem

theorem Way.leads {f t : E} {l : List E} (h : Way g f t l) :
    Leads g (g.getFrom f) l.tail.reverse (g.getFrom t) := by
  obtain ⟨hchain, hfirst, hlast⟩ := h
  induction l generalizing t with
  | nil => cases hfirst
  | cons x l ih =>
    obtain rfl : x = t := Option.some.inj hfirst
    rw [List.tail_cons]
    cases l with
    | nil =>
      obtain rfl : x = f := Option.some.inj hlast
      rfl
    | cons y l =>
      obtain ⟨⟨hy, hfollows⟩, hchain⟩ := List.isChain_cons_cons.1 hchain
      have hrest := ih hchain rfl (by rw [← hlast, List.getLast?_cons_cons])
      rw [List.reverse_cons, (g.mem_adjListOut.1 hfollows).2]
      exact hrest.concat hy rfl

theorem Way.cut {f f' t : E} {pre post : List E} (h : Way g f t (pre ++ f' :: post)) :
    Way g f' t (pre ++ [f']) := by
  have hsplit : pre ++ f' :: post = (pre ++ [f']) ++ post := by simp
  have hchain := h.chain
  rw [hsplit] at hchain
  refine ⟨hchain.left_of_append, ?_, by simp⟩
  rw [← h.first]
  cases pre with
  | nil => rfl
  | cons x pre => rfl

end ways

section hops
variable {N E C : Type*} [Field C] [LinearOrder C] {S : Setting N E C} {thread : ℕ}
  {rAttrs : RoutingAttributes} {tgGrp : Option ℕ} {maxD : C} {caches : Caches E C}

theorem way_of_walk {cost : EDijkstra.CostFunc N E C} {source : E → Prop} {t : E} {l : List E}
    {d : C} (h : Walk (EDijkstra.network S.g.toDirGraph cost source) t l d) :
    ∃ f, f ∈ S.g.edges ∧ source f ∧ Way S.g.toDirGraph f t l := by
  obtain ⟨⟨hchain, ⟨f, hhead, hsource⟩, hlast⟩, -⟩ := h.isPath
  refine ⟨f, hsource.1, hsource.2, ?_, ?_, ?_⟩
  · exact List.isChain_reverse.1 hchain
  · rw [← List.getLast?_reverse, hlast]
  · rw [← List.head?_reverse, hhead]

variable [DecidableEq N] [DecidableEq E]

theorem hopSearch_way {frm : E} (hfrm : frm ∈ S.g.edges) (rem : List E) (t : E) :
    (hopSearch S rAttrs frm rem tgGrp maxD).resEdges t = [] ∨
      Way S.g.toDirGraph frm t ((hopSearch S rAttrs frm rem tgGrp maxD).resEdges t) := by
  cases EDijkstra.shortestPathAll_walk S.pq hfrm t with
  | inl hnil => exact Or.inl hnil
  | inr hwalk =>
    obtain ⟨d, hd⟩ := hwalk
    obtain ⟨f, -, hf, hway⟩ := way_of_walk hd
    obtain rfl := List.mem_singleton.1 hf
    exact Or.inr hway

theorem pilotRun_way {a b : EdgeCandidateGroup E C} (hin : ∀ c ∈ a, c.e ∈ S.g.edges) :
    (pilotRun S rAttrs a b).2 = [] ∨
      ∃ f t, Way S.g.toDirGraph f t (pilotRun S rAttrs a b).2 := by
  have hfrm : ∀ e ∈ S.edgeSet.toList (a.map EdgeCandidate.e), e ∈ S.g.edges :=
    S.forall_edgeSet hin
  rw [pilotRun]
  dsimp only
  split
  · cases EDijkstra.shortestPathSet_walk S.pq hfrm with
    | inl hnil => exact Or.inl hnil
    | inr hwalk =>
      obtain ⟨t, -, d, hd⟩ := hwalk
      obtain ⟨f, -, -, hway⟩ := way_of_walk hd
      exact Or.inr ⟨f, t, hway⟩
  · exact Or.inl rfl

def CacheWays (S : Setting N E C) (caches : Caches E C) : Prop :=
  ∀ thread rAttrs f t cv, caches thread rAttrs f t = some cv → Way S.g.toDirGraph f t cv.2

theorem CacheWays.nestedCache (h : CacheWays S caches) {el : List E}
    (hel : el = [] ∨ ∃ f t, Way S.g.toDirGraph f t el) (froms : List E) :
    CacheWays S (nestedCache S thread rAttrs el froms (costFunc S rAttrs tgGrp maxD) caches) := by
  intro th attrs f t cv hcv
  cases nestedCache_entry hcv with
  | inl hold => exact h th attrs f t cv hold
  | inr hnew =>
    obtain ⟨-, -, hhead, -, pre, post, rfl, hval⟩ := hnew
    rw [hval]
    cases hel with
    | inl hnil => simp at hnil
    | inr hway =>
      obtain ⟨f', t', hway⟩ := hway
      obtain rfl : t' = t := Option.some.inj (hway.first.symm.trans hhead)
      exact hway.cut

variable (thread rAttrs) in
theorem CacheWays.getHopBand (h : CacheWays S caches) {a : EdgeCandidateGroup E C}
    (b : EdgeCandidateGroup E C) (hin : ∀ c ∈ a, c.e ∈ S.g.edges) :
    CacheWays S (getHopBand S thread rAttrs a b caches).2 := by
  rw [Router.getHopBand]
  dsimp only
  split
  · exact h
  · exact h.nestedCache (pilotRun_way hin) _

variable (thread rAttrs tgGrp maxD) in
theorem CacheWays.hops (h : CacheWays S caches) {frm : E} (hfrm : frm ∈ S.g.edges)
    (froms tos : List E) :
    CacheWays S (hops S thread rAttrs frm froms tos tgGrp maxD caches).2 := by
  rw [Router.hops]
  dsimp only
  refine foldl_inv _ (CacheWays S) _ h fun caches' t _ h' => ?_
  exact h'.nestedCache ((hopSearch_way hfrm _ t).imp_right fun hway => ⟨frm, t, hway⟩) _

variable (thread rAttrs tgGrp maxD) in
/-- What `hops` returns for a target is empty or the way there. -/
theorem CacheWays.hops_edges (h : CacheWays S caches) {frm : E} (hfrm : frm ∈ S.g.edges)
    (froms tos : List E) (t : E) :
    (Router.hops S thread rAttrs frm froms tos tgGrp maxD caches).1.edges t = [] ∨
      Way S.g.toDirGraph frm t
        ((Router.hops S thread rAttrs frm froms tos tgGrp maxD caches).1.edges t) := by
  rw [Router.hops]
  dsimp only
  split
  · exact Or.inl rfl
  · cases hhit : cachedHop S thread rAttrs caches frm t with
    | some cv =>
      rw [cachedHop] at hhit
      split at hhit
      · exact Or.inr (h thread rAttrs frm t cv hhit)
      · cases hhit
    | none =>
      dsimp only
      split
      · exact Or.inl rfl
      · exact hopSearch_way hfrm _ t

end hops

end Pfaedle.Router

import Pfaedle.HeuristicCosts
import Pfaedle.HopCache
import Pfaedle.HopLimit
import Pfaedle.LoopRules
import Pfaedle.RouteOptimal

set_option autoImplicit false

/-!
# Routing with and without the hop cache

Two runs of the same calls are kept side by side. They build the same candidate graphs up to the
edge lists of equally cheap hops, as long as what the cached run finds in its cache is right.
-/
namespace Pfaedle.Router
open DirGraphs LabelSetting LoopRules

section calls
variable {N E C : Type*} [DecidableEq N] [DecidableEq E] [Field C] [LinearOrder C]

def Setting.uncached (S : Setting N E C) : Setting N E C := { S with caching := false }

structure RouteCall (E C : Type*) where
  thread : ℕ
  rAttrs : RoutingAttributes
  cands : EdgeCandidateRoute E C

/-- The calls of one router, each with the candidate graph it built and the hops it returned. -/
def routes (S : Setting N E C) : Caches E C → List (RouteCall E C) →
    List (RouteState N E C × List (EdgeListHop N E C))
  | _, [] => []
  | caches, c :: calls =>
    (routeGraph S c.thread c.rAttrs c.cands caches, (route S c.thread c.rAttrs c.cands caches).1) ::
      routes S (route S c.thread c.rAttrs c.cands caches).2 calls

/-- Two calls handed the same costs to their candidate graphs and found solutions of one cost. -/
structure SameCosts (x y : RouteState N E C × List (EdgeListHop N E C)) : Prop where
  delivered : ∀ i f t, (x.1.delivered i f).costs t = (y.1.delivered i f).costs t
  edges : x.1.cgraph.edges = y.1.cgraph.edges
  handed : ∀ e, (x.1.cgraph.pl e).cost = (y.1.cgraph.pl e).cost
  total : (x.2.map EdgeListHop.cost).sum = (y.2.map EdgeListHop.cost).sum

/-- What `route` hands to one call of `hops`: the edge it starts from and the groups it joins. -/
structure HopsCall (E C : Type*) where
  thread : ℕ
  rAttrs : RoutingAttributes
  a : EdgeCandidateGroup E C
  b : EdgeCandidateGroup E C
  eFr : E
  caches : Caches E C

namespace HopsCall
variable (S : Setting N E C) (call : HopsCall E C)

def tos : List E := S.edgeSet.toList (edgesOf call.b)

def network : Network E C := hopNetwork S call.rAttrs (targetGroup S call.b) call.eFr

def cached (t : E) : Option (C × List E) :=
  cachedHop S call.thread call.rAttrs call.caches call.eFr t

def Hits : Prop := ∃ t ∈ call.tos S, (call.cached S t).isSome

/-- The candidates are edges, and the estimates towards the targets drop by no more than an edge
costs: those of the pilot run, of a search for all targets and of one for those that are left. -/
structure Steady : Prop where
  edges : ∀ e ∈ edgesOf call.a, e ∈ S.g.edges
  pilot : PilotSteady S call.rAttrs call.a call.b
  whole : HopSteady S call.rAttrs (targetGroup S call.b) call.eFr
    ((call.tos S).filter fun t => !isShortcut S call.eFr t)
  rest : HopSteady S call.rAttrs (targetGroup S call.b) call.eFr
    (hopTargets S call.thread call.rAttrs call.eFr (call.tos S) call.caches)

/-- A cached cost is above no limit that the call may have, and is the limit for a hop that is not
searched for. -/
def Fits : Prop := ∀ maxD, HopLimit S call.rAttrs call.a call.b maxD →
  ∀ t ∈ call.tos S, ∀ cv ∈ call.cached S t, HitFits S call.eFr t maxD cv.1

/-- What a call must meet that finds something in the cache: it fits, and for a hop that is searched
for it is the cost of a cheapest walk under the target group of this call. -/
structure Right : Prop where
  weighed : Weighed S
  steady : call.Steady S
  fits : call.Fits S
  least : ∀ t ∈ call.tos S, ∀ cv ∈ call.cached S t, isShortcut S call.eFr t = false →
    Least (call.network S) t cv.1

/-- What every call must meet for the cache to be right: a target is always searched for under one
station group or under groups that cost the same, and what is found fits. -/
structure Careful (grp : ℕ → RoutingAttributes → E → Option ℕ) : Prop where
  steady : call.Steady S
  grp : ∀ t ∈ edgesOf call.b, edgePairCost S call.rAttrs (targetGroup S call.b) =
    edgePairCost S call.rAttrs (grp call.thread call.rAttrs t)
  fits : call.Fits S

end HopsCall

variable (S : Setting N E C) (ok : HopsCall E C → Prop) (thread : ℕ) (rAttrs : RoutingAttributes)

/-- The calls of `hops` in one round of the outer loop are `ok`. -/
def LayerMeets (i : ℕ) (last : Bool) (sink : ℕ) (a b : EdgeCandidateGroup E C)
    (st : RouteState N E C) : Prop :=
  let band := getHopBand S thread rAttrs a b st.caches
  FoldMeets (routeFrom S thread rAttrs i last sink a b band.1.maxD)
    (fun st eFr => ok ⟨thread, rAttrs, a, b, eFr, st.caches⟩)
    { st with
      caches := band.2
      nextNodes := fun _ => none }
    (S.edgeSet.toList (a.map EdgeCandidate.e))

def HopsMeet (sink : ℕ) : ℕ → EdgeCandidateGroup E C → EdgeCandidateRoute E C →
    RouteState N E C → Prop
  | _, _, [], _ => True
  | i, a, b :: rest, st => LayerMeets S ok thread rAttrs i rest.isEmpty sink a b st ∧
      HopsMeet sink (i + 1) b rest (routeLayer S thread rAttrs i rest.isEmpty sink a b st)

/-- The calls of `hops` in one call of `route` are `ok`, each at the cache that it is handed. -/
def RouteMeets (cands : EdgeCandidateRoute E C) (caches : Caches E C) : Prop :=
  match cands with
  | [] => True
  | a :: rest =>
    HopsMeet S ok thread rAttrs sink 0 a rest
      (a.foldl (addSourceEdge S source) (emptyState caches))

def RunMeets : Caches E C → List (RouteCall E C) → Prop
  | _, [] => True
  | caches, c :: calls => RouteMeets S ok c.thread c.rAttrs c.cands caches ∧
      RunMeets (route S c.thread c.rAttrs c.cands caches).2 calls

def noCaches : Caches E C := fun _ _ _ _ => none

end calls

section alike
variable {N E C : Type*} [LinearOrder C]

def dropEdges (p : CandPayload N E C) : CandPayload N E C := { p with edges := [] }

def strip (g : CandGraph N E C) : CandGraph N E C := g.mapPl dropEdges

variable {S : Setting N E C} {thread : ℕ} {rAttrs : RoutingAttributes}

theorem strip_targetNode (nextNodes : E → Option ℕ) (g : CandGraph N E C) (c : EdgeCandidate E C) :
    targetNode S nextNodes (strip g) c =
      ((targetNode S nextNodes g c).1, strip (targetNode S nextNodes g c).2) := by
  rw [targetNode, targetNode]
  cases nextNodes c.e with
  | some n => rfl
  | none => rfl

variable [Field C]

omit [LinearOrder C] in
theorem strip_addEdg (g : CandGraph N E C) (u v : ℕ) :
    (strip g).addEdg u v defaultPayload =
      ((g.addEdg u v defaultPayload).1, strip (g.addEdg u v defaultPayload).2) :=
  DirGraph.mapPl_addEdg dropEdges g u v defaultPayload

omit [Field C] [LinearOrder C] in
theorem strip_setPl (g : CandGraph N E C) (e : Edge) (p : CandPayload N E C) :
    strip (g.setPl e p) = (strip g).setPl e (dropEdges p) :=
  DirGraph.mapPl_setPl dropEdges g e p

omit [LinearOrder C] in
theorem strip_addSinkEdge (last : Bool) (sink n : ℕ) (g : CandGraph N E C) :
    addSinkEdge last sink n (strip g) = strip (addSinkEdge last sink n g) := by
  rw [addSinkEdge, addSinkEdge]
  split
  · rw [strip_addEdg]
  · rfl

theorem strip_addTarget [DecidableEq E] (last : Bool) (sink : ℕ) (eFr : E) (n : ℕ)
    (g : CandGraph N E C)
    (nextNodes : E → Option ℕ) (tg : Targets E C) (c : EdgeCandidate E C) :
    addTarget S last sink eFr n (strip g, nextNodes, tg) c =
      (strip (addTarget S last sink eFr n (g, nextNodes, tg) c).1,
        (addTarget S last sink eFr n (g, nextNodes, tg) c).2) := by
  simp only [addTarget, strip_targetNode, strip_addSinkEdge, strip_addEdg, strip_setPl]
  rfl

theorem strip_addTargets [DecidableEq E] (last : Bool) (sink : ℕ) (eFr : E) (n : ℕ)
    (b : EdgeCandidateGroup E C)
    (g : CandGraph N E C) (nextNodes : E → Option ℕ) (tg : Targets E C) :
    b.foldl (addTarget S last sink eFr n) (strip g, nextNodes, tg) =
      (strip (b.foldl (addTarget S last sink eFr n) (g, nextNodes, tg)).1,
        (b.foldl (addTarget S last sink eFr n) (g, nextNodes, tg)).2) := by
  induction b generalizing g nextNodes tg with
  | nil => rfl
  | cons c b ih =>
    rw [List.foldl_cons, List.foldl_cons, strip_addTarget, ih]

theorem strip_writeHop {res res' : HopResults E C} (hres : ∀ t, res.costs t = res'.costs t)
    (tg : Targets E C) {g g' : CandGraph N E C} (hg : strip g = strip g') (t : E) :
    strip (writeHop S res tg g t) = strip (writeHop S res' tg g' t) := by
  rw [writeHop, writeHop]
  cases tg.edges t with
  | none => exact hg
  | some e =>
    have hpl : dropEdges (g.pl e) = dropEdges (g'.pl e) := congrArg (fun g => g.pl e) hg
    dsimp only
    rw [strip_setPl, strip_setPl]
    change (strip g).setPl e { dropEdges (g.pl e) with cost := _ } =
      (strip g').setPl e { dropEdges (g'.pl e) with cost := _ }
    rw [hg, hpl, hres]

theorem strip_writeHops {res res' : HopResults E C} (hres : ∀ t, res.costs t = res'.costs t)
    (tg : Targets E C) (tos : List E) {g g' : CandGraph N E C} (hg : strip g = strip g') :
    strip (tos.foldl (writeHop S res tg) g) = strip (tos.foldl (writeHop S res' tg) g') := by
  induction tos generalizing g g' with
  | nil => exact hg
  | cons t tos ih => exact ih (strip_writeHop hres tg hg t)

structure Alike (st st' : RouteState N E C) : Prop where
  cgraph : strip st.cgraph = strip st'.cgraph
  nodes : st.nodes = st'.nodes
  nextNodes : st.nextNodes = st'.nextNodes
  delivered : ∀ i f t, (st.delivered i f).costs t = (st'.delivered i f).costs t

end alike

section run
variable {N E C : Type*} [DecidableEq N] [DecidableEq E] [LinearOrder C] {S : Setting N E C}
  {thread : ℕ} {rAttrs : RoutingAttributes} {st st' : RouteState N E C}

theorem hopTargets_uncached (S : Setting N E C) (thread : ℕ) (rAttrs : RoutingAttributes) (frm : E)
    (tos : List E) (caches : Caches E C) :
    hopTargets S.uncached thread rAttrs frm tos caches =
      tos.filter fun t => !isShortcut S frm t := by
  have hnone : getCachedHops S.uncached thread rAttrs caches frm tos = tos :=
    List.filter_eq_self.2 fun t _ => rfl
  rw [hopTargets, hnone]
  rfl

variable [Field C]

/-- A call that finds nothing in the cache does what it does without one. -/
theorem hops_uncached_of_miss {frm : E} (froms : List E) {tos : List E} {tgGrp : Option ℕ}
    {maxD : C} {caches : Caches E C} (caches' : Caches E C)
    (hmiss : ∀ t ∈ tos, cachedHop S thread rAttrs caches frm t = none) (t : E) :
    (hops S thread rAttrs frm froms tos tgGrp maxD caches).1.costs t =
      (hops S.uncached thread rAttrs frm froms tos tgGrp maxD caches').1.costs t := by
  have hleft : getCachedHops S thread rAttrs caches frm tos = tos :=
    List.filter_eq_self.2 fun t ht => by rw [hmiss t ht]; rfl
  have htargets : hopTargets S thread rAttrs frm tos caches =
      hopTargets S.uncached thread rAttrs frm tos caches' := by
    rw [hopTargets_uncached, hopTargets, hleft]
  by_cases ht : t ∈ tos
  · rw [hops, hops, htargets]
    dsimp only
    rw [if_neg (not_not_intro ht), if_neg (not_not_intro ht), hmiss t ht]
    rfl
  · simp only [hops, if_pos ht]

omit [DecidableEq N] [DecidableEq E] in
theorem Weighed.uncached (h : Weighed S) : Weighed S.uncached := ⟨h.opts, h.length, h.level_lt⟩

variable [IsStrictOrderedRing C]

theorem HopsCall.Right.uncached {call : HopsCall E C} (h : call.Right S)
    (hfrm : call.eFr ∈ S.g.edges) {maxD : C} (hmax : 0 ≤ maxD)
    (hlimit : HopLimit S call.rAttrs call.a call.b maxD) (froms : List E) (caches' : Caches E C)
    (t : E) :
    (hops S call.thread call.rAttrs call.eFr froms (call.tos S) (targetGroup S call.b) maxD
        call.caches).1.costs t =
      (hops S.uncached call.thread call.rAttrs call.eFr froms (call.tos S) (targetGroup S call.b)
        maxD caches').1.costs t := by
  by_cases ht : t ∈ call.tos S
  · have hnodup : (call.tos S).Nodup := S.edgeSet.nodup _
    have hcost : HopCost S call.rAttrs (targetGroup S call.b) maxD call.eFr t
        ((hops S call.thread call.rAttrs call.eFr froms (call.tos S) (targetGroup S call.b) maxD
          call.caches).1.costs t) := by
      cases hhit : cachedHop S call.thread call.rAttrs call.caches call.eFr t with
      | none => exact h.weighed.hops_cost_miss hfrm hnodup hmax h.steady.rest ht hhit
      | some cv =>
        rw [hops_cost_hit ht hhit]
        exact (h.fits maxD hlimit t ht cv hhit).hopCost (h.least t ht cv hhit)
    have hsteady : HopSteady S.uncached call.rAttrs (targetGroup S call.b) call.eFr
        (hopTargets S.uncached call.thread call.rAttrs call.eFr (call.tos S) caches') := by
      rw [hopTargets_uncached]
      exact h.steady.whole
    have hcost' : HopCost S call.rAttrs (targetGroup S call.b) maxD call.eFr t
        ((hops S.uncached call.thread call.rAttrs call.eFr froms (call.tos S)
          (targetGroup S call.b) maxD caches').1.costs t) :=
      h.weighed.uncached.hops_cost_miss hfrm hnodup hmax hsteady ht rfl
    exact hcost.unique hcost'
  · simp only [hops, if_pos ht]

/-- What a call must meet: what it finds in the cache is right. -/
def HopsCall.Transparent (S : Setting N E C) (call : HopsCall E C) : Prop :=
  call.Hits S → call.Right S

theorem HopsCall.Transparent.uncached {call : HopsCall E C} (h : call.Transparent S)
    (hfrm : call.eFr ∈ edgesOf call.a) {maxD : C}
    (hband : ∀ caches, (getHopBand S call.thread call.rAttrs call.a call.b caches).1.maxD = maxD)
    (froms : List E) (caches' : Caches E C) (t : E) :
    (hops S call.thread call.rAttrs call.eFr froms (call.tos S) (targetGroup S call.b) maxD
        call.caches).1.costs t =
      (hops S.uncached call.thread call.rAttrs call.eFr froms (call.tos S) (targetGroup S call.b)
        maxD caches').1.costs t := by
  by_cases hhits : call.Hits S
  · have hright := h hhits
    have hmax : 0 ≤ maxD :=
      hband call.caches ▸ hright.weighed.opts.maxD_nonneg call.thread call.a call.b call.caches
    have hlimit : HopLimit S call.rAttrs call.a call.b maxD :=
      hband call.caches ▸ hright.weighed.getHopBand_limit hright.steady.pilot hright.steady.edges
        call.thread call.caches
    exact hright.uncached (hright.steady.edges _ hfrm) hmax hlimit froms caches' t
  · refine hops_uncached_of_miss froms caches' (fun t ht => ?_) t
    exact Option.not_isSome_iff_eq_none.1 fun hsome => hhits ⟨t, ht, hsome⟩

omit [IsStrictOrderedRing C] in
theorem getHopBand_uncached (a b : EdgeCandidateGroup E C) (caches caches' : Caches E C) :
    (getHopBand S.uncached thread rAttrs a b caches').1 =
      (getHopBand S thread rAttrs a b caches).1 := by
  have hpilot : pilotRun S.uncached rAttrs a b = pilotRun S rAttrs a b := rfl
  have hpend : pendingDistance S.uncached a b = pendingDistance S a b := rfl
  rw [getHopBand, getHopBand, hpilot, hpend]
  dsimp only
  split
  · rfl
  · rfl

theorem Alike.routeFrom (h : Alike st st') (i : ℕ) (last : Bool) (sink : ℕ)
    {a b : EdgeCandidateGroup E C} {maxD : C} {eFr : E} (hfrm : eFr ∈ edgesOf a)
    (hband : ∀ caches, (getHopBand S thread rAttrs a b caches).1.maxD = maxD)
    (hmeets : HopsCall.Transparent S ⟨thread, rAttrs, a, b, eFr, st.caches⟩) :
    Alike (routeFrom S thread rAttrs i last sink a b maxD st eFr)
      (routeFrom S.uncached thread rAttrs i last sink a b maxD st' eFr) := by
  rw [Router.routeFrom, Router.routeFrom, ← h.nodes]
  cases st.nodes eFr with
  | none => exact h
  | some n =>
    have hcosts := hmeets.uncached hfrm hband (S.edgeSet.toList (edgesOf a)) st'.caches
    have htargets := strip_addTargets (S := S) last sink eFr n b st.cgraph st.nextNodes
      ⟨fun _ => none, fun _ => 0⟩
    have htargets' := strip_addTargets (S := S.uncached) last sink eFr n b st'.cgraph st'.nextNodes
      ⟨fun _ => none, fun _ => 0⟩
    rw [← h.cgraph, ← h.nextNodes] at htargets'
    have hboth := htargets.symm.trans htargets'
    dsimp only
    rw [← h.nextNodes]
    generalize b.foldl (addTarget S last sink eFr n) (st.cgraph, st.nextNodes, _) = drawn at hboth ⊢
    generalize b.foldl (addTarget S.uncached last sink eFr n) (st'.cgraph, st.nextNodes, _) = drawn'
      at hboth ⊢
    obtain ⟨g, nextNodes, tg⟩ := drawn
    obtain ⟨g', nextNodes', tg'⟩ := drawn'
    obtain ⟨hg, hrest⟩ := Prod.mk.inj hboth
    obtain ⟨rfl, rfl⟩ := Prod.mk.inj hrest
    refine ⟨strip_writeHops hcosts tg _ hg, rfl, rfl, ?_⟩
    intro j x t
    dsimp only
    by_cases hj : j = i
    · subst hj
      rw [Function.update_self, Function.update_self]
      by_cases hx : x = eFr
      · subst hx
        rw [Function.update_self, Function.update_self]
        exact hcosts t
      · rw [Function.update_of_ne hx, Function.update_of_ne hx]
        exact h.delivered j x t
    · rw [Function.update_of_ne hj, Function.update_of_ne hj]
      exact h.delivered j x t

theorem Alike.routeLayer (h : Alike st st') (i : ℕ) (last : Bool) (sink : ℕ)
    {a b : EdgeCandidateGroup E C}
    (hmeets : LayerMeets S (HopsCall.Transparent S) thread rAttrs i last sink a b st) :
    Alike (routeLayer S thread rAttrs i last sink a b st)
      (routeLayer S.uncached thread rAttrs i last sink a b st') := by
  have hband : ∀ caches, (getHopBand S thread rAttrs a b caches).1.maxD =
      (getHopBand S thread rAttrs a b st.caches).1.maxD := fun caches => by
    rw [getHopBand_maxD_eq, getHopBand_maxD_eq]
  rw [Router.routeLayer, Router.routeLayer]
  dsimp only
  rw [getHopBand_uncached a b st.caches st'.caches]
  have hstart : Alike
      { st with
        caches := (getHopBand S thread rAttrs a b st.caches).2
        nextNodes := fun _ => none }
      { st' with
        caches := (getHopBand S.uncached thread rAttrs a b st'.caches).2
        nextNodes := fun _ => none } :=
    ⟨h.cgraph, h.nodes, rfl, h.delivered⟩
  have hfroms := foldl_simulation _ (Router.routeFrom S.uncached thread rAttrs i last sink a b
    (getHopBand S thread rAttrs a b st.caches).1.maxD) _ Alike _ hmeets hstart
    fun s t x hx hok hst => hst.routeFrom i last sink (S.edgeSet.mem.1 hx) hband hok
  exact ⟨hfroms.cgraph, hfroms.nextNodes, hfroms.nodes, hfroms.delivered⟩

theorem Alike.routeHops (rest : EdgeCandidateRoute E C) (i : ℕ) (sink : ℕ)
    {a : EdgeCandidateGroup E C} (h : Alike st st')
    (hmeets : HopsMeet S (HopsCall.Transparent S) thread rAttrs sink i a rest st) :
    Alike (routeHops S thread rAttrs sink i a rest st)
      (routeHops S.uncached thread rAttrs sink i a rest st') := by
  induction rest generalizing i a st st' with
  | nil => exact h
  | cons b rest ih =>
    exact ih (i + 1) (h.routeLayer i rest.isEmpty sink hmeets.1) hmeets.2

omit [DecidableEq N] [IsStrictOrderedRing C] in
theorem strip_addSourceEdge (source : ℕ) (st : RouteState N E C) (c : EdgeCandidate E C) :
    strip (addSourceEdge S source st c).cgraph =
      (addSourceEdge S source { st with cgraph := strip st.cgraph } c).cgraph := by
  have hnd : (strip st.cgraph).addNd (some (S.g.getFrom c.e)) =
    (st.cgraph.nextNd, strip (st.cgraph.addNd (some (S.g.getFrom c.e))).2) := rfl
  simp only [addSourceEdge, hnd, strip_addEdg, strip_setPl]
  rfl

omit [DecidableEq N] [IsStrictOrderedRing C] in
theorem Alike.addSourceEdges (h : Alike st st') (a : EdgeCandidateGroup E C) :
    Alike (a.foldl (addSourceEdge S source) st) (a.foldl (addSourceEdge S.uncached source) st') := by
  induction a generalizing st st' with
  | nil => exact h
  | cons c a ih =>
    apply ih
    refine ⟨?_, ?_, h.nextNodes, h.delivered⟩
    · have hadd := strip_addSourceEdge (S := S) source st c
      rw [h.cgraph] at hadd
      exact hadd.trans (strip_addSourceEdge (S := S.uncached) source st' c).symm
    · have hnext : st.cgraph.nextNd = st'.cgraph.nextNd := congrArg (fun g => g.nextNd) h.cgraph
      change Function.update st.nodes c.e (some st.cgraph.nextNd) =
        Function.update st'.nodes c.e (some st'.cgraph.nextNd)
      rw [h.nodes, hnext]

/-- One call with a cache and without. -/
theorem routeGraph_alike {call : RouteCall E C} {caches : Caches E C} (caches' : Caches E C)
    (hmeets : RouteMeets S (HopsCall.Transparent S) call.thread call.rAttrs call.cands caches) :
    Alike (routeGraph S call.thread call.rAttrs call.cands caches)
      (routeGraph S.uncached call.thread call.rAttrs call.cands caches') := by
  have hstart : Alike (emptyState caches : RouteState N E C) (emptyState caches') :=
    ⟨rfl, rfl, rfl, fun _ _ _ => rfl⟩
  cases hc : call.cands with
  | nil => exact hstart
  | cons a rest =>
    rw [hc] at hmeets
    exact Alike.routeHops rest 0 sink (hstart.addSourceEdges a) hmeets

omit [DecidableEq N] [DecidableEq E] [Field C] [LinearOrder C] [IsStrictOrderedRing C] in
theorem readHops_strip (g : CandGraph N E C) (res : List Edge) :
    (readHops (strip g) res).map EdgeListHop.cost = (readHops g res).map EdgeListHop.cost := by
  rw [readHops, readHops, List.map_map, List.map_map]
  rfl

omit [DecidableEq N] [DecidableEq E] [IsStrictOrderedRing C] in
theorem solve_strip (g : CandGraph N E C) : solve S (strip g) = solve S g := rfl

omit [IsStrictOrderedRing C] in
theorem route_costs {cands : EdgeCandidateRoute E C} {caches caches' : Caches E C}
    (h : Alike (routeGraph S thread rAttrs cands caches)
      (routeGraph S.uncached thread rAttrs cands caches')) :
    (route S thread rAttrs cands caches).1.map EdgeListHop.cost =
      (route S.uncached thread rAttrs cands caches').1.map EdgeListHop.cost := by
  rw [route, route]
  split
  · rfl
  · have hsolve : solve S (routeGraph S thread rAttrs cands caches).cgraph =
        solve S.uncached (routeGraph S.uncached thread rAttrs cands caches').cgraph := by
      rw [← solve_strip, h.cgraph]
      rfl
    have hret := readHops_strip (routeGraph S thread rAttrs cands caches).cgraph
      (solve S (routeGraph S thread rAttrs cands caches).cgraph)
    rw [h.cgraph, readHops_strip, hsolve] at hret
    have hlen := congrArg List.length hret
    rw [List.length_map, List.length_map] at hlen
    dsimp only
    rw [List.map_append, List.map_append, hsolve, ← hret, hlen]

omit [IsStrictOrderedRing C] in
theorem sameCosts_of_alike {call : RouteCall E C} {caches caches' : Caches E C}
    (h : Alike (routeGraph S call.thread call.rAttrs call.cands caches)
      (routeGraph S.uncached call.thread call.rAttrs call.cands caches')) :
    SameCosts
      (routeGraph S call.thread call.rAttrs call.cands caches,
        (route S call.thread call.rAttrs call.cands caches).1)
      (routeGraph S.uncached call.thread call.rAttrs call.cands caches',
        (route S.uncached call.thread call.rAttrs call.cands caches').1) where
  delivered := h.delivered
  edges := congrArg (fun g => g.edges) h.cgraph
  handed e := congrArg (fun g => (g.pl e).cost) h.cgraph
  total := congrArg List.sum (route_costs h)

theorem routes_sameCosts (calls : List (RouteCall E C)) {caches : Caches E C}
    (caches' : Caches E C) (hmeets : RunMeets S (HopsCall.Transparent S) caches calls) :
    List.Forall₂ SameCosts (routes S caches calls) (routes S.uncached caches' calls) := by
  induction calls generalizing caches caches' with
  | nil => exact List.Forall₂.nil
  | cons c calls ih =>
    have hgraph := routeGraph_alike caches' hmeets.1
    exact List.Forall₂.cons (sameCosts_of_alike hgraph) (ih _ hmeets.2)

end run

section careful
variable {N E C : Type*} [DecidableEq N] [DecidableEq E] [Field C] [LinearOrder C]
  {S : Setting N E C} {thread : ℕ} {rAttrs : RoutingAttributes}
  {grp : ℕ → RoutingAttributes → E → Option ℕ} {st : RouteState N E C}

theorem HopsCall.Careful.transparent {call : HopsCall E C} (h : call.Careful S grp)
    (hw : Weighed S) (hsound : CacheSound S grp call.caches) : call.Transparent S :=
  fun _ => ⟨hw, h.steady, h.fits, fun t ht _ hcv _ =>
    hsound.least hcv (h.grp t (S.edgeSet.mem.1 ht))⟩

variable [IsStrictOrderedRing C]

theorem CacheSound.routeFrom (hsound : CacheSound S grp st.caches) (hw : Weighed S) (i : ℕ)
    (last : Bool) (sink : ℕ) {a b : EdgeCandidateGroup E C} {maxD : C} {eFr : E}
    (hfrm : eFr ∈ edgesOf a) (hmax : 0 ≤ maxD)
    (h : HopsCall.Careful S ⟨thread, rAttrs, a, b, eFr, st.caches⟩ grp) :
    CacheSound S grp (Router.routeFrom S thread rAttrs i last sink a b maxD st eFr).caches := by
  rw [Router.routeFrom]
  cases st.nodes eFr with
  | none => exact hsound
  | some n =>
    exact hsound.hops hw (h.steady.edges _ hfrm) (S.edgeSet.nodup _) hmax h.steady.rest
      fun t ht => h.grp t (S.edgeSet.mem.1 ht)

omit [IsStrictOrderedRing C] in
theorem getHopBand_nil (b : EdgeCandidateGroup E C) (caches : Caches E C) :
    (getHopBand S thread rAttrs [] b caches).2 = caches := by
  have hrun : pilotRun S rAttrs [] b = (pendingDistance S [] b * 50, []) := by
    rw [pilotRun]
    exact if_neg Bool.false_ne_true
  rw [getHopBand, hrun]
  dsimp only
  rw [if_pos ⟨Nat.zero_lt_two, le_refl _⟩]

theorem CacheSound.layerStart (hsound : CacheSound S grp st.caches) (hw : Weighed S) {i : ℕ}
    {last : Bool} {sink : ℕ} {a b : EdgeCandidateGroup E C}
    (h : LayerMeets S (HopsCall.Careful S · grp) thread rAttrs i last sink a b st) :
    CacheSound S grp (Router.getHopBand S thread rAttrs a b st.caches).2 := by
  cases a with
  | nil =>
    rw [getHopBand_nil]
    exact hsound
  | cons c a =>
    rw [LayerMeets] at h
    have hmem : c.e ∈ S.edgeSet.toList ((c :: a).map EdgeCandidate.e) :=
      S.edgeSet.mem.2 List.mem_cons_self
    cases hlist : S.edgeSet.toList ((c :: a).map EdgeCandidate.e) with
    | nil =>
      rw [hlist] at hmem
      exact absurd hmem List.not_mem_nil
    | cons e es =>
      rw [hlist] at h
      have hfirst := h.1
      exact hsound.getHopBand hw hfirst.steady.pilot
        (fun c hc => hfirst.steady.edges _ (List.mem_map_of_mem hc))
        fun c hc => hfirst.grp _ (List.mem_map_of_mem hc)

theorem CacheSound.routeLayer (hsound : CacheSound S grp st.caches) (hw : Weighed S) (i : ℕ)
    (last : Bool) (sink : ℕ) {a b : EdgeCandidateGroup E C}
    (h : LayerMeets S (HopsCall.Careful S · grp) thread rAttrs i last sink a b st) :
    CacheSound S grp (Router.routeLayer S thread rAttrs i last sink a b st).caches ∧
      LayerMeets S (HopsCall.Transparent S) thread rAttrs i last sink a b st := by
  have hstart := hsound.layerStart hw h
  have hmax : 0 ≤ (Router.getHopBand S thread rAttrs a b st.caches).1.maxD :=
    hw.opts.maxD_nonneg thread a b st.caches
  exact FoldMeets.meets (fun st => CacheSound S grp st.caches) h hstart fun s e he hcareful hs =>
    ⟨hs.routeFrom hw i last sink (S.edgeSet.mem.1 he) hmax hcareful, hcareful.transparent hw hs⟩

theorem CacheSound.routeHops (hw : Weighed S) (rest : EdgeCandidateRoute E C) (i : ℕ) (sink : ℕ)
    {a : EdgeCandidateGroup E C} (hsound : CacheSound S grp st.caches)
    (h : HopsMeet S (HopsCall.Careful S · grp) thread rAttrs sink i a rest st) :
    CacheSound S grp (Router.routeHops S thread rAttrs sink i a rest st).caches ∧
      HopsMeet S (HopsCall.Transparent S) thread rAttrs sink i a rest st := by
  induction rest generalizing i a st with
  | nil => exact ⟨hsound, trivial⟩
  | cons b rest ih =>
    obtain ⟨hnext, hlayer⟩ := hsound.routeLayer hw i rest.isEmpty sink h.1
    obtain ⟨hend, hrest⟩ := ih (i + 1) hnext h.2
    exact ⟨hend, hlayer, hrest⟩

omit [DecidableEq N] [IsStrictOrderedRing C] in
theorem addSourceEdges_caches (a : EdgeCandidateGroup E C) (st : RouteState N E C) :
    (a.foldl (addSourceEdge S source) st).caches = st.caches := by
  induction a generalizing st with
  | nil => rfl
  | cons c a ih => exact ih _

theorem CacheSound.routeGraph (hw : Weighed S) {cands : EdgeCandidateRoute E C}
    {caches : Caches E C} (hsound : CacheSound S grp caches)
    (h : RouteMeets S (HopsCall.Careful S · grp) thread rAttrs cands caches) :
    CacheSound S grp (Router.routeGraph S thread rAttrs cands caches).caches ∧
      RouteMeets S (HopsCall.Transparent S) thread rAttrs cands caches := by
  cases cands with
  | nil => exact ⟨hsound, trivial⟩
  | cons a rest =>
    refine CacheSound.routeHops hw rest 0 sink ?_ h
    rw [addSourceEdges_caches]
    exact hsound

omit [IsStrictOrderedRing C] in
theorem CacheSound.route {cands : EdgeCandidateRoute E C} {caches : Caches E C}
    (hsound : CacheSound S grp caches)
    (hgraph : CacheSound S grp (Router.routeGraph S thread rAttrs cands caches).caches) :
    CacheSound S grp (Router.route S thread rAttrs cands caches).2 := by
  rw [Router.route]
  split
  · exact hsound
  · exact hgraph

theorem runMeets_of_sound (hw : Weighed S) (calls : List (RouteCall E C)) {caches : Caches E C}
    (hsound : CacheSound S grp caches) (h : RunMeets S (HopsCall.Careful S · grp) caches calls) :
    RunMeets S (HopsCall.Transparent S) caches calls := by
  induction calls generalizing caches with
  | nil => trivial
  | cons c calls ih =>
    obtain ⟨hgraph, hroute⟩ := CacheSound.routeGraph hw hsound h.1
    exact ⟨hroute, ih (hsound.route hgraph) h.2⟩

/-- Where every call is careful, what is found in the cache is right. -/
theorem runMeets_of_careful (hw : Weighed S) (calls : List (RouteCall E C))
    (h : RunMeets S (HopsCall.Careful S · grp) noCaches calls) :
    RunMeets S (HopsCall.Transparent S) noCaches calls :=
  runMeets_of_sound hw calls (fun _ _ _ _ _ hcv => by cases hcv) h

end careful

section sample
variable {N E C : Type*} [DecidableEq N] [DecidableEq E] [Field C] [LinearOrder C]
  {S : Setting N E C} {ok ok' : HopsCall E C → Prop} {thread : ℕ} {rAttrs : RoutingAttributes}
  (himp : ∀ call, ok call → ok' call)

include himp in
theorem HopsMeet.mono (rest : EdgeCandidateRoute E C) {i : ℕ} {sink : ℕ}
    {a : EdgeCandidateGroup E C} {st : RouteState N E C}
    (h : HopsMeet S ok thread rAttrs sink i a rest st) :
    HopsMeet S ok' thread rAttrs sink i a rest st := by
  induction rest generalizing i a st with
  | nil => trivial
  | cons b rest ih =>
    have hlayer : LayerMeets S ok' thread rAttrs i rest.isEmpty sink a b st :=
      (FoldMeets.meets (fun _ => True) h.1 trivial fun _ _ _ hok _ => ⟨trivial, himp _ hok⟩).2
    exact ⟨hlayer, ih h.2⟩

include himp in
theorem RunMeets.mono (calls : List (RouteCall E C)) {caches : Caches E C}
    (h : RunMeets S ok caches calls) : RunMeets S ok' caches calls := by
  induction calls generalizing caches with
  | nil => trivial
  | cons c calls ih =>
    refine ⟨?_, ih h.2⟩
    have hroute := h.1
    generalize c.cands = cands at hroute ⊢
    cases cands with
    | nil => trivial
    | cons a rest => exact HopsMeet.mono himp rest hroute

instance HopsMeet.decidable [DecidablePred ok] (sink : ℕ) : ∀ i a rest st,
    Decidable (HopsMeet S ok thread rAttrs sink i a rest st)
  | _, _, [], _ => inferInstanceAs (Decidable True)
  | i, a, b :: rest, st =>
    have := HopsMeet.decidable sink (i + 1) b rest
      (routeLayer S thread rAttrs i rest.isEmpty sink a b st)
    inferInstanceAs (Decidable (FoldMeets _ _ _ _ ∧ _))

instance RunMeets.decidable [DecidablePred ok] : ∀ (caches : Caches E C) calls,
    Decidable (RunMeets S ok caches calls)
  | _, [] => inferInstanceAs (Decidable True)
  | caches, c :: calls =>
    have := RunMeets.decidable (route S c.thread c.rAttrs c.cands caches).2 calls
    have : Decidable (RouteMeets S ok c.thread c.rAttrs c.cands caches) :=
      match c.cands with
      | [] => inferInstanceAs (Decidable True)
      | a :: rest => inferInstanceAs (Decidable (HopsMeet S ok _ _ sink 0 a rest _))
    inferInstanceAs (Decidable (_ ∧ _))

/-- The candidates are edges, the second group has one edge, and what is found fits the limit that
`getHopBand` sets. -/
def SmallFits (S : Setting N E C) (call : HopsCall E C) : Prop :=
  (∀ e ∈ edgesOf call.a, e ∈ S.g.edges) ∧ (∀ t ∈ edgesOf call.b, ∀ t' ∈ edgesOf call.b, t = t') ∧
    ∀ t ∈ call.tos S, ∀ cv ∈ call.cached S t, HitFits S call.eFr t
      (getHopBand S call.thread call.rAttrs call.a call.b noCaches).1.maxD cv.1

instance (frm t : E) (maxD c : C) : Decidable (HitFits S frm t maxD c) :=
  inferInstanceAs (Decidable (if isShortcut S frm t then c = maxD else c ≤ maxD))

instance : DecidablePred (SmallFits S) := fun _ => inferInstanceAs (Decidable (_ ∧ _ ∧ _))

theorem SmallFits.careful [IsStrictOrderedRing C] (hS : Graded S) {call : HopsCall E C}
    (h : SmallFits S call) {grp : ℕ → RoutingAttributes → E → Option ℕ}
    (hgrp : ∀ t ∈ edgesOf call.b, edgePairCost S call.rAttrs (targetGroup S call.b) =
      edgePairCost S call.rAttrs (grp call.thread call.rAttrs t)) : call.Careful S grp where
  steady := ⟨h.1, hS.pilotSteady call.rAttrs call.a call.b, hS.consistent_distHeur _,
    hS.consistent_distHeur _⟩
  grp := hgrp
  fits maxD hlimit := by
    have hband := hS.weighed.getHopBand_limit (hS.pilotSteady call.rAttrs call.a call.b) h.1
      call.thread noCaches
    rw [hlimit.unique h.2.1 hband]
    exact h.2.2

theorem forkSetting_graded (noSelfHops caching : Bool) : Graded (forkSetting noSelfHops caching) where
  opts := ⟨le_refl _, le_refl _, le_refl _, le_refl _, le_refl _, le_refl _, le_refl _,
    fun _ => zero_le_one⟩
  levelPunish _ _ _ _ := le_refl _
  nonneg p q := abs_nonneg _
  triangle p q r := abs_sub_le p.1 q.1 r.1
  length := by decide +kernel +revert
  level_lt := by decide +revert
  minEdgeLvl _ _ _ := le_refl _
  component _ _ := rfl

def forkCall : RouteCall (Fin 4) ℚ := ⟨0, ⟨"", "", ""⟩, forkBehind⟩

theorem forkCalls_careful :
    RunMeets (forkSetting false true) (HopsCall.Careful (forkSetting false true) · fun _ _ _ => none)
      noCaches [forkCall, forkCall] :=
  RunMeets.mono (fun _ hsmall => hsmall.careful (forkSetting_graded false true) fun _ _ => rfl)
    [forkCall, forkCall] (by decide +kernel : RunMeets _ (SmallFits (forkSetting false true)) _ _)

end sample

end Pfaedle.Router

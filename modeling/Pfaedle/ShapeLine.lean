import Pfaedle.CacheTransparent
import Pfaedle.EdgeGeometry
import Pfaedle.MotStops
import Pfaedle.RouteWays

set_option autoImplicit false

/-!
# The line of a route

`get_shape_line` strings the polylines of the hops together. Which end of a polyline comes first is
told by the node that was reached last and by the reversed flag.
-/
namespace Pfaedle.Router
open DirGraphs LabelSetting

section hops
variable {N E C : Type*} [DecidableEq N] [DecidableEq E] [Field C] [LinearOrder C]
  {S : Setting N E C} {thread : ℕ} {rAttrs : RoutingAttributes} {last : ℕ} {ν : ℕ → CandName E}
  {g : CandGraph N E C} {caches : Caches E C}

/-- Every hop is empty or leads from its start to its end, where the next one starts. -/
structure Joined (S : Setting N E C) (hops : List (EdgeListHop N E C)) : Prop where
  leads : ∀ h ∈ hops, ∃ a b, h.start = some a ∧ h.end_ = some b ∧
    (h.edges = [] ∨ Leads S.g.toDirGraph a h.edges.reverse b)
  chain : hops.IsChain fun h h' => h.end_ = h'.start

omit [DecidableEq N] [DecidableEq E] [Field C] in
theorem Joined.cons {h : EdgeListHop N E C} {hops : List (EdgeListHop N E C)} (hs : Joined S hops)
    {a b : N} (hstart : h.start = some a) (hend : h.end_ = some b)
    (hleads : h.edges = [] ∨ Leads S.g.toDirGraph a h.edges.reverse b)
    (hnext : ∀ h' ∈ hops.head?, h'.start = some b) : Joined S (h :: hops) := by
  refine ⟨fun h' hh' => ?_, List.isChain_cons.2 ⟨fun h' hh' => ?_, hs.chain⟩⟩
  · cases List.mem_cons.1 hh' with
    | inl heq => exact heq ▸ ⟨a, b, hstart, hend, hleads⟩
    | inr hmem => exact hs.leads h' hmem
  · rw [hend, hnext h' hh']

omit [DecidableEq N] [DecidableEq E] [Field C] in
theorem Labelled.hopsBehind (h : Labelled S last ν g) (q : List Edge) {e t : Edge} {i : ℕ} {x : E}
    (hx : ν e.getTo = .cand i x) (he : e ∈ g.edges)
    (hchain : (e :: q).IsChain (candNetwork S g).step) (hlast : (e :: q).getLast? = some t)
    (ht : t.getTo = sink) :
    let hs := (q.filter fun e => e.getFrom ≠ source ∧ e.getTo ≠ sink).map fun e =>
      edgeListHop (g.pl e)
    hs.length + i = last ∧ Joined S hs ∧ ∀ h' ∈ hs.head?, h'.start = some (S.g.getFrom x) := by
  have hnotSink : ∀ e ∈ g.edges, ∀ i x, ν e.getTo = .cand i x → e.getTo ≠ sink := by
    intro e he i x hx heq
    rw [(h.sink_iff _ (h.ends e he).2).2 heq] at hx
    cases hx
  induction q generalizing e i x with
  | nil =>
    obtain rfl : e = t := Option.some.inj hlast
    exact absurd ht (hnotSink e he i x hx)
  | cons e' q ih =>
    rw [List.isChain_cons_cons, candNetwork_step] at hchain
    obtain ⟨⟨-, he', hfrom⟩, hchain⟩ := hchain
    rw [List.getLast?_cons_cons] at hlast
    have harc := h.arc e' he'
    rw [hfrom, hx] at harc
    cases hto : ν e'.getTo with
    | source =>
      rw [hto] at harc
      exact absurd harc id
    | sink =>
      rw [hto] at harc
      have hsink : e'.getTo = sink := (h.sink_iff _ (h.ends e' he').2).1 hto
      -- no edge leaves the sink
      have hnil : q = [] := by
        cases q with
        | nil => rfl
        | cons e'' q =>
          rw [List.isChain_cons_cons, candNetwork_step] at hchain
          have harc' := h.arc e'' hchain.1.2.1
          rw [hchain.1.2.2, hto] at harc'
          exact absurd harc' id
      have harc : i = last := harc
      subst hnil
      simp only [List.filter_cons, hsink, ne_eq, not_true_eq_false, and_false, decide_false,
        Bool.false_eq_true, if_false, List.filter_nil, List.map_nil]
      exact ⟨(Nat.zero_add i).trans harc, ⟨by simp, List.isChain_nil⟩, by simp⟩
    | cand j y =>
      rw [hto] at harc
      obtain ⟨rfl, hfits⟩ := harc
      have hsource : e'.getFrom ≠ source := by
        intro heq
        rw [hfrom] at heq
        rw [(h.source_iff _ (h.ends e he).2).2 heq] at hx
        cases hx
      obtain ⟨hlen, hjoined, hhead⟩ := ih hto he' hchain hlast
      dsimp only at hlen hjoined hhead ⊢
      rw [List.filter_cons, if_pos (decide_eq_true ⟨hsource, hnotSink e' he' _ _ hto⟩),
        List.map_cons]
      refine ⟨?_, hjoined.cons hfits.start hfits.end_ hfits.leads hhead, fun h' hh' => ?_⟩
      · rw [List.length_cons]
        omega
      · cases hh'
        exact hfits.start

section
omit [DecidableEq N] [DecidableEq E]

theorem Labelled.readHops (h : Labelled S last ν g) {res : List Edge} {t : Edge} {d : C}
    (hw : Walk (candNetwork S g) t res d) (ht : t.getTo = sink) :
    (readHops g res).length = last ∧ Joined S (readHops g res) := by
  obtain ⟨⟨hchain, ⟨s, hhead, hs⟩, hlast⟩, -⟩ := hw.isPath
  rw [candNetwork_source] at hs
  rw [Router.readHops]
  generalize res.reverse = p at *
  cases p with
  | nil => cases hhead
  | cons e q =>
    obtain rfl : e = s := Option.some.inj hhead
    have harc := h.arc e hs.1
    rw [(h.source_iff _ (h.ends e hs.1).1).2 hs.2] at harc
    cases hto : ν e.getTo with
    | source =>
      rw [hto] at harc
      exact absurd harc id
    | sink =>
      rw [hto] at harc
      exact absurd harc id
    | cand i x =>
      rw [hto] at harc
      have harc : i = 0 := harc
      subst harc
      obtain ⟨hlen, hjoined, -⟩ := h.hopsBehind q hto hs.1 hchain hlast ht
      rw [List.filter_cons, if_neg (by simp [hs.2])]
      exact ⟨hlen, hjoined⟩

theorem Reach.walk {n : ℕ} (h : Reach g n) :
    n = source ∨ ∃ e ∈ g.edges, e.getTo = n ∧ ∃ p d, Walk (candNetwork S g) e p d := by
  induction h with
  | refl => exact Or.inl rfl
  | tail _ hstep ih =>
    obtain ⟨e, he, hfrom, hto⟩ := hstep
    refine Or.inr ⟨e, he, hto, ?_⟩
    cases ih with
    | inl hsource =>
      exact ⟨_, _, Walk.source (candNetwork_source.2 ⟨he, hfrom.trans hsource⟩)⟩
    | inr hw =>
      obtain ⟨e', he', hto', p, d, hw⟩ := hw
      exact ⟨_, _, hw.snoc (candNetwork_step.2 ⟨he', he, hfrom.trans hto'.symm⟩)⟩

theorem solve_walk (S : Setting N E C) (g : CandGraph N E C) :
    solve S g = [] ∨
      ∃ t ∈ g.edges, t.getTo = sink ∧ ∃ d, Walk (candNetwork S g) t (solve S g) d := by
  have hin : ∀ e ∈ S.candSet.toList (g.getAdjListOut source), e ∈ (searchGraph g).edges := by
    intro e he
    exact (DirGraph.mem_getAdjListOut.1 (S.candSet.mem.1 he)).1
  cases EDijkstra.shortestPathSet_walk S.candPq hin with
  | inl hnil => exact Or.inl hnil
  | inr hw =>
    obtain ⟨t, ht, d, hw⟩ := hw
    rw [S.candSet.mem, DirGraph.mem_getAdjListIn] at ht
    exact Or.inr ⟨t, ht.1, ht.2, d, hw⟩

theorem solve_ne_nil (S : Setting N E C) (g : CandGraph N E C) (h : Reach g sink) :
    solve S g ≠ [] := by
  obtain ⟨t, ht, hto, p, d, hw⟩ := (h.walk (S := S)).resolve_left (by decide)
  have hin : ∀ e ∈ S.candSet.toList (g.getAdjListOut source), e ∈ (searchGraph g).edges := by
    intro e he
    exact (DirGraph.mem_getAdjListOut.1 (S.candSet.mem.1 he)).1
  exact EDijkstra.shortestPathSet_found S.candPq _ rfl hin
    (S.candSet.mem.2 (DirGraph.mem_getAdjListIn.2 ⟨ht, hto⟩)) hw

end

/-- What `route` leaves for a route that it found no way through. -/
def lostHop : EdgeListHop N E C := ⟨[], 0, none, none⟩

variable (thread rAttrs) in
theorem route_joined (hpop : S.rOpts.popReachEdge = true) {cands : EdgeCandidateRoute E C}
    (hin : ∀ b ∈ cands, ∀ c ∈ b, c.e ∈ S.g.edges) (hcaches : CacheWays S caches) :
    let ret := route S thread rAttrs cands caches
    CacheWays S ret.2 ∧
      (Joined S ret.1 ∨ ((∃ b ∈ cands, b = []) ∧ ∃ n, ret.1 = List.replicate (n + 1) lostHop)) := by
  dsimp only
  rw [route]
  by_cases hlen : cands.length < 2
  · rw [if_pos hlen]
    exact ⟨hcaches, Or.inl ⟨by simp, List.isChain_nil⟩⟩
  · rw [if_neg hlen]
    obtain ⟨hcaches', ⟨ν, hlab⟩, hreach⟩ :=
      routeGraph_state thread rAttrs hpop cands (not_lt.1 hlen) hin hcaches
    refine ⟨hcaches', ?_⟩
    dsimp only at *
    generalize (routeGraph S thread rAttrs cands caches).cgraph = g at *
    cases solve_walk S g with
    | inl hnil =>
      right
      rw [hnil]
      refine ⟨?_, cands.length - 2, ?_⟩
      · by_contra hne
        refine solve_ne_nil S g (hreach fun b hb hbnil => hne ⟨b, hb, hbnil⟩) hnil
      · have hcount : cands.length - 2 + 1 = cands.length - 1 := by omega
        rw [hcount]
        rfl
    | inr hw =>
      left
      obtain ⟨t, -, ht, d, hw⟩ := hw
      obtain ⟨hcount, hjoined⟩ := hlab.readHops hw ht
      rw [hcount, Nat.sub_self, List.replicate_zero, List.append_nil]
      exact hjoined

end hops

end Pfaedle.Router

namespace Pfaedle.ShapeBuilder
open Router Trgraph

section model
variable {N E C : Type} [DecidableEq N] [DecidableEq E] [Field C] [LinearOrder C]

structure Polylines (E C : Type) where
  geom : E → List (C × C)
  is_reversed : E → Bool

/-- `router::route` hands on the edges out of the nodes. -/
def edgeRoute (g : TransitGraph N E C) (ncr : List (List (NodeCandidate N C))) :
    EdgeCandidateRoute E C :=
  ncr.map fun nCands => nCands.flatMap fun n => (g.adjListOut n.nd).map fun e => ⟨e, n.pen⟩

variable (S : Setting N E C) (P : Polylines E C)

def getOtherNd (e : E) (last : Option N) : N :=
  if some (S.g.getTo e) = last then S.g.getFrom e else S.g.getTo e

def addEdges : Option N → List (C × C) → List E → List (C × C)
  | _, l, [] => l
  | last, l, e :: es =>
    addEdges (some (getOtherNd S e last))
      (l ++ if xor (some (S.g.getFrom e) = last) (P.is_reversed e) then P.geom e
        else (P.geom e).reverse) es

/-- One round of the loop over the hops; `none` if a null pointer is followed. -/
def addHop (l : List (C × C)) (hop : EdgeListHop N E C) : Option (List (C × C)) :=
  if hop.edges = [] then do
    let start ← hop.start
    let end_ ← hop.end_
    some (l ++ [S.g.geom start] ++ [S.g.geom end_])
  else some (addEdges S P hop.start l hop.edges.reverse)

def hopsLine (hops : List (EdgeListHop N E C)) : Option (List (C × C)) :=
  hops.foldlM (addHop S P) []

def getShapeLine (thread : ℕ) (rAttrs : Router.RoutingAttributes)
    (ncr : List (List (NodeCandidate N C)))
    (caches : Caches E C) : Option (List (C × C)) × Caches E C :=
  let ret := route S thread rAttrs (edgeRoute S.g ncr) caches
  (hopsLine S P ret.1, ret.2)

def cachesAfter (calls : List (RouteCall E C)) : Caches E C :=
  calls.foldl (fun caches c => (route S c.thread c.rAttrs c.cands caches).2) noCaches

end model

section continuity
variable {N E C : Type} [LinearOrder C] {S : Setting N E C} {P : Polylines E C}

def travelled (P : Polylines E C) (e : E) : List (C × C) :=
  if P.is_reversed e then (P.geom e).reverse else P.geom e

/-- The polylines run from node to node, those of reversed copies the other way round. -/
def LinesFit (S : Setting N E C) (P : Polylines E C) : Prop :=
  ∀ e ∈ S.g.edges,
    if P.is_reversed e then Spans (P.geom e) (S.g.geom (S.g.getTo e)) (S.g.geom (S.g.getFrom e))
    else Spans (P.geom e) (S.g.geom (S.g.getFrom e)) (S.g.geom (S.g.getTo e))

instance LinesFit.decidable : Decidable (LinesFit S P) := List.decidableBAll _ S.g.edges

theorem LinesFit.spans (h : LinesFit S P) {e : E} (he : e ∈ S.g.edges) :
    Spans (travelled P e) (S.g.geom (S.g.getFrom e)) (S.g.geom (S.g.getTo e)) := by
  have hfit := h e he
  rw [travelled]
  split at hfit
  · rename_i hrev
    rw [if_pos hrev]
    exact hfit.reverse
  · rename_i hrev
    rw [if_neg hrev]
    exact hfit

def Meet (l l' : List (C × C)) : Prop := ∃ p, l.getLast? = some p ∧ l'.head? = some p

def HopLines (S : Setting N E C) (P : Polylines E C) (h : EdgeListHop N E C)
    (ps : List (List (C × C))) : Prop :=
  if h.edges = [] then
    ∃ a b, h.start = some a ∧ h.end_ = some b ∧ ps = [[S.g.geom a, S.g.geom b]]
  else
    List.Forall₂ (fun e p => p = travelled P e ∧
      Spans p (S.g.geom (S.g.getFrom e)) (S.g.geom (S.g.getTo e))) h.edges.reverse ps

/-- The line walks along all edges of the hops, and there is no gap within a hop or between two
    hops. -/
def Unbroken (S : Setting N E C) (P : Polylines E C) (hops : List (EdgeListHop N E C))
    (l : List (C × C)) : Prop :=
  ∃ ps : List (List (List (C × C))), l = ps.flatten.flatten ∧ List.Forall₂ (HopLines S P) hops ps ∧
    (∀ p ∈ ps, p.IsChain Meet) ∧ (ps.map List.flatten).IsChain Meet

variable [DecidableEq N]

theorem addEdges_leads {a b : N} {es : List E} (h : Leads S.g.toDirGraph a es b)
    (l : List (C × C)) :
    addEdges S P (some a) l es = l ++ (es.map (travelled P)).flatten := by
  induction es generalizing a l with
  | nil => exact (List.append_nil l).symm
  | cons e es ih =>
    obtain ⟨-, hfrom, hrest⟩ := h
    have hother : getOtherNd S e (some a) = S.g.getTo e := by
      rw [getOtherNd]
      split
      · rename_i hloop
        rw [hfrom, Option.some.inj hloop]
      · rfl
    rw [addEdges, hother, ih hrest, List.map_cons, List.flatten_cons, ← List.append_assoc, hfrom]
    congr 2
    rw [travelled]
    cases P.is_reversed e with
    | true => simp
    | false => simp

omit [DecidableEq N] in
theorem LinesFit.leads (h : LinesFit S P) {a b : N} {es : List E}
    (hleads : Leads S.g.toDirGraph a es b) (hne : es ≠ []) :
    Spans (es.map (travelled P)).flatten (S.g.geom a) (S.g.geom b) ∧
      (es.map (travelled P)).IsChain Meet := by
  induction es generalizing a with
  | nil => exact absurd rfl hne
  | cons e es ih =>
    obtain ⟨he, hfrom, hrest⟩ := hleads
    have hspans := h.spans he
    rw [hfrom] at hspans
    rw [List.map_cons, List.flatten_cons]
    cases es with
    | nil =>
      have hto : S.g.getTo e = b := hrest
      rw [List.map_nil, List.flatten_nil, List.append_nil, ← hto]
      exact ⟨hspans, List.isChain_singleton _⟩
    | cons e' es =>
      obtain ⟨hspans', hchain⟩ := ih hrest (List.cons_ne_nil _ _)
      refine ⟨hspans.append hspans', List.isChain_cons.2 ⟨fun p hp => ?_, hchain⟩⟩
      rw [List.map_cons] at hp
      cases hp
      have hnext := (h.spans hrest.1).first
      rw [hrest.2.1] at hnext
      exact ⟨_, hspans.last, hnext⟩

theorem LinesFit.hop (h : LinesFit S P) {hop : EdgeListHop N E C} {a b : N}
    (hstart : hop.start = some a) (hend : hop.end_ = some b)
    (hleads : hop.edges = [] ∨ Leads S.g.toDirGraph a hop.edges.reverse b) :
    ∃ ps, (∀ l, addHop S P l hop = some (l ++ ps.flatten)) ∧ HopLines S P hop ps ∧
      ps.IsChain Meet ∧ Spans ps.flatten (S.g.geom a) (S.g.geom b) := by
  by_cases hnil : hop.edges = []
  · refine ⟨[[S.g.geom a, S.g.geom b]], fun l => ?_, ?_, List.isChain_singleton _, rfl, rfl⟩
    · rw [addHop, if_pos hnil, hstart, hend]
      change some (l ++ [_] ++ [_]) = some (l ++ [_, _])
      rw [List.append_assoc]
      rfl
    · rw [HopLines, if_pos hnil]
      exact ⟨a, b, hstart, hend, rfl⟩
  · have hleads := hleads.resolve_left hnil
    have hne : hop.edges.reverse ≠ [] := fun hrev => hnil (List.reverse_eq_nil_iff.1 hrev)
    obtain ⟨hspans, hchain⟩ := h.leads hleads hne
    refine ⟨hop.edges.reverse.map (travelled P), fun l => ?_, ?_, hchain, hspans⟩
    · rw [addHop, if_neg hnil, hstart, addEdges_leads hleads]
    · rw [HopLines, if_neg hnil, List.forall₂_map_right_iff, List.forall₂_same]
      intro e he
      exact ⟨rfl, h.spans (hleads.mem he)⟩

theorem LinesFit.hops (h : LinesFit S P) {hops : List (EdgeListHop N E C)} (hj : Joined S hops) :
    ∃ ps : List (List (List (C × C))), (∀ l, hops.foldlM (addHop S P) l =
        some (l ++ ps.flatten.flatten)) ∧
      List.Forall₂ (HopLines S P) hops ps ∧ (∀ p ∈ ps, p.IsChain Meet) ∧
      (ps.map List.flatten).IsChain Meet ∧
      ∀ hop ∈ hops.head?, ∀ a, hop.start = some a →
        ∀ p ∈ (ps.map List.flatten).head?, p.head? = some (S.g.geom a) := by
  induction hops with
  | nil => exact ⟨[], fun l => by simp, List.Forall₂.nil, by simp, List.isChain_nil, by simp⟩
  | cons hop hops ih =>
    obtain ⟨ps, hfold, hall, hchains, hchain, hhead⟩ := ih
      ⟨fun h' hh' => hj.leads h' (List.mem_cons_of_mem _ hh'), hj.chain.tail⟩
    obtain ⟨a, b, hstart, hend, hleads⟩ := hj.leads hop List.mem_cons_self
    obtain ⟨qs, hadd, hlines, hmeet, hspans⟩ := h.hop hstart hend hleads
    refine ⟨qs :: ps, fun l => ?_, List.Forall₂.cons hlines hall, ?_, ?_, ?_⟩
    · rw [List.foldlM_cons, hadd, Option.bind_eq_bind, Option.bind_some, hfold, List.flatten_cons,
        List.flatten_append, List.append_assoc]
    · intro p hp
      cases List.mem_cons.1 hp with
      | inl heq => exact heq ▸ hmeet
      | inr hmem => exact hchains p hmem
    · rw [List.map_cons, List.isChain_cons]
      refine ⟨fun p hp => ⟨_, hspans.last, ?_⟩, hchain⟩
      cases hops with
      | nil =>
        cases hall
        cases hp
      | cons hop' hops =>
        have hjoin := (List.isChain_cons_cons.1 hj.chain).1
        exact hhead hop' rfl b (hjoin.symm.trans hend) p hp
    · intro hop' hhop' a' ha' p hp
      cases hhop'
      cases hp
      obtain rfl : a = a' := Option.some.inj (hstart.symm.trans ha')
      exact hspans.first

variable [Field C]

/-- A line that follows a null pointer is none. -/
theorem hopsLine_lost (n : ℕ) : hopsLine S P (List.replicate (n + 1) lostHop) = none := rfl

omit [DecidableEq N] [Field C] [LinearOrder C] in
theorem edgeRoute_edges (g : TransitGraph N E C) (ncr : List (List (NodeCandidate N C))) :
    ∀ b ∈ edgeRoute g ncr, ∀ c ∈ b, c.e ∈ g.edges := by
  intro b hb c hc
  obtain ⟨nCands, -, rfl⟩ := List.mem_map.1 hb
  obtain ⟨n, -, hc⟩ := List.mem_flatMap.1 hc
  obtain ⟨e, he, rfl⟩ := List.mem_map.1 hc
  exact (g.mem_adjListOut.1 he).1

variable [DecidableEq E]

theorem cachesAfter_ways (hpop : S.rOpts.popReachEdge = true) (calls : List (RouteCall E C))
    (hcalls : ∀ call ∈ calls, ∀ b ∈ call.cands, ∀ c ∈ b, c.e ∈ S.g.edges) :
    CacheWays S (cachesAfter S calls) := by
  refine LoopRules.foldl_inv _ (CacheWays S) calls (fun _ _ _ _ _ h => by cases h) ?_
  intro caches call hcall h
  exact (route_joined call.thread call.rAttrs hpop (hcalls call hcall) h).1

/-- What `route` returns after other calls of it leads from hop to hop, and the line that
    `get_shape_line` makes of it has no gap. Only a group without a candidate leaves it without
    a line. -/
theorem getShapeLine_continuous (S : Setting N E C) (P : Polylines E C) (hfit : LinesFit S P)
    (hpop : S.rOpts.popReachEdge = true) (calls : List (RouteCall E C))
    (hcalls : ∀ call ∈ calls, ∀ b ∈ call.cands, ∀ c ∈ b, c.e ∈ S.g.edges) (thread : ℕ)
    (rAttrs : Router.RoutingAttributes) :
    (∀ cands : EdgeCandidateRoute E C, (∀ b ∈ cands, ∀ c ∈ b, c.e ∈ S.g.edges) →
      let hops := (route S thread rAttrs cands (cachesAfter S calls)).1
      (∀ h ∈ hops, h.edges = [] ∨ ∃ a b, h.start = some a ∧ h.end_ = some b ∧
        Leads S.g.toDirGraph a h.edges.reverse b) ∧
      hops.IsChain fun h h' => h.end_ = h'.start) ∧
    ∀ ncr : List (List (NodeCandidate N C)),
      let hops := (route S thread rAttrs (edgeRoute S.g ncr) (cachesAfter S calls)).1
      let line := (getShapeLine S P thread rAttrs ncr (cachesAfter S calls)).1
      (∀ l, line = some l → Unbroken S P hops l) ∧
      (line = none → ∃ b ∈ edgeRoute S.g ncr, b = []) := by
  have hcaches := cachesAfter_ways hpop calls hcalls
  constructor
  · intro cands hin
    cases (route_joined thread rAttrs hpop hin hcaches).2 with
    | inl hj =>
      refine ⟨fun h hh => ?_, hj.chain⟩
      obtain ⟨a, b, hstart, hend, hleads⟩ := hj.leads h hh
      exact hleads.imp_right fun hleads => ⟨a, b, hstart, hend, hleads⟩
    | inr hlost =>
      obtain ⟨-, n, hn⟩ := hlost
      dsimp only
      rw [hn]
      refine ⟨fun h hh => Or.inl ?_, List.isChain_replicate_of_rel _ rfl⟩
      rw [List.eq_of_mem_replicate hh]
      rfl
  · intro ncr
    dsimp only
    rw [getShapeLine]
    dsimp only
    cases (route_joined thread rAttrs hpop (edgeRoute_edges S.g ncr) hcaches).2 with
    | inl hj =>
      obtain ⟨ps, hfold, hall, hchains, hchain, -⟩ := hfit.hops hj
      have hline := hfold []
      rw [List.nil_append] at hline
      rw [hopsLine, hline]
      refine ⟨fun l hl => ?_, fun hnone => by cases hnone⟩
      cases hl
      exact ⟨ps, rfl, hall, hchains, hchain⟩
    | inr hlost =>
      obtain ⟨hempty, n, hn⟩ := hlost
      rw [hn, hopsLine_lost]
      exact ⟨fun l hl => (by cases hl), fun _ => hempty⟩

def forkLines : Polylines (Fin 4) ℚ where
  geom e := if e.val = 1 then [fork.geom (fork.getTo e), fork.geom (fork.getFrom e)]
    else [fork.geom (fork.getFrom e), fork.geom (fork.getTo e)]
  is_reversed e := e.val = 1

/-- From the edge back over the fork, after a call that has filled the cache. -/
theorem getShapeLine_continuous_fork :
    let S := forkSetting false true
    Unbroken S forkLines
      (route S 0 ⟨"", "", ""⟩ (edgeRoute fork [[⟨1, 0⟩], [⟨2, 0⟩]]) (cachesAfter S [forkCall])).1
      [(1, 0), (0, 0), (0, 0), (2, 0)] :=
  ((getShapeLine_continuous (forkSetting false true) forkLines (by decide) rfl [forkCall]
    (by decide) 0 ⟨"", "", ""⟩).2 [[⟨1, 0⟩], [⟨2, 0⟩]]).1 _ (by decide +kernel)

end continuity

end Pfaedle.ShapeBuilder

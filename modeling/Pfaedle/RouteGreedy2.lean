import Pfaedle.GreedyPlacement

set_option autoImplicit false

/-!
# `router::routeGreedy2`

Each hop starts where the last one ended, so the hops always join. Which candidate a hop ends at is
settled before the next hop is looked for.
-/
namespace Pfaedle.Router
open Dijkstra
open ShapeBuilder (NodeCandidate)

section model
variable {N E C : Type} [DecidableEq N] [Field C] [LinearOrder C] (S : GreedySetting N E C)

/-- The loop of `routeGreedy2` behind the nodes that the next hop may start at. -/
def routeGreedy2From : List N → List (List (NodeCandidate N C)) → List (GreedyHop N E)
  | _, [] => []
  | frm, b :: rest =>
    let hop := greedyHop S (frm.map fun n => ⟨n, 0⟩) b
    hop :: routeGreedy2From hop.end_.toList rest

def routeGreedy2 : List (List (NodeCandidate N C)) → List (GreedyHop N E)
  | [] => []
  | a :: rest => routeGreedy2From S (a.map NodeCandidate.nd) rest

end model

section spec
variable {N E C : Type} [DecidableEq N] [Field C] [LinearOrder C]

/-- A hop from the node `s` of `a` to the node `t` of `b`. It has no edges only if the groups share
a node or nothing leads from one to the other. -/
structure HopBetween (M : Metric C) (S : GreedySetting N E C) (a b : List N) (hop : GreedyHop N E)
    (s t : N) : Prop where
  start : s ∈ a ∧ hop.start = some s
  target : t ∈ b ∧ hop.end_ = some t
  leads : hop.edges ≠ [] → Dijkstra.Leads S.g.toDirGraph s hop.edges t
  empty : hop.edges = [] → (∃ n ∈ a, n ∈ b) ∨
    ∀ s ∈ a, ∀ t ∈ b, ∀ es, ¬ Dijkstra.Leads S.g.toDirGraph s es t
  cheapest : Sound M S → Safe M S.g.geom a b → Cheapest S a b hop

/-- Each hop starts at the only node that the last one ended at. -/
inductive Chained (M : Metric C) (S : GreedySetting N E C) :
    List N → List (List (NodeCandidate N C)) → List (GreedyHop N E) → Prop
  | nil (a : List N) : Chained M S a [] []
  | cons {a : List N} {b : List (NodeCandidate N C)} {rest : List (List (NodeCandidate N C))}
      {hop : GreedyHop N E} {hops : List (GreedyHop N E)} {s t : N}
      (first : HopBetween M S a (b.map NodeCandidate.nd) hop s t)
      (later : Chained M S [t] rest hops) : Chained M S a (b :: rest) (hop :: hops)

/-- The edges of the hops, from the end of the route on, are one path. -/
def Whole (S : GreedySetting N E C) (hops : List (GreedyHop N E)) : Prop :=
  ∀ first ∈ hops.head?, ∀ last ∈ hops.getLast?, ∃ s t, first.start = some s ∧
    last.end_ = some t ∧
      Dijkstra.Leads S.g.toDirGraph s (hops.reverse.flatMap GreedyHop.edges) t

end spec

section hop
variable {N E C : Type} [LinearOrder C] {S : GreedySetting N E C}

theorem exists_head?_nodeSet [DecidableEq N] {ns : List N} (hne : ns ≠ []) :
    ∃ n ∈ ns, (nodeSet S ns).head? = some n := by
  obtain ⟨n, hn⟩ := List.exists_mem_of_ne_nil ns hne
  have hset : nodeSet S ns ≠ [] := List.ne_nil_of_mem (mem_nodeSet.2 hn)
  exact ⟨_, mem_nodeSet.1 (List.head_mem hset), List.head?_eq_some_head hset⟩

theorem leads_append {s m t : N} {es es' : List E} (h : Dijkstra.Leads S.g.toDirGraph s es m)
    (h' : Dijkstra.Leads S.g.toDirGraph m es' t) :
    Dijkstra.Leads S.g.toDirGraph s (es' ++ es) t := by
  induction es' generalizing t with
  | nil =>
    obtain rfl : m = t := h'
    exact h
  | cons e es' ih => exact ⟨h'.1, h'.2.1, ih h'.2.2⟩

/-- What a hop is, whatever the positions of the nodes are. -/
theorem greedyHop_ends [DecidableEq N] [Field C] {a b : List (NodeCandidate N C)} (ha : a ≠ [])
    (hb : b ≠ []) :
    ∃ s ∈ a.map NodeCandidate.nd, ∃ t ∈ b.map NodeCandidate.nd,
      (greedyHop S a b).start = some s ∧ (greedyHop S a b).end_ = some t ∧
      ((greedyHop S a b).edges ≠ [] → Dijkstra.Leads S.g.toDirGraph s (greedyHop S a b).edges t) ∧
      ((greedyHop S a b).edges = [] →
        (∃ n ∈ a.map NodeCandidate.nd, n ∈ b.map NodeCandidate.nd) ∨
          ∀ s ∈ a.map NodeCandidate.nd, ∀ t ∈ b.map NodeCandidate.nd, ∀ es,
            ¬ Dijkstra.Leads S.g.toDirGraph s es t) := by
  obtain ⟨s₁, hs₁, hfirst⟩ := exists_head?_nodeSet (S := S)
    (show a.map NodeCandidate.nd ≠ [] from fun h => ha (List.map_eq_nil_iff.1 h))
  obtain ⟨t₁, ht₁, hlast⟩ := exists_head?_nodeSet (S := S)
    (show b.map NodeCandidate.nd ≠ [] from fun h => hb (List.map_eq_nil_iff.1 h))
  have hspec := shortestPath_found S.pq
    (hopReached_kept S (a.map NodeCandidate.nd) (b.map NodeCandidate.nd)) reached_start fun h => h
  unfold greedyHop
  dsimp only at hspec ⊢
  generalize shortestPath S.pq S.g.toDirGraph (nCostFunc S)
    (nDistHeur S (nodeSet S (b.map NodeCandidate.nd))) (nodeSet S (b.map NodeCandidate.nd))
    (nodeSet S (a.map NodeCandidate.nd)) = ret at hspec ⊢
  rcases hspec with ⟨settled, queue, cur, hfound⟩ | ⟨hret, hnone⟩
  · obtain ⟨s₀, hs₀, hstart, hpath⟩ := hfound.written.leads
    have hlength := hfound.written.length
    have htarget := mem_nodeSet.1 hfound.target
    dsimp only at hstart hpath hlength
    split_ifs with hlong
    · refine ⟨s₀, mem_nodeSet.1 hs₀, cur.n, htarget, hstart, hfound.written.head,
        fun _ => hpath, fun hnil => ?_⟩
      dsimp only at hnil
      rw [hnil] at hlength
      simp only [List.length_nil] at hlength
      omega
    · have hnil : ret.2.1 = [] := List.length_eq_zero_iff.1 (by omega)
      rw [hnil] at hpath
      obtain rfl : s₀ = cur.n := hpath
      exact ⟨s₁, hs₁, t₁, ht₁, hfirst, hlast, fun hne => absurd hnil hne,
        fun _ => .inl ⟨_, mem_nodeSet.1 hs₀, htarget⟩⟩
  · rw [hret]
    refine ⟨s₁, hs₁, t₁, ht₁, ?_, ?_, fun hne => absurd rfl hne, fun _ => .inr fun s hs t ht =>
      hnone s (mem_nodeSet.2 hs) t (mem_nodeSet.2 ht)⟩
    · simpa using hfirst
    · simpa using hlast

end hop

section run
variable {N E C : Type} [DecidableEq N] [Field C] [LinearOrder C] [IsStrictOrderedRing C]
  {M : Metric C} {S : GreedySetting N E C} {a : List N} {b : List (NodeCandidate N C)}
  {rest : List (List (NodeCandidate N C))} {hops : List (GreedyHop N E)}

omit [DecidableEq N] [LinearOrder C] [IsStrictOrderedRing C] in
theorem map_nd_zero (ns : List N) :
    (ns.map fun n => (⟨n, 0⟩ : NodeCandidate N C)).map NodeCandidate.nd = ns := by
  rw [List.map_map]
  exact List.map_id ns

theorem greedyHop_between (M : Metric C) (ha : a ≠ []) (hb : b ≠ []) :
    ∃ s t, HopBetween M S a (b.map NodeCandidate.nd)
      (greedyHop S (a.map fun n => ⟨n, 0⟩) b) s t := by
  have hne : (a.map fun n => (⟨n, 0⟩ : NodeCandidate N C)) ≠ [] :=
    fun hnil => ha (List.map_eq_nil_iff.1 hnil)
  have hends := greedyHop_ends (S := S) hne hb
  have hcheapest := fun h : Sound M S => greedyHop_cheapest h hne hb
  rw [map_nd_zero] at hends hcheapest
  obtain ⟨s, hs, t, ht, hstart, hend, hleads, hempty⟩ := hends
  exact ⟨s, t, ⟨hs, hstart⟩, ⟨ht, hend⟩, hleads, hempty, hcheapest⟩

theorem routeGreedy2From_chained (M : Metric C) (ha : a ≠ []) (hrest : ∀ b ∈ rest, b ≠ []) :
    Chained M S a rest (routeGreedy2From S a rest) := by
  induction rest generalizing a with
  | nil => exact .nil a
  | cons b rest ih =>
    obtain ⟨s, t, hhop⟩ := greedyHop_between M ha (hrest b List.mem_cons_self)
    have hlater : Chained M S [t] rest (routeGreedy2From S [t] rest) :=
      ih (List.cons_ne_nil _ _) fun c hc => hrest c (List.mem_cons_of_mem _ hc)
    refine .cons hhop ?_
    rw [hhop.target.2]
    exact hlater

section
omit [IsStrictOrderedRing C]

theorem Chained.joined (h : Chained M S a rest hops) :
    (∀ hop ∈ hops.head?, ∃ s ∈ a, hop.start = some s) ∧
      hops.IsChain fun hop next => next.start = hop.end_ := by
  induction h with
  | nil a => exact ⟨fun _ h => by simp at h, .nil⟩
  | cons hhop hlater ih =>
    refine ⟨fun hop h => ?_, ?_⟩
    · obtain rfl := Option.some.inj h
      exact ⟨_, hhop.start⟩
    · cases hlater with
      | nil => exact .singleton _
      | cons hnext hlater =>
        refine .cons_cons ?_ ih.2
        rw [hnext.start.2, hhop.target.2, List.mem_singleton.1 hnext.start.1]

theorem HopBetween.path {b : List N} {hop : GreedyHop N E} {s t : N}
    (h : HopBetween M S a b hop s t) (hne : hop.edges ≠ [] ∨ hop.start = hop.end_) :
    Dijkstra.Leads S.g.toDirGraph s hop.edges t := by
  by_cases hnil : hop.edges = []
  · have hends := hne.resolve_left fun hne => hne hnil
    rw [h.start.2, h.target.2] at hends
    rw [hnil]
    exact Option.some.inj hends
  · exact h.leads hnil

theorem Chained.whole (h : Chained M S a rest hops)
    (hne : ∀ hop ∈ hops, hop.edges ≠ [] ∨ hop.start = hop.end_) : Whole S hops := by
  induction h with
  | nil a =>
    intro first hfirst
    cases hfirst
  | cons hhop hlater ih =>
    intro first hfirst last hlast
    cases hfirst
    have hpath := hhop.path (hne _ List.mem_cons_self)
    cases hlater with
    | nil =>
      cases hlast
      exact ⟨_, _, hhop.start.2, hhop.target.2, by simpa using hpath⟩
    | cons hnext hlater =>
      rw [List.getLast?_cons_cons] at hlast
      obtain ⟨s, t, hs, ht, hrest⟩ :=
        ih (fun hop hmem => hne hop (List.mem_cons_of_mem _ hmem)) _ rfl last hlast
      -- the rest starts at the only node that the first hop ended at
      rw [hnext.start.2, List.mem_singleton.1 hnext.start.1] at hs
      obtain rfl := Option.some.inj hs
      refine ⟨_, t, hhop.start.2, ht, ?_⟩
      rw [List.reverse_cons, List.flatMap_append, List.flatMap_singleton]
      exact leads_append hpath hrest

theorem Chained.length (h : Chained M S a rest hops) : hops.length = rest.length := by
  induction h with
  | nil a => rfl
  | cons hhop hlater ih => rw [List.length_cons, List.length_cons, ih]

end

/-- `routeGreedy2` finds one hop to each group but the first. The hops join, they end at candidates
of their groups, a hop is cheapest from where the last one ended if the positions of the candidates
do not mislead the search, and the hops are one path if no hop jumps. -/
theorem routeGreedy2_chained (M : Metric C) (S : GreedySetting N E C)
    {first : List (NodeCandidate N C)} (hne : ∀ c ∈ first :: rest, c ≠ []) :
    Chained M S (first.map NodeCandidate.nd) rest (routeGreedy2 S (first :: rest)) ∧
      (routeGreedy2 S (first :: rest)).length = rest.length ∧
      (routeGreedy2 S (first :: rest)).IsChain (fun hop next => next.start = hop.end_) ∧
      ((∀ hop ∈ routeGreedy2 S (first :: rest), hop.edges ≠ [] ∨ hop.start = hop.end_) →
        Whole S (routeGreedy2 S (first :: rest))) := by
  have hfirst : first.map NodeCandidate.nd ≠ [] := fun hnil =>
    hne first List.mem_cons_self (List.map_eq_nil_iff.1 hnil)
  have hchained : Chained M S (first.map NodeCandidate.nd) rest
      (routeGreedy2 S (first :: rest)) :=
    routeGreedy2From_chained M hfirst fun c hc => hne c (List.mem_cons_of_mem _ hc)
  exact ⟨hchained, hchained.length, hchained.joined.2, hchained.whole⟩

end run

section sample

def lineStreets : GreedySetting ℕ (ℕ × ℕ × ℚ) ℚ :=
  streets taxicab onLine [(0, 1, 1), (1, 2, 1)] (.refl ℕ) (preferring 0)

/-- Two streets, one after the other. -/
theorem routeGreedy2_chained_line :
    Sound taxicab lineStreets ∧
      ∃ hops, routeGreedy2 lineStreets [[⟨0, 0⟩], [⟨1, 0⟩], [⟨2, 0⟩]] = hops ∧
        Chained taxicab lineStreets [0] [[⟨1, 0⟩], [⟨2, 0⟩]] hops ∧ Whole lineStreets hops := by
  have hsound : Sound taxicab lineStreets := streets_sound (by decide +kernel)
  have hne : ∀ c ∈ ([[⟨0, 0⟩], [⟨1, 0⟩], [⟨2, 0⟩]] : List (List (NodeCandidate ℕ ℚ))), c ≠ [] := by
    simp
  obtain ⟨hchained, -, -, hwhole⟩ := routeGreedy2_chained taxicab lineStreets hne
  exact ⟨hsound, _, rfl, hchained, hwhole (by decide +kernel)⟩

end sample

end Pfaedle.Router

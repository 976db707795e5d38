import Pfaedle.HopPaths
import Pfaedle.RouteGraph
import Mathlib.Logic.Relation

set_option autoImplicit false

/-!
# The candidate graph joins the hops

An edge of the candidate graph leads from a candidate to one of the next group, and its payload
leads from the start of the one to the start of the other. Candidates may occur twice in a group.
-/
namespace Pfaedle.Router
open DirGraphs NamedGraph LoopRules

section graph
variable {N E C : Type*} [LinearOrder C] {S : Setting N E C} {last : ℕ} {ν : ℕ → CandName E}
  {g : CandGraph N E C}

/-- The edges of a hop lead from the start of `x` to the start of `y`, if there are any. -/
def HopLeads (S : Setting N E C) (x y : E) (edges : List E) : Prop :=
  edges = [] ∨ Leads S.g.toDirGraph (S.g.getFrom x) edges.reverse (S.g.getFrom y)

structure HopFits (S : Setting N E C) (x y : E) (p : CandPayload N E C) : Prop where
  start : p.start = some (S.g.getFrom x)
  end_ : p.end_ = some (S.g.getFrom y)
  leads : HopLeads S x y p.edges

/-- What an edge between two named nodes carries. The last group is number `last`. -/
def ArcFits (S : Setting N E C) (last : ℕ) :
    CandName E → CandName E → CandPayload N E C → Prop
  | .source, .cand i _, _ => i = 0
  | .cand i x, .cand j y, p => j = i + 1 ∧ HopFits S x y p
  | .cand i _, .sink, _ => i = last
  | _, _, _ => False

structure Labelled (S : Setting N E C) (last : ℕ) (ν : ℕ → CandName E) (g : CandGraph N E C) :
    Prop where
  started : sink < g.nextNd
  source_iff : ∀ n < g.nextNd, ν n = .source ↔ n = source
  sink_iff : ∀ n < g.nextNd, ν n = .sink ↔ n = sink
  ends : ∀ e ∈ g.edges, e.getFrom < g.nextNd ∧ e.getTo < g.nextNd
  arc : ∀ e ∈ g.edges, ArcFits S last (ν e.getFrom) (ν e.getTo) (g.pl e)

def Reach (g : CandGraph N E C) (n : ℕ) : Prop :=
  Relation.ReflTransGen (fun u v => ∃ e ∈ g.edges, e.getFrom = u ∧ e.getTo = v) source n

omit [LinearOrder C] in
theorem Reach.mono {g' : CandGraph N E C} {n : ℕ} (h : Reach g n)
    (hsub : ∀ e ∈ g.edges, e ∈ g'.edges) : Reach g' n := by
  refine Relation.ReflTransGen.mono (fun u v huv => ?_) source n h
  obtain ⟨e, he, hends⟩ := huv
  exact ⟨e, hsub e he, hends⟩

omit [LinearOrder C] in
theorem Reach.addEdg {u v : ℕ} (h : Reach g u) (p : CandPayload N E C) :
    Reach (g.addEdg u v p).2 v := by
  obtain ⟨hu, hv, hmem⟩ := DirGraph.addEdg_ends g u v p
  exact (h.mono fun e he => DirGraph.mem_addEdg.2 (Or.inl he)).tail ⟨_, hmem, hu, hv⟩

/-- The map knows nodes of group `i` that can be reached. -/
def Numbered (ν : ℕ → CandName E) (i : ℕ) (nodes : E → Option ℕ) (g : CandGraph N E C) : Prop :=
  ∀ e n, nodes e = some n → n < g.nextNd ∧ ν n = .cand i e ∧ Reach g n

omit [LinearOrder C] in
theorem Numbered.mono {ν' : ℕ → CandName E} {g' : CandGraph N E C} {i : ℕ}
    {nodes : E → Option ℕ} (h : Numbered ν i nodes g) (hnames : Extends g ν ν')
    (hle : g.nextNd ≤ g'.nextNd) (hsub : ∀ e ∈ g.edges, e ∈ g'.edges) :
    Numbered ν' i nodes g' := by
  intro e n hn
  obtain ⟨hlt, hname, hreach⟩ := h e n hn
  exact ⟨Nat.lt_of_lt_of_le hlt hle, (hnames n hlt).trans hname, hreach.mono hsub⟩

omit [LinearOrder C] in
theorem Numbered.update [DecidableEq E] {i n : ℕ} {nodes : E → Option ℕ} {e : E}
    (h : Numbered ν i nodes g)
    (hlt : n < g.nextNd) (hname : ν n = .cand i e) (hreach : Reach g n) :
    Numbered ν i (Function.update nodes e (some n)) g := by
  intro e' n' hn
  by_cases he : e' = e
  · rw [he, Function.update_self] at hn
    cases hn
    exact he ▸ ⟨hlt, hname, hreach⟩
  · rw [Function.update_of_ne he] at hn
    exact h e' n' hn

theorem Labelled.addNd (h : Labelled S last ν g) (i : ℕ) (x : E) (p : Option N) :
    Labelled S last (Function.update ν g.nextNd (.cand i x)) (g.addNd p).2 := by
  have hold := extends_update g ν (.cand i x)
  have hnew : Function.update ν g.nextNd (CandName.cand i x) g.nextNd = .cand i x :=
    Function.update_self _ _ _
  have hsink : g.nextNd ≠ sink := Nat.ne_of_gt h.started
  have hsource : g.nextNd ≠ source :=
    Nat.ne_of_gt (Nat.lt_trans Nat.zero_lt_one h.started)
  have hlt : ∀ n, n < g.nextNd + 1 → n < g.nextNd ∨ n = g.nextNd :=
    fun n hn => Nat.lt_succ_iff_lt_or_eq.1 hn
  refine ⟨Nat.lt_succ_of_lt h.started, ?_, ?_, ?_, ?_⟩
  · intro n hn
    cases hlt n hn with
    | inl hn =>
      rw [hold n hn]
      exact h.source_iff n hn
    | inr hn =>
      rw [hn, hnew]
      exact iff_of_false (fun heq => by cases heq) hsource
  · intro n hn
    cases hlt n hn with
    | inl hn =>
      rw [hold n hn]
      exact h.sink_iff n hn
    | inr hn =>
      rw [hn, hnew]
      exact iff_of_false (fun heq => by cases heq) hsink
  · intro e he
    exact ⟨Nat.lt_succ_of_lt (h.ends e he).1, Nat.lt_succ_of_lt (h.ends e he).2⟩
  · intro e he
    change ArcFits S last _ _ (g.pl e)
    rw [hold _ (h.ends e he).1, hold _ (h.ends e he).2]
    exact h.arc e he

theorem Labelled.setPl (h : Labelled S last ν g) {e : Edge} {p : CandPayload N E C}
    (hp : ArcFits S last (ν e.getFrom) (ν e.getTo) p) : Labelled S last ν (g.setPl e p) := by
  refine ⟨h.started, h.source_iff, h.sink_iff, h.ends, fun x hx => ?_⟩
  change ArcFits S last _ _ (Function.update g.pl e p x)
  by_cases hxe : x = e
  · rw [hxe, Function.update_self]
    exact hp
  · rw [Function.update_of_ne hxe]
    exact h.arc x hx

theorem Labelled.addEdg_setPl (h : Labelled S last ν g) {u v : ℕ} (hu : u < g.nextNd)
    (hv : v < g.nextNd) (p : CandPayload N E C) {p' : CandPayload N E C}
    (hp : ArcFits S last (ν u) (ν v) p') :
    Labelled S last ν ((g.addEdg u v p).2.setPl (g.addEdg u v p).1 p') := by
  obtain ⟨hfrom, hto, -⟩ := DirGraph.addEdg_ends g u v p
  have hnext := DirGraph.addEdg_nextNd g u v p
  refine ⟨?_, ?_, ?_, ?_, ?_⟩
  · exact hnext ▸ h.started
  · exact hnext ▸ h.source_iff
  · exact hnext ▸ h.sink_iff
  · intro e he
    change _ < (g.addEdg u v p).2.nextNd ∧ _ < (g.addEdg u v p).2.nextNd
    rw [hnext]
    cases DirGraph.mem_addEdg.1 he with
    | inl he => exact h.ends e he
    | inr he =>
      rw [he, hfrom, hto]
      exact ⟨hu, hv⟩
  · intro e he
    change ArcFits S last _ _ (Function.update (g.addEdg u v p).2.pl (g.addEdg u v p).1 p' e)
    by_cases hadded : e = (g.addEdg u v p).1
    · rw [hadded, Function.update_self, hfrom, hto]
      exact hp
    · rw [Function.update_of_ne hadded]
      have hold := (DirGraph.mem_addEdg.1 he).resolve_right hadded
      rw [DirGraph.addEdg_pl hold]
      exact h.arc e hold

omit [LinearOrder C] in
theorem setPl_self (g : CandGraph N E C) (e : Edge) : g.setPl e (g.pl e) = g := by
  rw [DirGraph.setPl, Function.update_eq_self]

theorem Labelled.addEdg (h : Labelled S last ν g) {u v : ℕ} (hu : u < g.nextNd)
    (hv : v < g.nextNd) (p : CandPayload N E C) (hp : ∀ p', ArcFits S last (ν u) (ν v) p') :
    Labelled S last ν (g.addEdg u v p).2 := by
  have hset := h.addEdg_setPl hu hv p (hp ((g.addEdg u v p).2.pl (g.addEdg u v p).1))
  rw [setPl_self] at hset
  exact hset

variable [Field C]

theorem Labelled.hopLeads_added (h : Labelled S last ν g) {u v i j : ℕ} {x y : E}
    (hu : ν u = .cand i x) (hv : ν v = .cand j y) :
    HopLeads S x y ((g.addEdg u v defaultPayload).2.pl (g.addEdg u v defaultPayload).1).edges := by
  obtain ⟨hfrom, hto, -⟩ := DirGraph.addEdg_ends g u v (defaultPayload : CandPayload N E C)
  cases DirGraph.addEdg_pl_added g u v (defaultPayload : CandPayload N E C) with
  | inl hnew =>
    rw [hnew]
    exact Or.inl rfl
  | inr hold =>
    have harc := h.arc _ hold.1
    rw [hfrom, hto, hu, hv] at harc
    rw [hold.2]
    exact harc.2.leads

end graph

section build
variable {N E C : Type*} [LinearOrder C] {S : Setting N E C} {thread : ℕ}
  {rAttrs : RoutingAttributes} {last i : ℕ} {x : E} {nodes : E → Option ℕ}
  {a b : EdgeCandidateGroup E C} {maxD : C} {st : RouteState N E C}

/-- The edges of `x` lie between the nodes of their candidates. -/
def TargetsFit (ν : ℕ → CandName E) (i : ℕ) (x : E) (tg : Targets E C) (g : CandGraph N E C) :
    Prop :=
  ∀ t e, tg.edges t = some e →
    e ∈ g.edges ∧ ν e.getFrom = .cand i x ∧ ν e.getTo = .cand (i + 1) t

def TargetState (S : Setting N E C) (last i : ℕ) (x : E) (nodes : E → Option ℕ)
    (st : CandGraph N E C × (E → Option ℕ) × Targets E C) : Prop :=
  ∃ ν, Labelled S last ν st.1 ∧ Numbered ν i nodes st.1 ∧ Numbered ν (i + 1) st.2.1 st.1 ∧
    TargetsFit ν i x st.2.2 st.1

theorem targetNode_labelled {ν : ℕ → CandName E} {g : CandGraph N E C} {nextNodes : E → Option ℕ}
    {tg : Targets E C} (h : Labelled S last ν g) (hnodes : Numbered ν i nodes g)
    (hnext : Numbered ν (i + 1) nextNodes g) (htg : TargetsFit ν i x tg g)
    (c : EdgeCandidate E C) :
    ∃ ν', Labelled S last ν' (targetNode S nextNodes g c).2 ∧
      Numbered ν' i nodes (targetNode S nextNodes g c).2 ∧
      Numbered ν' (i + 1) nextNodes (targetNode S nextNodes g c).2 ∧
      TargetsFit ν' i x tg (targetNode S nextNodes g c).2 ∧
      (targetNode S nextNodes g c).1 < (targetNode S nextNodes g c).2.nextNd ∧
      ν' (targetNode S nextNodes g c).1 = .cand (i + 1) c.e := by
  rw [targetNode]
  cases hn : nextNodes c.e with
  | some n =>
    obtain ⟨hlt, hname, -⟩ := hnext c.e n hn
    exact ⟨ν, h, hnodes, hnext, htg, hlt, hname⟩
  | none =>
    have hold := extends_update g ν (.cand (i + 1) c.e)
    have hle : g.nextNd ≤ (g.addNd (some (S.g.getFrom c.e))).2.nextNd := Nat.le_succ _
    refine ⟨Function.update ν g.nextNd (.cand (i + 1) c.e), h.addNd (i + 1) c.e _,
      hnodes.mono hold hle fun _ he => he, hnext.mono hold hle fun _ he => he, ?_,
      Nat.lt_succ_self _, Function.update_self _ _ _⟩
    intro t e ht
    obtain ⟨he, hfrom, hto⟩ := htg t e ht
    exact ⟨he, (hold _ (h.ends e he).1).trans hfrom, (hold _ (h.ends e he).2).trans hto⟩

variable [Field C]

theorem addSinkEdge_labelled {ν : ℕ → CandName E} {g : CandGraph N E C} {isLast : Bool} {n : ℕ}
    {y : E} (h : Labelled S last ν g) (hlt : n < g.nextNd) (hname : ν n = .cand i y)
    (hlast : isLast = true → i = last) :
    Labelled S last ν (addSinkEdge isLast sink n g) ∧
      (addSinkEdge isLast sink n g).nextNd = g.nextNd ∧
      (∀ e ∈ g.edges, e ∈ (addSinkEdge isLast sink n g).edges) ∧
      (isLast = true → ∃ e ∈ (addSinkEdge isLast sink n g).edges, e.getFrom = n ∧
        e.getTo = sink) := by
  rw [addSinkEdge]
  split
  · rename_i hl
    obtain ⟨hfrom, hto, hmem⟩ := DirGraph.addEdg_ends g n sink (defaultPayload : CandPayload N E C)
    refine ⟨?_, DirGraph.addEdg_nextNd _ _ _ _, fun e he => DirGraph.mem_addEdg.2 (Or.inl he),
      fun _ => ⟨_, hmem, hfrom, hto⟩⟩
    apply h.addEdg hlt h.started
    intro p'
    rw [hname, (h.sink_iff _ h.started).2 rfl]
    exact hlast hl
  · rename_i hl
    exact ⟨h, rfl, fun _ he => he, fun hl' => absurd hl' hl⟩

def Targeted (isLast : Bool) (st : CandGraph N E C × (E → Option ℕ) × Targets E C)
    (c : EdgeCandidate E C) : Prop :=
  (st.2.1 c.e).isSome ∧ (isLast = true → Reach st.1 sink)

variable [DecidableEq E]

theorem addTarget_state {cNodeFr : ℕ} (hfr : nodes x = some cNodeFr) {isLast : Bool}
    (hlast : isLast = true → i + 1 = last) {st : CandGraph N E C × (E → Option ℕ) × Targets E C}
    (h : TargetState S last i x nodes st) (c : EdgeCandidate E C) :
    TargetState S last i x nodes (addTarget S isLast sink x cNodeFr st c) ∧
      Targeted isLast (addTarget S isLast sink x cNodeFr st c) c := by
  obtain ⟨g, nextNodes, tg⟩ := st
  obtain ⟨ν, h, hnodes, hnext, htg⟩ := h
  obtain ⟨ν', h, hnodes, hnext, htg, hlt, hname⟩ := targetNode_labelled h hnodes hnext htg c
  rw [Targeted, addTarget]
  dsimp only
  generalize targetNode S nextNodes g c = node at *
  obtain ⟨n, g₁⟩ := node
  dsimp only at *
  obtain ⟨hfr, hfrname, hreach⟩ := hnodes x cNodeFr hfr
  obtain ⟨hsink, hnextNd, hedges, hsinkEdge⟩ := addSinkEdge_labelled h hlt hname hlast
  generalize addSinkEdge isLast sink n g₁ = g₂ at *
  rw [← hnextNd] at hfr hlt
  have hsub : ∀ e ∈ g₁.edges, e ∈ (g₂.addEdg cNodeFr n defaultPayload).2.edges :=
    fun e he => DirGraph.mem_addEdg.2 (Or.inl (hedges e he))
  have hadded : Reach (g₂.addEdg cNodeFr n defaultPayload).2 n :=
    (hreach.mono hedges).addEdg defaultPayload
  have hle : g₁.nextNd ≤ (g₂.addEdg cNodeFr n (defaultPayload : CandPayload N E C)).2.nextNd := by
    rw [DirGraph.addEdg_nextNd, hnextNd]
  have hfits : ArcFits S last (ν' cNodeFr) (ν' n)
      { (g₂.addEdg cNodeFr n defaultPayload).2.pl (g₂.addEdg cNodeFr n defaultPayload).1 with
        start := some (S.g.getFrom x), end_ := some (S.g.getFrom c.e) } := by
    rw [hfrname, hname]
    exact ⟨rfl, rfl, rfl, hsink.hopLeads_added hfrname hname⟩
  have hpay := hsink.addEdg_setPl hfr hlt defaultPayload hfits
  obtain ⟨hfrom, hto, hmem⟩ := DirGraph.addEdg_ends g₂ cNodeFr n
    (defaultPayload : CandPayload N E C)
  refine ⟨⟨ν', hpay, hnodes.mono (fun _ _ => rfl) hle hsub, ?_, ?_⟩, ?_, ?_⟩
  · refine Numbered.update (hnext.mono (fun _ _ => rfl) hle hsub) ?_ hname hadded
    exact (DirGraph.addEdg_nextNd g₂ cNodeFr n _).symm ▸ hlt
  · intro t e ht
    change Function.update tg.edges c.e (some _) t = some e at ht
    by_cases htc : t = c.e
    · rw [htc, Function.update_self] at ht
      cases ht
      rw [hfrom, hto, htc]
      exact ⟨hmem, hfrname, hname⟩
    · rw [Function.update_of_ne htc] at ht
      obtain ⟨he, hends⟩ := htg t e ht
      exact ⟨hsub e he, hends⟩
  · rw [Function.update_self]
    rfl
  · intro hl
    obtain ⟨e, he, hends⟩ := hsinkEdge hl
    exact Relation.ReflTransGen.tail hadded
      ⟨e, DirGraph.mem_addEdg.2 (Or.inl he), hends⟩

theorem addTarget_keeps (isLast : Bool) {cNodeFr : ℕ}
    {st : CandGraph N E C × (E → Option ℕ) × Targets E C} (c : EdgeCandidate E C) {e : E}
    (h : (st.2.1 e).isSome) : ((addTarget S isLast sink x cNodeFr st c).2.1 e).isSome := by
  obtain ⟨g, nextNodes, tg⟩ := st
  rw [addTarget]
  dsimp only
  by_cases he : e = c.e
  · rw [he, Function.update_self]
    rfl
  · rw [Function.update_of_ne he]
    exact h

theorem addTargets_state {cNodeFr : ℕ} (hfr : nodes x = some cNodeFr) {isLast : Bool}
    (hlast : isLast = true → i + 1 = last) {st : CandGraph N E C × (E → Option ℕ) × Targets E C}
    (h : TargetState S last i x nodes st) :
    TargetState S last i x nodes (b.foldl (addTarget S isLast sink x cNodeFr) st) ∧
      ∀ c ∈ b, Targeted isLast (b.foldl (addTarget S isLast sink x cNodeFr) st) c := by
  have hstep : ∀ (st : CandGraph N E C × (E → Option ℕ) × Targets E C), ∀ c ∈ b,
      TargetState S last i x nodes st →
      TargetState S last i x nodes (addTarget S isLast sink x cNodeFr st c) ∧
        Targeted isLast (addTarget S isLast sink x cNodeFr st c) c :=
    fun st c _ h => addTarget_state hfr hlast h c
  refine ⟨foldl_inv _ _ b h fun st c hc h => (hstep st c hc h).1, ?_⟩
  refine foldl_each _ (TargetState S last i x nodes) (fun c st => Targeted isLast st c) b h
    (fun st c hc h => (hstep st c hc h).1) (fun st c hc h => (hstep st c hc h).2) ?_
  exact fun st c hc c' h h' => ⟨addTarget_keeps isLast c h'.1, (hstep st c hc h).2.2⟩

omit [DecidableEq E] in
theorem writeHop_state {ν : ℕ → CandName E} {tg : Targets E C} {res : HopResults E C}
    (hpop : S.rOpts.popReachEdge = true)
    (hres : ∀ t, res.edges t = [] ∨ Way S.g.toDirGraph x t (res.edges t)) {g : CandGraph N E C}
    (h : Labelled S last ν g) (htg : TargetsFit ν i x tg g) (t : E) :
    Labelled S last ν (writeHop S res tg g t) := by
  rw [writeHop]
  cases he : tg.edges t with
  | none => exact h
  | some e =>
    obtain ⟨hmem, hfrom, hto⟩ := htg t e he
    have harc := h.arc e hmem
    apply h.setPl
    rw [hfrom, hto] at harc ⊢
    refine ⟨rfl, harc.2.start, harc.2.end_, ?_⟩
    dsimp only
    rw [if_pos hpop]
    cases hres t with
    | inl hnil =>
      rw [hnil]
      exact Or.inl rfl
    | inr hway => exact Or.inr hway.leads

variable (S) in
omit [DecidableEq E] in
theorem writeHop_same (res : HopResults E C) (tg : Targets E C) (g : CandGraph N E C) (t : E) :
    (writeHop S res tg g t).edges = g.edges ∧ (writeHop S res tg g t).nextNd = g.nextNd := by
  rw [writeHop]
  split
  · exact ⟨rfl, rfl⟩
  · exact ⟨rfl, rfl⟩

omit [DecidableEq E] in
theorem writeHops_state {ν : ℕ → CandName E} {tg : Targets E C} {res : HopResults E C}
    (hpop : S.rOpts.popReachEdge = true)
    (hres : ∀ t, res.edges t = [] ∨ Way S.g.toDirGraph x t (res.edges t)) {g : CandGraph N E C}
    (h : Labelled S last ν g) (htg : TargetsFit ν i x tg g) (tos : List E) :
    Labelled S last ν (tos.foldl (writeHop S res tg) g) ∧
      (tos.foldl (writeHop S res tg) g).edges = g.edges ∧
      (tos.foldl (writeHop S res tg) g).nextNd = g.nextNd := by
  refine foldl_inv _ (fun g' => Labelled S last ν g' ∧ g'.edges = g.edges ∧ g'.nextNd = g.nextNd)
    tos ⟨h, rfl, rfl⟩ fun g' t _ h' => ?_
  obtain ⟨hlab, hedges, hnext⟩ := h'
  have htg' : TargetsFit ν i x tg g' := fun t e ht => hedges.symm ▸ htg t e ht
  obtain ⟨hedges', hnext'⟩ := writeHop_same S res tg g' t
  exact ⟨writeHop_state hpop hres hlab htg' t, hedges'.trans hedges, hnext'.trans hnext⟩

/-- The state of the loop over the candidates of group `i`. -/
structure LayerState (S : Setting N E C) (last i : ℕ) (st : RouteState N E C) : Prop where
  caches : CacheWays S st.caches
  graph : ∃ ν, Labelled S last ν st.cgraph ∧ Numbered ν i st.nodes st.cgraph ∧
    Numbered ν (i + 1) st.nextNodes st.cgraph

structure Connected (isLast : Bool) (b : EdgeCandidateGroup E C) (nodes : E → Option ℕ)
    (g : CandGraph N E C) : Prop where
  nodes : ∀ c ∈ b, (nodes c.e).isSome
  sink : isLast = true → b ≠ [] → Reach g sink

variable [DecidableEq N]

theorem routeFrom_state (hpop : S.rOpts.popReachEdge = true) (hx : x ∈ S.g.edges) {isLast : Bool}
    (hlast : isLast = true → i + 1 = last) (h : LayerState S last i st) :
    let st' := routeFrom S thread rAttrs i isLast sink a b maxD st x
    LayerState S last i st' ∧ st'.nodes = st.nodes ∧
      ((st.nodes x).isSome → Connected isLast b st'.nextNodes st'.cgraph) := by
  dsimp only
  rw [routeFrom]
  cases hfr : st.nodes x with
  | none => exact ⟨h, rfl, fun hn => by cases hn⟩
  | some cNodeFr =>
    obtain ⟨hcaches, ν, hlab, hnodes, hnext⟩ := h
    have hstart : TargetState S last i x st.nodes
        (st.cgraph, st.nextNodes, (⟨fun _ => none, fun _ => 0⟩ : Targets E C)) :=
      ⟨ν, hlab, hnodes, hnext, fun t e ht => by cases ht⟩
    obtain ⟨htargets, hdone⟩ := addTargets_state (b := b) hfr hlast hstart
    dsimp only
    generalize b.foldl (addTarget S isLast sink x cNodeFr) _ = built at *
    obtain ⟨g, nextNodes, tg⟩ := built
    obtain ⟨ν', hlab, hnodes, hnext, htg⟩ := htargets
    dsimp only at *
    have hedges := hcaches.hops_edges thread rAttrs (targetGroup S b) maxD hx
      (S.edgeSet.toList (a.map EdgeCandidate.e)) (S.edgeSet.toList (b.map EdgeCandidate.e))
    have hkept := hcaches.hops thread rAttrs (targetGroup S b) maxD hx
      (S.edgeSet.toList (a.map EdgeCandidate.e)) (S.edgeSet.toList (b.map EdgeCandidate.e))
    generalize hops S thread rAttrs x _ _ _ maxD st.caches = rc at *
    obtain ⟨res, caches⟩ := rc
    obtain ⟨hlab', hsame, hnextNd⟩ := writeHops_state hpop hedges hlab htg
      (S.edgeSet.toList (b.map EdgeCandidate.e))
    have hsub : ∀ e ∈ g.edges, e ∈ (List.foldl (writeHop S res tg) g
        (S.edgeSet.toList (b.map EdgeCandidate.e))).edges := fun e he => hsame.symm ▸ he
    have hle := le_of_eq hnextNd.symm
    refine ⟨⟨hkept, ν', hlab', hnodes.mono (fun _ _ => rfl) hle hsub,
      hnext.mono (fun _ _ => rfl) hle hsub⟩, rfl, fun _ => ⟨fun c hc => (hdone c hc).1, ?_⟩⟩
    intro hl hne
    obtain ⟨c, hc⟩ := List.exists_mem_of_ne_nil b hne
    exact ((hdone c hc).2 hl).mono hsub

theorem routeFroms_state (hpop : S.rOpts.popReachEdge = true) (froms : List E)
    (hin : ∀ x ∈ froms, x ∈ S.g.edges) {isLast : Bool} (hlast : isLast = true → i + 1 = last)
    (h : LayerState S last i st) :
    let st' := froms.foldl (routeFrom S thread rAttrs i isLast sink a b maxD) st
    LayerState S last i st' ∧ st'.nodes = st.nodes ∧
      ((∀ x ∈ froms, (st.nodes x).isSome) → froms ≠ [] →
        Connected isLast b st'.nextNodes st'.cgraph) := by
  induction froms using List.reverseRecOn with
  | nil => exact ⟨h, rfl, fun _ hne => absurd rfl hne⟩
  | append_singleton froms x ih =>
    have hmem : x ∈ froms ++ [x] := List.mem_append_right _ (List.mem_singleton_self x)
    obtain ⟨hst, hnodes, -⟩ := ih fun y hy => hin y (List.mem_append_left _ hy)
    dsimp only at hst hnodes ⊢
    rw [List.foldl_append]
    obtain ⟨hst', hnodes', hconn⟩ := routeFrom_state hpop (hin x hmem) hlast hst
    refine ⟨hst', hnodes'.trans hnodes, fun hall _ => hconn ?_⟩
    rw [hnodes]
    exact hall x hmem

theorem routeLayer_state (hpop : S.rOpts.popReachEdge = true) (hin : ∀ c ∈ a, c.e ∈ S.g.edges)
    {isLast : Bool} (hlast : isLast = true → i + 1 = last) (hcaches : CacheWays S st.caches)
    {ν : ℕ → CandName E} (hlab : Labelled S last ν st.cgraph)
    (hnodes : Numbered ν i st.nodes st.cgraph) :
    let st' := routeLayer S thread rAttrs i isLast sink a b st
    CacheWays S st'.caches ∧
      (∃ ν, Labelled S last ν st'.cgraph ∧ Numbered ν (i + 1) st'.nodes st'.cgraph) ∧
      ((∀ c ∈ a, (st.nodes c.e).isSome) → a ≠ [] → Connected isLast b st'.nodes st'.cgraph) := by
  have hfroms : ∀ x ∈ S.edgeSet.toList (a.map EdgeCandidate.e), ∃ c ∈ a, c.e = x :=
    fun x hx => List.mem_map.1 (S.edgeSet.mem.1 hx)
  have hedges : ∀ x ∈ S.edgeSet.toList (a.map EdgeCandidate.e), x ∈ S.g.edges := by
    intro x hx
    obtain ⟨c, hc, rfl⟩ := hfroms x hx
    exact hin c hc
  obtain ⟨hst, -, hconn⟩ := routeFroms_state hpop _ hedges hlast
    (⟨hcaches.getHopBand thread rAttrs b hin, ν, hlab, hnodes, fun e n hn => by cases hn⟩ :
      LayerState S last i { st with
        caches := (getHopBand S thread rAttrs a b st.caches).2
        nextNodes := fun _ => none })
  obtain ⟨ν', hlab', -, hnext'⟩ := hst.graph
  refine ⟨hst.caches, ⟨ν', hlab', hnext'⟩, fun hall hne => hconn (fun x hx => ?_) ?_⟩
  · obtain ⟨c, hc, rfl⟩ := hfroms x hx
    exact hall c hc
  · obtain ⟨c, hc⟩ := List.exists_mem_of_ne_nil a hne
    exact List.ne_nil_of_mem (S.edgeSet.mem.2 (List.mem_map_of_mem hc))

variable (thread rAttrs) in
theorem routeHops_state (hpop : S.rOpts.popReachEdge = true) (rest : EdgeCandidateRoute E C)
    (hin : ∀ b ∈ a :: rest, ∀ c ∈ b, c.e ∈ S.g.edges) (hlast : i + rest.length = last)
    (hcaches : CacheWays S st.caches) {ν : ℕ → CandName E} (hlab : Labelled S last ν st.cgraph)
    (hnodes : Numbered ν i st.nodes st.cgraph) :
    let st' := routeHops S thread rAttrs sink i a rest st
    CacheWays S st'.caches ∧ (∃ ν, Labelled S last ν st'.cgraph) ∧
      ((∀ c ∈ a, (st.nodes c.e).isSome) → (∀ b ∈ a :: rest, b ≠ []) → rest ≠ [] →
        Reach st'.cgraph sink) := by
  induction rest generalizing i a st ν with
  | nil => exact ⟨hcaches, ⟨ν, hlab⟩, fun _ _ hne => absurd rfl hne⟩
  | cons b rest ih =>
    rw [List.length_cons] at hlast
    have hend : rest.isEmpty = true → i + 1 = last := by
      intro hempty
      rw [List.isEmpty_iff] at hempty
      rw [hempty, List.length_nil] at hlast
      exact hlast
    obtain ⟨hcaches', ⟨ν', hlab', hnodes'⟩, hconn⟩ := routeLayer_state hpop
      (hin a List.mem_cons_self) hend hcaches hlab hnodes
    obtain ⟨hcaches'', hlab'', hreach⟩ := ih
      (fun b' hb' => hin b' (List.mem_cons_of_mem a hb')) (by omega) hcaches' hlab' hnodes'
    refine ⟨hcaches'', hlab'', fun hall hne _ => ?_⟩
    have hnext := hconn hall (hne a List.mem_cons_self)
    by_cases hrest : rest = []
    · subst hrest
      exact hnext.sink rfl (hne b (by simp))
    · exact hreach hnext.nodes (fun b' hb' => hne b' (List.mem_cons_of_mem a hb')) hrest

omit [DecidableEq N] in
theorem addSourceEdge_state {ν : ℕ → CandName E} (hlab : Labelled S last ν st.cgraph)
    (hnodes : Numbered ν 0 st.nodes st.cgraph) (c : EdgeCandidate E C) :
    let st' := addSourceEdge S source st c
    (∃ ν, Labelled S last ν st'.cgraph ∧ Numbered ν 0 st'.nodes st'.cgraph) ∧
      st'.caches = st.caches ∧ (st'.nodes c.e).isSome ∧
      ∀ e, (st.nodes e).isSome → (st'.nodes e).isSome := by
  have hlab' := hlab.addNd 0 c.e (some (S.g.getFrom c.e))
  have hold := extends_update st.cgraph ν (.cand 0 c.e)
  have hstart : source < (st.cgraph.addNd (some (S.g.getFrom c.e))).2.nextNd :=
    Nat.lt_trans Nat.zero_lt_one hlab'.started
  have hnew : st.cgraph.nextNd < (st.cgraph.addNd (some (S.g.getFrom c.e))).2.nextNd :=
    Nat.lt_succ_self _
  have hname : Function.update ν st.cgraph.nextNd (CandName.cand 0 c.e) st.cgraph.nextNd =
      .cand 0 c.e := Function.update_self _ _ _
  have hfits : ∀ p', ArcFits S last
      (Function.update ν st.cgraph.nextNd (CandName.cand 0 c.e) source)
      (Function.update ν st.cgraph.nextNd (CandName.cand 0 c.e) st.cgraph.nextNd) p' := by
    intro p'
    rw [hname, (hlab'.source_iff _ hstart).2 rfl]
    rfl
  refine ⟨⟨_, hlab'.addEdg_setPl hstart hnew defaultPayload (hfits _), ?_⟩, rfl, ?_, ?_⟩
  · have hnext := DirGraph.addEdg_nextNd (st.cgraph.addNd (some (S.g.getFrom c.e))).2 source
      st.cgraph.nextNd (defaultPayload : CandPayload N E C)
    refine Numbered.update (hnodes.mono hold ?_ fun e he => ?_) ?_ hname ?_
    · exact hnext.symm ▸ Nat.le_succ _
    · exact DirGraph.mem_addEdg.2 (Or.inl he)
    · exact hnext.symm ▸ hnew
    · exact Reach.addEdg Relation.ReflTransGen.refl defaultPayload
  · change (Function.update st.nodes c.e _ c.e).isSome
    rw [Function.update_self]
    rfl
  · intro e he
    change (Function.update st.nodes c.e _ e).isSome
    by_cases hec : e = c.e
    · rw [hec, Function.update_self]
      rfl
    · rw [Function.update_of_ne hec]
      exact he

omit [DecidableEq N] [DecidableEq E] in
theorem emptyState_labelled (S : Setting N E C) (last : ℕ) (caches : Caches E C) :
    Labelled S last (fun n => if n = source then .source else .sink)
      (emptyState caches : RouteState N E C).cgraph := by
  refine ⟨Nat.lt_succ_self 1, fun n hn => ?_, fun n hn => ?_, fun e he => ?_, fun e he => ?_⟩
  · by_cases h : n = source
    · simp [h]
    · simp [h]
  · have hn : n < 2 := hn
    by_cases h : n = source
    · simp [h, source, sink]
    · simp only [h, if_false, true_iff]
      change n = 1
      change ¬ n = 0 at h
      omega
  · exact absurd he List.not_mem_nil
  · exact absurd he List.not_mem_nil

variable (thread rAttrs) in
/-- The candidate graph of a route, and whether it has a way from the source to the sink. -/
theorem routeGraph_state (hpop : S.rOpts.popReachEdge = true) (cands : EdgeCandidateRoute E C)
    (hlen : 2 ≤ cands.length) (hin : ∀ b ∈ cands, ∀ c ∈ b, c.e ∈ S.g.edges) {caches : Caches E C}
    (hcaches : CacheWays S caches) :
    let st := routeGraph S thread rAttrs cands caches
    CacheWays S st.caches ∧ (∃ ν, Labelled S (cands.length - 1) ν st.cgraph) ∧
      ((∀ b ∈ cands, b ≠ []) → Reach st.cgraph sink) := by
  cases cands with
  | nil => simp at hlen
  | cons a rest =>
    let Started : RouteState N E C → Prop := fun st => st.caches = caches ∧
      ∃ ν, Labelled S rest.length ν st.cgraph ∧ Numbered ν 0 st.nodes st.cgraph
    have hstep : ∀ st : RouteState N E C, ∀ c ∈ a, Started st →
        Started (addSourceEdge S source st c) ∧
          ((addSourceEdge S source st c).nodes c.e).isSome ∧
          ∀ e, (st.nodes e).isSome → ((addSourceEdge S source st c).nodes e).isSome := by
      intro st c _ h
      obtain ⟨hst, ν, hlab, hnodes⟩ := h
      obtain ⟨hnext, hsame, hsome, hkeep⟩ := addSourceEdge_state hlab hnodes c
      exact ⟨⟨hsame.trans hst, hnext⟩, hsome, hkeep⟩
    have hempty : Started (emptyState caches) :=
      ⟨rfl, _, emptyState_labelled S rest.length caches, fun e n hn => by cases hn⟩
    obtain ⟨hsame, ν, hlab, hnodes⟩ :=
      foldl_inv _ Started a hempty fun st c hc h => (hstep st c hc h).1
    have hall := foldl_each (addSourceEdge S source) Started (fun c st => (st.nodes c.e).isSome) a
      hempty (fun st c hc h => (hstep st c hc h).1) (fun st c hc h => (hstep st c hc h).2.1)
      fun st c hc c' h h' => (hstep st c hc h).2.2 c'.e h'
    rw [← hsame] at hcaches
    rw [routeGraph]
    obtain ⟨hcaches', hlab', hreach⟩ :=
      routeHops_state thread rAttrs hpop rest hin (Nat.zero_add _) hcaches hlab hnodes
    refine ⟨hcaches', hlab', fun hne => hreach hall hne ?_⟩
    rintro rfl
    simp at hlen

end build

end Pfaedle.Router

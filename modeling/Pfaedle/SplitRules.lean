import Pfaedle.LiveGraph
import Pfaedle.Trgraph

set_option autoImplicit false

/-!
# Edge splits and turn rules

A split replaces an edge by its two halves and tells the restrictor. The half that a rule gets is
the one at its via node.
-/
namespace Pfaedle.Trgraph
open DirGraphs Restriction ODirEdges

section split
variable {P L G D : Type*} {geo : Geo P L} {g : Graph P L G D} {restor : Restrictor} {e : Edge}
  {s : NodePayload P G D}

/-- The halves of `e`, which no edge of the graph has been before. -/
structure Halves (g : Graph P L G D) (e ne nf : Edge) : Prop where
  first : ne.getFrom = e.getFrom ∧ ne.getTo = g.nextNd
  second : nf.getFrom = g.nextNd ∧ nf.getTo = e.getTo
  fresh : ne ∉ g.edges ∧ nf ∉ g.edges
  ne_nf : ne ≠ nf

structure SplitGraph (geo : Geo P L) (g : Graph P L G D) (e : Edge) (s : NodePayload P G D)
    (ne nf : Edge) (g' : Graph P L G D) : Prop where
  edges : ∀ x, x ∈ g'.edges ↔ (x ∈ g.edges ∧ x ≠ e) ∨ x = ne ∨ x = nf
  npl : g'.npl = Function.update g.npl g.nextNd s
  nds : g'.nds = g.nds ++ [g.nextNd]
  other : ∀ x, x ≠ ne → x ≠ nf → g'.pl x = g.pl x
  first : g'.pl ne = setLine (setLength geo (g.pl e) (geo.webMercMeterDist s.geom (pos g e.getFrom)))
    [pos g e.getFrom, s.geom]
  second : g'.pl nf = setLine (setLength geo (g.pl e) (geo.webMercMeterDist s.geom (pos g e.getTo)))
    [s.geom, pos g e.getTo]
  live : g'.Live

section added
variable {p q : Payload P L} {ne nf : Edge} {g₁ g₂ : Graph P L G D}

theorem pos_added {u v : ℕ} (h : DirGraph.Added g₁ u v p ne g₂) (m : ℕ) : pos g₂ m = pos g₁ m := by
  rw [pos, h.npl, pos]

theorem halves_of_added (hfirst : DirGraph.Added (g.addNd s).2 e.getFrom g.nextNd p ne g₁)
    (hsecond : DirGraph.Added g₁ g.nextNd e.getTo q nf g₂) : Halves g e ne nf where
  first := hfirst.ends
  second := hsecond.ends
  fresh := ⟨hfirst.fresh, fun h => hsecond.fresh ((hfirst.edges nf).2 (Or.inl h))⟩
  ne_nf h := hsecond.fresh ((hfirst.edges nf).2 (Or.inr h.symm))

theorem splitGraph_of_added (he : e ∈ g.edges)
    (hfirst : DirGraph.Added (g.addNd s).2 e.getFrom g.nextNd p ne g₁)
    (hsecond : DirGraph.Added g₁ g.nextNd e.getTo q nf g₂) (hlive : g₂.Live)
    (hp : p = setLine (setLength geo (g.pl e) (geo.webMercMeterDist s.geom (pos g e.getFrom)))
      [pos g e.getFrom, s.geom])
    (hq : q = setLine (setLength geo (g.pl e) (geo.webMercMeterDist s.geom (pos g e.getTo)))
      [s.geom, pos g e.getTo]) : SplitGraph geo g e s ne nf (g₂.delEdge e) := by
  have hhalves := halves_of_added hfirst hsecond
  have hne : e ≠ ne := fun h => hhalves.fresh.1 (h ▸ he)
  have hnf : e ≠ nf := fun h => hhalves.fresh.2 (h ▸ he)
  have hpl : ∀ x, (g₂.delEdge e).pl x = Function.update (Function.update g.pl ne p) nf q x := by
    intro x
    change g₂.pl x = _
    rw [hsecond.pl, hfirst.pl]
    rfl
  refine ⟨fun x => ?_, hsecond.npl.trans hfirst.npl, hsecond.nds.trans hfirst.nds,
    fun x hx hx' => ?_, ?_, ?_, hlive.delEdge e⟩
  · rw [DirGraph.mem_delEdge, hsecond.edges, hfirst.edges]
    constructor
    · rintro ⟨(hx | hx) | hx, hxe⟩
      · exact Or.inl ⟨hx, hxe⟩
      · exact Or.inr (Or.inl hx)
      · exact Or.inr (Or.inr hx)
    · rintro (⟨hx, hxe⟩ | hx | hx)
      · exact ⟨Or.inl (Or.inl hx), hxe⟩
      · exact ⟨Or.inl (Or.inr hx), fun h => hne (h.symm.trans hx)⟩
      · exact ⟨Or.inr hx, fun h => hnf (h.symm.trans hx)⟩
  · rw [hpl, Function.update_of_ne hx', Function.update_of_ne hx]
  · rw [hpl, Function.update_of_ne hhalves.ne_nf, Function.update_self, hp]
  · rw [hpl, Function.update_self, hq]

end added

variable (geo restor s) in
theorem splitEdge_spec (hlive : g.Live) (he : e ∈ g.edges) :
    ∃ ne nf, Halves g e ne nf ∧ SplitGraph geo g e s ne nf (splitEdge geo (g, restor) e s).1 ∧
      (splitEdge geo (g, restor) e s).2 = restor.replaceEdge e ne nf := by
  obtain ⟨hfrom, hto⟩ := hlive.ends e he
  have hposn : pos (g.addNd s).2 g.nextNd = s.geom := by
    change (Function.update g.npl g.nextNd s g.nextNd).geom = _
    rw [Function.update_self]
  have hpos : ∀ u ∈ g.nds, pos (g.addNd s).2 u = pos g u := by
    intro u hu
    change (Function.update g.npl g.nextNd s u).geom = _
    rw [Function.update_of_ne (Nat.ne_of_lt (hlive.handed u hu)), pos]
  have hend : ∀ u ∈ g.nds, u ∈ (g.addNd s).2.nds := fun u hu => List.mem_append_left _ hu
  have hmid : g.nextNd ∈ (g.addNd s).2.nds := List.mem_append_right _ (List.mem_singleton_self _)
  have hpl : (g.addNd s).2.pl e = g.pl e := rfl
  have hadd := DirGraph.addEdg_added (hlive.getEdg_new s e.getFrom).1 (g.pl e)
  have hlive₁ := (hlive.addNd s).addEdg (hend _ hfrom) hmid (g.pl e)
  unfold splitEdge
  dsimp only
  rw [show (g.addNd s).1 = g.nextNd from rfl, hpl]
  generalize (g.addNd s).2.addEdg e.getFrom g.nextNd (g.pl e) = added at hadd hlive₁ ⊢
  obtain ⟨ne, g₁⟩ := added
  dsimp only at hadd hlive₁ ⊢
  have hself : g₁.pl ne = g.pl e := by rw [hadd.pl, Function.update_self]
  rw [(pos_added hadd _).trans hposn, (pos_added hadd _).trans (hpos _ hfrom), hself]
  generalize hfirst : setLine (setLength geo (g.pl e) (geo.webMercMeterDist s.geom (pos g e.getFrom)))
    [pos g e.getFrom, s.geom] = first
  have hadd₁ := hadd.setPl first
  have hlive₂ := hlive₁.setPl ne first
  generalize g₁.setPl ne first = g₂ at hadd₁ hlive₂ ⊢
  have hne : e ≠ ne := fun heq => hadd₁.fresh (heq ▸ he)
  have hold : g₂.pl e = g.pl e := by rw [hadd₁.pl, Function.update_of_ne hne, hpl]
  have hnone : g₂.getEdg g.nextNd e.getTo = none := by
    rw [DirGraph.getEdg_eq_none]
    intro x hx hxfrom
    cases (hadd₁.edges x).1 hx with
    | inl hx => exact absurd hxfrom (hlive.fresh_end hx).1
    | inr hx =>
      rw [hx, hadd₁.ends.1] at hxfrom
      exact absurd hxfrom (Nat.ne_of_lt (hlive.handed _ hfrom))
  rw [hold]
  have hadd₂ := DirGraph.addEdg_added hnone (g.pl e)
  have hlive₃ := hlive₂.addEdg (hadd₁.nds ▸ hmid) (hadd₁.nds ▸ hend _ hto) (g.pl e)
  generalize g₂.addEdg g.nextNd e.getTo (g.pl e) = added at hadd₂ hlive₃ ⊢
  obtain ⟨nf, g₃⟩ := added
  dsimp only at hadd₂ hlive₃ ⊢
  have hself' : g₃.pl nf = g.pl e := by rw [hadd₂.pl, Function.update_self]
  have hpos₃ : ∀ m, pos g₃ m = pos (g.addNd s).2 m := fun m =>
    (pos_added hadd₂ m).trans (pos_added hadd₁ m)
  rw [hpos₃, hpos₃, hposn, hpos _ hto, hself']
  generalize hsecond : setLine (setLength geo (g.pl e) (geo.webMercMeterDist s.geom (pos g e.getTo)))
    [s.geom, pos g e.getTo] = second
  have hadd₃ := hadd₂.setPl second
  have hmem : e ∈ (g₃.setPl nf second).edges :=
    (hadd₃.edges e).2 (Or.inl ((hadd₁.edges e).2 (Or.inl he)))
  rw [DirGraph.delEdg_of_mem hmem]
  exact ⟨ne, nf, halves_of_added hadd₁ hadd₃,
    splitGraph_of_added he hadd₁ hadd₃ (hlive₃.setPl nf second) hfirst.symm hsecond.symm, rfl⟩

variable (geo restor s) in
theorem splitEdge_proper (h : g.Proper) (he : e ∈ g.edges) :
    (splitEdge geo (g, restor) e s).1.Proper := by
  obtain ⟨hfrom, hto⟩ := h.live.ends e he
  have hold : ∀ {n}, n ∈ g.nds → n ∈ (g.addNd s).2.nds := fun hn => List.mem_append_left _ hn
  have hnew : (g.addNd s).1 ∈ (g.addNd s).2.nds :=
    List.mem_append_right _ (List.mem_singleton_self _)
  unfold splitEdge
  dsimp only
  apply DirGraph.Proper.delEdg
  apply DirGraph.Proper.setPl
  apply DirGraph.Proper.addEdg
  · apply DirGraph.Proper.setPl
    exact (h.addNd s).addEdg (hold hfrom) hnew _
  · change _ ∈ (DirGraph.addEdg _ _ _ _).2.nds
    rw [DirGraph.addEdg_nds]
    exact hnew
  · change _ ∈ (DirGraph.addEdg _ _ _ _).2.nds
    rw [DirGraph.addEdg_nds]
    exact hold hto

theorem halves_unique {ne nf ne' nf' : Edge} {g' : Graph P L G D} (hlive : g.Live)
    (he : e ∈ g.edges) (h : Halves g e ne nf) (hg : SplitGraph geo g e s ne nf g')
    (h' : Halves g e ne' nf') (hg' : SplitGraph geo g e s ne' nf' g') : ne = ne' ∧ nf = nf' := by
  obtain ⟨hfrom, hto⟩ := hlive.fresh_end he
  constructor
  · cases (hg'.edges ne).1 ((hg.edges ne).2 (Or.inr (Or.inl rfl))) with
    | inl hold => exact absurd hold.1 h.fresh.1
    | inr hnew =>
      cases hnew with
      | inl heq => exact heq
      | inr heq =>
        have hend := h.first.1
        rw [heq, h'.second.1] at hend
        exact absurd hend.symm hfrom
  · cases (hg'.edges nf).1 ((hg.edges nf).2 (Or.inr (Or.inr rfl))) with
    | inl hold => exact absurd hold.1 h.fresh.2
    | inr hnew =>
      cases hnew with
      | inl heq =>
        have hend := h.second.2
        rw [heq, h'.first.2] at hend
        exact absurd hend.symm hto
      | inr heq => exact heq

end split

section rules
variable {P L G D : Type*} {geo : Geo P L}

/-- Every rule names live edges at its via node. -/
def RulesIncident (st : Graph P L G D × Restrictor) : Prop :=
  ∀ v, ∀ r ∈ st.2.rulesAt v, RuleIncident st.1 v r

/-- What the split of `e` makes of a rule component `x` at `v`. -/
structure PartAt (e ne nf : Edge) (v : ℕ) (x x' : Edge) : Prop where
  part : x = e → (x' = ne ∨ x' = nf) ∧ x'.hasEnd v
  other : x ≠ e → x' = x

/-- What the split of `e` makes of a rule at `v`. -/
structure RuleSplit (e ne nf : Edge) (v : ℕ) (r r' : RulePair) : Prop where
  first : PartAt e ne nf v r.first r'.first
  second : Option.Rel (PartAt e ne nf v) r.second r'.second

structure RulesSplit (e ne nf : Edge) (restor restor' : Restrictor) : Prop where
  pos : ∀ v, List.Forall₂ (RuleSplit e ne nf v) (restor.pos.rules v) (restor'.pos.rules v)
  neg : ∀ v, List.Forall₂ (RuleSplit e ne nf v) (restor.neg.rules v) (restor'.neg.rules v)

theorem RuleSplit.unchanged {e ne nf : Edge} {v : ℕ} {r r' : RulePair}
    (h : RuleSplit e ne nf v r r') (hfirst : r.first ≠ e) (hsecond : r.second ≠ some e) :
    r' = r := by
  obtain ⟨first, second⟩ := r
  obtain ⟨first', second'⟩ := r'
  have heq : first' = first := h.first.other hfirst
  have hrel : Option.Rel (PartAt e ne nf v) second second' := h.second
  rw [heq]
  cases hrel with
  | none => rfl
  | some hpart =>
    rw [hpart.other fun h => hsecond (congrArg some h)]

def halfAt (e ne nf : Edge) (v : ℕ) : Edge := if v = e.getFrom then ne else nf

theorem replaceEdge_table {e ne nf : Edge} (hne : ne ≠ e) (t : RuleTable) (v : ℕ)
    (hend : ∀ r ∈ t.rules v, (r.first = e ∨ r.second = some e) → e.hasEnd v) :
    ((t.mapAt e.getFrom (replaceRule e ne)).mapAt e.getTo (replaceRule e nf)).rules v =
      (t.rules v).map (replaceRule e (halfAt e ne nf v)) := by
  have hskip : ∀ r : RulePair, r.first ≠ e → r.second ≠ some e → ∀ x, replaceRule e x r = r := by
    intro r hfirst hsecond x
    rw [replaceRule, if_neg hfirst, if_neg hsecond]
  rw [mapAt_rules, mapAt_rules]
  by_cases hfrom : v = e.getFrom
  · rw [if_pos hfrom, halfAt, if_pos hfrom]
    split
    · rw [List.map_map]
      apply List.map_congr_left
      intro r _
      -- the halves are not the edge, so the second exchange finds nothing
      apply hskip
      · rw [replaceRule]
        dsimp only
        split
        · exact hne
        · assumption
      · rw [replaceRule]
        dsimp only
        split
        · exact fun h => hne (Option.some.inj h)
        · assumption
    · rfl
  · rw [if_neg hfrom, halfAt, if_neg hfrom]
    split
    · rfl
    · rename_i hto
      have hnot : ¬ e.hasEnd v := fun h => h.elim (fun h => hfrom h.symm) (fun h => hto h.symm)
      have hid : ∀ r ∈ t.rules v, replaceRule e nf r = r := by
        intro r hr
        exact hskip r (fun h => hnot (hend r hr (Or.inl h))) (fun h => hnot (hend r hr (Or.inr h))) nf
      rw [List.map_congr_left hid, List.map_id']

theorem halfAt_part {e ne nf : Edge} (v : ℕ) : halfAt e ne nf v = ne ∨ halfAt e ne nf v = nf := by
  rw [halfAt]
  split
  · exact Or.inl rfl
  · exact Or.inr rfl

theorem Halves.halfAt_hasEnd {g : Graph P L G D} {e ne nf : Edge} {v : ℕ} (h : Halves g e ne nf)
    (hend : e.hasEnd v) : (halfAt e ne nf v).hasEnd v := by
  rw [halfAt]
  split
  · rename_i hv
    exact Or.inl (h.first.1.trans hv.symm)
  · rename_i hv
    cases hend with
    | inl hfrom => exact absurd hfrom.symm hv
    | inr hto => exact Or.inr (h.second.2.trans hto)

theorem replaceRule_split {g : Graph P L G D} {e ne nf : Edge} {v : ℕ} (h : Halves g e ne nf)
    (r : RulePair) (hend : (r.first = e ∨ r.second = some e) → e.hasEnd v) :
    RuleSplit e ne nf v r (replaceRule e (halfAt e ne nf v) r) := by
  obtain ⟨first, second⟩ := r
  have hpart : ∀ x x', (x = e → e.hasEnd v) → x' = (if x = e then halfAt e ne nf v else x) →
      PartAt e ne nf v x x' := by
    intro x x' hx hx'
    constructor
    · intro hxe
      rw [hx', if_pos hxe]
      exact ⟨halfAt_part v, h.halfAt_hasEnd (hx hxe)⟩
    · intro hxe
      rw [hx', if_neg hxe]
  refine ⟨hpart _ _ (fun hx => hend (Or.inl hx)) rfl, ?_⟩
  cases second with
  | none => exact Option.Rel.none
  | some x =>
    by_cases hx : x = e
    · rw [replaceRule]
      dsimp only
      rw [if_pos (congrArg some hx)]
      apply Option.Rel.some
      exact hpart _ _ (fun _ => hend (Or.inr (congrArg some hx))) (if_pos hx).symm
    · rw [replaceRule]
      dsimp only
      rw [if_neg fun h => hx (Option.some.inj h)]
      apply Option.Rel.some
      exact hpart _ _ (fun h => absurd h hx) (if_neg hx).symm

theorem replaceEdge_split {st : Graph P L G D × Restrictor} {e ne nf : Edge}
    (h : Halves st.1 e ne nf) (he : e ∈ st.1.edges) (hinc : RulesIncident st) :
    RulesSplit e ne nf st.2 (st.2.replaceEdge e ne nf) := by
  have hne : ne ≠ e := fun heq => h.fresh.1 (heq ▸ he)
  have hend : ∀ v, ∀ r ∈ st.2.rulesAt v, (r.first = e ∨ r.second = some e) → e.hasEnd v := by
    intro v r hr hname
    cases hname with
    | inl hfirst => exact hfirst ▸ (hinc v r hr).first.2
    | inr hsecond => exact ((hinc v r hr).second e hsecond).2
  have htable : ∀ (t : RuleTable) (v : ℕ), (∀ r ∈ t.rules v, r ∈ st.2.rulesAt v) →
      List.Forall₂ (RuleSplit e ne nf v) (t.rules v) (((t.mapAt e.getFrom
        (replaceRule e ne)).mapAt e.getTo (replaceRule e nf)).rules v) := by
    intro t v ht
    rw [replaceEdge_table hne t v fun r hr => hend v r (ht r hr), List.forall₂_map_right_iff,
      List.forall₂_same]
    exact fun r hr => replaceRule_split h r (hend v r (ht r hr))
  have hpair : st.2.replaceEdge e ne nf =
      (st.2.replaceEdgeAt e e.getFrom ne).replaceEdgeAt e e.getTo nf := by
    rw [Restrictor.replaceEdge, if_pos (Or.inl h.first.1.symm)]
  rw [hpair]
  constructor
  · exact fun v => htable st.2.pos v fun r hr => List.mem_append_left _ hr
  · exact fun v => htable st.2.neg v fun r hr => List.mem_append_right _ hr

/-- The rules after a split name live edges at their via nodes. -/
theorem RulesSplit.incident {g g' : Graph P L G D} {e ne nf : Edge} {restor restor' : Restrictor}
    (h : RulesSplit e ne nf restor restor') (hinc : RulesIncident (g, restor))
    (hedges : ∀ x, x ∈ g'.edges ↔ (x ∈ g.edges ∧ x ≠ e) ∨ x = ne ∨ x = nf) :
    RulesIncident (g', restor') := by
  have hpart : ∀ v x x', PartAt e ne nf v x x' → x ∈ g.edges ∧ x.hasEnd v →
      x' ∈ g'.edges ∧ x'.hasEnd v := by
    intro v x x' hx hold
    by_cases hxe : x = e
    · obtain ⟨hpart, hend⟩ := hx.part hxe
      exact ⟨(hedges x').2 (Or.inr hpart), hend⟩
    · rw [hx.other hxe]
      exact ⟨(hedges x).2 (Or.inl ⟨hold.1, hxe⟩), hold.2⟩
  have hrule : ∀ v r r', RuleSplit e ne nf v r r' → RuleIncident g v r → RuleIncident g' v r' := by
    intro v r r' hr hold
    refine ⟨hpart v _ _ hr.first hold.first, ?_⟩
    intro x' hx'
    have hrel := hr.second
    rw [hx'] at hrel
    cases hsecond : r.second with
    | none =>
      rw [hsecond] at hrel
      cases hrel
    | some x =>
      rw [hsecond] at hrel
      cases hrel with
      | some hx => exact hpart v x x' hx (hold.second x hsecond)
  have htable : ∀ v rs rs', List.Forall₂ (RuleSplit e ne nf v) rs rs' →
      (∀ r ∈ rs, RuleIncident g v r) → ∀ r' ∈ rs', RuleIncident g' v r' := by
    intro v rs rs' hrs
    induction hrs with
    | nil => exact fun _ r' hr' => absurd hr' List.not_mem_nil
    | cons hsplit _ ih =>
      intro hold r' hr'
      cases List.mem_cons.1 hr' with
      | inl hhead => exact hhead ▸ hrule v _ _ hsplit (hold _ List.mem_cons_self)
      | inr htail => exact ih (fun r hr => hold r (List.mem_cons_of_mem _ hr)) r' htail
  intro v r' hr'
  cases List.mem_append.1 hr' with
  | inl hr' =>
    exact htable v _ _ (h.pos v) (fun r hr => hinc v r (List.mem_append_left _ hr)) r' hr'
  | inr hr' =>
    exact htable v _ _ (h.neg v) (fun r hr => hinc v r (List.mem_append_right _ hr)) r' hr'

end rules

section runs
variable {P L G D : Type*} {geo : Geo P L}

/-- A sequence of splits, with the edge of the first graph that each edge is a part of. -/
inductive Splits (geo : Geo P L) (st₀ : Graph P L G D × Restrictor) :
    Graph P L G D × Restrictor → (Edge → Edge) → Prop
  | start : Splits geo st₀ st₀ id
  | split {st : Graph P L G D × Restrictor} {origin : Edge → Edge} {e ne nf : Edge}
      (run : Splits geo st₀ st origin) (he : e ∈ st.1.edges) (s : NodePayload P G D)
      (halves : Halves st.1 e ne nf)
      (graph : SplitGraph geo st.1 e s ne nf (splitEdge geo st e s).1) :
      Splits geo st₀ (splitEdge geo st e s)
        (Function.update (Function.update origin ne (origin e)) nf (origin e))

structure RuleKept (origin : Edge → Edge) (r r' : RulePair) : Prop where
  first : origin r'.first = r.first
  second : r'.second.map origin = r.second

structure RulesKept (origin : Edge → Edge) (restor restor' : Restrictor) : Prop where
  pos : ∀ v, List.Forall₂ (RuleKept origin) (restor.pos.rules v) (restor'.pos.rules v)
  neg : ∀ v, List.Forall₂ (RuleKept origin) (restor.neg.rules v) (restor'.neg.rules v)

/-- One split, with the restrictor that goes with it. -/
theorem splitEdge_rules {st : Graph P L G D × Restrictor} {e ne nf : Edge} {s : NodePayload P G D}
    (hlive : st.1.Live) (hinc : RulesIncident st) (he : e ∈ st.1.edges)
    (halves : Halves st.1 e ne nf)
    (graph : SplitGraph geo st.1 e s ne nf (splitEdge geo st e s).1) :
    RulesSplit e ne nf st.2 (splitEdge geo st e s).2 ∧ RulesIncident (splitEdge geo st e s) := by
  obtain ⟨ne', nf', halves', graph', hrestor⟩ :=
    splitEdge_spec geo st.2 s hlive he
  obtain ⟨hne, hnf⟩ := halves_unique hlive he halves graph halves' graph'
  have hrules : RulesSplit e ne nf st.2 (splitEdge geo st e s).2 := by
    rw [hne, hnf]
    have hsplit := replaceEdge_split halves' he hinc
    rw [← hrestor] at hsplit
    exact hsplit
  exact ⟨hrules, hrules.incident hinc graph.edges⟩

theorem rulesKept_split {st : Graph P L G D × Restrictor} {restor₀ restor' : Restrictor}
    {origin : Edge → Edge} {e ne nf : Edge} (hinc : RulesIncident st)
    (halves : Halves st.1 e ne nf) (hold : RulesKept origin restor₀ st.2)
    (hsplit : RulesSplit e ne nf st.2 restor') :
    RulesKept (Function.update (Function.update origin ne (origin e)) nf (origin e)) restor₀
      restor' := by
  generalize horigin : Function.update (Function.update origin ne (origin e)) nf (origin e) =
    origin'
  have hne : origin' ne = origin e := by
    rw [← horigin, Function.update_of_ne halves.ne_nf, Function.update_self]
  have hnf : origin' nf = origin e := by rw [← horigin, Function.update_self]
  have hlive : ∀ x ∈ st.1.edges, origin' x = origin x := by
    intro x hx
    have hxne : x ≠ ne := fun h => halves.fresh.1 (h ▸ hx)
    have hxnf : x ≠ nf := fun h => halves.fresh.2 (h ▸ hx)
    rw [← horigin, Function.update_of_ne hxnf, Function.update_of_ne hxne]
  have hpart : ∀ v x x', PartAt e ne nf v x x' → x ∈ st.1.edges → origin' x' = origin x := by
    intro v x x' hx hmem
    by_cases hxe : x = e
    · rw [hxe]
      cases (hx.part hxe).1 with
      | inl h => rw [h, hne]
      | inr h => rw [h, hnf]
    · rw [hx.other hxe]
      exact hlive x hmem
  have hrule : ∀ v r₀ r r', RuleIncident st.1 v r → RuleKept origin r₀ r →
      RuleSplit e ne nf v r r' → RuleKept origin' r₀ r' := by
    intro v r₀ r r' hr hkept hsplit
    constructor
    · rw [hpart v _ _ hsplit.first hr.first.1]
      exact hkept.first
    · rw [← hkept.second]
      have hrel := hsplit.second
      have hmem := hr.second
      generalize r.second = second at hrel hmem
      generalize r'.second = second' at hrel
      cases hrel with
      | none => rfl
      | some hx => rw [Option.map_some, Option.map_some, hpart v _ _ hx (hmem _ rfl).1]
  have htable : ∀ v rs₀ rs rs', (∀ r ∈ rs, RuleIncident st.1 v r) →
      List.Forall₂ (RuleKept origin) rs₀ rs → List.Forall₂ (RuleSplit e ne nf v) rs rs' →
      List.Forall₂ (RuleKept origin') rs₀ rs' := by
    intro v rs₀ rs rs' hmem hkept
    induction hkept generalizing rs' with
    | nil =>
      intro hrs
      cases hrs
      exact List.Forall₂.nil
    | cons hhead _ ih =>
      intro hrs
      cases hrs with
      | cons hsplit htail =>
        exact List.Forall₂.cons (hrule v _ _ _ (hmem _ List.mem_cons_self) hhead hsplit)
          (ih _ (fun r hr => hmem r (List.mem_cons_of_mem _ hr)) htail)
  constructor
  · intro v
    exact htable v _ _ _ (fun r hr => hinc v r (List.mem_append_left _ hr)) (hold.pos v)
      (hsplit.pos v)
  · intro v
    exact htable v _ _ _ (fun r hr => hinc v r (List.mem_append_right _ hr)) (hold.neg v)
      (hsplit.neg v)

theorem rulesKept_start (restor : Restrictor) : RulesKept id restor restor := by
  have hrule : ∀ r : RulePair, RuleKept id r r := fun r => ⟨rfl, Option.map_id_apply⟩
  constructor
  · exact fun v => List.forall₂_same.2 fun r _ => hrule r
  · exact fun v => List.forall₂_same.2 fun r _ => hrule r

/-- Every rule goes through the splits with its edges: it keeps its place, and it names the parts
    at its via node. -/
theorem splits_keep_rules {st₀ st : Graph P L G D × Restrictor} {origin : Edge → Edge}
    (hlive : st₀.1.Live) (hinc : RulesIncident st₀) (run : Splits geo st₀ st origin) :
    st.1.Live ∧ RulesIncident st ∧ RulesKept origin st₀.2 st.2 ∧
      ∀ e ∈ st.1.edges, ∀ s, ∃ ne nf, Halves st.1 e ne nf ∧
        SplitGraph geo st.1 e s ne nf (splitEdge geo st e s).1 ∧
        RulesSplit e ne nf st.2 (splitEdge geo st e s).2 ∧
        ∀ v r r', RuleSplit e ne nf v r r' → r.first ≠ e → r.second ≠ some e → r' = r := by
  have hinv : st.1.Live ∧ RulesIncident st ∧ RulesKept origin st₀.2 st.2 := by
    induction run with
    | start => exact ⟨hlive, hinc, rulesKept_start st₀.2⟩
    | split _ he s halves graph ih =>
      obtain ⟨hlive, hinc, hkept⟩ := ih
      obtain ⟨hsplit, hinc'⟩ := splitEdge_rules hlive hinc he halves graph
      exact ⟨graph.live, hinc', rulesKept_split hinc halves hkept hsplit⟩
  obtain ⟨hlive', hinc', hkept⟩ := hinv
  refine ⟨hlive', hinc', hkept, ?_⟩
  intro e he s
  obtain ⟨ne, nf, halves, graph, -⟩ :=
    splitEdge_spec geo st.2 s hlive' he
  exact ⟨ne, nf, halves, graph, (splitEdge_rules hlive' hinc' he halves graph).1,
    fun v r r' h hfirst hsecond => h.unchanged hfirst hsecond⟩

theorem streets_fresh : ∀ e ∈ [(⟨0, 0, 1⟩ : Edge), ⟨1, 1, 2⟩], e.id < 2 := by decide

theorem streets_simple : ∀ e ∈ [(⟨0, 0, 1⟩ : Edge), ⟨1, 1, 2⟩],
    ∀ e' ∈ [(⟨0, 0, 1⟩ : Edge), ⟨1, 1, 2⟩],
      e.getFrom = e'.getFrom → e.getTo = e'.getTo → e = e' := by
  decide

def streets : Graph ℕ ℕ ℕ Unit × Restrictor where
  fst :=
    { nds := [0, 1, 2], npl := fun n => ⟨n, none⟩
      edges := [⟨0, 0, 1⟩, ⟨1, 1, 2⟩], pl := fun _ => ⟨0, true, false, ⟨[], 1, 0, []⟩⟩
      nextNd := 3, nextEdge := 2, fresh := streets_fresh, simple := streets_simple }
  snd := { Restrictor.empty with
           neg := { RuleTable.empty with
                    rules := fun v => if v = 1 then [⟨⟨0, 0, 1⟩, some ⟨1, 1, 2⟩⟩] else [] } }

theorem streets_incident : RulesIncident streets := by
  intro v r hr
  have hr : r ∈ if v = 1 then [(⟨⟨0, 0, 1⟩, some ⟨1, 1, 2⟩⟩ : RulePair)] else [] := hr
  split at hr
  · rename_i hv
    rw [List.mem_singleton.1 hr, hv]
    refine ⟨by decide, fun x hx => ?_⟩
    cases hx
    decide
  · exact absurd hr List.not_mem_nil

theorem splits_keep_rules_streets : ∃ origin,
    Splits lineGeo streets (splitEdge lineGeo streets ⟨0, 0, 1⟩ ⟨1, none⟩) origin ∧
      RulesIncident (splitEdge lineGeo streets ⟨0, 0, 1⟩ ⟨1, none⟩) := by
  have hlive : streets.1.Live := ⟨by decide, by decide, by decide⟩
  have he : (⟨0, 0, 1⟩ : Edge) ∈ streets.1.edges := by decide
  obtain ⟨ne, nf, halves, graph, -⟩ :=
    splitEdge_spec lineGeo streets.2 ⟨1, none⟩ hlive he
  have run := Splits.split Splits.start he ⟨1, none⟩ halves graph
  exact ⟨_, run, (splits_keep_rules hlive streets_incident run).2.1⟩

end runs

end Pfaedle.Trgraph

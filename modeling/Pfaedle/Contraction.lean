import Pfaedle.LiveGraph
import Pfaedle.Trgraph

set_option autoImplicit false

/-!
# What `graph::collapse_edges` does to a node

A node with two edges is left alone, or its edges are replaced by one between the other ends.
-/
namespace Pfaedle.Trgraph
open DirGraphs Restriction ODirEdges

section contraction
variable {P L G D : Type*} [Add L] {geo : Geo P L} {g : Graph P L G D} {n : ℕ} {ea eb : Edge}

/-- The tests that `collapse_edges` makes before it contracts `n`. -/
structure Contractible (g : Graph P L G D) (n : ℕ) (ea eb : Edge) : Prop where
  deg : deg g n = 2
  si : (g.npl n).si = none
  pair : edgePair g n = some (ea, eb)
  noEdge : g.getEdg (ea.getOtherNd n) (eb.getOtherNd n) = none
  noBack : g.getEdg (eb.getOtherNd n) (ea.getOtherNd n) = none
  similar : areEdgesSimilar g ea eb = true

theorem collapseAt_cases (geo : Geo P L) (g : Graph P L G D) (n : ℕ) :
    (∃ ea eb, Contractible g n ea eb ∧ collapseAt geo g n = contract geo g n ea eb) ∨
      collapseAt geo g n = g := by
  rw [collapseAt]
  split
  · exact Or.inr rfl
  · rename_i htest
    split
    · exact Or.inr rfl
    · rename_i ea eb hpair
      split
      · exact Or.inr rfl
      · rename_i hedge
        split
        · exact Or.inr rfl
        · rename_i hback
          split
          · rename_i hsimilar
            push Not at htest
            rw [Option.not_isSome_iff_eq_none] at hedge hback
            have hsi : (g.npl n).si = none := Option.not_isSome_iff_eq_none.1 htest.2
            exact Or.inl ⟨ea, eb, ⟨htest.1, hsi, hpair, hedge, hback, hsimilar⟩, rfl⟩
          · exact Or.inr rfl

/-- `ea` and `eb` are all there is at `n`, and they lead away from it. -/
structure OnlyTwo (g : Graph P L G D) (n : ℕ) (ea eb : Edge) : Prop where
  mem : ea ∈ g.edges ∧ eb ∈ g.edges
  ends : ea.hasEnd n ∧ eb.hasEnd n
  ne : ea ≠ eb
  only : ∀ e ∈ g.edges, e.hasEnd n → e = ea ∨ e = eb
  away : ea.getOtherNd n ≠ n ∧ eb.getOtherNd n ≠ n

omit [Add L] in
theorem onlyTwo_of_lists (hmem : ∀ e, e ∈ g.edges ∧ e.hasEnd n ↔ e = ea ∨ e = eb) (hne : ea ≠ eb)
    (hloop : ∀ e ∈ g.edges, ¬ (e.getFrom = n ∧ e.getTo = n)) : OnlyTwo g n ea eb := by
  have ha := (hmem ea).2 (Or.inl rfl)
  have hb := (hmem eb).2 (Or.inr rfl)
  have haway : ∀ e ∈ g.edges, e.hasEnd n → e.getOtherNd n ≠ n := by
    intro e he hend
    rw [Edge.getOtherNd]
    split
    · rename_i hto
      exact fun hfrom => hloop e he ⟨hfrom, hto⟩
    · assumption
  exact ⟨⟨ha.1, hb.1⟩, ⟨ha.2, hb.2⟩, hne, fun e he hend => (hmem e).1 ⟨he, hend⟩,
    haway ea ha.1 ha.2, haway eb hb.1 hb.2⟩

omit [Add L] in
theorem Contractible.onlyTwo (h : Contractible g n ea eb) (hnodup : g.edges.Nodup) :
    OnlyTwo g n ea eb := by
  have hmemOut : ∀ e, e ∈ g.getAdjListOut n ↔ e ∈ g.edges ∧ e.getFrom = n := fun e =>
    DirGraph.mem_getAdjListOut
  have hmemIn : ∀ e, e ∈ g.getAdjListIn n ↔ e ∈ g.edges ∧ e.getTo = n := fun e =>
    DirGraph.mem_getAdjListIn
  have hnodupOut : (g.getAdjListOut n).Nodup := hnodup.filter _
  have hnodupIn : (g.getAdjListIn n).Nodup := hnodup.filter _
  have hdeg : (g.getAdjListIn n).length + (g.getAdjListOut n).length = 2 := h.deg
  have hpair := h.pair
  unfold edgePair at hpair
  generalize g.getAdjListOut n = outs at hmemOut hnodupOut hdeg hpair
  generalize g.getAdjListIn n = ins at hmemIn hnodupIn hdeg hpair
  have hmem : ∀ e, e ∈ g.edges ∧ e.hasEnd n ↔ e ∈ outs ∨ e ∈ ins := by
    intro e
    rw [hmemOut, hmemIn, ← and_or_left]
    rfl
  have hloop : ∀ e ∈ g.edges, ¬ (e.getFrom = n ∧ e.getTo = n) ∨ (e ∈ outs ∧ e ∈ ins) := by
    intro e he
    by_cases hends : e.getFrom = n ∧ e.getTo = n
    · exact Or.inr ⟨(hmemOut e).2 ⟨he, hends.1⟩, (hmemIn e).2 ⟨he, hends.2⟩⟩
    · exact Or.inl hends
  match outs, ins, hdeg with
  | [a, b], [], _ =>
    obtain ⟨rfl, rfl⟩ : a = ea ∧ b = eb := by simpa using hpair
    apply onlyTwo_of_lists
    · intro e
      rw [hmem]
      simp
    · simpa using hnodupOut
    · intro e he
      exact (hloop e he).resolve_right fun h => List.not_mem_nil h.2
  | [], [a, b], _ =>
    obtain ⟨rfl, rfl⟩ : a = ea ∧ b = eb := by simpa using hpair
    apply onlyTwo_of_lists
    · intro e
      rw [hmem]
      simp
    · simpa using hnodupIn
    · intro e he
      exact (hloop e he).resolve_right fun h => List.not_mem_nil h.1
  | [a], [b], _ =>
    obtain ⟨rfl, rfl⟩ : a = ea ∧ b = eb := by simpa using hpair
    have hne : a ≠ b := by
      rintro rfl
      -- the only edge is a loop, which is an edge between the other ends
      have hfrom := (hmemOut a).1 List.mem_cons_self
      have hto := (hmemIn a).1 List.mem_cons_self
      have hother : a.getOtherNd n = n := by rw [Edge.getOtherNd, if_pos hto.2, hfrom.2]
      have hedge := h.noEdge
      rw [hother, DirGraph.getEdg_eq_none] at hedge
      exact hedge a hfrom.1 hfrom.2 hto.2
    apply onlyTwo_of_lists
    · intro e
      rw [hmem, List.mem_singleton, List.mem_singleton]
    · exact hne
    · intro e he
      refine (hloop e he).resolve_right fun h => ?_
      rw [List.mem_singleton, List.mem_singleton] at h
      exact hne (h.1.symm.trans h.2)

/-- `collapse_edges` takes the second edge as the first one when it is digitised towards the other
    end of `ea`. -/
def flipped (g : Graph P L G D) (n : ℕ) (ea : Edge) : Prop :=
  (g.pl ea).oneWay ≠ 0 ∧ ea.getOtherNd n ≠ ea.getFrom

/-- The graph after `a` and `b` have been replaced by `f`. -/
structure ContractedGraph (geo : Geo P L) (g : Graph P L G D) (n : ℕ) (a b f : Edge) (g' : Graph P L G D) :
    Prop where
  ends : f.getFrom = a.getOtherNd n ∧ f.getTo = b.getOtherNd n
  fresh : f ∉ g.edges
  edges : ∀ e, e ∈ g'.edges ↔ (e ∈ g.edges ∧ e ≠ a ∧ e ≠ b) ∨ e = f
  pl : g'.pl = Function.update g.pl f (mergeEdgePayload geo g a b)
  npl : g'.npl = g.npl
  nds : g'.nds = g.nds
  nextNd : g'.nextNd = g.nextNd
  nodup : g'.edges.Nodup

theorem replaced_spec {a b : Edge} (hnodup : g.edges.Nodup)
    (hmem : a ∈ g.edges ∧ b ∈ g.edges) (hne : a ≠ b)
    (hnone : g.getEdg (a.getOtherNd n) (b.getOtherNd n) = none) {c d : Edge}
    (hcd : c = a ∧ d = b ∨ c = b ∧ d = a) :
    ∃ f, ContractedGraph geo g n a b f
      (((g.addEdg (a.getOtherNd n) (b.getOtherNd n) (mergeEdgePayload geo g a b)).2.delEdg
        c.getFrom c.getTo).delEdg d.getFrom d.getTo) := by
  have hadd := DirGraph.addEdg_added hnone (mergeEdgePayload geo g a b)
  have hnodup' := DirGraph.addEdg_nodup (u := a.getOtherNd n) (v := b.getOtherNd n)
    (p := mergeEdgePayload geo g a b) hnodup
  generalize g.addEdg (a.getOtherNd n) (b.getOtherNd n) (mergeEdgePayload geo g a b) = added
    at hadd hnodup' ⊢
  obtain ⟨f, g₁⟩ := added
  dsimp only at hadd hnodup' ⊢
  have hold : c ∈ g.edges ∧ d ∈ g.edges ∧ c ≠ d ∧ ∀ e, (e ≠ a ∧ e ≠ b) ↔ (e ≠ c ∧ e ≠ d) := by
    cases hcd with
    | inl h => exact ⟨h.1 ▸ hmem.1, h.2 ▸ hmem.2, h.1 ▸ h.2 ▸ hne, fun e => by rw [h.1, h.2]⟩
    | inr h =>
      exact ⟨h.1 ▸ hmem.2, h.2 ▸ hmem.1, h.1 ▸ h.2 ▸ hne.symm, fun e => by rw [h.1, h.2, and_comm]⟩
  obtain ⟨hc, hd, hcd, hiff⟩ := hold
  have hc₁ : c ∈ g₁.edges := (hadd.edges c).2 (Or.inl hc)
  have hd₁ : d ∈ (g₁.delEdge c).edges :=
    DirGraph.mem_delEdge.2 ⟨(hadd.edges d).2 (Or.inl hd), hcd.symm⟩
  rw [DirGraph.delEdg_of_mem hc₁, DirGraph.delEdg_of_mem hd₁]
  have hfresh : ∀ e ∈ g.edges, f ≠ e := by
    rintro e he rfl
    exact hadd.fresh he
  refine ⟨f, hadd.ends, hadd.fresh, ?_, hadd.pl, hadd.npl, hadd.nds, hadd.nextNd, ?_⟩
  · intro e
    rw [DirGraph.mem_delEdge, DirGraph.mem_delEdge, hadd.edges, hiff]
    constructor
    · rintro ⟨⟨he | he, hec⟩, hed⟩
      · exact Or.inl ⟨he, hec, hed⟩
      · exact Or.inr he
    · rintro (⟨he, hec, hed⟩ | he)
      · exact ⟨⟨Or.inl he, hec⟩, hed⟩
      · rw [he]
        exact ⟨⟨Or.inr rfl, hfresh c hc⟩, hfresh d hd⟩
  · exact (hnodup'.filter _).filter _

/-- The two edges at `n` are joined in the order `a`, `b`. -/
structure Joined (geo : Geo P L) (g : Graph P L G D) (n : ℕ) (ea eb a b f : Edge) (g' : Graph P L G D) : Prop where
  order : (flipped g n ea ∧ a = eb ∧ b = ea) ∨ (¬ flipped g n ea ∧ a = ea ∧ b = eb)
  graph : ContractedGraph geo g n a b f g'

omit [Add L] in
theorem OnlyTwo.symm (h : OnlyTwo g n ea eb) : OnlyTwo g n eb ea :=
  ⟨h.mem.symm, h.ends.symm, h.ne.symm, fun e he hend => (h.only e he hend).symm, h.away.symm⟩

/-- A contracted node had two edges, in the order in which they are joined. -/
theorem Joined.onlyTwo {a b f : Edge} {g' : Graph P L G D} (h : Joined geo g n ea eb a b f g')
    (htwo : OnlyTwo g n ea eb) : OnlyTwo g n a b := by
  cases h.order with
  | inl horder => exact horder.2.1 ▸ horder.2.2 ▸ htwo.symm
  | inr horder => exact horder.2.1 ▸ horder.2.2 ▸ htwo

theorem contract_spec (geo : Geo P L) (h : Contractible g n ea eb) (hnodup : g.edges.Nodup) :
    ∃ a b f, Joined geo g n ea eb a b f (contract geo g n ea eb) := by
  have htwo := h.onlyTwo hnodup
  unfold contract
  dsimp only
  by_cases hflip : flipped g n ea
  · obtain ⟨f, hgraph⟩ := replaced_spec hnodup htwo.mem.symm htwo.ne.symm h.noBack
      (Or.inr ⟨rfl, rfl⟩)
    have htest : (g.pl ea).oneWay ≠ 0 ∧ ea.getOtherNd n ≠ ea.getFrom := hflip
    rw [if_pos htest]
    exact ⟨eb, ea, f, Or.inl ⟨hflip, rfl, rfl⟩, hgraph⟩
  · obtain ⟨f, hgraph⟩ := replaced_spec hnodup htwo.mem htwo.ne h.noEdge (Or.inl ⟨rfl, rfl⟩)
    have htest : ¬ ((g.pl ea).oneWay ≠ 0 ∧ ea.getOtherNd n ≠ ea.getFrom) := hflip
    rw [if_neg htest]
    exact ⟨ea, eb, f, Or.inr ⟨hflip, rfl, rfl⟩, hgraph⟩

omit [Add L] in
theorem ends_cases {e : Edge} (hend : e.hasEnd n) :
    (e.getFrom = n ∧ e.getTo = e.getOtherNd n) ∨ (e.getFrom = e.getOtherNd n ∧ e.getTo = n) := by
  rw [Edge.getOtherNd]
  split
  · rename_i hto
    exact Or.inr ⟨rfl, hto⟩
  · rename_i hto
    exact Or.inl ⟨hend.resolve_right hto, rfl⟩

/-- One-way edges are joined head to tail. -/
theorem Joined.headToTail {a b f : Edge} {g' : Graph P L G D} (h : Joined geo g n ea eb a b f g')
    (htwo : OnlyTwo g n ea eb) (hsimilar : areEdgesSimilar g ea eb = true)
    (hoa : (g.pl ea).oneWay ≠ 0) (hob : (g.pl eb).oneWay ≠ 0) :
    (a.getFrom = a.getOtherNd n ∧ a.getTo = n) ∧ b.getFrom = n ∧ b.getTo = b.getOtherNd n := by
  have htouch : ea.getFrom = eb.getTo ∨ ea.getTo = eb.getFrom := by
    by_contra hnot
    push Not at hnot
    rw [areEdgesSimilar] at hsimilar
    simp [hoa, hob, hnot.1, hnot.2] at hsimilar
  obtain ⟨hendA, hendB⟩ := htwo.ends
  obtain ⟨hawayA, hawayB⟩ := htwo.away
  have hA := ends_cases hendA
  have hB := ends_cases hendB
  cases h.order with
  | inl horder =>
    obtain ⟨hflip, rfl, rfl⟩ := horder
    have hfrom := hflip.2
    refine ⟨hB.resolve_left ?_, hA.resolve_right fun h => hfrom h.1.symm⟩
    intro hb
    have ha := hA.resolve_right fun h => hfrom h.1.symm
    cases htouch with
    | inl h => exact hawayB (hb.2.symm.trans (h.symm.trans ha.1))
    | inr h => exact hawayA (ha.2.symm.trans (h.trans hb.1))
  | inr horder =>
    obtain ⟨hflip, rfl, rfl⟩ := horder
    have hfrom : a.getOtherNd n = a.getFrom := by
      by_contra hne
      exact hflip ⟨hoa, hne⟩
    have ha : a.getFrom = a.getOtherNd n ∧ a.getTo = n := by
      refine hA.resolve_left fun h => hawayA ?_
      rw [hfrom, h.1]
    refine ⟨ha, hB.resolve_right ?_⟩
    intro hb
    cases htouch with
    | inl h => exact hawayA (ha.1.symm.trans (h.trans hb.2))
    | inr h => exact hawayB (hb.1.symm.trans (h.symm.trans ha.2))

end contraction

end Pfaedle.Trgraph

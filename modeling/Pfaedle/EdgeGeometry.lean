import Pfaedle.CleanUp

set_option autoImplicit false

/-!
# Edge geometry and edge topology

The line of an edge runs from its `from` node to its `to` node, or the other way round in a reversed
copy.
-/
namespace Pfaedle.Trgraph
open DirGraphs Restriction ODirEdges LoopRules

section lines
variable {P : Type*} {l l' : List P} {p q r : P}

structure Spans (l : List P) (p q : P) : Prop where
  first : l.head? = some p
  last : l.getLast? = some q

instance [DecidableEq P] (l : List P) (p q : P) : Decidable (Spans l p q) :=
  decidable_of_iff (l.head? = some p ∧ l.getLast? = some q)
    ⟨fun h => ⟨h.1, h.2⟩, fun h => ⟨h.first, h.last⟩⟩

theorem Spans.reverse (h : Spans l p q) : Spans l.reverse q p :=
  ⟨List.head?_reverse.trans h.last, List.getLast?_reverse.trans h.first⟩

theorem Spans.append {q' : P} (h : Spans l p q') (h' : Spans l' r q) : Spans (l ++ l') p q := by
  constructor
  · rw [List.head?_append, h.first]
    rfl
  · rw [List.getLast?_append, h'.last]
    rfl

theorem Spans.join (h : Spans l p q) (h' : Spans l' q r) : Spans (l ++ l'.tail) p r := by
  match l', h' with
  | [x], h' =>
    have hx : x = q := Option.some.inj h'.first
    have hr : x = r := Option.some.inj h'.last
    rw [List.tail_cons, List.append_nil, ← hr, hx]
    exact h
  | x :: y :: l', h' =>
    have htail : Spans (y :: l') y r := ⟨rfl, by rw [← h'.last, List.getLast?_cons_cons]⟩
    exact h.append htail

theorem Spans.take_drop (h : Spans l p q) {i : ℕ} (hi : i < l.length) :
    Spans (l.take (i + 1)) p l[i] ∧ Spans (l.drop i) l[i] q := by
  refine ⟨⟨?_, ?_⟩, ?_, ?_⟩
  · rw [List.head?_take, if_neg (Nat.succ_ne_zero i)]
    exact h.first
  · rw [List.getLast?_take, if_neg (Nat.succ_ne_zero i), Nat.add_sub_cancel,
      List.getElem?_eq_getElem hi]
    rfl
  · rw [List.head?_drop, List.getElem?_eq_getElem hi]
  · rw [List.getLast?_drop, if_neg (Nat.not_le.2 hi)]
    exact h.last

variable {L : Type*} [LinearOrder L] [Zero L]

theorem simplifyLine_nil (geo : Geo P L) (d : L) (k : ℕ) : simplifyLine geo d k [] = [] := by
  cases k with
  | zero => rfl
  | succ k => rfl

theorem simplifyLine_spans (geo : Geo P L) (d : L) (k : ℕ) (h : Spans l p q) :
    Spans (simplifyLine geo d k l) p q := by
  induction k generalizing l p q with
  | zero => exact h
  | succ k ih =>
    rw [simplifyLine, h.first, h.last]
    dsimp only
    generalize (farthest geo p q l).1 = i
    split
    · by_cases hi : i < l.length
      · obtain ⟨hleft, hright⟩ := h.take_drop hi
        exact (ih hleft).join (ih hright)
      · rw [List.drop_eq_nil_of_le (Nat.not_lt.1 hi), simplifyLine_nil, List.tail_nil,
          List.append_nil, List.take_of_length_le (Nat.le_succ_of_le (Nat.not_lt.1 hi))]
        exact ih h
    · exact ⟨rfl, rfl⟩

end lines

section fits
variable {P L G D : Type*}

/-- A line on the edge leads from its `from` node to its `to` node, or back when it is reversed. -/
def EdgeFits (g : Graph P L G D) (e : Edge) : Prop :=
  (g.pl e).data.geom ≠ [] →
    if (g.pl e).rev then Spans (g.pl e).data.geom (pos g e.getTo) (pos g e.getFrom)
    else Spans (g.pl e).data.geom (pos g e.getFrom) (pos g e.getTo)

instance [DecidableEq P] (g : Graph P L G D) (e : Edge) : Decidable (EdgeFits g e) := by
  unfold EdgeFits
  infer_instance

structure Forward (g : Graph P L G D) (e : Edge) : Prop where
  rev : (g.pl e).rev = false
  line : Spans (g.pl e).data.geom (pos g e.getFrom) (pos g e.getTo)

/-- The edge is not reversed, and its line, if it has one, starts where it starts. -/
structure Started (g : Graph P L G D) (e : Edge) : Prop where
  rev : (g.pl e).rev = false
  first : ∀ p ∈ (g.pl e).data.geom.head?, p = pos g e.getFrom

theorem Forward.fits {g : Graph P L G D} {e : Edge} (h : Forward g e) : EdgeFits g e := by
  intro _
  rw [h.rev, if_neg Bool.false_ne_true]
  exact h.line

theorem Forward.same {g g' : Graph P L G D} {e : Edge} (h : Forward g e) (hpl : g'.pl e = g.pl e)
    (hfrom : pos g' e.getFrom = pos g e.getFrom) (hto : pos g' e.getTo = pos g e.getTo) :
    Forward g' e := by
  refine ⟨?_, ?_⟩
  · rw [hpl]
    exact h.rev
  · rw [hpl, hfrom, hto]
    exact h.line

theorem Started.same {g g' : Graph P L G D} {e : Edge} (h : Started g e) (hpl : g'.pl e = g.pl e)
    (hnpl : g'.npl = g.npl) : Started g' e := by
  refine ⟨?_, ?_⟩
  · rw [hpl]
    exact h.rev
  · rw [hpl, pos, hnpl]
    exact h.first

theorem Shrunk.forward {g g' : Graph P L G D} (h : Shrunk g g')
    (hforward : ∀ e ∈ g.edges, Forward g e) : ∀ e ∈ g'.edges, Forward g' e := by
  intro e he
  have hpos : ∀ n, pos g' n = pos g n := fun n => by rw [pos, h.npl, pos]
  exact (hforward e (h.edges e he)).same (by rw [h.pl]) (hpos _) (hpos _)

theorem writeGeometries_forward (geo : Geo P L) {g : Graph P L G D} (h : g.Proper)
    (hstarted : ∀ e ∈ g.edges, Started g e) :
    ∀ e ∈ (writeGeometries geo g).edges, Forward (writeGeometries geo g) e := by
  obtain ⟨q, hg, hq⟩ := writeGeometries_spec geo h
  rw [hg]
  intro e he
  have hold := hstarted e he
  have hgeom : (q e).data.geom = (g.pl e).data.geom ++ [pos g e.getFrom, pos g e.getTo] := by
    rw [hq e he, writtenGeometry_geom]
  refine ⟨?_, ?_⟩
  · change (q e).rev = false
    rw [hq e he]
    exact hold.rev
  · change Spans (q e).data.geom (pos g e.getFrom) (pos g e.getTo)
    rw [hgeom]
    have hnew : Spans [pos g e.getFrom, pos g e.getTo] (pos g e.getFrom) (pos g e.getTo) := ⟨rfl, rfl⟩
    cases hhead : (g.pl e).data.geom with
    | nil => exact hnew
    | cons p l =>
      have hp : p = pos g e.getFrom := hold.first p (by rw [hhead]; rfl)
      refine ⟨by rw [hp]; rfl, ?_⟩
      rw [List.getLast?_append, hnew.last]
      rfl

end fits

section gaps
variable {P L G D : Type*} {geo : Geo P L} {st : GapState P L G D} {n nb : ℕ} {old : Edge}

theorem moveEnd_started (hdead : DeadEnd st.g nb old) (hne : nb ≠ n)
    (h : ∀ e ∈ st.g.edges, Started st.g e) :
    ∀ e ∈ (moveEnd st n nb old).g.edges, Started (moveEnd st n nb old).g e := by
  obtain ⟨x, p, hmoved⟩ := moveEnd_spec hdead hne
  have hrev : p.rev = false := by
    cases hmoved.kind with
    | inl hkind =>
      rw [hkind.2]
      exact (h x hkind.1).rev
    | inr hkind =>
      rw [hkind.2.1]
      exact (h old hdead.mem).rev
  have hpos : ∀ m, pos (moveEnd st n nb old).g m = pos st.g m := fun m => by
    rw [pos, hmoved.npl, pos]
  intro e he
  by_cases hx : e = x
  · have hpl : (moveEnd st n nb old).g.pl e =
        setLine p [pos st.g (old.getOtherNd nb), pos st.g n] := by
      rw [hmoved.pl, hx, Function.update_self]
    refine ⟨?_, ?_⟩
    · rw [hpl]
      exact hrev
    · rw [hpl, hpos, hx, hmoved.ends.1]
      intro q hq
      exact (Option.some.inj hq).symm
  · have hold := (((hmoved.edges e).1 he).resolve_right hx).1
    refine (h e hold).same ?_ hmoved.npl
    rw [hmoved.pl, Function.update_of_ne hx]

variable [LinearOrder L]

def BridgeFits (geo : Geo P L) (n : ℕ) (st : GapState P L G D) (nb : ℕ) : Prop :=
  isGap geo st.g n nb → ¬ bothPlain st.g n nb → st.g.getEdg n nb = none →
    ∀ old ∈ deadEdge st.g nb, ∀ p ∈ (st.g.pl old).data.geom.head?, p = pos st.g n

omit [LinearOrder L] in
theorem bridge_started (hdead : DeadEnd st.g nb old)
    (hfits : st.g.getEdg n nb = none → ∀ p ∈ (st.g.pl old).data.geom.head?, p = pos st.g n)
    (h : ∀ e ∈ st.g.edges, Started st.g e) :
    ∀ e ∈ (bridge st n nb old).g.edges, Started (bridge st n nb old).g e := by
  have hlink := DirGraph.addEdg_linked st.g n nb (st.g.pl old)
  unfold bridge
  dsimp only
  generalize st.g.addEdg n nb (st.g.pl old) = added at hlink ⊢
  obtain ⟨x, g'⟩ := added
  dsimp only at hlink ⊢
  intro e he
  cases hlink.kind with
  | inl hkind =>
    have hold : e ∈ st.g.edges := ((hlink.edges e).1 he).elim id fun hx => hx ▸ hkind.1
    exact (h e hold).same (by rw [hkind.2]) hlink.npl
  | inr hkind =>
    by_cases hx : e = x
    · have hpl : g'.pl e = st.g.pl old := by rw [hkind.2.1, hx, Function.update_self]
      refine ⟨?_, ?_⟩
      · rw [hpl]
        exact (h old hdead.mem).rev
      · rw [hpl, hx, hlink.ends.1, pos, hlink.npl]
        exact hfits hkind.2.2
    · have hold := ((hlink.edges e).1 he).resolve_right hx
      exact (h e hold).same (by rw [hkind.2.1, Function.update_of_ne hx]) hlink.npl

theorem fixGap_started (hfits : BridgeFits geo n st nb) (h : ∀ e ∈ st.g.edges, Started st.g e) :
    ∀ e ∈ (fixGap geo n st nb).g.edges, Started (fixGap geo n st nb).g e := by
  rw [fixGap]
  split
  · rename_i hgap
    obtain ⟨old, hold, hdead⟩ := deadEdge_spec hgap.2.1
    rw [hold]
    dsimp only
    split
    · exact moveEnd_started hdead hgap.1 h
    · rename_i hplain
      exact bridge_started hdead (fun hnone => hfits hgap hplain hnone old hold) h
  · exact h

def BridgesFitAt (geo : Geo P L) (cells : ℕ → List ℕ) (st : GapState P L G D) (n : ℕ) : Prop :=
  n ∈ st.g.nds ∧ deg st.g n = 1 →
    FoldMeets (fixGap geo n) (BridgeFits geo n) st (gridGet cells st n)

/-- Every edge that `fix_gaps` adds without setting its line gets a line that starts at its `from`
    node, or none. -/
def BridgesFit (geo : Geo P L) (cells : ℕ → List ℕ) (g : Graph P L G D) : Prop :=
  FoldMeets (fixGapsAt geo cells) (BridgesFitAt geo cells) ⟨g, []⟩ g.nds

theorem fixGaps_started {cells : ℕ → List ℕ} {g : Graph P L G D} (hfits : BridgesFit geo cells g)
    (h : ∀ e ∈ g.edges, Started g e) :
    ∀ e ∈ (fixGaps geo cells g).edges, Started (fixGaps geo cells g) e := by
  refine hfits.foldl_inv (fun st : GapState P L G D => ∀ e ∈ st.g.edges, Started st.g e) h ?_
  intro st n _ hmeets hst
  rw [fixGapsAt]
  split
  · rename_i hn
    exact (hmeets hn).foldl_inv (fun st : GapState P L G D => ∀ e ∈ st.g.edges, Started st.g e) hst
      fun st nb _ hfit hst => fixGap_started hfit hst
  · exact hst

section decisions
variable [DecidableEq P]

instance (geo : Geo P L) (n : ℕ) (st : GapState P L G D) (nb : ℕ) :
    Decidable (BridgeFits geo n st nb) :=
  have (o : Option P) (q : P) : Decidable (∀ p ∈ o, p = q) :=
    inferInstanceAs (Decidable (∀ p, p ∈ o → p = q))
  have (old : Edge) : Decidable (∀ p ∈ (st.g.pl old).data.geom.head?, p = pos st.g n) := this _ _
  have : Decidable (st.g.getEdg n nb = none) :=
    decidable_of_iff (st.g.getEdg n nb).isNone Option.isNone_iff_eq_none
  have : Decidable (∀ old ∈ deadEdge st.g nb, ∀ p ∈ (st.g.pl old).data.geom.head?,
      p = pos st.g n) := inferInstance
  inferInstanceAs (Decidable (_ → _ → _ → _))

instance (geo : Geo P L) (cells : ℕ → List ℕ) (st : GapState P L G D) (n : ℕ) :
    Decidable (BridgesFitAt geo cells st n) := inferInstanceAs (Decidable (_ → _))

instance (geo : Geo P L) (cells : ℕ → List ℕ) (g : Graph P L G D) :
    Decidable (BridgesFit geo cells g) := inferInstanceAs (Decidable (FoldMeets _ _ _ _))

end decisions

end gaps

section snapping
variable {P L : Type*} {geo : Geo P L} {st st' : Graph P L ℕ StationData × Restrictor}

theorem splitEdge_forward {e : Edge} (hproper : st.1.Proper) (he : e ∈ st.1.edges)
    (s : NodePayload P ℕ StationData) (h : ∀ x ∈ st.1.edges, Forward st.1 x) :
    ∀ x ∈ (splitEdge geo st e s).1.edges, Forward (splitEdge geo st e s).1 x := by
  obtain ⟨ne, nf, hhalves, hgraph, -⟩ := splitEdge_spec geo st.2 s hproper.live he
  have hnew : pos (splitEdge geo st e s).1 st.1.nextNd = s.geom := by
    rw [pos, hgraph.npl, Function.update_self]
  have hold : ∀ {m}, m ∈ st.1.nds → pos (splitEdge geo st e s).1 m = pos st.1 m := by
    intro m hm
    rw [pos, hgraph.npl, Function.update_of_ne (Nat.ne_of_lt (hproper.live.handed m hm)), pos]
  obtain ⟨hfrom, hto⟩ := hproper.live.ends e he
  intro x hx
  cases (hgraph.edges x).1 hx with
  | inl hx =>
    have hne : x ≠ ne := fun heq => hhalves.fresh.1 (heq ▸ hx.1)
    have hnf : x ≠ nf := fun heq => hhalves.fresh.2 (heq ▸ hx.1)
    obtain ⟨hxfrom, hxto⟩ := hproper.live.ends x hx.1
    exact (h x hx.1).same (hgraph.other x hne hnf) (hold hxfrom) (hold hxto)
  | inr hx =>
    cases hx with
    | inl hx =>
      rw [hx]
      refine ⟨?_, ?_⟩
      · rw [hgraph.first]
        exact (h e he).rev
      · rw [hgraph.first, hhalves.first.1, hhalves.first.2, hnew, hold hfrom]
        exact ⟨rfl, rfl⟩
    | inr hx =>
      rw [hx]
      refine ⟨?_, ?_⟩
      · rw [hgraph.second]
        exact (h e he).rev
      · rw [hgraph.second, hhalves.second.1, hhalves.second.2, hnew, hold hto]
        exact ⟨rfl, rfl⟩

theorem SnapStep.forward (hstep : SnapStep geo st st') (hproper : st.1.Proper)
    (h : ∀ e ∈ st.1.edges, Forward st.1 e) : ∀ e ∈ st'.1.edges, Forward st'.1 e := by
  cases hstep with
  | info restor hsame =>
    intro e he
    rw [hsame.edges] at he
    exact (h e he).same (by rw [hsame.pl]) (hsame.geom _) (hsame.geom _)
  | split he s => exact splitEdge_forward hproper he s h
  | node g restor p =>
    intro e he
    have hold : ∀ {m}, m ≠ g.nextNd → pos (g.addNd p).2 m = pos g m := by
      intro m hne
      change (Function.update g.npl g.nextNd p m).geom = _
      rw [Function.update_of_ne hne, pos]
    obtain ⟨hfrom, hto⟩ := hproper.live.fresh_end he
    exact (h e he).same rfl (hold hfrom) (hold hto)

theorem snapSteps_forward (hsteps : SnapSteps geo st st') (hproper : st.1.Proper)
    (h : ∀ e ∈ st.1.edges, Forward st.1 e) : st'.1.Proper ∧ ∀ e ∈ st'.1.edges, Forward st'.1 e := by
  induction hsteps with
  | refl => exact ⟨hproper, h⟩
  | tail _ hstep ih => exact ⟨hstep.proper ih.1, hstep.forward ih.1 ih.2⟩

end snapping

section collapse
variable {P L G D : Type*} [Add L] {geo : Geo P L} {g : Graph P L G D} {n : ℕ} {ea eb : Edge}

instance (g : Graph P L G D) (n : ℕ) (ea eb : Edge) : Decidable (Contractible g n ea eb) :=
  decidable_of_iff (Trgraph.deg g n = 2 ∧ (g.npl n).si.isNone ∧ edgePair g n = some (ea, eb) ∧
      (g.getEdg (ea.getOtherNd n) (eb.getOtherNd n)).isNone ∧
      (g.getEdg (eb.getOtherNd n) (ea.getOtherNd n)).isNone ∧ areEdgesSimilar g ea eb = true) (by
    simp only [Option.isNone_iff_eq_none]
    constructor
    · exact fun h => ⟨h.1, h.2.1, h.2.2.1, h.2.2.2.1, h.2.2.2.2.1, h.2.2.2.2.2⟩
    · exact fun h => ⟨h.deg, h.si, h.pair, h.noEdge, h.noBack, h.similar⟩)

/-- The contraction of `n` does not close a one-way loop, or the loop has no extent. -/
def LoopFits (g : Graph P L G D) (n : ℕ) : Prop :=
  ∀ pair ∈ edgePair g n, Contractible g n pair.1 pair.2 →
    pair.1.getOtherNd n = pair.2.getOtherNd n → (g.pl pair.1).oneWay ≠ 0 →
      pos g n = pos g (pair.1.getOtherNd n)

instance [DecidableEq P] (g : Graph P L G D) (n : ℕ) : Decidable (LoopFits g n) := by
  unfold LoopFits
  infer_instance

/-- `collapse_edges` closes no one-way loop. -/
def LoopsFit (geo : Geo P L) (g : Graph P L G D) : Prop := FoldMeets (collapseAt geo) LoopFits g g.nds

instance [DecidableEq P] (geo : Geo P L) (g : Graph P L G D) : Decidable (LoopsFit geo g) :=
  inferInstanceAs (Decidable (FoldMeets _ _ _ _))

omit [Add L] in
/-- `merge_edge_payload` guesses the shared node right when it is the `from` node of the first edge, or
    the edges lead to two other nodes. -/
theorem mergeNode_eq (htwo : OnlyTwo g n ea eb)
    (hdir : ea.getOtherNd n = eb.getOtherNd n → ea.getFrom = n) : mergeNode ea eb = n := by
  obtain ⟨hawayA, hawayB⟩ := htwo.away
  have hB := ends_cases htwo.ends.2
  rw [mergeNode]
  cases ends_cases htwo.ends.1 with
  | inl hA =>
    split
    · exact hA.1
    · rename_i hfrom
      rw [if_pos (hB.elim (fun hB => absurd (hA.1.trans hB.1.symm) hfrom) fun hB =>
        hA.1.trans hB.2.symm)]
      exact hA.1
  | inr hA =>
    have hfrom : ea.getFrom ≠ n := fun h => hawayA (hA.1.symm.trans h)
    have hother : ea.getOtherNd n ≠ eb.getOtherNd n := fun h => hfrom (hdir h)
    have htest : ea.getFrom ≠ eb.getFrom ∧ ea.getFrom ≠ eb.getTo := by
      cases hB with
      | inl hB => exact ⟨hB.1 ▸ hfrom, by rw [hA.1, hB.2]; exact hother⟩
      | inr hB => exact ⟨by rw [hA.1, hB.1]; exact hother, hB.2 ▸ hfrom⟩
    rw [if_neg htest.1, if_neg htest.2]
    exact hA.2

omit [Add L] in
theorem mergeLine_spans (htwo : OnlyTwo g n ea eb) (ha : Forward g ea) (hb : Forward g eb)
    (hloop : ea.getOtherNd n = eb.getOtherNd n → ea.getFrom ≠ n → pos g n = pos g (ea.getOtherNd n)) :
    Spans (mergeLine ea eb (g.pl ea).data.geom (g.pl eb).data.geom) (pos g (ea.getOtherNd n))
      (pos g (eb.getOtherNd n)) := by
  have hA := ends_cases htwo.ends.1
  have hB := ends_cases htwo.ends.2
  obtain ⟨hawayA, hawayB⟩ := htwo.away
  have hlineA := ha.line
  have hlineB := hb.line
  by_cases hdir : ea.getOtherNd n = eb.getOtherNd n → ea.getFrom = n
  · rw [mergeLine, mergeNode_eq htwo hdir]
    cases hA with
    | inl hA =>
      have hto : ea.getTo ≠ n := fun h => hawayA (hA.2.symm.trans h)
      rw [hA.1, hA.2] at hlineA
      cases hB with
      | inl hB =>
        have hto' : eb.getTo ≠ n := fun h => hawayB (hB.2.symm.trans h)
        rw [hB.1, hB.2] at hlineB
        rw [if_neg fun h => hto h.1, if_neg fun h => hto h.1, if_neg fun h => hto' h.2]
        exact hlineA.reverse.append hlineB
      | inr hB =>
        rw [hB.1, hB.2] at hlineB
        rw [if_neg fun h => hto h.1, if_neg fun h => hto h.1, if_pos ⟨hA.1, hB.2⟩]
        exact hlineA.reverse.append hlineB.reverse
    | inr hA =>
      rw [hA.1, hA.2] at hlineA
      cases hB with
      | inl hB =>
        have hto' : eb.getTo ≠ n := fun h => hawayB (hB.2.symm.trans h)
        rw [hB.1, hB.2] at hlineB
        rw [if_neg fun h => hto' h.2, if_pos ⟨hA.2, hB.1⟩]
        exact hlineA.append hlineB
      | inr hB =>
        rw [hB.1, hB.2] at hlineB
        rw [if_pos ⟨hA.2, hB.2⟩]
        exact hlineA.append hlineB.reverse
  · -- the loop has no extent, so its line may start at either end
    push Not at hdir
    obtain ⟨hother, hfrom⟩ := hdir
    have hpos := hloop hother hfrom
    have hA := hA.resolve_left fun h => hfrom h.1
    rw [hA.1, hA.2, hpos] at hlineA
    have hlineB : Spans (g.pl eb).data.geom (pos g (ea.getOtherNd n)) (pos g (ea.getOtherNd n)) := by
      cases hB with
      | inl hB => rwa [hB.1, hB.2, hpos, ← hother] at hlineB
      | inr hB => rwa [hB.1, hB.2, hpos, ← hother] at hlineB
    rw [← hother, mergeLine]
    split
    · exact hlineA.append hlineB.reverse
    · split
      · exact hlineA.append hlineB
      · split
        · exact hlineA.reverse.append hlineB.reverse
        · exact hlineA.reverse.append hlineB

omit [Add L] in
theorem edgePair_from (h : edgePair g n = some (ea, eb)) :
    ea.getFrom = n ∨ ea.getTo = n ∧ eb.getTo = n := by
  have hout : ∀ {e : Edge}, e ∈ g.getAdjListOut n → e.getFrom = n := fun he =>
    (DirGraph.mem_getAdjListOut.1 he).2
  have hin : ∀ {e : Edge}, e ∈ g.getAdjListIn n → e.getTo = n := fun he =>
    (DirGraph.mem_getAdjListIn.1 he).2
  rw [edgePair] at h
  split at h
  · obtain ⟨a, ha, h⟩ := Option.bind_eq_some_iff.1 h
    obtain ⟨b, -, h⟩ := Option.map_eq_some_iff.1 h
    cases h
    exact Or.inl (hout (List.mem_of_mem_head? ha))
  · split at h
    · obtain ⟨a, ha, h⟩ := Option.bind_eq_some_iff.1 h
      obtain ⟨b, hb, h⟩ := Option.map_eq_some_iff.1 h
      cases h
      exact Or.inr ⟨hin (List.mem_of_mem_head? ha), hin (List.mem_of_mem_getLast? hb)⟩
    · obtain ⟨a, ha, h⟩ := Option.bind_eq_some_iff.1 h
      obtain ⟨b, -, h⟩ := Option.map_eq_some_iff.1 h
      cases h
      exact Or.inl (hout (List.mem_of_mem_head? ha))

theorem collapseAt_forward (hproper : g.Proper) (hfits : LoopFits g n)
    (h : ∀ e ∈ g.edges, Forward g e) :
    ∀ e ∈ (collapseAt geo g n).edges, Forward (collapseAt geo g n) e := by
  cases collapseAt_cases geo g n with
  | inr heq =>
    rw [heq]
    exact h
  | inl hround =>
    obtain ⟨ea, eb, hcon, heq⟩ := hround
    obtain ⟨a, b, f, hjoined⟩ := contract_spec geo hcon hproper.nodup
    have htwo := hjoined.onlyTwo (hcon.onlyTwo hproper.nodup)
    rw [heq]
    have hloop : a.getOtherNd n = b.getOtherNd n → a.getFrom ≠ n →
        pos g n = pos g (a.getOtherNd n) := by
      intro hother hfrom
      cases hjoined.order with
      | inl horder =>
        obtain ⟨hflip, rfl, rfl⟩ := horder
        exact hother ▸ hfits (b, a) hcon.pair hcon hother.symm hflip.1
      | inr horder =>
        obtain ⟨hflip, rfl, rfl⟩ := horder
        have hends := (edgePair_from hcon.pair).resolve_left hfrom
        have hto : ∀ e : Edge, e.getTo = n → e.getOtherNd n = e.getFrom := fun e he => if_pos he
        rw [hto a hends.1, hto b hends.2] at hother
        exact absurd (g.simple a htwo.mem.1 b htwo.mem.2 hother (hends.1.trans hends.2.symm)) htwo.ne
    have hgraph := hjoined.graph
    generalize contract geo g n ea eb = g' at hgraph
    have hpos : ∀ m, pos g' m = pos g m := fun m => by rw [pos, hgraph.npl, pos]
    intro e he
    by_cases hf : e = f
    · have hpl : g'.pl e = mergeEdgePayload geo g a b := by rw [hgraph.pl, hf, Function.update_self]
      refine ⟨?_, ?_⟩
      · rw [hpl]
        exact (h a htwo.mem.1).rev
      · rw [hpl, hpos, hpos, hf, hgraph.ends.1, hgraph.ends.2]
        exact mergeLine_spans htwo (h a htwo.mem.1) (h b htwo.mem.2) hloop
    · have hold := ((hgraph.edges e).1 he).resolve_right hf
      exact (h e hold.1).same (by rw [hgraph.pl, Function.update_of_ne hf]) (hpos _) (hpos _)

theorem collapseEdges_forward (hproper : g.Proper) (hfits : LoopsFit geo g)
    (h : ∀ e ∈ g.edges, Forward g e) :
    ∀ e ∈ (collapseEdges geo g).edges, Forward (collapseEdges geo g) e := by
  have hrun := hfits.foldl_inv (fun g : Graph P L G D => g.Proper ∧ ∀ e ∈ g.edges, Forward g e)
    ⟨hproper, h⟩ fun s m _ hfit hs =>
      ⟨collapseAt_proper geo s m hs.1, collapseAt_forward hs.1 hfit hs.2⟩
  exact hrun.2

end collapse

section directions
variable {P L G D : Type*} {g : Graph P L G D}

theorem simplifyGeometries_forward [LinearOrder L] [Zero L] (geo : Geo P L) (d : L)
    (hproper : g.Proper) (h : ∀ e ∈ g.edges, Forward g e) :
    (simplifyGeometries geo d g).Proper ∧
      ∀ e ∈ (simplifyGeometries geo d g).edges, Forward (simplifyGeometries geo d g) e := by
  obtain ⟨q, hg, hq⟩ := simplifyGeometries_spec geo d hproper
  rw [hg]
  refine ⟨hproper.withPl q, ?_⟩
  intro e he
  refine ⟨?_, ?_⟩
  · change (q e).rev = false
    rw [hq e he]
    exact (h e he).rev
  · change Spans (q e).data.geom _ _
    rw [hq e he]
    exact simplifyLine_spans geo d _ (h e he).line

/-- The edge leads along its line, or it is the reversed copy of one that does. -/
def Directed (g : Graph P L G D) (e : Edge) : Prop :=
  Forward g e ∨ ((g.pl e).rev = true ∧ g.getEdg e.getTo e.getFrom ≠ none ∧
    Spans (g.pl e).data.geom (pos g e.getTo) (pos g e.getFrom))

theorem Directed.fits {e : Edge} (h : Directed g e) : EdgeFits g e := by
  cases h with
  | inl h => exact h.fits
  | inr h =>
    intro _
    rw [h.1, if_pos rfl]
    exact h.2.2

theorem writeODirEdg_directed {st : Graph P L G D × Restrictor} {e : Edge} (he : e ∈ st.1.edges)
    (h : ∀ x ∈ st.1.edges, Directed st.1 x) :
    ∀ x ∈ (writeODirEdg st e).1.edges, Directed (writeODirEdg st e).1 x := by
  obtain ⟨g, restor⟩ := st
  cases hget : g.getEdg e.getTo e.getFrom with
  | some x =>
    simp only [writeODirEdg, hget]
    exact h
  | none =>
    have hforward : Forward g e := (h e he).resolve_right fun hrev => hrev.2.1 hget
    have hadd := DirGraph.addEdg_added hget (g.pl e).revCopy
    simp only [writeODirEdg, hget]
    generalize g.addEdg e.getTo e.getFrom (g.pl e).revCopy = added at hadd ⊢
    obtain ⟨y, g'⟩ := added
    dsimp only at hadd ⊢
    have hpos : ∀ m, pos g' m = pos g m := fun m => by rw [pos, hadd.npl, pos]
    have hkept : ∀ x ∈ g.edges, x ∈ g'.edges := fun x hx => (hadd.edges x).2 (Or.inl hx)
    intro x hx
    by_cases hy : x = y
    · have hpl : g'.pl x = (g.pl e).revCopy := by rw [hadd.pl, hy, Function.update_self]
      refine Or.inr ⟨?_, ?_, ?_⟩
      · rw [hpl, EdgePayload.revCopy_rev]
      · rw [hy, hadd.ends.1, hadd.ends.2, DirGraph.getEdg_of_mem (hkept e he)]
        exact Option.some_ne_none e
      · rw [hpl, EdgePayload.revCopy_data, hpos, hpos, hy, hadd.ends.1, hadd.ends.2]
        exact hforward.line
    · have hold : x ∈ g.edges := ((hadd.edges x).1 hx).resolve_right hy
      have hpl : g'.pl x = g.pl x := by rw [hadd.pl, Function.update_of_ne hy]
      cases h x hold with
      | inl hx => exact Or.inl (hx.same hpl (hpos _) (hpos _))
      | inr hx =>
        refine Or.inr ⟨?_, reversed_mono hkept hx.2.1, ?_⟩
        · rw [hpl]
          exact hx.1
        · rw [hpl, hpos, hpos]
          exact hx.2.2

theorem writeODirEdgs_directed (restor : Restrictor) (h : ∀ e ∈ g.edges, Forward g e) :
    ∀ e ∈ (writeODirEdgs g restor).1.edges, Directed (writeODirEdgs g restor).1 e := by
  have hstart : ∀ e ∈ (g, restor).1.edges, Directed (g, restor).1 e := fun e he => Or.inl (h e he)
  exact (@foldl_nds _ _ (fun st : Graph P L G D × Restrictor => ∀ e ∈ st.1.edges, Directed st.1 e)
    (fun _ _ h he => writeODirEdg_directed he h) g.nds _ hstart).1

end directions

section run
variable {P L : Type*} [AddCommMonoid L] [LinearOrder L] (C : CleanUp P L)

/-- The graphs that `read` has once `write_geometries` is done. -/
def CleanUp.graphs (st : Stations P L) (restor : Restrictor) : List (Graph P L ℕ StationData) :=
  let s := C.snapStations st restor
  [(C.fixGaps st).g, s.st.g, C.deleteOrphans s.st.g, C.collapse s.st.g,
    C.deleteOrphans (C.collapse s.st.g), C.simplify s.st.g, (C.run st restor).1]

/-- `read_edges` leaves the edges without a line, and not reversed. -/
structure Unwritten {G D : Type*} (g : Graph P L G D) : Prop where
  line : NoGeometry g
  rev : ∀ e ∈ g.edges, (g.pl e).rev = false

/-- The lines fit in every state of a run in which `fix_gaps` bridges no gap with a foreign line and
    `collapse_edges` closes no one-way loop. -/
theorem cleanUp_edgesFit (C : CleanUp P L) {st : Stations P L} (restor : Restrictor)
    (hproper : st.g.Proper) (hread : Unwritten st.g) (hgaps : BridgesFit C.geo C.cells st.g)
    (hloops : LoopsFit C.geo (C.deleteOrphans (C.snapStations st restor).st.g)) :
    ∀ g ∈ C.graphs st restor, ∀ e ∈ g.edges, EdgeFits g e := by
  have hstarted : ∀ e ∈ st.g.edges, Started st.g e := by
    refine fun e he => ⟨hread.rev e he, ?_⟩
    rw [hread.line e he]
    exact fun p hp => absurd hp (Option.not_mem_none p)
  have hfixed : ∀ e ∈ (C.fixGaps st).g.edges, Forward (C.fixGaps st).g e :=
    writeGeometries_forward C.geo (fixGaps_proper C.geo C.cells hproper)
      (fixGaps_started hgaps hstarted)
  obtain ⟨hproper₁, hsteps⟩ := C.snapStations_steps restor hproper
  have hrun : C.run st restor =
    writeODirEdgs (C.simplify (C.snapStations st restor).st.g) (C.snapStations st restor).restor := rfl
  unfold CleanUp.graphs
  rw [hrun]
  dsimp only
  generalize C.snapStations st restor = s at hproper₁ hsteps hloops
  have hsnapped : ∀ e ∈ s.st.g.edges, Forward s.st.g e :=
    (snapSteps_forward hsteps (C.fixGaps_proper hproper) hfixed).2
  have hpruned := (C.deleteOrphans_shrunk s.st.g).forward hsnapped
  have hcollapsed : ∀ e ∈ (C.collapse s.st.g).edges, Forward (C.collapse s.st.g) e :=
    collapseEdges_forward ((C.deleteOrphans_shrunk s.st.g).proper hproper₁) hloops hpruned
  have hshrunk := C.deleteOrphans_shrunk (C.collapse s.st.g)
  have hpruned' := hshrunk.forward hcollapsed
  have hsimplified : ∀ e ∈ (C.simplify s.st.g).edges, Forward (C.simplify s.st.g) e :=
    (simplifyGeometries_forward C.geo C.tolerance
      (hshrunk.proper (C.collapse_proper s.st.g hproper₁)) hpruned').2
  have hdirected := writeODirEdgs_directed s.restor hsimplified
  generalize writeODirEdgs (C.simplify s.st.g) s.restor = last at hdirected ⊢
  generalize C.simplify s.st.g = g₅ at hsimplified ⊢
  generalize C.deleteOrphans (C.collapse s.st.g) = g₄ at hpruned' ⊢
  generalize C.collapse s.st.g = g₃ at hcollapsed ⊢
  generalize C.deleteOrphans s.st.g = g₂ at hpruned ⊢
  generalize (C.fixGaps st).g = g₁ at hfixed ⊢
  simp only [List.mem_cons, List.not_mem_nil, or_false]
  rintro g (rfl | rfl | rfl | rfl | rfl | rfl | rfl) e he
  · exact (hfixed e he).fits
  · exact (hsnapped e he).fits
  · exact (hpruned e he).fits
  · exact (hcollapsed e he).fits
  · exact (hpruned' e he).fits
  · exact (hsimplified e he).fits
  · exact (hdirected e he).fits

def roundTrip : Stations ℕ ℕ :=
  streetsOf 4 [⟨0, 0, 1⟩, ⟨1, 1, 2⟩, ⟨2, 2, 3⟩, ⟨3, 3, 0⟩] 0 false 4 (by decide) (by decide)

/-- The reversed copy of an edge that has been contracted. -/
theorem cleanUp_edgesFit_roundTrip :
    EdgeFits (lineCleanUp.run roundTrip .empty).1 ⟨13, 5, 4⟩ := by
  have hproper : roundTrip.g.Proper := ⟨⟨by decide, by decide, by decide⟩, by decide⟩
  have hread : Unwritten roundTrip.g := ⟨fun _ _ => rfl, fun _ _ => rfl⟩
  exact cleanUp_edgesFit lineCleanUp .empty hproper hread (by decide) (by decide) _
    (by simp [CleanUp.graphs]) ⟨13, 5, 4⟩ (by decide)

def oneWayLoop : Stations ℕ ℕ := streetsOf 2 [⟨0, 0, 1⟩, ⟨1, 1, 0⟩] 1 false 2 (by decide) (by decide)

/-- The loop that `collapse_edges` leaves at `1` has a line that starts and ends at `0`. -/
theorem cleanUp_not_edgesFit : ¬ ∀ (C : CleanUp ℕ ℕ) (st : Stations ℕ ℕ) (restor : Restrictor),
    st.g.Proper → Unwritten st.g → ∀ g ∈ C.graphs st restor, ∀ e ∈ g.edges, EdgeFits g e := by
  intro h
  have hfits := h { lineCleanUp with keys := [] } oneWayLoop .empty
    ⟨⟨by decide, by decide, by decide⟩, by decide⟩ ⟨fun _ _ => rfl, fun _ _ => rfl⟩
    ({ lineCleanUp with keys := [] }.run oneWayLoop .empty).1 (by simp [CleanUp.graphs])
    ⟨2, 1, 1⟩ (by decide)
  exact absurd hfits (by decide)

end run

end Pfaedle.Trgraph

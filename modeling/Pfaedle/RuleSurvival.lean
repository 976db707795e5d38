import Pfaedle.CleanUp
import Pfaedle.SortedMap

set_option autoImplicit false

/-!
# Turn rules through the clean-up

Rules hold edge pointers. A pass that deletes an edge without telling the restrictor leaves a rule that
names an edge which is no longer there.
-/
namespace Pfaedle.Trgraph
open DirGraphs Restriction ODirEdges LoopRules

def names (r : RulePair) (e : Edge) : Prop := r.first = e ∨ r.second = some e

instance (r : RulePair) (e : Edge) : Decidable (names r e) := inferInstanceAs (Decidable (_ ∨ _))

def Named (restor : Restrictor) (e : Edge) : Prop :=
  ∃ r ∈ restor.rulesAt e.getFrom ++ restor.rulesAt e.getTo, names r e

instance (restor : Restrictor) (e : Edge) : Decidable (Named restor e) :=
  inferInstanceAs (Decidable (∃ r ∈ _, _))

section rules
variable {P L G D : Type*} {g g' : Graph P L G D} {restor : Restrictor}

/-- Every pointer in a rule is one to an edge of the graph. -/
def RulesLive (st : Graph P L G D × Restrictor) : Prop :=
  ∀ v, ∀ r ∈ st.2.rulesAt v, ∀ e, names r e → e ∈ st.1.edges

/-- `read_edges` flags every edge that it enters into a rule. -/
def RulesFlagged (st : Graph P L G D × Restrictor) : Prop :=
  ∀ v, ∀ r ∈ st.2.rulesAt v, ∀ e, names r e → (st.1.pl e).is_restricted = true

structure Guarded (st : Graph P L G D × Restrictor) : Prop where
  incident : RulesIncident st
  flagged : RulesFlagged st

/-- `x` has been made in the place of `e`, with a copy of its payload. -/
structure Replaces (g g' : Graph P L G D) (e x : Edge) : Prop where
  gone : e ∈ g.edges ∧ e ∉ g'.edges
  made : x ∉ g.edges ∧ x ∈ g'.edges
  copy : ∃ len l, g'.pl x = setLine { g.pl e with data := { (g.pl e).data with length := len } } l

/-- Where an edge of the rule has been replaced, the rule names the replacement. -/
structure RuleFollows (g g' : Graph P L G D) (r r' : RulePair) : Prop where
  first : ∀ x, Replaces g g' r.first x → Replaces g g' r.first r'.first
  second : ∀ e x, r.second = some e → Replaces g g' e x →
    ∃ e', r'.second = some e' ∧ Replaces g g' e e'

structure RulesFollow (st st' : Graph P L G D × Restrictor) : Prop where
  pos : ∀ v, List.Forall₂ (RuleFollows st.1 st'.1) (st.2.pos.rules v) (st'.2.pos.rules v)
  neg : ∀ v, List.Forall₂ (RuleFollows st.1 st'.1) (st.2.neg.rules v) (st'.2.neg.rules v)

theorem Guarded.live {st : Graph P L G D × Restrictor} (h : Guarded st) : RulesLive st := by
  intro v r hr e hname
  cases hname with
  | inl hfirst => exact hfirst ▸ (h.incident v r hr).first.1
  | inr hsecond => exact ((h.incident v r hr).second e hsecond).1

/-- The rules that name an edge are those at its ends. -/
theorem RulesIncident.named {st : Graph P L G D × Restrictor} (h : RulesIncident st) {v : ℕ}
    {r : RulePair} (hr : r ∈ st.2.rulesAt v) {e : Edge} (hname : names r e) : Named st.2 e := by
  have hend : e.hasEnd v := by
    cases hname with
    | inl hfirst => exact hfirst ▸ (h v r hr).first.2
    | inr hsecond => exact ((h v r hr).second e hsecond).2
  refine ⟨r, List.mem_append.2 ?_, hname⟩
  cases hend with
  | inl hfrom => exact Or.inl (hfrom ▸ hr)
  | inr hto => exact Or.inr (hto ▸ hr)

theorem Named.rule {e : Edge} (h : Named restor e) : ∃ v, ∃ r ∈ restor.rulesAt v, names r e := by
  obtain ⟨r, hr, hname⟩ := h
  cases List.mem_append.1 hr with
  | inl hr => exact ⟨_, r, hr, hname⟩
  | inr hr => exact ⟨_, r, hr, hname⟩

def NamedStay (restor : Restrictor) (g g' : Graph P L G D) : Prop :=
  ∀ e ∈ g.edges, Named restor e →
    e ∈ g'.edges ∧ (g'.pl e).is_restricted = (g.pl e).is_restricted

theorem Guarded.stay (h : Guarded (g, restor)) (hstay : NamedStay restor g g') :
    Guarded (g', restor) ∧ RulesFollow (g, restor) (g', restor) := by
  have hmem : ∀ v, ∀ r ∈ restor.rulesAt v, ∀ e, names r e →
      e ∈ g'.edges ∧ (g'.pl e).is_restricted = (g.pl e).is_restricted := fun v r hr e hname =>
    hstay e (h.live v r hr e hname) (h.incident.named hr hname)
  have hfollow : ∀ v, ∀ r ∈ restor.rulesAt v, RuleFollows g g' r r := by
    intro v r hr
    constructor
    · exact fun x hx => absurd (hmem v r hr _ (Or.inl rfl)).1 hx.gone.2
    · exact fun e x he hx => absurd (hmem v r hr e (Or.inr he)).1 hx.gone.2
  refine ⟨⟨?_, ?_⟩, ⟨?_, ?_⟩⟩
  · intro v r hr
    have hold := h.incident v r hr
    refine ⟨⟨(hmem v r hr _ (Or.inl rfl)).1, hold.first.2⟩, fun e he => ?_⟩
    exact ⟨(hmem v r hr e (Or.inr he)).1, (hold.second e he).2⟩
  · intro v r hr e hname
    change (g'.pl e).is_restricted = true
    rw [(hmem v r hr e hname).2]
    exact h.flagged v r hr e hname
  · exact fun v => List.forall₂_same.2 fun r hr => hfollow v r (List.mem_append_left _ hr)
  · exact fun v => List.forall₂_same.2 fun r hr => hfollow v r (List.mem_append_right _ hr)

def Dangling (st : Graph P L G D × Restrictor) : Prop :=
  ∃ v, ∃ r ∈ st.2.rulesAt v, ∃ e, names r e ∧ e ∉ st.1.edges ∧ e.id < st.1.nextEdge

theorem Dangling.not_live {st : Graph P L G D × Restrictor} (h : Dangling st) : ¬ RulesLive st := by
  intro hlive
  obtain ⟨v, r, hr, e, hname, hgone, -⟩ := h
  exact hgone (hlive v r hr e hname)

theorem Dangling.later (h : Dangling (g, restor)) (hlater : g.Later g') : Dangling (g', restor) := by
  obtain ⟨v, r, hr, e, hname, hgone, hid⟩ := h
  exact ⟨v, r, hr, e, hname, hlater.gone hgone hid, Nat.lt_of_lt_of_le hid hlater.nextEdge⟩

/-- A named edge that goes leaves a rule behind. -/
theorem Named.dangling {e : Edge} (h : Named restor e) (he : e ∈ g.edges) (hlater : g.Later g')
    (hgone : e ∉ g'.edges) : Dangling (g', restor) := by
  obtain ⟨v, r, hr, hname⟩ := h.rule
  exact ⟨v, r, hr, e, hname, hgone, Nat.lt_of_lt_of_le (g.fresh e he) hlater.nextEdge⟩

end rules

section gaps
variable {P L G D : Type*} [LinearOrder L] {geo : Geo P L} {restor : Restrictor}
  {st : GapState P L G D} {n nb : ℕ} {old : Edge}

/-- The round of `fix_gaps` moves no edge that a rule names. -/
def MoveKeeps (geo : Geo P L) (restor : Restrictor) (n : ℕ) (st : GapState P L G D) (nb : ℕ) :
    Prop := Merges geo st.g n nb → ∀ old ∈ deadEdge st.g nb, ¬ Named restor old

def MovesKeepAt (geo : Geo P L) (cells : ℕ → List ℕ) (restor : Restrictor) (st : GapState P L G D)
    (n : ℕ) : Prop :=
  n ∈ st.g.nds ∧ deg st.g n = 1 →
    FoldMeets (fixGap geo n) (MoveKeeps geo restor n) st (gridGet cells st n)

def MovesKeep (geo : Geo P L) (cells : ℕ → List ℕ) (restor : Restrictor) (g : Graph P L G D) : Prop :=
  FoldMeets (fixGapsAt geo cells) (MovesKeepAt geo cells restor) ⟨g, []⟩ g.nds

/-- In every round of `fix_gaps` the rules follow the edges. -/
def MovesFollow (geo : Geo P L) (cells : ℕ → List ℕ) (restor : Restrictor) (g : Graph P L G D) :
    Prop :=
  FoldMeets (fixGapsAt geo cells) (fun st n => n ∈ st.g.nds ∧ deg st.g n = 1 →
    FoldMeets (fixGap geo n)
      (fun st nb => RulesFollow (st.g, restor) ((fixGap geo n st nb).g, restor)) st
      (gridGet cells st n)) ⟨g, []⟩ g.nds

instance (geo : Geo P L) (restor : Restrictor) (n : ℕ) (st : GapState P L G D) (nb : ℕ) :
    Decidable (MoveKeeps geo restor n st nb) :=
  have : Decidable (∀ old ∈ deadEdge st.g nb, ¬ Named restor old) := inferInstance
  inferInstanceAs (Decidable (_ → _))

instance (geo : Geo P L) (cells : ℕ → List ℕ) (restor : Restrictor) (st : GapState P L G D) (n : ℕ) :
    Decidable (MovesKeepAt geo cells restor st n) := inferInstanceAs (Decidable (_ → _))

instance (geo : Geo P L) (cells : ℕ → List ℕ) (restor : Restrictor) (g : Graph P L G D) :
    Decidable (MovesKeep geo cells restor g) := inferInstanceAs (Decidable (FoldMeets _ _ _ _))

theorem fixGap_later (geo : Geo P L) (n : ℕ) (st : GapState P L G D) (nb : ℕ) :
    st.g.Later (fixGap geo n st nb).g := by
  rw [fixGap]
  split
  · split
    · exact DirGraph.Later.refl _
    · split
      · exact ((DirGraph.addEdg_later st.g _ _ _).trans (DirGraph.setPl_later _ _ _)).trans
          (DirGraph.delNd_later _ _)
      · exact DirGraph.addEdg_later st.g _ _ _
  · exact DirGraph.Later.refl _

theorem fixGapsAt_later (geo : Geo P L) (cells : ℕ → List ℕ) (st : GapState P L G D) (n : ℕ) :
    st.g.Later (fixGapsAt geo cells st n).g := by
  rw [fixGapsAt]
  split
  · exact foldl_inv (fixGap geo n) (fun st' => st.g.Later st'.g) _ (DirGraph.Later.refl _)
      fun st' nb _ h => h.trans (fixGap_later geo n st' nb)
  · exact DirGraph.Later.refl _

theorem fixGap_guarded (hkeep : MoveKeeps geo restor n st nb) (h : Guarded (st.g, restor)) :
    Guarded ((fixGap geo n st nb).g, restor) ∧
      RulesFollow (st.g, restor) ((fixGap geo n st nb).g, restor) := by
  apply h.stay
  intro e he hnamed
  cases fixGap_cases geo st n nb with
  | inl hround =>
    obtain ⟨hmerge, old, hold, hdead, heq⟩ := hround
    obtain ⟨x, p, hmoved⟩ := moveEnd_spec hdead hmerge.1.1
    have hne : e ≠ old := by
      rintro rfl
      exact hkeep hmerge e hold hnamed
    rw [heq]
    refine ⟨(hmoved.edges e).2 (Or.inl ⟨he, hne⟩), ?_⟩
    rw [hmoved.pl]
    by_cases hx : e = x
    · rw [hx, Function.update_self]
      cases hmoved.kind with
      | inl hkind => rw [hkind.2]; rfl
      | inr hkind => exact absurd (hx ▸ he) hkind.1
    · rw [Function.update_of_ne hx]
  | inr hround =>
    cases hround.2 with
    | inl hbridge =>
      obtain ⟨old, hdead, heq⟩ := hbridge
      have hlink := DirGraph.addEdg_linked st.g n nb (st.g.pl old)
      rw [heq]
      refine ⟨(hlink.edges e).2 (Or.inl he), ?_⟩
      cases hlink.kind with
      | inl hkind => exact congrArg (fun q => (q e).is_restricted) hkind.2
      | inr hkind =>
        have hx : e ≠ (st.g.addEdg n nb (st.g.pl old)).1 := fun hx => hkind.1 (hx ▸ he)
        change ((st.g.addEdg n nb (st.g.pl old)).2.pl e).is_restricted = _
        rw [hkind.2.1, Function.update_of_ne hx]
    | inr heq =>
      rw [heq]
      exact ⟨he, rfl⟩

theorem fixGap_dangling (hnot : ¬ MoveKeeps geo restor n st nb) :
    Dangling ((fixGap geo n st nb).g, restor) := by
  rw [MoveKeeps] at hnot
  push Not at hnot
  obtain ⟨hmerge, e, hdeadEdge, hnamed⟩ := hnot
  have hlater := fixGap_later geo n st nb
  cases fixGap_cases geo st n nb with
  | inr hround => exact absurd hmerge hround.1
  | inl hround =>
    obtain ⟨-, old, hold, hdead, heq⟩ := hround
    obtain rfl : e = old := Option.some.inj (hdeadEdge.symm.trans hold)
    obtain ⟨x, p, hmoved⟩ := moveEnd_spec hdead hmerge.1.1
    apply hnamed.dangling hdead.mem hlater
    rw [heq]
    exact hmoved.gone hdead hmerge.1.1

theorem fixGapsAt_guarded {cells : ℕ → List ℕ} (hkeep : MovesKeepAt geo cells restor st n)
    (h : Guarded (st.g, restor)) :
    Guarded ((fixGapsAt geo cells st n).g, restor) ∧ (n ∈ st.g.nds ∧ deg st.g n = 1 →
      FoldMeets (fixGap geo n)
        (fun st nb => RulesFollow (st.g, restor) ((fixGap geo n st nb).g, restor)) st
        (gridGet cells st n)) := by
  rw [fixGapsAt]
  split
  · rename_i hn
    obtain ⟨hlast, hfollow⟩ := (hkeep hn).meets (fun st => Guarded (st.g, restor)) h
      fun st nb _ hkeep h => fixGap_guarded hkeep h
    exact ⟨hlast, fun _ => hfollow⟩
  · rename_i hn
    exact ⟨h, fun h => absurd h hn⟩

theorem fixGaps_guarded {cells : ℕ → List ℕ} {g : Graph P L G D}
    (hkeep : MovesKeep geo cells restor g) (h : Guarded (g, restor)) :
    Guarded (fixGaps geo cells g, restor) ∧ MovesFollow geo cells restor g :=
  FoldMeets.meets (fun st => Guarded (st.g, restor)) hkeep h
    fun _ _ _ hkeep h => fixGapsAt_guarded hkeep h

theorem fixGapsAt_dangling {cells : ℕ → List ℕ} (hnot : ¬ MovesKeepAt geo cells restor st n) :
    Dangling ((fixGapsAt geo cells st n).g, restor) := by
  rw [MovesKeepAt] at hnot
  push Not at hnot
  obtain ⟨hn, hnot⟩ := hnot
  rw [fixGapsAt, if_pos hn]
  exact foldl_of_not_foldMeets (fun _ => True) (fun st => Dangling (st.g, restor)) hnot trivial
    (fun _ _ _ _ => trivial) (fun st nb _ _ h => h.later (fixGap_later geo n st nb))
    fun st nb _ _ hnot => fixGap_dangling hnot

theorem fixGaps_dangling {cells : ℕ → List ℕ} {g : Graph P L G D}
    (hnot : ¬ MovesKeep geo cells restor g) : Dangling (fixGaps geo cells g, restor) :=
  foldl_of_not_foldMeets (fun _ => True) (fun st : GapState P L G D => Dangling (st.g, restor)) hnot
    trivial (fun _ _ _ _ => trivial) (fun st n _ _ h => h.later (fixGapsAt_later geo cells st n))
    fun _ _ _ _ hnot => fixGapsAt_dangling hnot

end gaps

section orphans
variable {P L G D : Type*} {geo : Geo P L} {g : Graph P L G D} {restor : Restrictor} {n : ℕ}

def Orphan (geo : Geo P L) (g : Graph P L G D) (n : ℕ) : Prop :=
  deg g n = 1 ∧ (g.npl n).si.isSome = false ∧ keepFullTurn geo g n = false

instance (geo : Geo P L) (g : Graph P L G D) (n : ℕ) : Decidable (Orphan geo g n) :=
  inferInstanceAs (Decidable (_ ∧ _))

theorem deleteOrphanEdge_eq (geo : Geo P L) (g : Graph P L G D) (n : ℕ) :
    deleteOrphanEdge geo g n = if Orphan geo g n then g.delNd n else g := by
  rw [deleteOrphanEdge]
  split
  · rename_i htest
    rw [if_neg]
    intro h
    cases htest with
    | inl hdeg => exact hdeg h.1
    | inr hsi => exact absurd (hsi.symm.trans h.2.1) Bool.true_eq_false.mp
  · rename_i htest
    push Not at htest
    split
    · rename_i hturn
      rw [if_neg fun h => absurd (hturn.symm.trans h.2.2) Bool.true_eq_false.mp]
    · rename_i hturn
      rw [if_pos ⟨htest.1, Bool.eq_false_of_not_eq_true htest.2, Bool.eq_false_of_not_eq_true hturn⟩]

def OrphanKeeps (geo : Geo P L) (restor : Restrictor) (g : Graph P L G D) (n : ℕ) : Prop :=
  Orphan geo g n → ∀ e ∈ g.edges, e.hasEnd n → ¬ Named restor e

def RoundKeeps (geo : Geo P L) (restor : Restrictor) (g : Graph P L G D) : Prop :=
  FoldMeets (deleteOrphanEdge geo) (OrphanKeeps geo restor) g g.nds

/-- `delete_orphan_edges` deletes no edge that a rule names. -/
structure OrphansKeep (geo : Geo P L) (restor : Restrictor) (g : Graph P L G D) : Prop where
  first : RoundKeeps geo restor g
  second : RoundKeeps geo restor (deleteOrphanRound geo g)
  third : RoundKeeps geo restor (deleteOrphanRound geo (deleteOrphanRound geo g))

instance (geo : Geo P L) (restor : Restrictor) (g : Graph P L G D) (n : ℕ) :
    Decidable (OrphanKeeps geo restor g n) := inferInstanceAs (Decidable (_ → ∀ e ∈ _, _ → _))

instance (geo : Geo P L) (restor : Restrictor) (g : Graph P L G D) :
    Decidable (RoundKeeps geo restor g) := inferInstanceAs (Decidable (FoldMeets _ _ _ _))

instance (geo : Geo P L) (restor : Restrictor) (g : Graph P L G D) :
    Decidable (OrphansKeep geo restor g) :=
  decidable_of_iff (RoundKeeps geo restor g ∧ RoundKeeps geo restor (deleteOrphanRound geo g) ∧
      RoundKeeps geo restor (deleteOrphanRound geo (deleteOrphanRound geo g)))
    ⟨fun h => ⟨h.1, h.2.1, h.2.2⟩, fun h => ⟨h.first, h.second, h.third⟩⟩

theorem deleteOrphanNodes_later (g : Graph P L G D) : g.Later (deleteOrphanNodes g) := by
  apply DirGraph.foldl_later
  intro g n
  rw [deleteOrphanNode]
  split
  · exact DirGraph.delNd_later g n
  · exact DirGraph.Later.refl g

theorem deleteOrphanEdge_later (geo : Geo P L) (g : Graph P L G D) (n : ℕ) :
    g.Later (deleteOrphanEdge geo g n) := by
  rw [deleteOrphanEdge_eq]
  split
  · exact DirGraph.delNd_later g n
  · exact DirGraph.Later.refl g

theorem deleteOrphanRound_later (geo : Geo P L) (g : Graph P L G D) :
    g.Later (deleteOrphanRound geo g) :=
  DirGraph.foldl_later _ (deleteOrphanEdge_later geo) g.nds g

theorem deleteOrphanRound_guarded (hkeep : RoundKeeps geo restor g) (h : Guarded (g, restor)) :
    Guarded (deleteOrphanRound geo g, restor) := by
  refine hkeep.foldl_inv (fun g => Guarded (g, restor)) h fun g n _ hkeep h => (h.stay ?_).1
  intro e he hnamed
  rw [deleteOrphanEdge_eq]
  split
  · rename_i horphan
    have hend : ¬ e.hasEnd n := fun hend => hkeep horphan e he hend hnamed
    exact ⟨DirGraph.mem_delNd_edges.2 ⟨he, fun h => hend (Or.inl h), fun h => hend (Or.inr h)⟩, rfl⟩
  · exact ⟨he, rfl⟩

theorem deleteOrphanRound_dangling (hnot : ¬ RoundKeeps geo restor g) :
    Dangling (deleteOrphanRound geo g, restor) := by
  refine foldl_of_not_foldMeets (fun _ => True) (fun g : Graph P L G D => Dangling (g, restor)) hnot
    trivial (fun _ _ _ _ => trivial) (fun g n _ _ h => h.later (deleteOrphanEdge_later geo g n)) ?_
  intro g n _ _ hnot
  rw [OrphanKeeps] at hnot
  push Not at hnot
  obtain ⟨horphan, e, he, hend, hnamed⟩ := hnot
  apply hnamed.dangling he (deleteOrphanEdge_later geo g n)
  rw [deleteOrphanEdge_eq, if_pos horphan, DirGraph.mem_delNd_edges]
  rintro ⟨-, hfrom, hto⟩
  exact hend.elim hfrom hto

theorem deleteOrphanEdges_later (geo : Geo P L) (g : Graph P L G D) :
    g.Later (deleteOrphanEdges geo g) :=
  ((deleteOrphanRound_later geo g).trans (deleteOrphanRound_later geo _)).trans
    (deleteOrphanRound_later geo _)

theorem deleteOrphanEdges_guarded (hkeep : OrphansKeep geo restor g) (h : Guarded (g, restor)) :
    Guarded (deleteOrphanEdges geo g, restor) :=
  deleteOrphanRound_guarded hkeep.third
    (deleteOrphanRound_guarded hkeep.second (deleteOrphanRound_guarded hkeep.first h))

theorem deleteOrphanEdges_dangling (hnot : ¬ OrphansKeep geo restor g) :
    Dangling (deleteOrphanEdges geo g, restor) := by
  by_cases hfirst : RoundKeeps geo restor g
  · by_cases hsecond : RoundKeeps geo restor (deleteOrphanRound geo g)
    · exact deleteOrphanRound_dangling fun hthird => hnot ⟨hfirst, hsecond, hthird⟩
    · exact (deleteOrphanRound_dangling hsecond).later (deleteOrphanRound_later geo _)
  · exact ((deleteOrphanRound_dangling hfirst).later (deleteOrphanRound_later geo _)).later
      (deleteOrphanRound_later geo _)

/-- A node without edges takes no edge with it. -/
theorem deleteOrphanNodes_guarded (h : Guarded (g, restor)) :
    Guarded (deleteOrphanNodes g, restor) := by
  refine foldl_inv deleteOrphanNode (fun g : Graph P L G D => Guarded (g, restor)) g.nds h ?_
  intro g n _ h
  refine (h.stay ?_).1
  intro e he _
  rw [deleteOrphanNode]
  split
  · rename_i htest
    have hdeg : (g.getAdjListIn n).length + (g.getAdjListOut n).length = 0 := htest.1
    have hin : g.getAdjListIn n = [] := List.eq_nil_of_length_eq_zero (by omega)
    have hout : g.getAdjListOut n = [] := List.eq_nil_of_length_eq_zero (by omega)
    refine ⟨DirGraph.mem_delNd_edges.2 ⟨he, fun hfrom => ?_, fun hto => ?_⟩, rfl⟩
    · have hmem := DirGraph.mem_getAdjListOut.2 ⟨he, hfrom⟩
      rw [hout] at hmem
      exact List.not_mem_nil hmem
    · have hmem := DirGraph.mem_getAdjListIn.2 ⟨he, hto⟩
      rw [hin] at hmem
      exact List.not_mem_nil hmem
  · exact ⟨he, rfl⟩

end orphans

section snapping
variable {P L : Type*} {geo : Geo P L} {st st' : Graph P L ℕ StationData × Restrictor}

theorem splitEdge_later (geo : Geo P L) (st : Graph P L ℕ StationData × Restrictor) (e : Edge)
    (s : NodePayload P ℕ StationData) : st.1.Later (splitEdge geo st e s).1 := by
  unfold splitEdge
  dsimp only
  refine DirGraph.Later.trans ?_ (DirGraph.delEdg_later _ _ _)
  refine DirGraph.Later.trans ?_ (DirGraph.setPl_later _ _ _)
  refine DirGraph.Later.trans ?_ (DirGraph.addEdg_later _ _ _ _)
  refine DirGraph.Later.trans ?_ (DirGraph.setPl_later _ _ _)
  exact (DirGraph.addNd_later st.1 s).trans (DirGraph.addEdg_later _ _ _ _)

theorem SplitGraph.replaces {g g' : Graph P L ℕ StationData} {e ne nf : Edge}
    {s : NodePayload P ℕ StationData} (h : SplitGraph geo g e s ne nf g') (hhalves : Halves g e ne nf)
    (he : e ∈ g.edges) : Replaces g g' e ne ∧ Replaces g g' e nf := by
  have hgone : e ∉ g'.edges := by
    intro hmem
    cases (h.edges e).1 hmem with
    | inl hold => exact hold.2 rfl
    | inr hnew =>
      cases hnew with
      | inl heq => exact hhalves.fresh.1 (heq ▸ he)
      | inr heq => exact hhalves.fresh.2 (heq ▸ he)
  constructor
  · exact ⟨⟨he, hgone⟩, ⟨hhalves.fresh.1, (h.edges ne).2 (Or.inr (Or.inl rfl))⟩, _, _, h.first⟩
  · exact ⟨⟨he, hgone⟩, ⟨hhalves.fresh.2, (h.edges nf).2 (Or.inr (Or.inr rfl))⟩, _, _, h.second⟩

theorem RuleSplit.names {e ne nf x' : Edge} {v : ℕ} {r r' : RulePair} (h : RuleSplit e ne nf v r r')
    (hname : names r' x') : ∃ x, Trgraph.names r x ∧ PartAt e ne nf v x x' := by
  cases hname with
  | inl hfirst => exact ⟨_, Or.inl rfl, hfirst ▸ h.first⟩
  | inr hsecond =>
    have hrel := h.second
    rw [hsecond] at hrel
    cases hold : r.second with
    | none =>
      rw [hold] at hrel
      cases hrel
    | some x =>
      rw [hold] at hrel
      cases hrel with
      | some hpart => exact ⟨x, Or.inr hold, hpart⟩

theorem splitEdge_guarded {e : Edge} (hlive : st.1.Live) (he : e ∈ st.1.edges)
    (s : NodePayload P ℕ StationData) (h : Guarded st) :
    Guarded (splitEdge geo st e s) ∧ RulesFollow st (splitEdge geo st e s) := by
  obtain ⟨ne, nf, hhalves, hgraph, -⟩ := splitEdge_spec geo st.2 s hlive he
  obtain ⟨hsplit, hincident⟩ := splitEdge_rules hlive h.incident he hhalves hgraph
  obtain ⟨hne, hnf⟩ := hgraph.replaces hhalves he
  have hkept : ∀ x ∈ st.1.edges, x ≠ e →
      x ∈ (splitEdge geo st e s).1.edges ∧ (splitEdge geo st e s).1.pl x = st.1.pl x := by
    intro x hx hxe
    refine ⟨(hgraph.edges x).2 (Or.inl ⟨hx, hxe⟩), hgraph.other x ?_ ?_⟩
    · exact fun heq => hhalves.fresh.1 (heq ▸ hx)
    · exact fun heq => hhalves.fresh.2 (heq ▸ hx)
  have hpart : ∀ v x x' y, PartAt e ne nf v x x' → Replaces st.1 (splitEdge geo st e s).1 x y →
      Replaces st.1 (splitEdge geo st e s).1 x x' := by
    intro v x x' y hpart hy
    have hxe : x = e := by
      by_contra hxe
      exact hy.gone.2 (hkept x hy.gone.1 hxe).1
    rw [hxe]
    cases (hpart.part hxe).1 with
    | inl heq => exact heq ▸ hne
    | inr heq => exact heq ▸ hnf
  have hfollow : ∀ v r r', RuleSplit e ne nf v r r' →
      RuleFollows st.1 (splitEdge geo st e s).1 r r' := by
    intro v r r' hr
    refine ⟨fun y hy => hpart v _ _ y hr.first hy, fun x y hx hy => ?_⟩
    have hrel := hr.second
    rw [hx] at hrel
    generalize r'.second = second at hrel
    cases hrel with
    | some hx => exact ⟨_, rfl, hpart v _ _ y hx hy⟩
  refine ⟨⟨hincident, ?_⟩, ⟨?_, ?_⟩⟩
  · have htable : ∀ v rs rs', List.Forall₂ (RuleSplit e ne nf v) rs rs' →
        (∀ r ∈ rs, r ∈ st.2.rulesAt v) → ∀ r' ∈ rs', ∀ x', names r' x' →
          ((splitEdge geo st e s).1.pl x').is_restricted = true := by
      intro v rs rs' hrs hmem r' hr' x' hname
      obtain ⟨r, hr, hrel⟩ := forall₂_mem_right hrs hr'
      obtain ⟨x, hx, hpart⟩ := hrel.names hname
      have hflag := h.flagged v r (hmem r hr) x hx
      by_cases hxe : x = e
      · rw [hxe] at hflag
        cases (hpart.part hxe).1 with
        | inl heq => rw [heq, hgraph.first]; exact hflag
        | inr heq => rw [heq, hgraph.second]; exact hflag
      · rw [hpart.other hxe, (hkept x (h.live v r (hmem r hr) x hx) hxe).2]
        exact hflag
    intro v r' hr' x' hname
    cases List.mem_append.1 hr' with
    | inl hr' =>
      exact htable v _ _ (hsplit.pos v) (fun r hr => List.mem_append_left _ hr) r' hr' x' hname
    | inr hr' =>
      exact htable v _ _ (hsplit.neg v) (fun r hr => List.mem_append_right _ hr) r' hr' x' hname
  · exact fun v => (hsplit.pos v).imp fun r r' hr => hfollow v r r' hr
  · exact fun v => (hsplit.neg v).imp fun r r' hr => hfollow v r r' hr

theorem SnapStep.guarded (hstep : SnapStep geo st st') (hproper : st.1.Proper) (h : Guarded st) :
    Guarded st' ∧ RulesFollow st st' := by
  cases hstep with
  | info restor hsame =>
    apply h.stay
    intro e he _
    rw [hsame.edges, hsame.pl]
    exact ⟨he, rfl⟩
  | split he s => exact splitEdge_guarded hproper.live he s h
  | node g restor p =>
    apply h.stay
    exact fun e he _ => ⟨he, rfl⟩

theorem mapAt_names {restor : Restrictor} {f : RulePair → RulePair} {e : Edge} (via : ℕ)
    (hf : ∀ r, names r e → names (f r) e) {v : ℕ} {r : RulePair} (hr : r ∈ restor.rulesAt v)
    (hname : names r e) : ∃ r' ∈ (restor.mapAt via f).rulesAt v, names r' e := by
  have htable : ∀ t : RuleTable, r ∈ t.rules v → ∃ r' ∈ (t.mapAt via f).rules v, names r' e := by
    intro t hr
    rw [mapAt_rules]
    split
    · exact ⟨f r, List.mem_map_of_mem hr, hf r hname⟩
    · exact ⟨r, hr, hname⟩
  cases List.mem_append.1 hr with
  | inl hr =>
    obtain ⟨r', hr', hname'⟩ := htable restor.pos hr
    exact ⟨r', List.mem_append_left _ hr', hname'⟩
  | inr hr =>
    obtain ⟨r', hr', hname'⟩ := htable restor.neg hr
    exact ⟨r', List.mem_append_right _ hr', hname'⟩

/-- A pointer to an edge that has gone stays while rules about another edge are changed. -/
theorem replaceEdge_names {restor : Restrictor} {e old newA newB : Edge} {v : ℕ} {r : RulePair}
    (hne : e ≠ old) (hr : r ∈ restor.rulesAt v) (hname : names r e) :
    ∃ r' ∈ (restor.replaceEdge old newA newB).rulesAt v, names r' e := by
  have hf : ∀ (x : Edge) (r : RulePair), names r e → names (replaceRule old x r) e := by
    intro x r hname
    cases hname with
    | inl hfirst =>
      refine Or.inl ?_
      rw [replaceRule]
      exact (if_neg fun h => hne (hfirst.symm.trans h)).trans hfirst
    | inr hsecond =>
      refine Or.inr ?_
      rw [replaceRule]
      exact (if_neg fun h => hne (Option.some.inj (hsecond.symm.trans h))).trans hsecond
  obtain ⟨r', hr', hname'⟩ := mapAt_names old.getFrom (hf _) hr hname
  exact mapAt_names old.getTo (hf _) hr' hname'

theorem duplicateEdge_names {restor : Restrictor} {e old : Edge} (newE : Edge) {v : ℕ} {r : RulePair}
    (hne : e ≠ old) (hr : r ∈ restor.rulesAt v) (hname : names r e) :
    ∃ r' ∈ (restor.duplicateEdge old newE).rulesAt v, names r' e := by
  have hf : ∀ (via : ℕ) (r : RulePair), names r e → names (duplicateRule old via newE r) e := by
    intro via r hname
    cases hname with
    | inl hfirst =>
      refine Or.inl ?_
      rw [duplicateRule]
      exact (if_neg fun h => hne (hfirst.symm.trans h.1)).trans hfirst
    | inr hsecond =>
      refine Or.inr ?_
      rw [duplicateRule]
      exact (if_neg fun h => hne (Option.some.inj (hsecond.symm.trans h.1))).trans hsecond
  obtain ⟨r', hr', hname'⟩ := mapAt_names old.getFrom (hf _) hr hname
  exact mapAt_names old.getTo (hf _) hr' hname'

theorem SnapStep.dangling (hstep : SnapStep geo st st') (hproper : st.1.Proper) (h : Dangling st) :
    Dangling st' := by
  cases hstep with
  | info restor hsame =>
    apply h.later
    constructor
    · rw [hsame.edges]
      exact fun e => Or.inl
    · rw [hsame.nextEdge]
  | @split _ e he s =>
    obtain ⟨ne, nf, -, -, hrestor⟩ := splitEdge_spec geo st.2 s hproper.live he
    have hlater := splitEdge_later geo st e s
    obtain ⟨v, r, hr, x, hname, hgone, hid⟩ := h
    have hne : x ≠ e := fun heq => hgone (heq ▸ he)
    have hrule : ∃ r' ∈ (st.2.replaceEdge e ne nf).rulesAt v, names r' x :=
      replaceEdge_names hne hr hname
    obtain ⟨r', hr', hname'⟩ := hrule
    rw [← hrestor] at hr'
    exact ⟨v, r', hr', x, hname', hlater.gone hgone hid, Nat.lt_of_lt_of_le hid hlater.nextEdge⟩
  | node g restor p => exact h.later (DirGraph.addNd_later g p)

abbrev SnapFollows (geo : Geo P L) : Graph P L ℕ StationData × Restrictor →
    Graph P L ℕ StationData × Restrictor → Prop :=
  Relation.ReflTransGen fun st st' => SnapStep geo st st' ∧ RulesFollow st st'

theorem snapSteps_guarded (hsteps : SnapSteps geo st st') (hproper : st.1.Proper)
    (h : Guarded st) : st'.1.Proper ∧ Guarded st' ∧ SnapFollows geo st st' := by
  induction hsteps with
  | refl => exact ⟨hproper, h, Relation.ReflTransGen.refl⟩
  | tail _ hstep ih =>
    obtain ⟨hproper', hguarded, hfollows⟩ := ih
    obtain ⟨hnext, hfollow⟩ := hstep.guarded hproper' hguarded
    exact ⟨hstep.proper hproper', hnext, hfollows.tail ⟨hstep, hfollow⟩⟩

theorem snapSteps_dangling (hsteps : SnapSteps geo st st') (hproper : st.1.Proper)
    (h : Dangling st) : st'.1.Proper ∧ Dangling st' := by
  induction hsteps with
  | refl => exact ⟨hproper, h⟩
  | tail _ hstep ih => exact ⟨hstep.proper ih.1, hstep.dangling ih.1 ih.2⟩

end snapping

section passes
variable {P L G D : Type*} {geo : Geo P L} {g : Graph P L G D} {restor : Restrictor} {n : ℕ}

theorem Guarded.withPl (h : Guarded (g, restor)) {q : Edge → Payload P L}
    (hq : ∀ e ∈ g.edges, (q e).is_restricted = (g.pl e).is_restricted) :
    Guarded (g.withPl q, restor) := by
  have hstay : NamedStay restor g (g.withPl q) := fun e he _ => ⟨he, hq e he⟩
  exact (h.stay hstay).1

section collapse
variable [Add L]

theorem collapseAt_later (geo : Geo P L) (g : Graph P L G D) (n : ℕ) : g.Later (collapseAt geo g n) := by
  cases collapseAt_cases geo g n with
  | inl hround =>
    obtain ⟨ea, eb, -, heq⟩ := hround
    rw [heq, contract]
    refine DirGraph.Later.trans ?_ (DirGraph.delEdg_later _ _ _)
    refine DirGraph.Later.trans ?_ (DirGraph.delEdg_later _ _ _)
    split
    · exact DirGraph.addEdg_later g _ _ _
    · exact DirGraph.addEdg_later g _ _ _
  | inr heq =>
    rw [heq]
    exact DirGraph.Later.refl g

omit [Add L] in
theorem similar_unrestricted {a b : Edge} (h : areEdgesSimilar g a b = true) :
    (g.pl a).is_restricted = false ∧ (g.pl b).is_restricted = false := by
  by_contra hnot
  rw [not_and_or, Bool.not_eq_false, Bool.not_eq_false] at hnot
  rw [areEdgesSimilar] at h
  simp [hnot] at h

theorem collapseAt_guarded (geo : Geo P L) (hproper : g.Proper) (h : Guarded (g, restor)) :
    Guarded (collapseAt geo g n, restor) ∧ RulesFollow (g, restor) (collapseAt geo g n, restor) := by
  apply h.stay
  intro e he hnamed
  cases collapseAt_cases geo g n with
  | inr heq =>
    rw [heq]
    exact ⟨he, rfl⟩
  | inl hround =>
    obtain ⟨ea, eb, hcon, heq⟩ := hround
    obtain ⟨a, b, f, hjoined⟩ := contract_spec geo hcon hproper.nodup
    obtain ⟨v, r, hr, hname⟩ := hnamed.rule
    have hflag : (g.pl e).is_restricted = true := h.flagged v r hr e hname
    obtain ⟨ha, hb⟩ := similar_unrestricted hcon.similar
    have hne : ∀ x, (g.pl x).is_restricted = false → e ≠ x := by
      rintro x hx rfl
      exact absurd (hflag.symm.trans hx) Bool.true_eq_false.mp
    have hpair : e ≠ a ∧ e ≠ b := by
      cases hjoined.order with
      | inl horder => exact ⟨horder.2.1 ▸ hne eb hb, horder.2.2 ▸ hne ea ha⟩
      | inr horder => exact ⟨horder.2.1 ▸ hne ea ha, horder.2.2 ▸ hne eb hb⟩
    have hf : e ≠ f := fun heq => hjoined.graph.fresh (heq ▸ he)
    rw [heq, hjoined.graph.edges, hjoined.graph.pl, Function.update_of_ne hf]
    exact ⟨Or.inl ⟨he, hpair⟩, rfl⟩

/-- In every round of `collapse_edges` the rules follow the edges. -/
def CollapseFollows (geo : Geo P L) (restor : Restrictor) (g : Graph P L G D) : Prop :=
  FoldMeets (collapseAt geo) (fun g n => RulesFollow (g, restor) (collapseAt geo g n, restor)) g g.nds

theorem collapseEdges_guarded (geo : Geo P L) (hproper : g.Proper) (h : Guarded (g, restor)) :
    Guarded (collapseEdges geo g, restor) ∧ CollapseFollows geo restor g := by
  obtain ⟨hlast, hfollow⟩ := foldl_meets (collapseAt geo)
    (fun g n => RulesFollow (g, restor) (collapseAt geo g n, restor))
    (fun g : Graph P L G D => g.Proper ∧ Guarded (g, restor)) g.nds ⟨hproper, h⟩ fun g n _ h => by
      obtain ⟨hnext, hfollow⟩ := collapseAt_guarded (n := n) geo h.1 h.2
      exact ⟨⟨collapseAt_proper geo g n h.1, hnext⟩, hfollow⟩
  exact ⟨hlast.2, hfollow⟩

end collapse

theorem writeGeometries_guarded (geo : Geo P L) (hproper : g.Proper) (h : Guarded (g, restor)) :
    Guarded (writeGeometries geo g, restor) := by
  obtain ⟨q, hg, hq⟩ := writeGeometries_spec geo hproper
  rw [hg]
  exact h.withPl fun e he => by rw [hq e he]; rfl

theorem writeGeometries_later (geo : Geo P L) (g : Graph P L G D) :
    g.Later (writeGeometries geo g) :=
  DirGraph.foldl_later _ (fun g n => DirGraph.foldl_later _
    (fun _ _ => DirGraph.setPl_later _ _ _) (g.getAdjListOut n) g) g.nds g

theorem simplifyGeometries_guarded [LinearOrder L] [Zero L] (geo : Geo P L) (d : L)
    (hproper : g.Proper) (h : Guarded (g, restor)) :
    Guarded (simplifyGeometries geo d g, restor) := by
  obtain ⟨q, hg, hq⟩ := simplifyGeometries_spec geo d hproper
  rw [hg]
  exact h.withPl fun e he => by rw [hq e he]; rfl

theorem simplifyGeometries_later [LinearOrder L] [Zero L] (geo : Geo P L) (d : L)
    (g : Graph P L G D) : g.Later (simplifyGeometries geo d g) :=
  DirGraph.foldl_later _ (fun g n => DirGraph.foldl_later _
    (fun _ _ => DirGraph.setPl_later _ _ _) (g.getAdjListOut n) g) g.nds g

/-- The rules that `writeODirEdgs` redirects name edges and copies of edges. -/
theorem writeODirEdgs_live (hproper : g.Proper) (h : Guarded (g, restor)) :
    RulesLive (writeODirEdgs g restor) := by
  intro v r' hr' e' hname
  obtain ⟨I, -⟩ := writeODirEdgs_invariant (h.incident v) fun e he => (hproper.live.ends e he).1
  generalize writeODirEdgs g restor = st at I hr' ⊢
  have hmem : ∀ wrong, ∀ x ∈ g.edges, redirect g st.1 wrong x ∈ st.1.edges := fun wrong x hx =>
    (redirect_mem g wrong (I.old x hx).1).1
  have hrule : ∃ r ∈ restor.rulesAt v, r' = redirectRule g st.1 v r := by
    cases List.mem_append.1 hr' with
    | inl hr' =>
      rw [I.pos] at hr'
      obtain ⟨r, hr, heq⟩ := List.mem_map.1 hr'
      exact ⟨r, List.mem_append_left _ hr, heq.symm⟩
    | inr hr' =>
      rw [I.neg] at hr'
      obtain ⟨r, hr, heq⟩ := List.mem_map.1 hr'
      exact ⟨r, List.mem_append_right _ hr, heq.symm⟩
  obtain ⟨r, hr, rfl⟩ := hrule
  cases hname with
  | inl hfirst => exact hfirst ▸ hmem _ _ (h.live v r hr _ (Or.inl rfl))
  | inr hsecond =>
    obtain ⟨x, hx, heq⟩ := Option.map_eq_some_iff.1 hsecond
    exact heq ▸ hmem _ _ (h.live v r hr x (Or.inr hx))

theorem writeODirEdg_dangling {st : Graph P L G D × Restrictor} {e : Edge} (he : e ∈ st.1.edges)
    (h : Dangling st) :
    Dangling (writeODirEdg st e) ∧ ∀ x ∈ st.1.edges, x ∈ (writeODirEdg st e).1.edges := by
  obtain ⟨g, restor⟩ := st
  cases hget : g.getEdg e.getTo e.getFrom with
  | some x =>
    simp only [writeODirEdg, hget]
    exact ⟨h, fun _ hx => hx⟩
  | none =>
    have hlater := DirGraph.addEdg_later g e.getTo e.getFrom (g.pl e).revCopy
    simp only [writeODirEdg, hget]
    refine ⟨?_, fun x hx => DirGraph.mem_addEdg.2 (Or.inl hx)⟩
    split
    · obtain ⟨v, r, hr, x, hname, hgone, hid⟩ := h
      have hne : x ≠ e := fun heq => hgone (heq ▸ he)
      obtain ⟨r', hr', hname'⟩ :=
        duplicateEdge_names (g.addEdg e.getTo e.getFrom (g.pl e).revCopy).1 hne hr hname
      exact ⟨v, r', hr', x, hname', hlater.gone hgone hid, Nat.lt_of_lt_of_le hid hlater.nextEdge⟩
    · exact h.later hlater

theorem writeODirEdgs_dangling (h : Dangling (g, restor)) : Dangling (writeODirEdgs g restor) := by
  have hedges : ∀ (es : List Edge) (st : Graph P L G D × Restrictor), (∀ e ∈ es, e ∈ st.1.edges) →
      Dangling st → Dangling (es.foldl writeODirEdg st) := by
    intro es
    induction es with
    | nil => exact fun st _ h => h
    | cons e es ih =>
      intro st hes h
      obtain ⟨hnext, hkept⟩ := writeODirEdg_dangling (hes e List.mem_cons_self) h
      exact ih _ (fun x hx => hkept x (hes x (List.mem_cons_of_mem _ hx))) hnext
  exact foldl_inv (fun (st : Graph P L G D × Restrictor) n =>
      (st.1.getAdjListOut n).foldl writeODirEdg st) Dangling g.nds h
    fun st n _ h => hedges _ st (fun e he => (DirGraph.mem_getAdjListOut.1 he).1) h

end passes

section run
variable {P L : Type*} [AddCommMonoid L] [LinearOrder L]

/-- `fix_gaps` moves no edge that a rule names, and `delete_orphan_edges` deletes none. -/
structure CleanUp.KeepsNamed (C : CleanUp P L) (st : Stations P L) (restor : Restrictor) : Prop where
  moves : MovesKeep C.geo C.cells restor st.g
  orphans : OrphansKeep C.geo (C.snapStations st restor).restor
    (deleteOrphanNodes (C.snapStations st restor).st.g)
  again : OrphansKeep C.geo (C.snapStations st restor).restor
    (deleteOrphanNodes (C.collapse (C.snapStations st restor).st.g))

/-- In the passes that make edges in the place of others the rules follow the edges. -/
structure CleanUp.Follows (C : CleanUp P L) (st : Stations P L) (restor : Restrictor) : Prop where
  moves : MovesFollow C.geo C.cells restor st.g
  snaps : SnapFollows C.geo ((C.fixGaps st).g, restor)
    ((C.snapStations st restor).st.g, (C.snapStations st restor).restor)
  collapse : CollapseFollows C.geo (C.snapStations st restor).restor
    (C.deleteOrphans (C.snapStations st restor).st.g)

theorem CleanUp.KeepsNamed.survive {C : CleanUp P L} {st : Stations P L} {restor : Restrictor}
    (hkeep : C.KeepsNamed st restor) (hproper : st.g.Proper) (h : Guarded (st.g, restor)) :
    RulesLive (C.run st restor) ∧ C.Follows st restor := by
  obtain ⟨hfixed, hmoves⟩ := fixGaps_guarded hkeep.moves h
  have hwritten : Guarded ((C.fixGaps st).g, restor) :=
    writeGeometries_guarded C.geo (Trgraph.fixGaps_proper C.geo C.cells hproper) hfixed
  obtain ⟨hproper₁, hsteps⟩ := C.snapStations_steps restor hproper
  obtain ⟨-, hsnapped, hsnaps⟩ := snapSteps_guarded hsteps (C.fixGaps_proper hproper) hwritten
  have horphans := hkeep.orphans
  have hagain := hkeep.again
  have hpruned : Guarded (C.deleteOrphans (C.snapStations st restor).st.g,
      (C.snapStations st restor).restor) :=
    deleteOrphanEdges_guarded horphans (deleteOrphanNodes_guarded hsnapped)
  obtain ⟨hcollapsed, hcollapse⟩ := collapseEdges_guarded C.geo
    ((C.deleteOrphans_shrunk _).proper hproper₁) hpruned
  have hproper₂ := (C.deleteOrphans_shrunk _).proper (C.collapse_proper _ hproper₁)
  have hpruned' := deleteOrphanEdges_guarded hagain (deleteOrphanNodes_guarded hcollapsed)
  obtain ⟨q, hg, -⟩ := simplifyGeometries_spec C.geo C.tolerance hproper₂
  have hproper₃ : (C.simplify (C.snapStations st restor).st.g).Proper := by
    rw [CleanUp.simplify, hg]
    exact hproper₂.withPl q
  have hsimplified := simplifyGeometries_guarded C.geo C.tolerance hproper₂ hpruned'
  exact ⟨writeODirEdgs_live hproper₃ hsimplified, hmoves, hsnaps, hcollapse⟩

theorem CleanUp.keepsNamed_of_live {C : CleanUp P L} {st : Stations P L} {restor : Restrictor}
    (hproper : st.g.Proper) (hlive : RulesLive (C.run st restor)) : C.KeepsNamed st restor := by
  obtain ⟨-, hsteps⟩ := C.snapStations_steps restor hproper
  have hlast : ∀ {g : Graph P L ℕ StationData}, Dangling (g, (C.snapStations st restor).restor) →
      g.Later (C.simplify (C.snapStations st restor).st.g) → False := fun h hlater =>
    (writeODirEdgs_dangling (h.later hlater)).not_live hlive
  have hsimplify : ∀ g : Graph P L ℕ StationData, g.Later (simplifyGeometries C.geo C.tolerance g) :=
    simplifyGeometries_later C.geo C.tolerance
  have hcollapse : (C.deleteOrphans (C.snapStations st restor).st.g).Later
      (C.simplify (C.snapStations st restor).st.g) := by
    refine DirGraph.Later.trans ?_ (hsimplify _)
    refine DirGraph.Later.trans ?_ (deleteOrphanEdges_later C.geo _)
    refine DirGraph.Later.trans ?_ (deleteOrphanNodes_later _)
    exact DirGraph.foldl_later _ (collapseAt_later C.geo) _ _
  constructor
  · by_contra hnot
    have hwritten : Dangling ((C.fixGaps st).g, restor) :=
      (fixGaps_dangling hnot).later (writeGeometries_later C.geo _)
    have hsnapped := (snapSteps_dangling hsteps (C.fixGaps_proper hproper) hwritten).2
    refine hlast hsnapped (DirGraph.Later.trans ?_ hcollapse)
    exact (deleteOrphanNodes_later _).trans (deleteOrphanEdges_later C.geo _)
  · by_contra hnot
    exact hlast (deleteOrphanEdges_dangling hnot) hcollapse
  · by_contra hnot
    exact hlast (deleteOrphanEdges_dangling hnot) (hsimplify _)

/-- The rules survive the clean-up exactly when no pass takes away an edge that a rule names. -/
theorem cleanUp_rules_iff (C : CleanUp P L) {st : Stations P L} {restor : Restrictor}
    (hproper : st.g.Proper) (hrules : Guarded (st.g, restor)) :
    RulesLive (C.run st restor) ∧ C.Follows st restor ↔ C.KeepsNamed st restor :=
  ⟨fun h => CleanUp.keepsNamed_of_live hproper h.1, fun h => h.survive hproper hrules⟩

omit [AddCommMonoid L] [LinearOrder L] in
theorem sampleRules_guarded {g : Graph P L ℕ StationData} {first second : Edge}
    (hfirst : first ∈ g.edges ∧ first.hasEnd 1 ∧ (g.pl first).is_restricted = true)
    (hsecond : second ∈ g.edges ∧ second.hasEnd 1 ∧ (g.pl second).is_restricted = true) :
    Guarded (g, sampleRules first second) := by
  have hrule : ∀ v, ∀ r ∈ (sampleRules first second).rulesAt v,
      v = 1 ∧ r = ⟨first, some second⟩ := by
    intro v r hr
    have hr : r ∈ if v = 1 then [(⟨first, some second⟩ : RulePair)] else [] := hr
    split at hr
    · exact ⟨‹v = 1›, List.mem_singleton.1 hr⟩
    · exact absurd hr List.not_mem_nil
  constructor
  · intro v r hr
    obtain ⟨rfl, rfl⟩ := hrule v r hr
    refine ⟨⟨hfirst.1, hfirst.2.1⟩, fun e he => ?_⟩
    cases he
    exact ⟨hsecond.1, hsecond.2.1⟩
  · intro v r hr e hname
    obtain ⟨rfl, rfl⟩ := hrule v r hr
    cases hname with
    | inl heq => exact heq ▸ hfirst.2.2
    | inr heq =>
      cases heq
      exact hsecond.2.2

theorem trip_fresh : ∀ e ∈ [(⟨0, 0, 1⟩ : Edge), ⟨1, 1, 2⟩, ⟨2, 2, 3⟩, ⟨3, 3, 0⟩], e.id < 4 := by
  decide

theorem trip_simple : ∀ e ∈ [(⟨0, 0, 1⟩ : Edge), ⟨1, 1, 2⟩, ⟨2, 2, 3⟩, ⟨3, 3, 0⟩],
    ∀ e' ∈ [(⟨0, 0, 1⟩ : Edge), ⟨1, 1, 2⟩, ⟨2, 2, 3⟩, ⟨3, 3, 0⟩],
      e.getFrom = e'.getFrom → e.getTo = e'.getTo → e = e' := by
  decide

def restrictedTrip : Stations ℕ ℕ :=
  streetsOf 4 [⟨0, 0, 1⟩, ⟨1, 1, 2⟩, ⟨2, 2, 3⟩, ⟨3, 3, 0⟩] 0 true 4 trip_fresh trip_simple

theorem cleanUp_rules_trip :
    let restor := sampleRules ⟨0, 0, 1⟩ ⟨1, 1, 2⟩
    RulesLive (lineCleanUp.run restrictedTrip restor) ∧ lineCleanUp.Follows restrictedTrip restor :=
  (cleanUp_rules_iff lineCleanUp ⟨⟨by decide, by decide, by decide⟩, by decide⟩
    (sampleRules_guarded (by decide) (by decide))).2 ⟨by decide, by decide, by decide⟩

theorem end_fresh : ∀ e ∈ [(⟨0, 0, 1⟩ : Edge), ⟨1, 1, 2⟩], e.id < 2 := by decide

theorem end_simple : ∀ e ∈ [(⟨0, 0, 1⟩ : Edge), ⟨1, 1, 2⟩],
    ∀ e' ∈ [(⟨0, 0, 1⟩ : Edge), ⟨1, 1, 2⟩],
      e.getFrom = e'.getFrom → e.getTo = e'.getTo → e = e' := by
  decide

def restrictedEnd : Stations ℕ ℕ :=
  streetsOf 3 [⟨0, 0, 1⟩, ⟨1, 1, 2⟩] 0 true 2 end_fresh end_simple

/-- The rule outlives the edges that it names. -/
theorem cleanUp_not_rules : ¬ ∀ (C : CleanUp ℕ ℕ) (st : Stations ℕ ℕ) (restor : Restrictor),
    st.g.Proper → Guarded (st.g, restor) →
      RulesLive (C.run st restor) ∧ C.Follows st restor := by
  intro h
  have hlive := (h { lineCleanUp with keys := [] } restrictedEnd (sampleRules ⟨0, 0, 1⟩ ⟨1, 1, 2⟩)
    ⟨⟨by decide, by decide, by decide⟩, by decide⟩
    (sampleRules_guarded (by decide) (by decide))).1
  have hedge := hlive 1 ⟨⟨0, 0, 1⟩, some ⟨1, 1, 2⟩⟩ (by decide) ⟨0, 0, 1⟩ (Or.inl rfl)
  exact absurd hedge (by decide)

end run

end Pfaedle.Trgraph

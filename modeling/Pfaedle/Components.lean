import Pfaedle.HopPaths
import Pfaedle.LiveGraph
import Pfaedle.StackSearch
import Pfaedle.Trgraph
import Mathlib.Data.Set.Card
import Mathlib.Order.Bounds.Basic

set_option autoImplicit false

/-!
# `graph::write_components` and `graph::writeSelfEdgs`

A component object is the number of components that were finished before it was made.
-/
namespace Pfaedle.Components
open DirGraphs LoopRules ODirEdges Restriction StackSearch Trgraph

section model
variable {P L G D : Type*}

/-- `get_component` of every node, null at first, and `minEdgeLvl` of the current component. -/
structure SearchState where
  component : ℕ → Option ℕ
  minEdgeLvl : ℕ

/-- An edge at `n`; the nodes that it puts on the stack come first. -/
def scanEdge (g : Graph P L G D) (n : ℕ) (st : SearchState × List ℕ) (e : Edge) :
    SearchState × List ℕ :=
  let level := (g.pl e).data.level
  let minEdgeLvl := if level < st.1.minEdgeLvl then level else st.1.minEdgeLvl
  let other := e.getOtherNd n
  ({ st.1 with minEdgeLvl }, if (st.1.component other).isNone then other :: st.2 else st.2)

def popNode (g : Graph P L G D) (comp : ℕ) (st : SearchState) (n : ℕ) : SearchState × List ℕ :=
  let st := { st with component := Function.update st.component n (some comp) }
  (g.getAdjListIn n).foldl (scanEdge g n) ((g.getAdjListOut n).foldl (scanEdge g n) (st, []))

def searchBound (g : Graph P L G D) : ℕ :=
  1 + 2 * (2 * g.edges.length) * g.nds.length + 2 * g.edges.length

structure WrittenComponents where
  component : ℕ → Option ℕ
  minEdgeLvl : ℕ → ℕ
  comp_counter : ℕ

def visitNode (g : Graph P L G D) (w : WrittenComponents) (n : ℕ) : WrittenComponents :=
  if (w.component n).isNone then
    let st := (run (popNode g w.comp_counter) (searchBound g) ⟨w.component, 7⟩ [n]).1
    { component := st.component
      minEdgeLvl := Function.update w.minEdgeLvl w.comp_counter st.minEdgeLvl
      comp_counter := w.comp_counter + 1 }
  else w

def writeComponents (g : Graph P L G D) (component : ℕ → Option ℕ) : WrittenComponents :=
  g.nds.foldl (visitNode g) ⟨component, fun _ => 7, 0⟩

def newEdge [Zero L] : Payload P L := ⟨0, false, false, ⟨[], 0, 0, []⟩⟩

def writeSelfEdg [Zero L] (g : Graph P L G D) (n : ℕ) : Graph P L G D :=
  if (g.npl n).si.isSome ∧ (g.getAdjListOut n).isEmpty then (g.addEdg n n newEdge).2 else g

def writeSelfEdgs [Zero L] (g : Graph P L G D) : Graph P L G D := g.nds.foldl writeSelfEdg g

end model

section joined
variable {P L G D : Type*} (g : Graph P L G D)

def Adjacent (n m : ℕ) : Prop :=
  ∃ e ∈ g.edges, (e.getFrom = n ∧ e.getTo = m) ∨ (e.getTo = n ∧ e.getFrom = m)

/-- There is an undirected path. -/
def Joined : ℕ → ℕ → Prop := Relation.ReflTransGen (Adjacent g)

/-- The levels that the least one of the component of `n` is taken from. -/
def levels (n : ℕ) : Set ℕ :=
  insert 7 {l | ∃ e ∈ g.edges, Joined g n e.getFrom ∧ (g.pl e).data.level = l}

variable {g}

theorem Adjacent.symm {n m : ℕ} (h : Adjacent g n m) : Adjacent g m n := by
  obtain ⟨e, he, hends⟩ := h
  exact ⟨e, he, hends.symm.imp And.symm And.symm⟩

theorem Joined.symm {n m : ℕ} (h : Joined g n m) : Joined g m n := by
  induction h with
  | refl => exact Relation.ReflTransGen.refl
  | tail _ hstep ih => exact ih.head hstep.symm

theorem Joined.trans {n m k : ℕ} (h : Joined g n m) (h' : Joined g m k) : Joined g n k :=
  Relation.ReflTransGen.trans h h'

theorem adjacent_of_edge {e : Edge} (he : e ∈ g.edges) : Adjacent g e.getFrom e.getTo :=
  ⟨e, he, Or.inl ⟨rfl, rfl⟩⟩

theorem joined_of_hasEnd {e : Edge} (he : e ∈ g.edges) {n v : ℕ} (h : Joined g n v)
    (hv : e.hasEnd v) : Joined g n e.getFrom := by
  cases hv with
  | inl hfrom => exact hfrom ▸ h
  | inr hto => exact (hto ▸ h).tail (adjacent_of_edge he).symm

theorem joined_mem (h : g.Live) {n m : ℕ} (hn : n ∈ g.nds) (hnm : Joined g n m) : m ∈ g.nds := by
  induction hnm with
  | refl => exact hn
  | tail _ hstep _ =>
    obtain ⟨e, he, hends⟩ := hstep
    cases hends with
    | inl hends => exact hends.2 ▸ (h.ends e he).2
    | inr hends => exact hends.2 ▸ (h.ends e he).1

theorem levels_congr {n m : ℕ} (h : Joined g n m) : levels g n = levels g m := by
  unfold levels
  congr 1
  ext l
  constructor
  · intro hl
    obtain ⟨e, he, hn, hlevel⟩ := hl
    exact ⟨e, he, h.symm.trans hn, hlevel⟩
  · intro hl
    obtain ⟨e, he, hm, hlevel⟩ := hl
    exact ⟨e, he, h.trans hm, hlevel⟩

end joined

section search
variable {P L G D : Type*} {g : Graph P L G D}

structure Scanned (g : Graph P L G D) (n : ℕ) (es : List Edge) (st st' : SearchState × List ℕ) :
    Prop where
  component : st'.1.component = st.1.component
  mem : ∀ m, m ∈ st'.2 ↔
    m ∈ st.2 ∨ (∃ e ∈ es, e.getOtherNd n = m) ∧ st.1.component m = none
  length : st'.2.length ≤ st.2.length + es.length
  keeps : st'.1.minEdgeLvl ≤ st.1.minEdgeLvl
  below : ∀ e ∈ es, st'.1.minEdgeLvl ≤ (g.pl e).data.level
  least : st'.1.minEdgeLvl = st.1.minEdgeLvl ∨
    ∃ e ∈ es, (g.pl e).data.level = st'.1.minEdgeLvl

theorem scanEdge_scanned (n : ℕ) (st : SearchState × List ℕ) (e : Edge) :
    Scanned g n [e] st (scanEdge g n st e) where
  component := rfl
  mem m := by
    simp only [scanEdge, List.mem_singleton, exists_eq_left, Option.isNone_iff_eq_none]
    split
    · rename_i hnone
      rw [List.mem_cons]
      constructor
      · intro hm
        cases hm with
        | inl hm => exact Or.inr ⟨hm.symm, hm ▸ hnone⟩
        | inr hm => exact Or.inl hm
      · intro hm
        cases hm with
        | inl hm => exact Or.inr hm
        | inr hm => exact Or.inl hm.1.symm
    · rename_i hsome
      constructor
      · exact Or.inl
      · intro hm
        cases hm with
        | inl hm => exact hm
        | inr hm => exact absurd hm.2 (hm.1 ▸ hsome)
  length := by
    simp only [scanEdge]
    split
    · exact Nat.le_refl _
    · exact Nat.le_add_right _ _
  keeps := by
    simp only [scanEdge]
    split
    · rename_i hlt
      exact Nat.le_of_lt hlt
    · exact Nat.le_refl _
  below x hx := by
    rw [List.mem_singleton.1 hx]
    simp only [scanEdge]
    split
    · exact Nat.le_refl _
    · rename_i hge
      exact Nat.le_of_not_lt hge
  least := by
    simp only [scanEdge, List.mem_singleton, exists_eq_left]
    split
    · exact Or.inr rfl
    · exact Or.inl rfl

theorem Scanned.trans {n : ℕ} {es es' : List Edge} {st st' st'' : SearchState × List ℕ}
    (h : Scanned g n es st st') (h' : Scanned g n es' st' st'') :
    Scanned g n (es ++ es') st st'' where
  component := h'.component.trans h.component
  mem m := by
    rw [h'.mem, h.mem, h.component]
    constructor
    · intro hm
      cases hm with
      | inl hm =>
        refine hm.imp_right fun hm => ⟨?_, hm.2⟩
        obtain ⟨e, he, hother⟩ := hm.1
        exact ⟨e, List.mem_append_left _ he, hother⟩
      | inr hm =>
        obtain ⟨e, he, hother⟩ := hm.1
        exact Or.inr ⟨⟨e, List.mem_append_right _ he, hother⟩, hm.2⟩
    · intro hm
      cases hm with
      | inl hm => exact Or.inl (Or.inl hm)
      | inr hm =>
        obtain ⟨⟨e, he, hother⟩, hnone⟩ := hm
        cases List.mem_append.1 he with
        | inl he => exact Or.inl (Or.inr ⟨⟨e, he, hother⟩, hnone⟩)
        | inr he => exact Or.inr ⟨⟨e, he, hother⟩, hnone⟩
  length := by
    have hfirst := h.length
    have hsecond := h'.length
    rw [List.length_append]
    omega
  keeps := h'.keeps.trans h.keeps
  below e he := by
    cases List.mem_append.1 he with
    | inl he => exact h'.keeps.trans (h.below e he)
    | inr he => exact h'.below e he
  least := by
    cases h'.least with
    | inl hsame =>
      rw [hsame]
      refine h.least.imp_right fun hex => ?_
      obtain ⟨e, he, hlevel⟩ := hex
      exact ⟨e, List.mem_append_left _ he, hlevel⟩
    | inr hex =>
      obtain ⟨e, he, hlevel⟩ := hex
      exact Or.inr ⟨e, List.mem_append_right _ he, hlevel⟩

theorem scanned_nil (n : ℕ) (st : SearchState × List ℕ) : Scanned g n [] st st :=
  ⟨rfl, fun m => by simp, Nat.le_refl _, Nat.le_refl _, by simp, Or.inl rfl⟩

theorem foldl_scanned (n : ℕ) (es : List Edge) (st : SearchState × List ℕ) :
    Scanned g n es st (es.foldl (scanEdge g n) st) := by
  induction es generalizing st with
  | nil => exact scanned_nil n st
  | cons e es ih => exact (scanEdge_scanned n st e).trans (ih _)

theorem popNode_scanned (comp : ℕ) (st : SearchState) (n : ℕ) :
    Scanned g n (g.getAdjListOut n ++ g.getAdjListIn n)
      (⟨Function.update st.component n (some comp), st.minEdgeLvl⟩, []) (popNode g comp st n) :=
  (foldl_scanned n _ _).trans (foldl_scanned n _ _)

theorem mem_adjLists {n : ℕ} {e : Edge} :
    e ∈ g.getAdjListOut n ++ g.getAdjListIn n ↔ e ∈ g.edges ∧ e.hasEnd n := by
  rw [List.mem_append, DirGraph.mem_getAdjListOut, DirGraph.mem_getAdjListIn, ← and_or_left]
  rfl

theorem adjacent_iff_otherNd {n m : ℕ} :
    (∃ e ∈ g.getAdjListOut n ++ g.getAdjListIn n, e.getOtherNd n = m) ↔ Adjacent g n m := by
  constructor
  · intro hex
    obtain ⟨e, he, hother⟩ := hex
    obtain ⟨he, hend⟩ := mem_adjLists.1 he
    refine ⟨e, he, ?_⟩
    cases hend with
    | inl hfrom => exact Or.inl ⟨hfrom, (DirGraph.otherNd_out hfrom).1 hother⟩
    | inr hto =>
      rw [Edge.getOtherNd, if_pos hto] at hother
      exact Or.inr ⟨hto, hother⟩
  · intro hadj
    obtain ⟨e, he, hends⟩ := hadj
    cases hends with
    | inl hends =>
      exact ⟨e, mem_adjLists.2 ⟨he, Or.inl hends.1⟩, (DirGraph.otherNd_out hends.1).2 hends.2⟩
    | inr hends =>
      refine ⟨e, mem_adjLists.2 ⟨he, Or.inr hends.1⟩, ?_⟩
      rw [Edge.getOtherNd, if_pos hends.1, hends.2]

theorem popNode_marks (comp : ℕ) :
    Marks (popNode g comp) (fun st v => (st.component v).isSome) (Adjacent g)
      (2 * g.edges.length) where
  mark st n v := by
    rw [(popNode_scanned comp st n).component]
    by_cases hv : v = n
    · subst hv
      simp only [Function.update_self, Option.isSome_some, or_true]
    · simp only [Function.update_of_ne hv, hv, or_false]
  push st n v := by
    have h := popNode_scanned (g := g) comp st n
    rw [h.mem, adjacent_iff_otherNd, h.component, Option.isSome_eq_false_iff,
      Option.isNone_iff_eq_none]
    simp only [List.not_mem_nil, false_or]
  fan st n := by
    have h := (popNode_scanned (g := g) comp st n).length
    have hout : (g.getAdjListOut n).length ≤ g.edges.length := List.length_filter_le _ _
    have hin : (g.getAdjListIn n).length ≤ g.edges.length := List.length_filter_le _ _
    rw [List.length_nil, List.length_append] at h
    omega

/-- The search from `start` that fills in the component `comp`, when `before` was there. -/
structure Searching (g : Graph P L G D) (before : ℕ → Option ℕ) (comp start : ℕ) (st : SearchState)
    (stack : List ℕ) : Prop where
  component : ∀ v, st.component v = before v ∨ (before v = none ∧ st.component v = some comp)
  stack : ∀ v ∈ stack, before v = none ∧ Joined g start v
  least : st.minEdgeLvl ∈ levels g start
  seven : st.minEdgeLvl ≤ 7
  below : ∀ v, before v = none → st.component v = some comp →
    ∀ e ∈ g.edges, e.hasEnd v → st.minEdgeLvl ≤ (g.pl e).data.level

theorem Searching.popNode {before : ℕ → Option ℕ} {comp start : ℕ} {st : SearchState} {n : ℕ}
    {stack : List ℕ} (h : Searching g before comp start st (n :: stack)) :
    Searching g before comp start (popNode g comp st n).1 ((popNode g comp st n).2 ++ stack) := by
  obtain ⟨hn, hjoined⟩ := h.stack n List.mem_cons_self
  have hscan := popNode_scanned (g := g) comp st n
  have hcomp : ∀ v, (Components.popNode g comp st n).1.component v =
      if v = n then some comp else st.component v := by
    intro v
    rw [hscan.component]
    exact Function.update_apply _ _ _ _
  have hstep : ∀ v, (Components.popNode g comp st n).1.component v = before v ∨
      (before v = none ∧ (Components.popNode g comp st n).1.component v = some comp) := by
    intro v
    rw [hcomp]
    by_cases hv : v = n
    · rw [if_pos hv]
      exact Or.inr ⟨hv ▸ hn, rfl⟩
    · rw [if_neg hv]
      exact h.component v
  constructor
  · exact hstep
  · intro v hv
    cases List.mem_append.1 hv with
    | inl hv =>
      have hpush := ((popNode_marks (g := g) comp).push st n v).1 hv
      refine ⟨?_, hjoined.tail hpush.1⟩
      have hnone := Option.isNone_iff_eq_none.1 (Option.isSome_eq_false_iff.1 hpush.2)
      cases hstep v with
      | inl hold => rw [← hold, hnone]
      | inr hnew => exact hnew.1
    | inr hv => exact h.stack v (List.mem_cons_of_mem _ hv)
  · cases hscan.least with
    | inl hsame =>
      rw [hsame]
      exact h.least
    | inr hex =>
      obtain ⟨e, he, hlevel⟩ := hex
      obtain ⟨he, hend⟩ := mem_adjLists.1 he
      exact Or.inr ⟨e, he, joined_of_hasEnd he hjoined hend, hlevel⟩
  · exact hscan.keeps.trans h.seven
  · intro v hv hnew e he hend
    rw [hcomp] at hnew
    by_cases hvn : v = n
    · subst hvn
      exact hscan.below e (mem_adjLists.2 ⟨he, hend⟩)
    · rw [if_neg hvn] at hnew
      exact hscan.keeps.trans (h.below v hv hnew e he hend)

theorem searching_start {before : ℕ → Option ℕ} {comp start : ℕ} (hstart : before start = none) :
    Searching g before comp start ⟨before, 7⟩ [start] where
  component v := Or.inl rfl
  stack v hv := by
    rw [List.mem_singleton.1 hv]
    exact ⟨hstart, Relation.ReflTransGen.refl⟩
  least := Or.inl rfl
  seven := Nat.le_refl _
  below v hv hnew := by
    change before v = some comp at hnew
    rw [hv] at hnew
    cases hnew

end search

section classes
variable {P L G D : Type*} {g : Graph P L G D} {w : WrittenComponents}

structure Classified (g : Graph P L G D) (w : WrittenComponents) : Prop where
  bound : ∀ n ∈ g.nds, ∀ c, w.component n = some c → c < w.comp_counter
  joined : ∀ n ∈ g.nds, ∀ c, w.component n = some c →
    ∀ m ∈ g.nds, w.component m = some c ↔ Joined g n m
  used : ∀ c < w.comp_counter, ∃ n ∈ g.nds, w.component n = some c
  least : ∀ n ∈ g.nds, ∀ c, w.component n = some c → IsLeast (levels g n) (w.minEdgeLvl c)

theorem Classified.closed (h : Classified g w) (hlive : g.Live) (u v : ℕ)
    (hu : (w.component u).isSome = true) (huv : Adjacent g u v) :
    (w.component v).isSome = true := by
  obtain ⟨e, he, hends⟩ := id huv
  obtain ⟨hfrom, hto⟩ := hlive.ends e he
  obtain ⟨c, hc⟩ := Option.isSome_iff_exists.1 hu
  have hun : u ∈ g.nds := hends.elim (fun h => h.1 ▸ hfrom) fun h => h.1 ▸ hto
  have hvn : v ∈ g.nds := hends.elim (fun h => h.2 ▸ hto) fun h => h.2 ▸ hfrom
  rw [(h.joined u hun c hc v hvn).2 (Relation.ReflTransGen.single huv)]
  rfl

/-- What a finished search from `n` leaves behind. -/
structure Searched (g : Graph P L G D) (before : ℕ → Option ℕ) (comp n : ℕ) (st : SearchState) :
    Prop where
  old : ∀ v, before v ≠ none → st.component v = before v
  new : ∀ v c, before v = none → (st.component v = some c ↔ c = comp ∧ Joined g n v)
  least : IsLeast (levels g n) st.minEdgeLvl

theorem Classified.joined_none (h : Classified g w) (hlive : g.Live) {n m : ℕ} (hn : n ∈ g.nds)
    (hnone : w.component n = none) (hnm : Joined g n m) : w.component m = none := by
  cases hm : w.component m with
  | none => rfl
  | some c =>
    rw [(h.joined m (joined_mem hlive hn hnm) c hm n hn).2 hnm.symm] at hnone
    cases hnone

theorem search_searched (hlive : g.Live) (h : Classified g w) {n : ℕ} (hn : n ∈ g.nds)
    (hnone : w.component n = none) (comp : ℕ) :
    Searched g w.component comp n
      (run (popNode g comp) (searchBound g) ⟨w.component, 7⟩ [n]).1 := by
  have hS := run_inv (popNode g comp) (Searching g w.component comp n)
    (fun s a stack hs => hs.popNode) (searchBound g) _ _ (searching_start hnone)
  have hmarked : ∀ v, ((run (popNode g comp) (searchBound g) ⟨w.component, 7⟩ [n]).1.component
      v).isSome = true ↔ (w.component v).isSome = true ∨ Joined g n v :=
    ((popNode_marks comp).run_marked (h.closed hlive) hn
      (fun u v hu huv => joined_mem hlive hu (Relation.ReflTransGen.single huv)) (Nat.le_refl _)).2
  have hnew : ∀ v c, w.component v = none →
      ((run (popNode g comp) (searchBound g) ⟨w.component, 7⟩ [n]).1.component v = some c ↔
        c = comp ∧ Joined g n v) := by
    intro v c hv
    constructor
    · intro hc
      have hm := (hmarked v).1 (by rw [hc]; rfl)
      rw [hv] at hm
      refine ⟨?_, hm.resolve_left Bool.false_ne_true⟩
      cases hS.component v with
      | inl hold =>
        rw [hold, hv] at hc
        cases hc
      | inr hcomp =>
        rw [hcomp.2] at hc
        exact (Option.some.inj hc).symm
    · intro hc
      have hsome := (hmarked v).2 (Or.inr hc.2)
      cases hS.component v with
      | inl hold =>
        rw [hold, hv] at hsome
        cases hsome
      | inr hcomp => rw [hc.1, hcomp.2]
  refine ⟨fun v hv => ?_, hnew, hS.least, fun l hl => ?_⟩
  · cases hS.component v with
    | inl hold => exact hold
    | inr hcomp => exact absurd hcomp.1 hv
  · cases hl with
    | inl hseven => exact hseven ▸ hS.seven
    | inr hex =>
      obtain ⟨e, he, hjoined, hlevel⟩ := hex
      have hfrom := h.joined_none hlive hn hnone hjoined
      rw [← hlevel]
      exact hS.below _ hfrom ((hnew _ _ hfrom).2 ⟨rfl, hjoined⟩) e he (Or.inl rfl)

theorem Searched.kept {comp n : ℕ} {st : SearchState} (hs : Searched g w.component comp n st)
    {v d : ℕ} (hd : w.component v = some d) : st.component v = some d := by
  rw [hs.old v (by rw [hd]; exact Option.some_ne_none d), hd]

/-- A component from before is closed, and the new one is what is joined to `n`. -/
theorem Searched.joined (hlive : g.Live) (h : Classified g w) {n : ℕ} {st : SearchState}
    (hs : Searched g w.component w.comp_counter n st) {v c : ℕ} (hv : v ∈ g.nds)
    (hc : st.component v = some c) {m : ℕ} (hm : m ∈ g.nds) :
    st.component m = some c ↔ Joined g v m := by
  cases hw : w.component v with
  | none =>
    obtain ⟨hcomp, hnv⟩ := (hs.new v c hw).1 hc
    cases hwm : w.component m with
    | none =>
      rw [hs.new m c hwm]
      exact ⟨fun hnm => hnv.symm.trans hnm.2, fun hvm => ⟨hcomp, hnv.trans hvm⟩⟩
    | some d =>
      have hd := h.bound m hm d hwm
      rw [hs.kept hwm, Option.some.injEq]
      constructor
      · intro hdc
        omega
      · intro hvm
        rw [h.joined_none hlive hv hw hvm] at hwm
        cases hwm
  | some d =>
    rw [hs.kept hw] at hc
    have hc := hw.trans hc
    have hbound := h.bound v hv c hc
    cases hwm : w.component m with
    | none =>
      rw [hs.new m c hwm, ← h.joined v hv c hc m hm, hwm]
      constructor
      · intro hnm
        omega
      · intro hsome
        cases hsome
    | some d' => rw [hs.kept hwm, ← hwm, h.joined v hv c hc m hm]

theorem Searched.classified (hlive : g.Live) (h : Classified g w) {n : ℕ} (hn : n ∈ g.nds)
    (hnone : w.component n = none) {st : SearchState}
    (hs : Searched g w.component w.comp_counter n st) :
    Classified g ⟨st.component, Function.update w.minEdgeLvl w.comp_counter st.minEdgeLvl,
      w.comp_counter + 1⟩ := by
  constructor
  · intro v hv c hc
    change st.component v = some c at hc
    cases hw : w.component v with
    | none =>
      rw [((hs.new v c hw).1 hc).1]
      exact Nat.lt_succ_self _
    | some d =>
      rw [hs.kept hw] at hc
      exact Nat.lt_succ_of_lt (h.bound v hv c (hw.trans hc))
  · exact fun v hv c hc m hm => hs.joined hlive h hv hc hm
  · intro c hc
    cases Nat.lt_succ_iff_lt_or_eq.1 hc with
    | inl hlt =>
      obtain ⟨v, hv, hcomp⟩ := h.used c hlt
      exact ⟨v, hv, hs.kept hcomp⟩
    | inr heq => exact ⟨n, hn, (hs.new n c hnone).2 ⟨heq, Relation.ReflTransGen.refl⟩⟩
  · intro v hv c hc
    change st.component v = some c at hc
    change IsLeast (levels g v) (Function.update w.minEdgeLvl w.comp_counter st.minEdgeLvl c)
    cases hw : w.component v with
    | none =>
      obtain ⟨hcomp, hnv⟩ := (hs.new v c hw).1 hc
      rw [hcomp, Function.update_self, ← levels_congr hnv]
      exact hs.least
    | some d =>
      rw [hs.kept hw] at hc
      have hc := hw.trans hc
      rw [Function.update_of_ne (Nat.ne_of_lt (h.bound v hv c hc))]
      exact h.least v hv c hc

theorem visitNode_classified (hlive : g.Live) (h : Classified g w) {n : ℕ} (hn : n ∈ g.nds) :
    Classified g (visitNode g w n) := by
  unfold visitNode
  split
  · rename_i hnone
    have hnone := Option.isNone_iff_eq_none.1 hnone
    exact (search_searched hlive h hn hnone _).classified hlive h hn hnone
  · exact h

theorem visitNode_keeps (hlive : g.Live) (h : Classified g w) {n : ℕ} (hn : n ∈ g.nds) {m c : ℕ}
    (hm : w.component m = some c) : (visitNode g w n).component m = some c := by
  unfold visitNode
  split
  · rename_i hnone
    have hnone := Option.isNone_iff_eq_none.1 hnone
    have hsome : w.component m ≠ none := by
      rw [hm]
      exact Option.some_ne_none c
    exact ((search_searched hlive h hn hnone _).old m hsome).trans hm
  · exact hm

theorem visitNode_visited (hlive : g.Live) (h : Classified g w) {n : ℕ} (hn : n ∈ g.nds) :
    ∃ c, (visitNode g w n).component n = some c := by
  unfold visitNode
  split
  · rename_i hnone
    have hnone := Option.isNone_iff_eq_none.1 hnone
    exact ⟨_, ((search_searched hlive h hn hnone _).new n _ hnone).2
      ⟨rfl, Relation.ReflTransGen.refl⟩⟩
  · rename_i hsome
    exact Option.ne_none_iff_exists'.1 fun hnone => hsome (Option.isNone_iff_eq_none.2 hnone)

theorem foldl_visitNode (hlive : g.Live) (ns : List ℕ) (hns : ∀ n ∈ ns, n ∈ g.nds)
    (h : Classified g w) :
    Classified g (ns.foldl (visitNode g) w) ∧
      (∀ m c, w.component m = some c → (ns.foldl (visitNode g) w).component m = some c) ∧
      ∀ n ∈ ns, ∃ c, (ns.foldl (visitNode g) w).component n = some c := by
  induction ns generalizing w with
  | nil => exact ⟨h, fun _ _ hm => hm, by simp⟩
  | cons n ns ih =>
    have hn := hns n List.mem_cons_self
    obtain ⟨hclass, hkept, hall⟩ := ih (fun m hm => hns m (List.mem_cons_of_mem _ hm))
      (visitNode_classified hlive h hn)
    refine ⟨hclass, fun m c hm => hkept m c (visitNode_keeps hlive h hn hm), fun m hm => ?_⟩
    cases List.mem_cons.1 hm with
    | inl heq =>
      obtain ⟨c, hc⟩ := visitNode_visited hlive h hn
      exact ⟨c, heq ▸ hkept n c hc⟩
    | inr hm => exact hall m hm

theorem writeComponents_classified (hlive : g.Live) {component : ℕ → Option ℕ}
    (hnull : ∀ n ∈ g.nds, component n = none) :
    Classified g (writeComponents g component) ∧
      ∀ n ∈ g.nds, ∃ c, (writeComponents g component).component n = some c := by
  have hstart : Classified g ⟨component, fun _ => 7, 0⟩ := by
    have hnone : ∀ n ∈ g.nds, ∀ c, component n ≠ some c := fun n hn c hc => by
      rw [hnull n hn] at hc
      cases hc
    exact ⟨fun n hn c hc => absurd hc (hnone n hn c), fun n hn c hc => absurd hc (hnone n hn c),
      fun c hc => absurd hc (Nat.not_lt_zero c), fun n hn c hc => absurd hc (hnone n hn c)⟩
  obtain ⟨hclass, -, hall⟩ := foldl_visitNode hlive g.nds (fun _ hn => hn) hstart
  exact ⟨hclass, hall⟩

variable (g) in
def components : Set (Set ℕ) := (fun n => {m | Joined g n m}) '' {n | n ∈ g.nds}

theorem Classified.comp_counter (h : Classified g w) (hlive : g.Live)
    (hall : ∀ n ∈ g.nds, ∃ c, w.component n = some c) :
    w.comp_counter = (components g).ncard := by
  have hclass : ∀ n ∈ g.nds, ∀ c, w.component n = some c →
      {m | m ∈ g.nds ∧ w.component m = some c} = {m | Joined g n m} := by
    intro n hn c hc
    ext m
    constructor
    · exact fun hm => (h.joined n hn c hc m hm.1).1 hm.2
    · intro hnm
      have hm := joined_mem hlive hn hnm
      exact ⟨hm, (h.joined n hn c hc m hm).2 hnm⟩
  have hbij : Set.BijOn (fun c => {m | m ∈ g.nds ∧ w.component m = some c})
      (Finset.range w.comp_counter) (components g) := by
    refine ⟨fun c hc => ?_, fun c hc d hd heq => ?_, fun K hK => ?_⟩
    · obtain ⟨n, hn, hcomp⟩ := h.used c (Finset.mem_range.1 hc)
      exact ⟨n, hn, (hclass n hn c hcomp).symm⟩
    · obtain ⟨n, hn, hcomp⟩ := h.used c (Finset.mem_range.1 hc)
      have hboth : n ∈ {m | m ∈ g.nds ∧ w.component m = some c} := ⟨hn, hcomp⟩
      change {m | m ∈ g.nds ∧ w.component m = some c} =
        {m | m ∈ g.nds ∧ w.component m = some d} at heq
      rw [heq] at hboth
      exact Option.some.inj (hcomp.symm.trans hboth.2)
    · obtain ⟨n, hn, rfl⟩ := hK
      obtain ⟨c, hc⟩ := hall n hn
      exact ⟨c, Finset.mem_coe.2 (Finset.mem_range.2 (h.bound n hn c hc)), hclass n hn c hc⟩
  rw [← hbij.ncard_eq, Set.ncard_coe_finset, Finset.card_range]

end classes

section routing
variable {P L G D C : Type*} {g g' : Graph P L G D} {w : WrittenComponents}

/-- The graph as the router reads it, with numbers for positions, lengths and groups. -/
def transitGraph (geom : P → C × C) (length : L → C) (group : G → ℕ) (g : Graph P L G D)
    (w : WrittenComponents) : Router.TransitGraph ℕ Edge C where
  edges := g.edges
  getFrom := Edge.getFrom
  getTo := Edge.getTo
  adjListOut := g.getAdjListOut
  mem_adjListOut := DirGraph.mem_getAdjListOut
  geom n := geom (pos g n)
  si n := (g.npl n).si.map fun si => si.group.map group
  component n := (w.component n).getD 0
  minEdgeLvl := w.minEdgeLvl
  level e := (g.pl e).data.level
  length e := length (g.pl e).data.length
  oneWay e := (g.pl e).oneWay
  is_restricted e := (g.pl e).is_restricted
  lines e := (g.pl e).data.lines

/-- No edge leaves a connected component of `g`. -/
structure Within (g g' : Graph P L G D) : Prop where
  nds : g'.nds = g.nds
  edges : ∀ e ∈ g'.edges, e.getFrom ∈ g.nds ∧ Joined g e.getFrom e.getTo

theorem Within.refl (hlive : g.Live) : Within g g :=
  ⟨rfl, fun e he => ⟨(hlive.ends e he).1, Relation.ReflTransGen.single (adjacent_of_edge he)⟩⟩

theorem Within.addEdg (h : Within g g') {u v : ℕ} (hu : u ∈ g.nds) (huv : Joined g u v)
    (p : Payload P L) : Within g (g'.addEdg u v p).2 where
  nds := by rw [DirGraph.addEdg_nds, h.nds]
  edges e he := by
    cases DirGraph.mem_addEdg.1 he with
    | inl he => exact h.edges e he
    | inr he =>
      obtain ⟨hfrom, hto, -⟩ := g'.addEdg_ends u v p
      rw [he, hfrom, hto]
      exact ⟨hu, huv⟩

theorem writeODirEdgs_within (hlive : g.Live) (restor : Restrictor) :
    Within g (writeODirEdgs g restor).1 := by
  refine foldl_inv _ (fun st : Graph P L G D × Restrictor => Within g st.1) g.nds
    (Within.refl hlive) fun st n _ hst => ?_
  refine foldl_inv _ (fun st : Graph P L G D × Restrictor => Within g st.1) _ hst
    fun st' e he hst' => ?_
  obtain ⟨hfrom, hjoined⟩ := hst.edges e (DirGraph.mem_getAdjListOut.1 he).1
  cases hget : st'.1.getEdg e.getTo e.getFrom with
  | some x => simpa only [writeODirEdg, hget] using hst'
  | none =>
    simp only [writeODirEdg, hget]
    exact hst'.addEdg (joined_mem hlive hfrom hjoined) hjoined.symm _

theorem writeSelfEdgs_within [Zero L] (h : Within g g') : Within g (writeSelfEdgs g') := by
  refine foldl_inv _ (Within g) g'.nds h fun st n hn hst => ?_
  unfold writeSelfEdg
  split
  · exact hst.addEdg (h.nds ▸ hn) Relation.ReflTransGen.refl newEdge
  · exact hst

section apart
variable {geom : P → C × C} {length : L → C} {group : G → ℕ}

theorem Within.joined_of_leads (h : Within g g') {a b : ℕ} {es : List Edge}
    (hes : Router.Leads (transitGraph geom length group g' w).toDirGraph a es b) :
    Joined g a b := by
  induction es generalizing a with
  | nil =>
    change a = b at hes
    rw [hes]
    exact Relation.ReflTransGen.refl
  | cons e es ih =>
    obtain ⟨he, hfrom, hrest⟩ := hes
    change e.getFrom = a at hfrom
    rw [← hfrom]
    exact (h.edges e he).2.trans (ih hrest)

/-- No directed path joins the edges, whichever of them comes first. -/
def Apart (G : EDijkstra.DirGraph ℕ Edge) (f t : Edge) : Prop :=
  ∀ l, ¬ Router.Way G f t l ∧ ¬ Router.Way G t f l

theorem Classified.component_eq (hlive : g.Live) (h : Classified g w)
    (hall : ∀ n ∈ g.nds, ∃ c, w.component n = some c) {n m : ℕ} (hn : n ∈ g.nds)
    (hnm : Joined g n m) : w.component m = w.component n := by
  obtain ⟨c, hc⟩ := hall n hn
  rw [(h.joined n hn c hc m (joined_mem hlive hn hnm)).2 hnm, hc]

theorem Within.apart (hlive : g.Live) (h : Within g g') (hclass : Classified g w)
    (hall : ∀ n ∈ g.nds, ∃ c, w.component n = some c) {f t : Edge} (hf : f ∈ g'.edges)
    (ht : t ∈ g'.edges)
    (hne : (w.component f.getFrom).getD 0 ≠ (w.component t.getFrom).getD 0) :
    Apart (transitGraph geom length group g' w).toDirGraph f t := by
  intro l
  constructor
  · intro hway
    have hjoined : Joined g f.getFrom t.getFrom := h.joined_of_leads hway.leads
    rw [hclass.component_eq hlive hall (h.edges f hf).1 hjoined] at hne
    exact hne rfl
  · intro hway
    have hjoined : Joined g t.getFrom f.getFrom := h.joined_of_leads hway.leads
    rw [hclass.component_eq hlive hall (h.edges t ht).1 hjoined] at hne
    exact hne rfl

end apart

variable [LinearOrder C]

theorem writeComponents_exact [Zero L] (hlive : g.Live) (component : ℕ → Option ℕ)
    (hnull : ∀ n ∈ g.nds, component n = none) (restor : Restrictor) (geom : P → C × C)
    (length : L → C) (group : G → ℕ) (S : Router.Setting ℕ Edge C)
    (hS : S.g = transitGraph geom length group (writeSelfEdgs (writeODirEdgs g restor).1)
      (writeComponents g component)) :
    let w := writeComponents g component
    (∀ n ∈ g.nds, ∀ m ∈ g.nds, w.component n = w.component m ↔ Joined g n m) ∧
      w.comp_counter = (components g).ncard ∧
      (∀ n ∈ g.nds, ∃ c, w.component n = some c ∧ IsLeast (levels g n) (w.minEdgeLvl c)) ∧
      (∀ f ∈ S.g.edges, ∀ t ∈ S.g.edges,
        S.g.component (S.g.getFrom f) ≠ S.g.component (S.g.getTo t) → Apart S.g.toDirGraph f t) ∧
      ∀ a b : Router.EdgeCandidateGroup Edge C, (∀ c ∈ a ++ b, c.e ∈ S.g.edges) →
        Router.compConned S a b = false → ∀ c ∈ a, ∀ d ∈ b, Apart S.g.toDirGraph c.e d.e := by
  obtain ⟨hclass, hall⟩ := writeComponents_classified hlive hnull
  have hwithin := writeSelfEdgs_within (writeODirEdgs_within hlive restor)
  refine ⟨fun n hn m hm => ?_, hclass.comp_counter hlive hall, fun n hn => ?_, ?_, ?_⟩
  · obtain ⟨c, hc⟩ := hall n hn
    rw [← hclass.joined n hn c hc m hm, hc]
    exact eq_comm
  · obtain ⟨c, hc⟩ := hall n hn
    exact ⟨c, hc, hclass.least n hn c hc⟩
  · rw [hS]
    intro f hf t ht hne
    refine hwithin.apart hlive hclass hall hf ht ?_
    obtain ⟨hfrom, hjoined⟩ := hwithin.edges t ht
    rw [← hclass.component_eq hlive hall hfrom hjoined]
    exact hne
  · intro a b hin hconn c hc d hd
    have hne : S.g.component (S.g.getFrom c.e) ≠ S.g.component (S.g.getFrom d.e) := by
      intro heq
      have htrue : Router.compConned S a b = true :=
        List.any_eq_true.2 ⟨c, hc, List.any_eq_true.2 ⟨d, hd, decide_eq_true heq⟩⟩
      rw [hconn] at htrue
      cases htrue
    have hcin := hin c (List.mem_append_left _ hc)
    have hdin := hin d (List.mem_append_right _ hd)
    rw [hS] at hne hcin hdin ⊢
    exact hwithin.apart hlive hclass hall hcin hdin hne

end routing

/-- A street of level `3` and a station that no street leads to. -/
def island : Graph ℕ ℕ ℕ Unit :=
  let g := (DirGraph.empty ⟨0, none⟩ newEdge).addNd ⟨0, none⟩
  let g := g.2.addNd ⟨1, none⟩
  let g := g.2.addNd ⟨5, some ⟨none, ()⟩⟩
  (g.2.addEdg 0 1 ⟨0, false, false, ⟨[], 1, 3, []⟩⟩).2

def islandSetting : Router.Setting ℕ Edge ℚ where
  g := transitGraph (fun p : ℕ => ((p : ℚ), 0)) (fun l : ℕ => (l : ℚ)) id
    (writeSelfEdgs (writeODirEdgs island ⟨.empty, .empty, fun _ _ => none⟩).1)
    (writeComponents island fun _ => none)
  rOpts := ⟨0, 0, 0, 0, 0, 0, 0, 0, fun _ => 1, true, true⟩
  may _ _ _ := true
  simi _ _ := 0
  webMercMeterDist a b := |a.1 - b.1|
  innerProd _ _ _ := 0
  caching := false
  pq := EDijkstra.routeQueue
  edgeSet := .dedup
  candPq := EDijkstra.routeQueue
  candSet := .dedup

theorem writeComponents_exact_island :
    let w := writeComponents island fun _ => none
    (w.component 0 = w.component 1 ↔ Joined island 0 1) ∧
      (w.component 0 = w.component 2 ↔ Joined island 0 2) ∧
      w.comp_counter = (components island).ncard ∧
      (∃ c, w.component 0 = some c ∧ IsLeast (levels island 0) (w.minEdgeLvl c)) ∧
      Apart islandSetting.g.toDirGraph ⟨0, 0, 1⟩ ⟨2, 2, 2⟩ := by
  have hlive : island.Live := ⟨by decide, by decide, by decide⟩
  obtain ⟨hjoined, hcount, hleast, hhops, -⟩ := writeComponents_exact hlive (fun _ => none)
    (fun _ _ => rfl) ⟨.empty, .empty, fun _ _ => none⟩ (fun p : ℕ => ((p : ℚ), 0))
    (fun l : ℕ => (l : ℚ)) id islandSetting rfl
  exact ⟨hjoined 0 (by decide) 1 (by decide), hjoined 0 (by decide) 2 (by decide), hcount,
    hleast 0 (by decide), hhops _ (by decide) _ (by decide) (by decide)⟩

end Pfaedle.Components

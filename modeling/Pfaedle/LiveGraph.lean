import Pfaedle.DirGraph

set_option autoImplicit false

/-!
# Live graphs

Every edge of a graph joins two nodes of it, and no node is handed out twice.
-/
namespace Pfaedle.DirGraphs.DirGraph

variable {NP EP : Type*}

structure Live (g : DirGraph NP EP) : Prop where
  handed : ∀ n ∈ g.nds, n < g.nextNd
  nodup : g.nds.Nodup
  ends : ∀ e ∈ g.edges, e.getFrom ∈ g.nds ∧ e.getTo ∈ g.nds

variable {g : DirGraph NP EP}

theorem Live.fresh_end (h : Live g) {e : Edge} (he : e ∈ g.edges) :
    e.getFrom ≠ g.nextNd ∧ e.getTo ≠ g.nextNd := by
  obtain ⟨hu, hv⟩ := h.ends e he
  exact ⟨Nat.ne_of_lt (h.handed _ hu), Nat.ne_of_lt (h.handed _ hv)⟩

theorem Live.addNd (h : Live g) (p : NP) : Live (g.addNd p).2 where
  handed n hn := by
    cases List.mem_append.1 hn with
    | inl hn => exact Nat.lt_succ_of_lt (h.handed n hn)
    | inr hn => rw [List.mem_singleton.1 hn]; exact Nat.lt_succ_self _
  nodup := by
    apply h.nodup.append (List.nodup_singleton _)
    intro n hn hnew
    rw [List.mem_singleton.1 hnew] at hn
    exact Nat.lt_irrefl _ (h.handed _ hn)
  ends e he := by
    obtain ⟨hu, hv⟩ := h.ends e he
    exact ⟨List.mem_append_left _ hu, List.mem_append_left _ hv⟩

theorem Live.addEdg (h : Live g) {u v : ℕ} (hu : u ∈ g.nds) (hv : v ∈ g.nds) (p : EP) :
    Live (g.addEdg u v p).2 where
  handed n hn := by
    rw [addEdg_nds] at hn
    rw [addEdg_nextNd]
    exact h.handed n hn
  nodup := by
    rw [addEdg_nds]
    exact h.nodup
  ends e he := by
    rw [addEdg_nds]
    cases mem_addEdg.1 he with
    | inl he => exact h.ends e he
    | inr he =>
      obtain ⟨hfrom, hto, -⟩ := addEdg_ends g u v p
      rw [he, hfrom, hto]
      exact ⟨hu, hv⟩

theorem Live.setPl (h : Live g) (e : Edge) (p : EP) : Live (g.setPl e p) :=
  ⟨h.handed, h.nodup, h.ends⟩

theorem Live.delEdge (h : Live g) (e : Edge) : Live (g.delEdge e) :=
  ⟨h.handed, h.nodup, fun e' he' => h.ends e' (List.mem_of_mem_filter he')⟩

theorem mem_delNd_edges {n : ℕ} {e : Edge} :
    e ∈ (g.delNd n).edges ↔ e ∈ g.edges ∧ e.getFrom ≠ n ∧ e.getTo ≠ n := by
  rw [DirGraph.delNd, List.mem_filter, decide_eq_true_eq]

theorem Live.delNd (h : Live g) (n : ℕ) : Live (g.delNd n) where
  handed m hm := h.handed m (List.mem_of_mem_filter hm)
  nodup := h.nodup.filter _
  ends e he := by
    obtain ⟨he, hu, hv⟩ := mem_delNd_edges.1 he
    obtain ⟨hfrom, hto⟩ := h.ends e he
    exact ⟨List.mem_filter.2 ⟨hfrom, decide_eq_true hu⟩, List.mem_filter.2 ⟨hto, decide_eq_true hv⟩⟩

theorem mem_delEdge {e e' : Edge} : e' ∈ (g.delEdge e).edges ↔ e' ∈ g.edges ∧ e' ≠ e := by
  rw [DirGraph.delEdge, List.mem_filter, decide_eq_true_eq]

theorem getEdg_of_mem {e : Edge} (he : e ∈ g.edges) : g.getEdg e.getFrom e.getTo = some e :=
  getEdg_eq_some.2 ⟨he, rfl, rfl⟩

theorem delEdg_of_mem {e : Edge} (he : e ∈ g.edges) :
    g.delEdg e.getFrom e.getTo = g.delEdge e := by
  rw [DirGraph.delEdg, getEdg_of_mem he]

/-- `x` has been added from `u` to `v` with the payload `p`. -/
structure Added (g : DirGraph NP EP) (u v : ℕ) (p : EP) (x : Edge) (g' : DirGraph NP EP) :
    Prop where
  ends : x.getFrom = u ∧ x.getTo = v
  fresh : x ∉ g.edges
  edges : ∀ y, y ∈ g'.edges ↔ y ∈ g.edges ∨ y = x
  pl : g'.pl = Function.update g.pl x p
  npl : g'.npl = g.npl
  nds : g'.nds = g.nds
  nextNd : g'.nextNd = g.nextNd

theorem addEdg_added {u v : ℕ} (h : g.getEdg u v = none) (p : EP) :
    Added g u v p (g.addEdg u v p).1 (g.addEdg u v p).2 := by
  obtain ⟨hx, -, hpl⟩ := addEdg_of_none h p
  obtain ⟨hfrom, hto, -⟩ := addEdg_ends g u v p
  refine ⟨⟨hfrom, hto⟩, ?_, fun y => mem_addEdg, ?_, ?_, addEdg_nds g u v p, addEdg_nextNd g u v p⟩
  · rw [hx]
    intro hmem
    exact Nat.lt_irrefl _ (g.fresh _ hmem)
  · rw [hpl, hx]
  · unfold addEdg
    split
    · rfl
    · rfl

theorem Added.setPl {u v : ℕ} {p : EP} {x : Edge} {g' : DirGraph NP EP} (h : Added g u v p x g')
    (q : EP) : Added g u v q x (g'.setPl x q) where
  ends := h.ends
  fresh := h.fresh
  edges := h.edges
  pl := by
    change Function.update g'.pl x q = _
    rw [h.pl, Function.update_idem]
  npl := h.npl
  nds := h.nds
  nextNd := h.nextNd

/-- `x` leads from `u` to `v`; it has got the payload `p` unless it was there before. -/
structure Linked (g : DirGraph NP EP) (u v : ℕ) (p : EP) (x : Edge) (g' : DirGraph NP EP) :
    Prop where
  ends : x.getFrom = u ∧ x.getTo = v
  edges : ∀ y, y ∈ g'.edges ↔ y ∈ g.edges ∨ y = x
  kind : (x ∈ g.edges ∧ g'.pl = g.pl) ∨
    (x ∉ g.edges ∧ g'.pl = Function.update g.pl x p ∧ g.getEdg u v = none)
  npl : g'.npl = g.npl
  nds : g'.nds = g.nds
  nextNd : g'.nextNd = g.nextNd

theorem addEdg_linked (g : DirGraph NP EP) (u v : ℕ) (p : EP) :
    Linked g u v p (g.addEdg u v p).1 (g.addEdg u v p).2 := by
  cases h : g.getEdg u v with
  | some x =>
    obtain ⟨hmem, hfrom, hto⟩ := getEdg_eq_some.1 h
    rw [addEdg_of_some h]
    refine ⟨⟨hfrom, hto⟩, ?_, Or.inl ⟨hmem, rfl⟩, rfl, rfl, rfl⟩
    intro y
    constructor
    · exact Or.inl
    · exact fun hy => hy.elim id fun hy => hy ▸ hmem
  | none =>
    have hadd := addEdg_added h p
    exact ⟨hadd.ends, hadd.edges, Or.inr ⟨hadd.fresh, hadd.pl, h⟩, hadd.npl, hadd.nds, hadd.nextNd⟩

theorem Live.getEdg_new (h : Live g) (p : NP) (u : ℕ) :
    (g.addNd p).2.getEdg u g.nextNd = none ∧ (g.addNd p).2.getEdg g.nextNd u = none := by
  rw [getEdg_eq_none, getEdg_eq_none]
  exact ⟨fun e he _ => (h.fresh_end he).2, fun e he hfrom => absurd hfrom (h.fresh_end he).1⟩

theorem addEdg_nodup {u v : ℕ} {p : EP} (h : g.edges.Nodup) :
    (g.addEdg u v p).2.edges.Nodup := by
  cases hget : g.getEdg u v with
  | some x =>
    rw [addEdg_of_some hget]
    exact h
  | none =>
    obtain ⟨hx, hedges, -⟩ := addEdg_of_none hget p
    have hfresh := (addEdg_added hget p).fresh
    rw [hx] at hfresh
    rw [hedges]
    apply h.append (List.nodup_singleton _)
    intro e he hnew
    rw [List.mem_singleton.1 hnew] at he
    exact hfresh he

structure Proper (g : DirGraph NP EP) : Prop where
  live : Live g
  nodup : g.edges.Nodup

theorem Proper.addNd (h : Proper g) (p : NP) : Proper (g.addNd p).2 := ⟨h.live.addNd p, h.nodup⟩

theorem Proper.addEdg (h : Proper g) {u v : ℕ} (hu : u ∈ g.nds) (hv : v ∈ g.nds) (p : EP) :
    Proper (g.addEdg u v p).2 := ⟨h.live.addEdg hu hv p, addEdg_nodup h.nodup⟩

theorem Proper.setPl (h : Proper g) (e : Edge) (p : EP) : Proper (g.setPl e p) :=
  ⟨h.live.setPl e p, h.nodup⟩

theorem Proper.delEdge (h : Proper g) (e : Edge) : Proper (g.delEdge e) :=
  ⟨h.live.delEdge e, h.nodup.filter _⟩

theorem Proper.delEdg (h : Proper g) (u v : ℕ) : Proper (g.delEdg u v) := by
  rw [DirGraph.delEdg]
  cases g.getEdg u v with
  | some e => exact h.delEdge e
  | none => exact h

theorem Proper.delNd (h : Proper g) (n : ℕ) : Proper (g.delNd n) :=
  ⟨h.live.delNd n, h.nodup.filter _⟩

section later

structure Later (g g' : DirGraph NP EP) : Prop where
  edges : ∀ e ∈ g'.edges, e ∈ g.edges ∨ g.nextEdge ≤ e.id
  nextEdge : g.nextEdge ≤ g'.nextEdge

variable {g' g'' : DirGraph NP EP}

theorem Later.refl (g : DirGraph NP EP) : Later g g := ⟨fun _ => Or.inl, Nat.le_refl _⟩

theorem Later.trans (h : Later g g') (h' : Later g' g'') : Later g g'' := by
  refine ⟨?_, Nat.le_trans h.nextEdge h'.nextEdge⟩
  intro e he
  cases h'.edges e he with
  | inl he => exact h.edges e he
  | inr hid => exact Or.inr (Nat.le_trans h.nextEdge hid)

theorem Later.gone (h : Later g g') {e : Edge} (he : e ∉ g.edges) (hid : e.id < g.nextEdge) :
    e ∉ g'.edges := fun he' => (h.edges e he').elim he (Nat.not_le.2 hid)

theorem addNd_later (g : DirGraph NP EP) (p : NP) : Later g (g.addNd p).2 :=
  ⟨fun _ => Or.inl, Nat.le_refl _⟩

theorem setPl_later (g : DirGraph NP EP) (e : Edge) (p : EP) : Later g (g.setPl e p) :=
  ⟨fun _ => Or.inl, Nat.le_refl _⟩

theorem delEdge_later (g : DirGraph NP EP) (e : Edge) : Later g (g.delEdge e) :=
  ⟨fun _ he => Or.inl (List.mem_of_mem_filter he), Nat.le_refl _⟩

theorem delEdg_later (g : DirGraph NP EP) (u v : ℕ) : Later g (g.delEdg u v) := by
  rw [DirGraph.delEdg]
  split
  · exact delEdge_later g _
  · exact Later.refl g

theorem delNd_later (g : DirGraph NP EP) (n : ℕ) : Later g (g.delNd n) :=
  ⟨fun _ he => Or.inl (List.mem_of_mem_filter he), Nat.le_refl _⟩

theorem addEdg_later (g : DirGraph NP EP) (u v : ℕ) (p : EP) : Later g (g.addEdg u v p).2 := by
  cases h : g.getEdg u v with
  | some e =>
    rw [addEdg_of_some h]
    exact Later.refl g
  | none =>
    obtain ⟨hx, -, -⟩ := addEdg_of_none h p
    constructor
    · intro e he
      cases mem_addEdg.1 he with
      | inl he => exact Or.inl he
      | inr he => rw [he, hx]; exact Or.inr (Nat.le_refl _)
    · unfold DirGraph.addEdg
      split
      · exact Nat.le_refl _
      · exact Nat.le_succ _

theorem foldl_later {α : Type*} (f : DirGraph NP EP → α → DirGraph NP EP)
    (hstep : ∀ g x, Later g (f g x)) (xs : List α) (g : DirGraph NP EP) : Later g (xs.foldl f g) := by
  induction xs generalizing g with
  | nil => exact Later.refl g
  | cons x xs ih => exact (hstep g x).trans (ih (f g x))

end later

def setNpl (g : DirGraph NP EP) (n : ℕ) (p : NP) : DirGraph NP EP :=
  { g with npl := Function.update g.npl n p }

theorem Proper.setNpl (h : Proper g) (n : ℕ) (p : NP) : Proper (g.setNpl n p) :=
  ⟨⟨h.live.handed, h.live.nodup, h.live.ends⟩, h.nodup⟩

section visits

def withPl (g : DirGraph NP EP) (q : Edge → EP) : DirGraph NP EP := { g with pl := q }

theorem Proper.withPl (h : Proper g) (q : Edge → EP) : Proper (g.withPl q) :=
  ⟨⟨h.live.handed, h.live.nodup, h.live.ends⟩, h.nodup⟩

variable {step : DirGraph NP EP → Edge → DirGraph NP EP} {f : Edge → EP → EP}

theorem foldl_visit (hstep : ∀ q e, step (g.withPl q) e = g.withPl (Function.update q e (f e (q e))))
    (es : List Edge) (hnodup : es.Nodup) (q : Edge → EP) :
    es.foldl step (g.withPl q) = g.withPl fun x => if x ∈ es then f x (q x) else q x := by
  induction es generalizing q with
  | nil => rfl
  | cons e es ih =>
    obtain ⟨hnot, hnodup⟩ := List.nodup_cons.1 hnodup
    rw [List.foldl_cons, hstep, ih hnodup]
    congr 1
    funext x
    by_cases hx : x = e
    · rw [hx, if_neg hnot, Function.update_self, if_pos List.mem_cons_self]
    · rw [Function.update_of_ne hx]
      simp only [List.mem_cons, hx, false_or]

/-- A loop over the edges out of every node visits every edge once. -/
theorem foldl_visit_nds
    (hstep : ∀ q e, step (g.withPl q) e = g.withPl (Function.update q e (f e (q e))))
    (hedges : g.edges.Nodup) (ns : List ℕ) (hnodup : ns.Nodup) (q : Edge → EP) :
    ns.foldl (fun g n => (g.getAdjListOut n).foldl step g) (g.withPl q) =
      g.withPl fun x => if x ∈ g.edges ∧ x.getFrom ∈ ns then f x (q x) else q x := by
  induction ns generalizing q with
  | nil => simp
  | cons n ns ih =>
    obtain ⟨hnot, hnodup⟩ := List.nodup_cons.1 hnodup
    rw [List.foldl_cons]
    change ns.foldl _ ((g.getAdjListOut n).foldl step (g.withPl q)) = _
    have hout : (g.getAdjListOut n).Nodup := hedges.filter _
    rw [foldl_visit hstep _ hout, ih hnodup]
    congr 1
    funext x
    simp only [mem_getAdjListOut, List.mem_cons]
    by_cases hx : x ∈ g.edges ∧ x.getFrom = n
    · rw [if_neg fun h => hnot (hx.2 ▸ h.2), if_pos hx, if_pos ⟨hx.1, Or.inl hx.2⟩]
    · rw [if_neg hx]
      congr 1
      apply propext
      constructor
      · exact fun h => ⟨h.1, Or.inr h.2⟩
      · exact fun h => ⟨h.1, h.2.resolve_left fun hn => hx ⟨h.1, hn⟩⟩

theorem Proper.foldl_visit_nds (h : Proper g)
    (hstep : ∀ q e, step (g.withPl q) e = g.withPl (Function.update q e (f e (q e)))) :
    ∃ q, g.nds.foldl (fun g n => (g.getAdjListOut n).foldl step g) g = g.withPl q ∧
      ∀ e ∈ g.edges, q e = f e (g.pl e) := by
  have hvisit := DirGraph.foldl_visit_nds hstep h.nodup g.nds h.live.nodup g.pl
  refine ⟨_, hvisit, fun e he => ?_⟩
  rw [if_pos ⟨he, (h.live.ends e he).1⟩]

end visits

end Pfaedle.DirGraphs.DirGraph

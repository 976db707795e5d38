import Pfaedle.AdjacencyLists

set_option autoImplicit false

/-!
# What the adjacency lists hold

A graph is given by its nodes and its edges, oldest first. Its heap has in every node the edges that
leave it and those that enter it, and every operation turns the heap of one graph into that of another.
-/
namespace Pfaedle.AdjacencyLists

section layout
variable {NP EP : Type} {nds : Finset ℕ} {npl : ℕ → NP} {outs ins : ℕ → List ℕ} {es : List ℕ}
  {obj : ℕ → EdgeObject EP}

/-- The heap with the lists `outs` and `ins` at the nodes `nds`. -/
def layout (nds : Finset ℕ) (npl : ℕ → NP) (outs ins : ℕ → List ℕ) (es : List ℕ)
    (obj : ℕ → EdgeObject EP) : Heap NP EP where
  nodes := nds
  node n := if n ∈ nds then some ⟨ins n, outs n, npl n⟩ else none
  edge e := if e ∈ es then some (obj e) else none

def outOf (es : List ℕ) (obj : ℕ → EdgeObject EP) (n : ℕ) : List ℕ :=
  es.filter fun e => (obj e).getFrom = n

def inTo (es : List ℕ) (obj : ℕ → EdgeObject EP) (n : ℕ) : List ℕ :=
  es.filter fun e => (obj e).getTo = n

def without (e : ℕ) (l : List ℕ) : List ℕ := l.filter (· ≠ e)

theorem layout_node {n : ℕ} (hn : n ∈ nds) :
    (layout nds npl outs ins es obj).node n = some ⟨ins n, outs n, npl n⟩ := if_pos hn

theorem layout_edge {e : ℕ} (he : e ∈ es) :
    (layout nds npl outs ins es obj).edge e = some (obj e) := if_pos he

theorem mem_outOf {n e : ℕ} : e ∈ outOf es obj n ↔ e ∈ es ∧ (obj e).getFrom = n := by simp [outOf]

theorem mem_inTo {n e : ℕ} : e ∈ inTo es obj n ↔ e ∈ es ∧ (obj e).getTo = n := by simp [inTo]

theorem mem_without {e x : ℕ} {l : List ℕ} : x ∈ without e l ↔ x ∈ l ∧ x ≠ e := by simp [without]

theorem without_of_not_mem {e : ℕ} {l : List ℕ} (he : e ∉ l) : without e l = l := by
  unfold without
  apply List.filter_eq_self.2
  intro x hx
  have hne : x ≠ e := fun heq => he (heq ▸ hx)
  simpa using hne

theorem without_without (e : ℕ) (l : List ℕ) : without e (without e l) = without e l :=
  without_of_not_mem fun h => (mem_without.1 h).2 rfl

theorem outOf_without (e n : ℕ) : outOf (without e es) obj n = without e (outOf es obj n) := by
  unfold outOf without
  rw [List.filter_filter, List.filter_filter]
  exact List.filter_congr fun x _ => Bool.and_comm _ _

theorem inTo_without (e n : ℕ) : inTo (without e es) obj n = without e (inTo es obj n) := by
  unfold inTo without
  rw [List.filter_filter, List.filter_filter]
  exact List.filter_congr fun x _ => Bool.and_comm _ _

/-- Lists of the node `n` that hold no edge twice and none that is elsewhere. -/
structure Placed (n : ℕ) (o i : List ℕ) (obj : ℕ → EdgeObject EP) : Prop where
  out_nodup : o.Nodup
  in_nodup : i.Nodup
  out_from : ∀ e ∈ o, (obj e).getFrom = n
  in_to : ∀ e ∈ i, (obj e).getTo = n

theorem placed_of_nodup (h : es.Nodup) (n : ℕ) : Placed n (outOf es obj n) (inTo es obj n) obj where
  out_nodup := h.filter _
  in_nodup := h.filter _
  out_from _ he := (mem_outOf.1 he).2
  in_to _ he := (mem_inTo.1 he).2

theorem setNode_layout {n : ℕ} (hn : n ∈ nds) (i o : List ℕ) :
    setNode (layout nds npl outs ins es obj) n ⟨i, o, npl n⟩ =
      layout nds npl (Function.update outs n o) (Function.update ins n i) es obj := by
  unfold setNode layout
  congr 1
  funext m
  by_cases hm : m = n
  · rw [hm]
    simp [hn]
  · simp [hm]

theorem deleteEdge_layout (e : ℕ) :
    deleteEdge (layout nds npl outs ins es obj) e =
      layout nds npl outs ins (without e es) obj := by
  unfold deleteEdge layout without
  congr 1
  funext x
  by_cases hx : x = e
  · simp [hx]
  · simp [hx]

theorem erase_eq_without {l : List ℕ} (h : l.Nodup) (e : ℕ) : l.erase e = without e l := by
  unfold without
  rw [h.erase_eq_filter]
  apply List.filter_congr
  intro x _
  simp [bne, beq_eq_decide]

theorem erase_placed {l : List ℕ} {e : ℕ} {p : Prop} [Decidable p] (hnodup : l.Nodup)
    (hp : e ∈ l → p) : (if p then l.erase e else l) = without e l := by
  split
  · exact erase_eq_without hnodup e
  · rename_i hnot
    exact (without_of_not_mem fun he => hnot (hp he)).symm

theorem removeEdge_layout {n e : ℕ} (hp : Placed n (outs n) (ins n) obj) (hn : n ∈ nds)
    (he : e ∈ es) :
    removeEdge (layout nds npl outs ins es obj) n e =
      some (layout nds npl (Function.update outs n (without e (outs n)))
        (Function.update ins n (without e (ins n))) es obj) := by
  unfold removeEdge
  rw [layout_node hn, layout_edge he]
  change some (setNode _ n ⟨_, _, npl n⟩) = _
  rw [setNode_layout hn, erase_placed hp.out_nodup (hp.out_from e),
    erase_placed hp.in_nodup (hp.in_to e)]

def joined (p : Prop) [Decidable p] (e : ℕ) (l : List ℕ) : List ℕ :=
  if p ∧ e ∉ l then l ++ [e] else l

theorem addEdge_layout {n e u v : ℕ} {p : EP} (hn : n ∈ nds) (he : e ∈ es)
    (hobj : obj e = ⟨u, v, p⟩) :
    addEdge (layout nds npl outs ins es obj) n e =
      some (layout nds npl (Function.update outs n (joined (u = n) e (outs n)))
        (Function.update ins n (joined (v = n) e (ins n))) es obj) := by
  unfold addEdge
  rw [layout_node hn, layout_edge he, hobj]
  change some (setNode _ n ⟨_, _, npl n⟩) = _
  rw [setNode_layout hn]
  rfl

theorem joined_twice {f : ℕ → List ℕ} {a u v w : ℕ} (hf : ∀ n, a ∉ f n) (hw : w = u ∨ w = v) :
    Function.update (Function.update f u (joined (w = u) a (f u))) v
      (joined (w = v) a (Function.update f u (joined (w = u) a (f u)) v)) =
    fun n => if w = n then f n ++ [a] else f n := by
  unfold joined
  funext n
  by_cases hn : n = v
  · rw [hn, Function.update_self]
    by_cases hu : v = u
    · rw [hu, Function.update_self]
      by_cases hwu : w = u
      · simp [hwu, hf]
      · simp [hwu]
    · simp [hu, hf]
  · rw [Function.update_of_ne hn]
    by_cases hu : n = u
    · rw [hu]
      simp [hf]
    · have hwn : w ≠ n := by omega
      simp [hu, hwn]

theorem outOf_link {a u v : ℕ} {p : EP} (ha : a ∉ es) :
    outOf (es ++ [a]) (Function.update obj a ⟨u, v, p⟩) =
      fun n => if u = n then outOf es obj n ++ [a] else outOf es obj n := by
  unfold outOf
  funext n
  rw [List.filter_append]
  have hold : es.filter (fun e => (Function.update obj a ⟨u, v, p⟩ e).getFrom = n) =
      es.filter fun e => (obj e).getFrom = n := by
    apply List.filter_congr
    intro e he
    have hne : e ≠ a := fun heq => ha (heq ▸ he)
    rw [Function.update_of_ne hne]
  rw [hold]
  by_cases hu : u = n
  · simp [hu]
  · simp [hu]

theorem inTo_link {a u v : ℕ} {p : EP} (ha : a ∉ es) :
    inTo (es ++ [a]) (Function.update obj a ⟨u, v, p⟩) =
      fun n => if v = n then inTo es obj n ++ [a] else inTo es obj n := by
  unfold inTo
  funext n
  rw [List.filter_append]
  have hold : es.filter (fun e => (Function.update obj a ⟨u, v, p⟩ e).getTo = n) =
      es.filter fun e => (obj e).getTo = n := by
    apply List.filter_congr
    intro e he
    have hne : e ≠ a := fun heq => ha (heq ▸ he)
    rw [Function.update_of_ne hne]
  rw [hold]
  by_cases hv : v = n
  · simp [hv]
  · simp [hv]

theorem without_twice {f : ℕ → List ℕ} {e u v : ℕ} (hf : ∀ n, e ∈ f n → n = u ∨ n = v) :
    Function.update (Function.update f u (without e (f u))) v
      (without e (Function.update f u (without e (f u)) v)) = fun n => without e (f n) := by
  funext n
  by_cases hn : n = v
  · rw [hn, Function.update_self]
    by_cases hu : v = u
    · rw [hu, Function.update_self, without_without]
    · rw [Function.update_of_ne hu]
  · rw [Function.update_of_ne hn]
    by_cases hu : n = u
    · rw [hu, Function.update_self]
    · rw [Function.update_of_ne hu, without_of_not_mem fun he => (hf n he).elim hu hn]

theorem Placed.update {f g : ℕ → List ℕ} (h : ∀ n, Placed n (f n) (g n) obj) (e u n : ℕ) :
    Placed n (Function.update f u (without e (f u)) n) (Function.update g u (without e (g u)) n)
      obj := by
  by_cases hn : n = u
  · rw [hn, Function.update_self, Function.update_self]
    exact ⟨(h u).out_nodup.filter _, (h u).in_nodup.filter _,
      fun x hx => (h u).out_from x (mem_without.1 hx).1,
      fun x hx => (h u).in_to x (mem_without.1 hx).1⟩
  · rw [Function.update_of_ne hn, Function.update_of_ne hn]
    exact h n

/-- An edge is taken out of the lists of both of its ends, which may be one node. -/
theorem removeEdge_ends {u v e : ℕ} (hnodup : es.Nodup) (hu : u ∈ nds) (hv : v ∈ nds) (he : e ∈ es)
    (hfrom : (obj e).getFrom = u) (hto : (obj e).getTo = v) :
    ((removeEdge (layout nds npl (outOf es obj) (inTo es obj) es obj) u e).bind
        fun h => removeEdge h v e) =
      some (layout nds npl (outOf (without e es) obj) (inTo (without e es) obj) es obj) := by
  have hplaced := @placed_of_nodup _ _ obj hnodup
  have hout : ∀ n, e ∈ outOf es obj n → n = u ∨ n = v :=
    fun n h => Or.inl ((mem_outOf.1 h).2.symm.trans hfrom)
  have hin : ∀ n, e ∈ inTo es obj n → n = u ∨ n = v :=
    fun n h => Or.inr ((mem_inTo.1 h).2.symm.trans hto)
  rw [removeEdge_layout (hplaced u) hu he, Option.bind_some,
    removeEdge_layout (Placed.update hplaced e u v) hv he, without_twice hout, without_twice hin,
    funext (outOf_without e), funext (inTo_without e)]

theorem findEdg_layout {u v : ℕ} {l : List ℕ} (hl : ∀ e ∈ l, e ∈ es) :
    findEdg (layout nds npl outs ins es obj) u v l =
      some (l.find? fun e => (obj e).getOtherNd u = v) := by
  induction l with
  | nil => rfl
  | cons e l ih =>
    rw [findEdg, layout_edge (hl e List.mem_cons_self)]
    change (if (obj e).getOtherNd u = v then _ else _) = _
    by_cases hv : (obj e).getOtherNd u = v
    · simp [hv]
    · simp [hv, ih fun x hx => hl x (List.mem_cons_of_mem _ hx)]

theorem getEdg_layout {u v : ℕ} (hu : u ∈ nds) (hl : ∀ e ∈ outs u, e ∈ es) :
    getEdg (layout nds npl outs ins es obj) u v =
      some ((outs u).find? fun e => (obj e).getOtherNd u = v) := by
  unfold getEdg
  rw [layout_node hu]
  exact findEdg_layout hl

end layout

structure Stored (NP EP : Type) where
  nodes : Finset ℕ
  npl : ℕ → NP
  edges : List ℕ
  obj : ℕ → EdgeObject EP
  nodup : edges.Nodup
  ends : ∀ e ∈ edges, (obj e).getFrom ∈ nodes ∧ (obj e).getTo ∈ nodes
  simple : ∀ e ∈ edges, ∀ e' ∈ edges, (obj e).getFrom = (obj e').getFrom →
    (obj e).getTo = (obj e').getTo → e = e'

namespace Stored
variable {NP EP : Type} {s : Stored NP EP}

def heap (s : Stored NP EP) : Heap NP EP :=
  layout s.nodes s.npl (outOf s.edges s.obj) (inTo s.edges s.obj) s.edges s.obj

def getEdg (s : Stored NP EP) (u v : ℕ) : Option ℕ :=
  (outOf s.edges s.obj u).find? fun e => (s.obj e).getOtherNd u = v

theorem getEdg_heap {u v : ℕ} (hu : u ∈ s.nodes) :
    AdjacencyLists.getEdg s.heap u v = some (s.getEdg u v) :=
  getEdg_layout hu fun _ he => (mem_outOf.1 he).1

theorem otherNd_of_from {e u v : ℕ} (he : (s.obj e).getFrom = u) :
    (s.obj e).getOtherNd u = v ↔ (s.obj e).getTo = v := by
  unfold EdgeObject.getOtherNd
  split
  · rename_i hloop
    rw [he, hloop]
  · rfl

theorem getEdg_eq_some {u v e : ℕ} :
    s.getEdg u v = some e ↔ e ∈ s.edges ∧ (s.obj e).getFrom = u ∧ (s.obj e).getTo = v := by
  unfold getEdg
  constructor
  · intro h
    have hmem := mem_outOf.1 (List.mem_of_find?_eq_some h)
    have hend : (s.obj e).getOtherNd u = v := by simpa using List.find?_some h
    exact ⟨hmem.1, hmem.2, (otherNd_of_from hmem.2).1 hend⟩
  · rintro ⟨he, hu, hv⟩
    have hmem := mem_outOf.2 ⟨he, hu⟩
    cases hfind : (outOf s.edges s.obj u).find? fun e => (s.obj e).getOtherNd u = v with
    | none =>
      have hnone := List.find?_eq_none.1 hfind e hmem
      simp [otherNd_of_from hu, hv] at hnone
    | some x =>
      have hx := mem_outOf.1 (List.mem_of_find?_eq_some hfind)
      have hend : (s.obj x).getOtherNd u = v := by simpa using List.find?_some hfind
      rw [otherNd_of_from hx.2] at hend
      rw [s.simple x hx.1 e he (hx.2.trans hu.symm) (hend.trans hv.symm)]

theorem getEdg_eq_none {u v : ℕ} :
    s.getEdg u v = none ↔ ∀ e ∈ s.edges, (s.obj e).getFrom = u → (s.obj e).getTo ≠ v := by
  constructor
  · intro h e he hu hv
    rw [getEdg_eq_some.2 ⟨he, hu, hv⟩] at h
    cases h
  · intro h
    cases hget : s.getEdg u v with
    | none => rfl
    | some e =>
      have hmem := getEdg_eq_some.1 hget
      exact absurd hmem.2.2 (h e hmem.1 hmem.2.1)

theorem consistent (s : Stored NP EP) : Consistent s.heap := by
  have hedge : ∀ {e eP}, s.heap.edge e = some eP → e ∈ s.edges ∧ s.obj e = eP := by
    intro e eP h
    simpa [heap, layout] using h
  have hnode : ∀ {n nd}, s.heap.node n = some nd → nd.adjListOut = outOf s.edges s.obj n ∧
      nd.adjListIn = inTo s.edges s.obj n := by
    intro n nd h
    by_cases hn : n ∈ s.nodes
    · have hnd := Option.some.inj ((layout_node hn).symm.trans h)
      rw [← hnd]
      exact ⟨rfl, rfl⟩
    · simp [heap, layout, hn] at h
  constructor
  · intro n
    simp [heap, layout]
  · intro e eP h
    have he := hedge h
    rw [← he.2]
    exact s.ends e he.1
  · intro e eP nd h hnd
    have he := hedge h
    rw [(hnode hnd).1]
    apply List.count_eq_one_of_mem (s.nodup.filter _)
    rw [← he.2]
    exact mem_outOf.2 ⟨he.1, rfl⟩
  · intro e eP nd h hnd
    have he := hedge h
    rw [(hnode hnd).2]
    apply List.count_eq_one_of_mem (s.nodup.filter _)
    rw [← he.2]
    exact mem_inTo.2 ⟨he.1, rfl⟩
  · intro e eP e' eP' h h' hfrom hto
    have he := hedge h
    have he' := hedge h'
    rw [← he.2, ← he'.2] at hfrom hto
    exact s.simple e he.1 e' he'.1 hfrom hto
  · intro u v hu _
    refine ⟨s.getEdg u v, getEdg_heap hu, ?_⟩
    intro e
    rw [getEdg_eq_some]
    constructor
    · intro h
      exact ⟨s.obj e, layout_edge h.1, h.2⟩
    · rintro ⟨eP, h, hends⟩
      have he := hedge h
      rw [← he.2] at hends
      exact ⟨he.1, hends⟩
  · intro n nd h e he
    rw [(hnode h).1] at he
    have hmem := mem_outOf.1 he
    exact ⟨s.obj e, layout_edge hmem.1, hmem.2⟩
  · intro n nd h e he
    rw [(hnode h).2] at he
    have hmem := mem_inTo.1 he
    exact ⟨s.obj e, layout_edge hmem.1, hmem.2⟩

section operations

def addNd (s : Stored NP EP) (a : ℕ) (p : NP) : Stored NP EP :=
  { s with
    nodes := insert a s.nodes
    npl := Function.update s.npl a p
    ends := fun e he => ⟨Finset.mem_insert_of_mem (s.ends e he).1,
      Finset.mem_insert_of_mem (s.ends e he).2⟩ }

theorem addNd_heap {a : ℕ} (ha : a ∉ s.nodes) (p : NP) :
    AdjacencyLists.addNd s.heap a p = (s.addNd a p).heap := by
  have hout : outOf s.edges s.obj a = [] := by
    apply List.filter_eq_nil_iff.2
    intro e he
    have hne : (s.obj e).getFrom ≠ a := fun heq => ha (heq ▸ (s.ends e he).1)
    simpa using hne
  have hin : inTo s.edges s.obj a = [] := by
    apply List.filter_eq_nil_iff.2
    intro e he
    have hne : (s.obj e).getTo ≠ a := fun heq => ha (heq ▸ (s.ends e he).2)
    simpa using hne
  unfold AdjacencyLists.addNd setNode heap addNd layout
  change Heap.mk _ _ _ = Heap.mk _ _ _
  congr 1
  funext n
  by_cases hn : n = a
  · rw [hn]
    simp [hout, hin]
  · simp [hn]

def link (s : Stored NP EP) {u v a : ℕ} (hu : u ∈ s.nodes) (hv : v ∈ s.nodes) (ha : a ∉ s.edges)
    (hnone : s.getEdg u v = none) (p : EP) : Stored NP EP :=
  { s with
    edges := s.edges ++ [a]
    obj := Function.update s.obj a ⟨u, v, p⟩
    nodup := s.nodup.append (List.nodup_singleton a) (by simpa using ha)
    ends := by
      intro e he
      by_cases hea : e = a
      · rw [hea, Function.update_self]
        exact ⟨hu, hv⟩
      · rw [Function.update_of_ne hea]
        exact s.ends e (by simpa [hea] using he)
    simple := by
      have hno := getEdg_eq_none.1 hnone
      intro e he e' he' hfrom hto
      by_cases hea : e = a
      · by_cases hea' : e' = a
        · rw [hea, hea']
        · rw [hea, Function.update_self, Function.update_of_ne hea'] at hfrom hto
          exact absurd hto.symm (hno e' (by simpa [hea'] using he') hfrom.symm)
      · rw [Function.update_of_ne hea] at hfrom hto
        by_cases hea' : e' = a
        · rw [hea', Function.update_self] at hfrom hto
          exact absurd hto (hno e (by simpa [hea] using he) hfrom)
        · rw [Function.update_of_ne hea'] at hfrom hto
          exact s.simple e (by simpa [hea] using he) e' (by simpa [hea'] using he') hfrom hto }

theorem addEdg_heap_of_none {u v a : ℕ} (hu : u ∈ s.nodes) (hv : v ∈ s.nodes) (ha : a ∉ s.edges)
    (hnone : s.getEdg u v = none) (p : EP) :
    AdjacencyLists.addEdg s.heap u v a p = some (a, (s.link hu hv ha hnone p).heap) := by
  have hstart : { s.heap with edge := Function.update s.heap.edge a (some ⟨u, v, p⟩) } =
      layout s.nodes s.npl (outOf s.edges s.obj) (inTo s.edges s.obj) (s.edges ++ [a])
        (Function.update s.obj a ⟨u, v, p⟩) := by
    unfold heap layout
    change Heap.mk _ _ _ = Heap.mk _ _ _
    congr 1
    funext e
    by_cases he : e = a
    · simp [he]
    · simp [he]
  have hmem : a ∈ s.edges ++ [a] := by simp
  have hout : ∀ n, a ∉ outOf s.edges s.obj n := fun n h => ha (mem_outOf.1 h).1
  have hin : ∀ n, a ∉ inTo s.edges s.obj n := fun n h => ha (mem_inTo.1 h).1
  unfold AdjacencyLists.addEdg
  rw [getEdg_heap hu, hnone]
  change ((addEdge _ u a).bind fun h => (addEdge h v a).bind fun h => some (a, h)) = _
  rw [hstart, addEdge_layout hu hmem (Function.update_self _ _ _), Option.bind_some,
    addEdge_layout hv hmem (Function.update_self _ _ _), Option.bind_some, joined_twice hout (Or.inl rfl), joined_twice hin (Or.inr rfl), ← outOf_link ha,
    ← inTo_link ha]
  rfl

theorem addEdg_heap_of_some {u v e : ℕ} (hu : u ∈ s.nodes) (h : s.getEdg u v = some e) (a : ℕ)
    (p : EP) : AdjacencyLists.addEdg s.heap u v a p = some (e, s.heap) := by
  unfold AdjacencyLists.addEdg
  rw [getEdg_heap hu, h]
  rfl

def keep (s : Stored NP EP) (p : ℕ → Bool) : Stored NP EP :=
  { s with
    edges := s.edges.filter p
    nodup := s.nodup.filter _
    ends := fun e he => s.ends e (List.mem_of_mem_filter he)
    simple := fun e he e' he' =>
      s.simple e (List.mem_of_mem_filter he) e' (List.mem_of_mem_filter he') }

def delEdg (s : Stored NP EP) (u v : ℕ) : Stored NP EP :=
  match s.getEdg u v with
  | none => s
  | some toDel => s.keep (· ≠ toDel)

theorem delEdg_heap {u v : ℕ} (hu : u ∈ s.nodes) (hv : v ∈ s.nodes) :
    AdjacencyLists.delEdg s.heap u v = some (s.delEdg u v).heap := by
  unfold AdjacencyLists.delEdg delEdg
  rw [getEdg_heap hu]
  cases hget : s.getEdg u v with
  | none => rfl
  | some toDel =>
    obtain ⟨he, hfrom, hto⟩ := getEdg_eq_some.1 hget
    have hgone : (s.keep (· ≠ toDel)).getEdg u v = none := by
      apply getEdg_eq_none.2
      intro e hmem heu hev
      obtain ⟨hmem, hne⟩ := mem_without.1 hmem
      exact hne (s.simple e hmem toDel he (heu.trans hfrom.symm) (hev.trans hto.symm))
    change ((removeEdge s.heap u toDel).bind fun h => (removeEdge h v toDel).bind fun h =>
      (AdjacencyLists.getEdg h u v).bind _) = _
    rw [← Option.bind_assoc, heap, removeEdge_ends s.nodup hu hv he hfrom hto, Option.bind_some,
      getEdg_layout hu fun e h => (mem_without.1 (mem_outOf.1 h).1).1]
    change (outOf (without toDel s.edges) s.obj u).find?
      (fun e => (s.obj e).getOtherNd u = v) = none at hgone
    rw [hgone, Option.bind_some]
    change some (deleteEdge _ toDel) = _
    rw [deleteEdge_layout]
    rfl

section destructor
variable {n : ℕ} {es : List ℕ} {h : Heap NP EP}

/-- The heap while the destructor of `n` runs: the lists of the other nodes hold what is left. -/
def Away (s : Stored NP EP) (n : ℕ) (es : List ℕ) (h : Heap NP EP) : Prop :=
  ∃ outs ins, h = layout s.nodes s.npl outs ins es s.obj ∧
    ∀ k, k ≠ n → outs k = outOf es s.obj k ∧ ins k = inTo es s.obj k

theorem Away.edge (ha : s.Away n es h) {e : ℕ} (he : e ∈ es) : h.edge e = some (s.obj e) := by
  rcases ha with ⟨outs, ins, rfl, -⟩
  exact layout_edge he

theorem Away.deleteEdge_self (ha : s.Away n es h) {e : ℕ} (hfrom : (s.obj e).getFrom = n)
    (hto : (s.obj e).getTo = n) : s.Away n (without e es) (deleteEdge h e) := by
  rcases ha with ⟨outs, ins, rfl, hlists⟩
  refine ⟨outs, ins, deleteEdge_layout e, ?_⟩
  intro k hk
  rw [(hlists k hk).1, (hlists k hk).2, outOf_without, inTo_without, without_of_not_mem,
    without_of_not_mem]
  · exact ⟨rfl, rfl⟩
  · exact fun h => hk ((mem_inTo.1 h).2.symm.trans hto)
  · exact fun h => hk ((mem_outOf.1 h).2.symm.trans hfrom)

theorem Away.removeEdge_far (ha : s.Away n es h) (hnodup : es.Nodup) {e m : ℕ} (he : e ∈ es)
    (hm : m ∈ s.nodes) (hmn : m ≠ n)
    (hends : ∀ k, (s.obj e).getFrom = k ∨ (s.obj e).getTo = k → k = n ∨ k = m) :
    ∃ h', removeEdge h m e = some h' ∧ s.Away n (without e es) (deleteEdge h' e) := by
  rcases ha with ⟨outs, ins, rfl, hlists⟩
  have hplaced : Placed m (outs m) (ins m) s.obj := by
    rw [(hlists m hmn).1, (hlists m hmn).2]
    exact placed_of_nodup hnodup m
  refine ⟨_, removeEdge_layout hplaced hm he, _, _, deleteEdge_layout e, ?_⟩
  intro k hk
  rw [outOf_without, inTo_without]
  by_cases hkm : k = m
  · rw [hkm, Function.update_self, Function.update_self, (hlists m hmn).1, (hlists m hmn).2]
    exact ⟨rfl, rfl⟩
  · have hfar : ¬ ((s.obj e).getFrom = k ∨ (s.obj e).getTo = k) :=
      fun h => (hends k h).elim hk hkm
    rw [Function.update_of_ne hkm, Function.update_of_ne hkm, (hlists k hk).1, (hlists k hk).2,
      without_of_not_mem, without_of_not_mem]
    · exact ⟨rfl, rfl⟩
    · exact fun h => hfar (Or.inr (mem_inTo.1 h).2)
    · exact fun h => hfar (Or.inl (mem_outOf.1 h).2)

theorem without_filter_not_mem (e : ℕ) (l : List ℕ) :
    (without e es).filter (· ∉ l) = es.filter (· ∉ e :: l) := by
  unfold without
  rw [List.filter_filter]
  apply List.filter_congr
  intro x _
  simp [Bool.and_comm]

theorem delEdgesTo_away (far : EdgeObject EP → ℕ) (l : List ℕ) (hl : l.Nodup) (hnodup : es.Nodup)
    (ha : s.Away n es h)
    (hmem : ∀ e ∈ l, e ∈ es ∧ far (s.obj e) ∈ s.nodes ∧ far (s.obj e) ≠ n ∧
      ∀ k, (s.obj e).getFrom = k ∨ (s.obj e).getTo = k → k = n ∨ k = far (s.obj e)) :
    ∃ h', delEdgesTo far n l h = some h' ∧ s.Away n (es.filter (· ∉ l)) h' := by
  induction l generalizing es h with
  | nil => exact ⟨h, rfl, by simpa using ha⟩
  | cons e l ih =>
    obtain ⟨hnot, hl⟩ := List.nodup_cons.1 hl
    obtain ⟨he, hm, hmn, hends⟩ := hmem e List.mem_cons_self
    obtain ⟨h', hremove, haway⟩ := ha.removeEdge_far hnodup he hm hmn hends
    have hrest : ∀ x ∈ l, x ∈ without e es :=
      fun x hx => mem_without.2 ⟨(hmem x (List.mem_cons_of_mem _ hx)).1, fun heq => hnot (heq ▸ hx)⟩
    obtain ⟨h'', hloop, hlast⟩ := ih hl (hnodup.filter _) haway
      fun x hx => ⟨hrest x hx, (hmem x (List.mem_cons_of_mem _ hx)).2⟩
    refine ⟨h'', ?_, without_filter_not_mem e l ▸ hlast⟩
    rw [delEdgesTo, ha.edge he]
    change (if far (s.obj e) ≠ n then
      (removeEdge h (far (s.obj e)) e).bind fun h => delEdgesTo far n l (deleteEdge h e) else _) = _
    rw [if_pos hmn, hremove, Option.bind_some, hloop]

def isSelf (s : Stored NP EP) (n : ℕ) (l : List ℕ) (e : ℕ) : Prop := e ∈ l ∧ (s.obj e).getTo = n

instance (s : Stored NP EP) (n : ℕ) (l : List ℕ) (e : ℕ) : Decidable (s.isSelf n l e) :=
  inferInstanceAs (Decidable (_ ∧ _))

theorem without_filter_not_self {e : ℕ} (he : (s.obj e).getTo = n) (l xs : List ℕ) :
    (without e xs).filter (fun x => ¬ s.isSelf n l x) =
      xs.filter fun x => ¬ s.isSelf n (e :: l) x := by
  unfold without isSelf
  rw [List.filter_filter]
  apply List.filter_congr
  intro x _
  by_cases hx : x = e
  · simp [hx, he]
  · simp [hx]

theorem filter_not_self_of_ne {e : ℕ} (he : (s.obj e).getTo ≠ n) (l xs : List ℕ) :
    xs.filter (fun x => ¬ s.isSelf n l x) = xs.filter fun x => ¬ s.isSelf n (e :: l) x := by
  unfold isSelf
  apply List.filter_congr
  intro x _
  by_cases hx : x = e
  · simp [hx, he]
  · simp [hx]

theorem delSelfEdges_away (l ins : List ℕ) (hl : l.Nodup) (hins : ins.Nodup) (ha : s.Away n es h)
    (hmem : ∀ e ∈ l, e ∈ es ∧ (s.obj e).getFrom = n)
    (hin : ∀ e ∈ l, (s.obj e).getTo = n → e ∈ ins) :
    ∃ h', delSelfEdges n l ins h = some (l.filter (fun e => (s.obj e).getTo ≠ n),
      ins.filter (fun e => ¬ s.isSelf n l e), h') ∧
      s.Away n (es.filter fun e => ¬ s.isSelf n l e) h' := by
  induction l generalizing ins es h with
  | nil => exact ⟨h, by simp [delSelfEdges, isSelf], by simpa [isSelf] using ha⟩
  | cons e l ih =>
    obtain ⟨hnot, hl⟩ := List.nodup_cons.1 hl
    obtain ⟨he, hfrom⟩ := hmem e List.mem_cons_self
    rw [delSelfEdges, ha.edge he, List.filter_cons]
    change ∃ h', (if (s.obj e).getTo = n then _ else _) = _ ∧ _
    by_cases hto : (s.obj e).getTo = n
    · have hne : ∀ x ∈ l, x ≠ e := fun x hx heq => hnot (heq ▸ hx)
      obtain ⟨h', hloop, hlast⟩ := ih (without e ins) hl (hins.filter _)
        (ha.deleteEdge_self hfrom hto)
        (fun x hx => ⟨mem_without.2 ⟨(hmem x (List.mem_cons_of_mem _ hx)).1, hne x hx⟩,
          (hmem x (List.mem_cons_of_mem _ hx)).2⟩)
        fun x hx h => mem_without.2 ⟨hin x (List.mem_cons_of_mem _ hx) h, hne x hx⟩
      rw [without_filter_not_self hto] at hloop hlast
      refine ⟨h', ?_, hlast⟩
      rw [if_pos hto, if_pos (hin e List.mem_cons_self hto), erase_eq_without hins, hloop]
      simp [hto]
    · obtain ⟨h', hloop, hlast⟩ := ih ins hl hins ha
        (fun x hx => hmem x (List.mem_cons_of_mem _ hx))
        fun x hx => hin x (List.mem_cons_of_mem _ hx)
      rw [filter_not_self_of_ne hto] at hloop hlast
      refine ⟨h', ?_, hlast⟩
      rw [if_neg hto, hloop]
      simp [hto]

theorem filter_loops (n : ℕ) :
    ((s.edges.filter fun e => ¬ s.isSelf n (outOf s.edges s.obj n) e).filter
      (· ∉ (outOf s.edges s.obj n).filter fun e => (s.obj e).getTo ≠ n)).filter
      (· ∉ (inTo s.edges s.obj n).filter fun e => ¬ s.isSelf n (outOf s.edges s.obj n) e) =
    s.edges.filter fun e => (s.obj e).getFrom ≠ n ∧ (s.obj e).getTo ≠ n := by
  rw [List.filter_filter, List.filter_filter]
  apply List.filter_congr
  intro e he
  by_cases hfrom : (s.obj e).getFrom = n
  · by_cases hto : (s.obj e).getTo = n
    · simp [isSelf, mem_outOf, mem_inTo, he, hfrom, hto]
    · simp [isSelf, mem_outOf, mem_inTo, he, hfrom, hto]
  · by_cases hto : (s.obj e).getTo = n
    · simp [isSelf, mem_outOf, mem_inTo, he, hfrom, hto]
    · simp [isSelf, mem_outOf, mem_inTo, hfrom, hto]

def delNd (s : Stored NP EP) (n : ℕ) : Stored NP EP :=
  { s.keep (fun e => (s.obj e).getFrom ≠ n ∧ (s.obj e).getTo ≠ n) with
    nodes := s.nodes.erase n
    ends := by
      intro e he
      have hmem : e ∈ s.edges ∧ (s.obj e).getFrom ≠ n ∧ (s.obj e).getTo ≠ n := by
        simpa [keep] using he
      have hends := s.ends e hmem.1
      exact ⟨Finset.mem_erase.2 ⟨hmem.2.1, hends.1⟩, Finset.mem_erase.2 ⟨hmem.2.2, hends.2⟩⟩ }

theorem delNd_out {e : ℕ}
    (he : e ∈ (outOf s.edges s.obj n).filter fun e => (s.obj e).getTo ≠ n) :
    e ∈ s.edges.filter (fun e => ¬ s.isSelf n (outOf s.edges s.obj n) e) ∧
      (s.obj e).getTo ∈ s.nodes ∧ (s.obj e).getTo ≠ n ∧
      ∀ k, (s.obj e).getFrom = k ∨ (s.obj e).getTo = k → k = n ∨ k = (s.obj e).getTo := by
  have hmem : (e ∈ s.edges ∧ (s.obj e).getFrom = n) ∧ (s.obj e).getTo ≠ n := by
    simpa [mem_outOf] using he
  refine ⟨by simp [isSelf, hmem], (s.ends e hmem.1.1).2, hmem.2, ?_⟩
  intro k hk
  rw [← hmem.1.2]
  exact hk.imp Eq.symm Eq.symm

theorem delNd_in {e : ℕ}
    (he : e ∈ (inTo s.edges s.obj n).filter fun e => ¬ s.isSelf n (outOf s.edges s.obj n) e) :
    e ∈ (s.edges.filter fun e => ¬ s.isSelf n (outOf s.edges s.obj n) e).filter
        (· ∉ (outOf s.edges s.obj n).filter fun e => (s.obj e).getTo ≠ n) ∧
      (s.obj e).getFrom ∈ s.nodes ∧ (s.obj e).getFrom ≠ n ∧
      ∀ k, (s.obj e).getFrom = k ∨ (s.obj e).getTo = k → k = n ∨ k = (s.obj e).getFrom := by
  have hmem : (e ∈ s.edges ∧ (s.obj e).getTo = n) ∧
      ¬ s.isSelf n (outOf s.edges s.obj n) e := by
    simpa [mem_inTo] using he
  have hfrom : (s.obj e).getFrom ≠ n :=
    fun h => hmem.2 ⟨mem_outOf.2 ⟨hmem.1.1, h⟩, hmem.1.2⟩
  refine ⟨by simp [hmem], (s.ends e hmem.1.1).1, hfrom, ?_⟩
  intro k hk
  rw [← hmem.1.2]
  exact hk.symm.imp Eq.symm Eq.symm

theorem delNd_heap (hn : n ∈ s.nodes) :
    AdjacencyLists.delNd s.heap n = some (s.delNd n).heap := by
  have hstart : s.Away n s.edges s.heap := ⟨_, _, rfl, fun _ _ => ⟨rfl, rfl⟩⟩
  have hplaced := @placed_of_nodup _ _ s.obj s.nodup n
  obtain ⟨h₁, hself, haway₁⟩ := delSelfEdges_away _ _ hplaced.out_nodup hplaced.in_nodup hstart
    (fun e he => mem_outOf.1 he) fun e he hto => mem_inTo.2 ⟨(mem_outOf.1 he).1, hto⟩
  obtain ⟨h₂, hout, haway₂⟩ := delEdgesTo_away EdgeObject.getTo _ (hplaced.out_nodup.filter _)
    (s.nodup.filter _) haway₁ fun e => delNd_out
  obtain ⟨h₃, hin, outs, ins, hlast, hlists⟩ := delEdgesTo_away EdgeObject.getFrom _
    (hplaced.in_nodup.filter _) ((s.nodup.filter _).filter _) haway₂ fun e => delNd_in
  rw [filter_loops] at hlast hlists
  unfold AdjacencyLists.delNd
  have hnode : s.heap.node n = some _ := layout_node hn
  rw [if_pos (show n ∈ s.heap.nodes from hn), hnode]
  change ((delSelfEdges n (outOf s.edges s.obj n) (inTo s.edges s.obj n) s.heap).bind fun x =>
    (delEdgesTo EdgeObject.getTo n x.1 x.2.2).bind fun h =>
      (delEdgesTo EdgeObject.getFrom n x.2.1 h).bind _) = _
  rw [hself, Option.bind_some, hout, Option.bind_some, hin, Option.bind_some, hlast]
  change some (Heap.mk _ _ _) = some (Heap.mk _ _ _)
  congr 2
  funext k
  by_cases hk : k = n
  · rw [hk]
    simp [delNd]
  · rw [Function.update_of_ne hk]
    simp [layout, delNd, keep, hk, hlists k hk]

end destructor

/-- Every allowed operation leaves the heap of a graph. -/
theorem run_heap (s : Stored NP EP) {op : Op NP EP} (h : op.Allowed s.heap) :
    ∃ s' : Stored NP EP, op.run s.heap = some s'.heap := by
  cases op with
  | addNd a p =>
    have ha : a ∉ s.nodes := by
      intro ha
      have hnone : (s.heap.node a).isNone := h
      rw [heap, layout_node ha] at hnone
      cases hnone
    exact ⟨s.addNd a p, congrArg some (addNd_heap ha p)⟩
  | addEdg frm to_ a p =>
    obtain ⟨hu, hv, hnone⟩ := h
    have ha : a ∉ s.edges := by
      intro ha
      rw [heap, layout_edge ha] at hnone
      cases hnone
    cases hget : s.getEdg frm to_ with
    | none => exact ⟨s.link hu hv ha hget p, by rw [Op.run, addEdg_heap_of_none hu hv ha hget p]; rfl⟩
    | some e => exact ⟨s, by rw [Op.run, addEdg_heap_of_some hu hget a p]; rfl⟩
  | delEdg frm to_ => exact ⟨s.delEdg frm to_, delEdg_heap h.1 h.2⟩
  | delNd n => exact ⟨s.delNd n, delNd_heap h⟩

theorem runOps_heap (ops : List (Op NP EP)) (s : Stored NP EP) (h : AllowedRun s.heap ops) :
    ∃ s' : Stored NP EP, runOps s.heap ops = some s'.heap := by
  induction ops generalizing s with
  | nil => exact ⟨s, rfl⟩
  | cons op ops ih =>
    obtain ⟨s', hrun⟩ := s.run_heap h.1
    obtain ⟨s'', hrest⟩ := ih s' (h.2 _ hrun)
    refine ⟨s'', ?_⟩
    unfold runOps at hrest ⊢
    rw [List.foldlM_cons, hrun]
    exact hrest

end operations

def empty [Inhabited NP] [Inhabited EP] : Stored NP EP where
  nodes := ∅
  npl _ := default
  edges := []
  obj _ := ⟨0, 0, default⟩
  nodup := List.nodup_nil
  ends := by simp
  simple := by simp

theorem empty_heap [Inhabited NP] [Inhabited EP] : (empty : Stored NP EP).heap = Heap.empty := by
  simp [empty, heap, layout, Heap.empty]

end Stored

section runs
variable {NP EP : Type} [Inhabited NP] [Inhabited EP]

/-- No operation follows a pointer to an object that is not there, and edges and adjacency lists fit
    together after every run. -/
theorem runOps_consistent (ops : List (Op NP EP)) (h : AllowedRun Heap.empty ops) :
    ∃ h', runOps Heap.empty ops = some h' ∧ Consistent h' := by
  rw [← Stored.empty_heap] at h ⊢
  obtain ⟨s, hrun⟩ := Stored.runOps_heap ops Stored.empty h
  exact ⟨s.heap, hrun, s.consistent⟩

end runs

/-- Two nodes with a self edge and a two-cycle; one of them goes, and both addresses are used again. -/
def reuseOps : List (Op Unit ℕ) :=
  [.addNd 5 (), .addNd 3 (), .addEdg 5 5 1 10, .addEdg 5 3 2 11, .addEdg 3 5 4 12, .addEdg 5 3 6 13,
    .delEdg 5 3, .addEdg 3 3 2 14, .delNd 5, .addNd 5 (), .addEdg 3 5 1 15]

theorem runOps_consistent_reuse :
    ∃ h', runOps Heap.empty reuseOps = some h' ∧ Consistent h' :=
  runOps_consistent reuseOps (by decide)

end Pfaedle.AdjacencyLists

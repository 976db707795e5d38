import Pfaedle.ReadNames
import Pfaedle.RestrictionVisits

set_option autoImplicit false

/-!
# Rules under other names

Which edges a rule names depends on the nodes and edges of the visits only up to renaming.
-/
namespace Pfaedle.ReadEdges
open DirGraphs Osm Restriction ODirEdges

section rename
variable {V E V' E' : Type*} {f : V → V'} {g : E → E'}

def opMap (f : V → V') (g : E → E') : Op V E → Op V' E'
  | .add pos frm tos via => .add pos (g frm) tos (f via)
  | .relax wid n e => .relax wid (f n) (g e)

def entryMap (g : E → E') (x : Entry E) : Entry E' := ⟨g x.first, x.tos, x.before.map g⟩

def opNode : Op V E → V
  | .add _ _ _ via => via
  | .relax _ n _ => n

def opEdge : Op V E → E
  | .add _ frm _ _ => frm
  | .relax _ _ e => e

theorem readOps_map (rawRests : Restrictions) (xs : List (Visit V E)) :
    readOps rawRests (xs.map (Visit.map f g)) = (readOps rawRests xs).map (opMap f g) := by
  have hone : ∀ pos (x : Visit V E), restrictionOps pos (Visit.map f g x) =
      fun kv => (restrictionOps pos x kv).map (opMap f g) := by
    intro pos x
    funext kv
    rw [restrictionOps, restrictionOps]
    change (if kv.eFrom = x.wid then _ else if kv.eTo = x.wid then _ else _) = _
    split
    · rfl
    · split
      · rfl
      · rfl
  have hvisit : ∀ x : Visit V E,
      visitOps rawRests (Visit.map f g x) = (visitOps rawRests x).map (opMap f g) := by
    intro x
    rw [visitOps, visitOps, List.map_append, List.map_flatMap, List.map_flatMap, hone, hone]
    rfl
  rw [readOps, readOps, List.flatMap_map, List.map_flatMap]
  simp only [hvisit]

/-- `f` and `g` tell the edges of `S`, and `v` from the nodes in `ops`, apart. -/
structure Apart (f : V → V') (g : E → E') (S : Set E) (ops : List (Op V E)) (v : V) : Prop where
  node : ∀ op ∈ ops, f (opNode op) = f v → opNode op = v
  edge : Set.InjOn g S
  mem : ∀ op ∈ ops, opEdge op ∈ S

variable [DecidableEq V'] {ops pre : List (Op V E)} {v : V}

theorem mem_readOps {rawRests : Restrictions} {xs : List (Visit V E)} {op : Op V E}
    (h : op ∈ readOps rawRests xs) : ∃ x ∈ xs, opNode op = x.n ∧ opEdge op = x.e := by
  obtain ⟨x, hx, hop⟩ := List.mem_flatMap.1 h
  obtain ⟨pos, kv, -, hop | hop⟩ := mem_visitOps hop
  · rw [hop.1]
    exact ⟨x, hx, rfl, rfl⟩
  · rw [hop.1]
    exact ⟨x, hx, rfl, rfl⟩

variable [DecidableEq V]

theorem lastRelax_map (h : ∀ op ∈ ops, f (opNode op) = f v → opNode op = v) (wid : Osmid) :
    lastRelax (ops.map (opMap f g)) wid (f v) = (lastRelax ops wid v).map g := by
  rw [lastRelax, lastRelax, ← List.getLast?_map, List.filterMap_map, List.map_filterMap]
  congr 1
  apply List.filterMap_congr
  intro op hop
  cases op with
  | add pos frm tos via => rfl
  | relax w n e =>
    change (if w = wid ∧ f n = f v then _ else _) = Option.map g (if w = wid ∧ n = v then _ else _)
    by_cases hcond : w = wid ∧ n = v
    · rw [if_pos hcond, if_pos ⟨hcond.1, congrArg f hcond.2⟩]
      rfl
    · rw [if_neg hcond, if_neg fun hc => hcond ⟨hc.1, h _ hop hc.2⟩]
      rfl

theorem entries_map (pos : Bool) (hpre : ∀ op ∈ pre, f (opNode op) = f v → opNode op = v)
    (hops : ∀ op ∈ ops, f (opNode op) = f v → opNode op = v) :
    entries pos (f v) (pre.map (opMap f g)) (ops.map (opMap f g)) =
      (entries pos v pre ops).map (entryMap g) := by
  induction ops generalizing pre with
  | nil => rfl
  | cons op ops ih =>
    have hop := hops op List.mem_cons_self
    have hpre' : ∀ x ∈ pre ++ [op], f (opNode x) = f v → opNode x = v := by
      intro x hx
      cases List.mem_append.1 hx with
      | inl hx => exact hpre x hx
      | inr hx => rw [List.mem_singleton.1 hx]; exact hop
    have hnext := ih hpre' fun x hx => hops x (List.mem_cons_of_mem _ hx)
    rw [List.map_append, List.map_singleton] at hnext
    rw [List.map_cons, entries, entries, List.map_append, hnext]
    congr 1
    cases op with
    | relax w n e => rfl
    | add p frm tos via =>
      change (if p = pos ∧ f via = f v then [Entry.mk (g frm) tos (lastRelax _ tos (f v))] else []) =
        (if p = pos ∧ via = v then [Entry.mk frm tos (lastRelax pre tos v)] else []).map (entryMap g)
      by_cases hcond : p = pos ∧ via = v
      · rw [if_pos hcond, if_pos ⟨hcond.1, congrArg f hcond.2⟩, lastRelax_map hpre]
        rfl
      · rw [if_neg hcond, if_neg fun hc => hcond ⟨hc.1, hop hc.2⟩]
        rfl

theorem target_map (h : ∀ op ∈ ops, f (opNode op) = f v → opNode op = v) (x : Entry E) :
    (entryMap g x).target (ops.map (opMap f g)) (f v) = (x.target ops v).map g := by
  rw [Entry.target, Entry.target, lastRelax_map h, entryMap]
  cases x.before with
  | none => rfl
  | some e => rfl

theorem mem_entries {pos : Bool} {x : Entry E} (hx : x ∈ entries pos v pre ops) :
    (∃ op ∈ ops, opEdge op = x.first) ∧
      ∃ before, before ⊆ pre ++ ops ∧ x.before = lastRelax before x.tos v := by
  induction ops generalizing pre with
  | nil => simp [entries] at hx
  | cons op ops ih =>
    rw [entries, List.mem_append] at hx
    cases hx with
    | inl hx =>
      cases op with
      | relax w n e => simp [entryOf] at hx
      | add p frm tos via =>
        rw [entryOf] at hx
        split at hx
        · rw [List.mem_singleton.1 hx]
          exact ⟨⟨_, List.mem_cons_self, rfl⟩, pre, List.subset_append_left _ _, rfl⟩
        · simp at hx
    | inr hx =>
      obtain ⟨⟨op', hop', he⟩, before, hsub, hbefore⟩ := ih hx
      rw [List.append_assoc] at hsub
      exact ⟨⟨op', List.mem_cons_of_mem _ hop', he⟩, before, hsub, hbefore⟩

theorem mem_of_lastRelax {wid : Osmid} {e : E} (h : lastRelax ops wid v = some e) :
    ∃ op ∈ ops, opEdge op = e := by
  obtain ⟨op, hop, hrelax⟩ := List.mem_filterMap.1 (List.mem_of_getLast? h)
  refine ⟨op, hop, ?_⟩
  cases op with
  | add p frm tos via => simp [relaxOf] at hrelax
  | relax w n x =>
    rw [relaxOf] at hrelax
    split at hrelax
    · exact Option.some.inj hrelax
    · simp at hrelax

theorem mem_of_before {pos : Bool} {x : Entry E} {e : E} (hx : x ∈ entries pos v pre ops)
    (he : x.before = some e) : ∃ op ∈ pre ++ ops, opEdge op = e := by
  obtain ⟨-, before, hsub, hbefore⟩ := mem_entries hx
  obtain ⟨op, hop, hedge⟩ := mem_of_lastRelax (hbefore.symm.trans he)
  exact ⟨op, hsub hop, hedge⟩

variable [DecidableEq E] [DecidableEq E']

theorem mem_of_targets {pos : Bool} {a e : E} (h : e ∈ targets pos ops a v) :
    ∃ op ∈ ops, opEdge op = e := by
  obtain ⟨x, hx, htarget⟩ := List.mem_filterMap.1 h
  have hx := List.mem_of_mem_filter hx
  rw [Entry.target, Option.or_eq_some_iff] at htarget
  cases htarget with
  | inl htarget =>
    have hmem := mem_of_before hx htarget
    rw [List.nil_append] at hmem
    exact hmem
  | inr htarget => exact mem_of_lastRelax htarget.2

theorem targets_map {S : Set E} (h : Apart f g S ops v) (pos : Bool) {a : E} (ha : a ∈ S) :
    targets pos (ops.map (opMap f g)) (g a) (f v) = (targets pos ops a v).map g := by
  have hentries : entries pos (f v) [] (ops.map (opMap f g)) =
      (entries pos v [] ops).map (entryMap g) :=
    entries_map pos (fun _ hop => absurd hop List.not_mem_nil) h.node
  rw [targets, targets, hentries, List.filter_map, List.filterMap_map, List.map_filterMap]
  have hfilter : (entries pos v [] ops).filter
        ((fun x : Entry E' => decide (x.first = g a)) ∘ entryMap g) =
      (entries pos v [] ops).filter fun x => x.first = a := by
    apply List.filter_congr
    intro x hx
    obtain ⟨⟨op, hop, hfirst⟩, -⟩ := mem_entries hx
    have hfirst : x.first ∈ S := by rw [← hfirst]; exact h.mem op hop
    exact decide_eq_decide.2 (h.edge.eq_iff hfirst ha)
  rw [hfilter]
  apply List.filterMap_congr
  intro x _
  exact target_map h.node x

theorem barred_map {S : Set E} (h : Apart f g S ops v) {a b : E} (ha : a ∈ S) (hb : b ∈ S) :
    barred (ops.map (opMap f g)) (g a) (g b) (f v) ↔ barred ops a b v := by
  have hmem : ∀ {pos e}, e ∈ targets pos ops a v → e ∈ S := by
    intro pos e he
    obtain ⟨op, hop, he⟩ := mem_of_targets he
    rw [← he]
    exact h.mem op hop
  rw [barred, barred, targets_map h true ha, List.head?_map]
  cases hhead : (targets true ops a v).head? with
  | some p => exact not_congr (h.edge.eq_iff (hmem (List.mem_of_mem_head? hhead)) hb)
  | none =>
    change g b ∈ targets false _ _ _ ↔ b ∈ _
    rw [targets_map h false ha, List.mem_map]
    constructor
    · intro he
      obtain ⟨e, he, hge⟩ := he
      rw [← h.edge (hmem he) hb hge]
      exact he
    · intro he
      exact ⟨b, he, rfl⟩

end rename

section named
variable {K : Type*} {NP D : Type*} {bBoxNodes : Osmid → Bool} {used : Set (K × ℕ)} {ν : ℕ → Name K}
  {xs : List (Visit (Name K) (EdgeName K))} {st : ReadState NP D} {rawRests : Restrictions}

/-- The names of a run tell its nodes and edges apart. -/
theorem Named.apart (h : Named bBoxNodes used ν xs st) {v : ℕ} (hv : v < st.g.nextNd) :
    Apart ν (edgeName ν) {e | e ∈ st.g.edges} (readOps rawRests st.visits) v where
  node op hop hname := by
    obtain ⟨x, hx, hnode, -⟩ := mem_readOps hop
    rw [hnode] at hname ⊢
    exact h.inj _ (h.visited_lt hx) v hv hname
  edge _ he _ he' hname := h.edgeName_inj he he' hname
  mem op hop := by
    obtain ⟨x, hx, -, hedge⟩ := mem_readOps hop
    rw [hedge]
    exact (h.visited x hx).1

theorem Named.readOps (h : Named bBoxNodes used ν xs st) :
    readOps rawRests xs = (readOps rawRests st.visits).map (opMap ν (edgeName ν)) := by
  rw [← readOps_map, h.visits]

theorem Named.barred_iff [DecidableEq K] (h : Named bBoxNodes used ν xs st) {a b : Edge} {v : ℕ}
    (ha : a ∈ st.g.edges) (hb : b ∈ st.g.edges) (hv : v < st.g.nextNd) :
    barred (ReadEdges.readOps rawRests xs) (edgeName ν a) (edgeName ν b) (ν v) ↔
      barred (ReadEdges.readOps rawRests st.visits) a b v := by
  rw [h.readOps]
  exact barred_map (h.apart hv) ha hb

end named

end Pfaedle.ReadEdges

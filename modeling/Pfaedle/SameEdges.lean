import Pfaedle.WaySegments
import Pfaedle.WrittenRelations

set_option autoImplicit false

/-!
# Ways that are read in the same way

`read_edges` looks at the nodes and the restrictions of the ways that it keeps.
-/
namespace Pfaedle.ReadEdges
open DirGraphs Osm OsmRelations Restriction ODirEdges

section rules
variable {NP D : Type*} {rests rests' : Restrictions}

def SameRules (rests rests' : Restrictions) (wid nid : Osmid) : Prop :=
  ∀ pos, concerning wid (rulesAt rests pos nid) = concerning wid (rulesAt rests' pos nid)

theorem foldl_concerning (pos : Bool) (v : Visit ℕ Edge) (rules : List Restriction)
    (st : TrGraph NP D × Restrictor) :
    rules.foldl (processRestriction pos v) st =
      (concerning v.wid rules).foldl (processRestriction pos v) st := by
  rw [concerning, List.foldl_filter]
  congr 1
  funext st r
  by_cases hr : r.eFrom = v.wid ∨ r.eTo = v.wid
  · simp [hr]
  · obtain ⟨hfrom, hto⟩ := not_or.1 hr
    simp [processRestriction, hfrom, hto]

theorem processRestrictions_same {v : Visit ℕ Edge} (h : SameRules rests rests' v.wid v.nid)
    (st : ReadState NP D) : processRestrictions rests st v = processRestrictions rests' st v := by
  have hpos : ∀ s : TrGraph NP D × Restrictor,
      (rests.pos v.nid).foldl (processRestriction true v) s =
        (rests'.pos v.nid).foldl (processRestriction true v) s := fun s => by
    rw [foldl_concerning, foldl_concerning true v (rests'.pos v.nid)]
    exact congrArg (fun rules => rules.foldl (processRestriction true v) s) (h true)
  have hneg : ∀ s : TrGraph NP D × Restrictor,
      (rests.neg v.nid).foldl (processRestriction false v) s =
        (rests'.neg v.nid).foldl (processRestriction false v) s := fun s => by
    rw [foldl_concerning, foldl_concerning false v (rests'.neg v.nid)]
    exact congrArg (fun rules => rules.foldl (processRestriction false v) s) (h false)
  rw [processRestrictions, processRestrictions, hpos, hneg]

end rules

section ways
variable {NP D : Type*} [Inhabited NP] {bBoxNodes bBoxNodes' noHupNodes noHupNodes' : Osmid → Bool}
  {rests rests' : Restrictions} {annotate annotate' : OsmWay → EdgePayload D → EdgePayload D}
  {w w' : OsmWay}

theorem refNode_same {nid : Osmid} (hbox : bBoxNodes nid = bBoxNodes' nid)
    (hnohup : noHupNodes nid = noHupNodes' nid) (st : ReadState NP D) :
    refNode bBoxNodes noHupNodes st nid = refNode bBoxNodes' noHupNodes' st nid := by
  rw [refNode, refNode, hbox, hnohup]

variable [Inhabited D]

omit [Inhabited NP] in
theorem connect_same (hid : w.id = w'.id) (hannotate : annotate w = annotate' w')
    {last : Osmid × ℕ} {nid : Osmid} (hlast : SameRules rests rests' w'.id last.1)
    (hnid : SameRules rests rests' w'.id nid) (st : ReadState NP D) (n : ℕ) :
    connect rests annotate w st last nid n = connect rests' annotate' w' st last nid n := by
  have hcur : ∀ (s : ReadState NP D) (e : Edge), processRestrictions rests s ⟨nid, w'.id, e, n⟩ =
      processRestrictions rests' s ⟨nid, w'.id, e, n⟩ := fun s e => processRestrictions_same hnid s
  have hprev : ∀ (s : ReadState NP D) (e : Edge),
      processRestrictions rests s ⟨last.1, w'.id, e, last.2⟩ =
        processRestrictions rests' s ⟨last.1, w'.id, e, last.2⟩ :=
    fun s e => processRestrictions_same hlast s
  simp only [connect, hid, hannotate, hcur, hprev]

theorem readRefs_same (hid : w.id = w'.id) (hannotate : annotate w = annotate' w')
    (nids : List Osmid) (hnids : ∀ nid ∈ nids, bBoxNodes nid = bBoxNodes' nid ∧
      noHupNodes nid = noHupNodes' nid ∧ SameRules rests rests' w'.id nid)
    (st : ReadState NP D) (last : Option (Osmid × ℕ))
    (hlast : ∀ l ∈ last, SameRules rests rests' w'.id l.1) :
    nids.foldl (readRef bBoxNodes noHupNodes rests annotate w) (st, last) =
      nids.foldl (readRef bBoxNodes' noHupNodes' rests' annotate' w') (st, last) := by
  induction nids generalizing st last with
  | nil => rfl
  | cons nid nids ih =>
    obtain ⟨hbox, hnohup, hrules⟩ := hnids nid List.mem_cons_self
    have hrest := ih fun x hx => hnids x (List.mem_cons_of_mem _ hx)
    rw [List.foldl_cons, List.foldl_cons, readRef, readRef, refNode_same hbox hnohup]
    cases refNode bBoxNodes' noHupNodes' st nid with
    | none => exact hrest st last hlast
    | some ref =>
      obtain ⟨n, s⟩ := ref
      have hnext : ∀ l ∈ some (nid, n), SameRules rests rests' w'.id l.1 := fun l hl => by
        rw [← Option.some.inj hl]
        exact hrules
      cases last with
      | none => exact hrest s _ hnext
      | some l =>
        dsimp only
        rw [connect_same hid hannotate (hlast l rfl) hrules]
        exact hrest _ _ hnext

theorem readWay_same (hid : w.id = w'.id) (hnodes : w.nodes = w'.nodes)
    (hannotate : annotate w = annotate' w')
    (hnids : ∀ nid ∈ w'.nodes, bBoxNodes nid = bBoxNodes' nid ∧
      noHupNodes nid = noHupNodes' nid ∧ SameRules rests rests' w'.id nid) (st : ReadState NP D) :
    readWay bBoxNodes noHupNodes rests annotate st w =
      readWay bBoxNodes' noHupNodes' rests' annotate' st w' := by
  rw [readWay, readWay, hnodes]
  rw [readRefs_same hid hannotate w'.nodes hnids st none fun l hl => by cases hl]

omit [Inhabited D] in
theorem refNode_nodeOf {st s : ReadState NP D} {nid m : Osmid} {n k : ℕ}
    (href : refNode bBoxNodes noHupNodes st nid = some (n, s)) (h : NodeOf s m k) :
    m = nid ∨ NodeOf st m k := by
  by_cases hm : m = nid
  · exact Or.inl hm
  refine Or.inr ?_
  rw [refNode] at href
  split at href
  · cases href
    simpa only [NodeOf, Function.update_of_ne hm] using h
  · split at href
    · cases href
      exact h
    · split at href
      · cases href
        simpa only [NodeOf, Function.update_of_ne hm] using h
      · cases href

theorem readRefs_nodeOf (nids : List Osmid) {st : ReadState NP D × Option (Osmid × ℕ)}
    {nid : Osmid} {n : ℕ}
    (h : NodeOf (nids.foldl (readRef bBoxNodes noHupNodes rests annotate w) st).1 nid n) :
    nid ∈ nids ∨ NodeOf st.1 nid n := by
  induction nids generalizing st with
  | nil => exact Or.inr h
  | cons x nids ih =>
    rw [List.foldl_cons] at h
    cases ih h with
    | inl hmem => exact Or.inl (List.mem_cons_of_mem x hmem)
    | inr hnode =>
      rw [readRef] at hnode
      cases href : refNode bBoxNodes noHupNodes st.1 x with
      | none =>
        rw [href] at hnode
        exact Or.inr hnode
      | some ref =>
        obtain ⟨k, s⟩ := ref
        rw [href] at hnode
        have hs : NodeOf s nid n := by
          cases hlast : st.2 with
          | none =>
            rw [hlast] at hnode
            exact hnode
          | some l =>
            rw [hlast] at hnode
            obtain ⟨-, -, -, hnodes, hmult, -⟩ := connect_frame rests annotate w s l x k
            rw [NodeOf, ← hnodes, ← hmult]
            exact hnode
        exact (refNode_nodeOf href hs).imp_left fun heq : nid = x => heq ▸ List.mem_cons_self

theorem readEdges_nodeOf {keep : OsmWay → Bool} {ways : List OsmWay} {nid : Osmid} {n : ℕ}
    (h : NodeOf (readEdges bBoxNodes noHupNodes rests annotate keep ways : ReadState NP D) nid n) :
    ∃ w ∈ ways, keep w = true ∧ nid ∈ w.nodes := by
  have hfold : ∀ (ws : List OsmWay) (st : ReadState NP D),
      NodeOf (ws.foldl (readWay bBoxNodes noHupNodes rests annotate) st) nid n →
        (∃ w ∈ ws, nid ∈ w.nodes) ∨ NodeOf st nid n := by
    intro ws
    induction ws with
    | nil => exact fun st h => Or.inr h
    | cons w ws ih =>
      intro st h
      cases ih _ h with
      | inl hex =>
        obtain ⟨w', hw', hmem⟩ := hex
        exact Or.inl ⟨w', List.mem_cons_of_mem w hw', hmem⟩
      | inr hnode =>
        exact (readRefs_nodeOf w.nodes hnode).imp_left fun hmem => ⟨w, List.mem_cons_self, hmem⟩
  cases hfold _ _ h with
  | inl hex =>
    obtain ⟨w, hw, hmem⟩ := hex
    obtain ⟨hway, hkeep⟩ := List.mem_filter.1 hw
    exact ⟨w, hway, hkeep, hmem⟩
  | inr hnode =>
    cases hnode with
    | inl hsome => cases hsome
    | inr hmem => cases hmem

omit [Inhabited D] in
theorem refNode_mono {st s : ReadState NP D} {nid m : Osmid} {n k : ℕ}
    (href : refNode bBoxNodes noHupNodes st nid = some (n, s)) (h : NodeOf st m k) :
    NodeOf s m k := by
  rw [refNode] at href
  split at href
  · cases href
    refine h.imp_right fun hmem => ?_
    by_cases hm : m = nid
    · simp [hm ▸ hmem, hm]
    · simpa only [Function.update_of_ne hm] using hmem
  · split at href
    · cases href
      exact h
    · rename_i hnone
      split at href
      · cases href
        refine h.imp_left fun hsome => ?_
        by_cases hm : m = nid
        · rw [hm, hnone] at hsome
          cases hsome
        · simpa only [Function.update_of_ne hm] using hsome
      · cases href

omit [Inhabited D] in
theorem refNode_kept {st : ReadState NP D} {nid : Osmid} (hbox : bBoxNodes nid = true) :
    ∃ n s, refNode bBoxNodes noHupNodes st nid = some (n, s) ∧ NodeOf s nid n := by
  rw [refNode, hbox]
  split
  · exact ⟨_, _, rfl, Or.inr (by simp)⟩
  · split
    · rename_i n hn
      exact ⟨n, st, rfl, Or.inl hn⟩
    · exact ⟨_, _, rfl, Or.inl (Function.update_self _ _ _)⟩

theorem readRef_mono (st : ReadState NP D × Option (Osmid × ℕ)) (nid : Osmid) {m : Osmid} {k : ℕ}
    (h : NodeOf st.1 m k) : NodeOf (readRef bBoxNodes noHupNodes rests annotate w st nid).1 m k := by
  rw [readRef]
  split
  · exact h
  · rename_i n s href
    have hs := refNode_mono href h
    split
    · exact hs
    · rename_i l _
      obtain ⟨-, -, -, hnodes, hmult, -⟩ := connect_frame rests annotate w s l nid n
      rw [NodeOf, hnodes, hmult]
      exact hs

theorem readRef_kept (st : ReadState NP D × Option (Osmid × ℕ)) {nid : Osmid}
    (hbox : bBoxNodes nid = true) :
    ∃ n, NodeOf (readRef bBoxNodes noHupNodes rests annotate w st nid).1 nid n := by
  have hkept : ∃ n s, refNode bBoxNodes noHupNodes st.1 nid = some (n, s) ∧ NodeOf s nid n :=
    refNode_kept hbox
  obtain ⟨n, s, href, hnode⟩ := hkept
  refine ⟨n, ?_⟩
  rw [readRef, href]
  cases st.2 with
  | none => exact hnode
  | some l =>
    obtain ⟨-, -, -, hnodes, hmult, -⟩ := connect_frame rests annotate w s l nid n
    rw [NodeOf, hnodes, hmult]
    exact hnode

/-- A node in the box has a graph node, if a way that is kept refers to it. -/
theorem nodeOf_readEdges {keep : OsmWay → Bool} {ways : List OsmWay} {w : OsmWay} {nid : Osmid}
    (hw : w ∈ ways) (hkeep : keep w = true) (hnid : nid ∈ w.nodes) (hbox : bBoxNodes nid = true) :
    ∃ n, NodeOf (readEdges bBoxNodes noHupNodes rests annotate keep ways : ReadState NP D) nid n := by
  have hrefs : ∀ (v : OsmWay) (nids : List Osmid) (st : ReadState NP D × Option (Osmid × ℕ)),
      (nid ∈ nids ∨ ∃ n, NodeOf st.1 nid n) →
        ∃ n, NodeOf (nids.foldl (readRef bBoxNodes noHupNodes rests annotate v) st).1 nid n := by
    intro v nids
    induction nids with
    | nil => exact fun st h => h.resolve_left List.not_mem_nil
    | cons x nids ih =>
      intro st h
      refine ih _ ?_
      cases h with
      | inl hmem =>
        cases List.mem_cons.1 hmem with
        | inl heq => exact Or.inr (heq ▸ readRef_kept st hbox)
        | inr hmem => exact Or.inl hmem
      | inr hnode =>
        obtain ⟨n, hn⟩ := hnode
        exact Or.inr ⟨n, readRef_mono st x hn⟩
  have hways : ∀ (ws : List OsmWay) (st : ReadState NP D),
      ((∃ v ∈ ws, nid ∈ v.nodes) ∨ ∃ n, NodeOf st nid n) →
        ∃ n, NodeOf (ws.foldl (readWay bBoxNodes noHupNodes rests annotate) st) nid n := by
    intro ws
    induction ws with
    | nil =>
      intro st h
      exact h.resolve_left fun hex => by simp at hex
    | cons v ws ih =>
      intro st h
      refine ih _ ?_
      cases h with
      | inl hex =>
        obtain ⟨u, hu, hmem⟩ := hex
        cases List.mem_cons.1 hu with
        | inl heq => exact Or.inr (hrefs v v.nodes _ (Or.inl (heq ▸ hmem)))
        | inr hu => exact Or.inl ⟨u, hu, hmem⟩
      | inr hnode => exact Or.inr (hrefs v v.nodes _ (Or.inr hnode))
  exact hways _ _ (Or.inl ⟨w, List.mem_filter.2 ⟨hw, hkeep⟩, hnid⟩)

end ways

end Pfaedle.ReadEdges

import Pfaedle.ReadEdges
import Pfaedle.RestrictorRules

set_option autoImplicit false

/-!
# The rules after `read_edges`

The restrictor only depends on the visits of `process_restrictions` and their order. Each visit
adds or relaxes once for every restriction at its node that names its way.
-/
namespace Pfaedle.ReadEdges
open DirGraphs Osm Restriction ODirEdges

section ops
variable {V E : Type*}

def restrictionOps (pos : Bool) (x : Visit V E) (kv : Restriction) : List (Op V E) :=
  if kv.eFrom = x.wid then [.add pos x.e kv.eTo x.n]
  else if kv.eTo = x.wid then [.relax x.wid x.n x.e]
  else []

def visitOps (rawRests : Restrictions) (x : Visit V E) : List (Op V E) :=
  (rawRests.pos x.nid).flatMap (restrictionOps true x) ++
    (rawRests.neg x.nid).flatMap (restrictionOps false x)

def readOps (rawRests : Restrictions) (xs : List (Visit V E)) : List (Op V E) :=
  xs.flatMap (visitOps rawRests)

end ops

section trace
variable {NP D : Type*} {bBoxNodes noHupNodes : Osmid → Bool} {rawRests : Restrictions}
  {annotate : OsmWay → EdgePayload D → EdgePayload D}

theorem foldl_processRestriction (pos : Bool) (x : Visit ℕ Edge) (kvs : List Restriction)
    (st : TrGraph NP D × Restrictor) :
    (kvs.foldl (processRestriction pos x) st).2 =
      (kvs.flatMap (restrictionOps pos x)).foldl Op.run st.2 := by
  induction kvs generalizing st with
  | nil => rfl
  | cons kv kvs ih =>
    have hone : (processRestriction pos x st kv).2 =
        (restrictionOps pos x kv).foldl Op.run st.2 := by
      rw [processRestriction, restrictionOps]
      split
      · rfl
      · split
        · rfl
        · rfl
    rw [List.foldl_cons, ih, hone, List.flatMap_cons, List.foldl_append]

def Traced (rawRests : Restrictions) (st : ReadState NP D) : Prop :=
  st.restor = (readOps rawRests st.visits).foldl Op.run .empty

theorem processRestrictions_traced {st : ReadState NP D} (h : Traced rawRests st)
    (x : Visit ℕ Edge) : Traced rawRests (processRestrictions rawRests st x) := by
  rw [Traced, processRestrictions]
  dsimp only
  rw [foldl_processRestriction, foldl_processRestriction, h, readOps, readOps,
    List.flatMap_append, List.foldl_append, List.flatMap_singleton, visitOps, List.foldl_append]

variable [Inhabited NP]

theorem refNode_traced {st st' : ReadState NP D} {nid : Osmid} {n : ℕ} (h : Traced rawRests st)
    (href : refNode bBoxNodes noHupNodes st nid = some (n, st')) : Traced rawRests st' := by
  rw [refNode] at href
  split at href
  · obtain ⟨-, rfl⟩ := Prod.mk.inj (Option.some.inj href)
    exact h
  · split at href
    · obtain ⟨-, rfl⟩ := Prod.mk.inj (Option.some.inj href)
      exact h
    · split at href
      · obtain ⟨-, rfl⟩ := Prod.mk.inj (Option.some.inj href)
        exact h
      · simp at href

variable [Inhabited D]

omit [Inhabited NP] in
theorem connect_traced {st : ReadState NP D} (h : Traced rawRests st) (w : OsmWay)
    (last : Osmid × ℕ) (nid : Osmid) (n : ℕ) :
    Traced rawRests (connect rawRests annotate w st last nid n) := by
  have h' : Traced rawRests { st with g := (st.g.addEdg last.2 n defaultPayload).2 } := h
  exact processRestrictions_traced (processRestrictions_traced h' _) _

theorem readRef_traced {st : ReadState NP D × Option (Osmid × ℕ)} (h : Traced rawRests st.1)
    (w : OsmWay) (nid : Osmid) :
    Traced rawRests (readRef bBoxNodes noHupNodes rawRests annotate w st nid).1 := by
  rw [readRef]
  cases href : refNode bBoxNodes noHupNodes st.1 nid with
  | none => exact h
  | some ref =>
    obtain ⟨n, s⟩ := ref
    have hs := refNode_traced h href
    cases hlast : st.2 with
    | none => exact hs
    | some last => exact connect_traced hs w last nid n

theorem readWay_traced {st : ReadState NP D} (h : Traced rawRests st) (w : OsmWay) :
    Traced rawRests (readWay bBoxNodes noHupNodes rawRests annotate st w) := by
  rw [readWay]
  have hstart : Traced rawRests ((st, none) : ReadState NP D × Option (Osmid × ℕ)).1 := h
  generalize ((st, none) : ReadState NP D × Option (Osmid × ℕ)) = s at hstart
  induction w.nodes generalizing s with
  | nil => exact hstart
  | cons nid nids ih => exact ih _ (readRef_traced hstart w nid)

theorem readEdges_traced (keep : OsmWay → Bool) (ways : List OsmWay) :
    Traced rawRests
      (readEdges bBoxNodes noHupNodes rawRests annotate keep ways : ReadState NP D) := by
  rw [readEdges]
  have hstart : Traced rawRests (ReadState.empty : ReadState NP D) := rfl
  generalize (ReadState.empty : ReadState NP D) = s at hstart
  induction ways.filter keep generalizing s with
  | nil => exact hstart
  | cons w ws ih => exact ih _ (readWay_traced hstart w)

end trace

section verdict
variable {V E : Type*} [DecidableEq V] [DecidableEq E]

/-- The targets of the rules for turns out of `a`, in the order in which they were added. -/
def targets (pos : Bool) (ops : List (Op V E)) (a : E) (v : V) : List E :=
  ((entries pos v [] ops).filter fun g => g.first = a).filterMap fun g => g.target ops v

/-- The first 'only' rule that has a target decides, and without one the 'no' rules do. -/
def barred (ops : List (Op V E)) (a b : E) (v : V) : Prop :=
  match (targets true ops a v).head? with
  | some p => p ≠ b
  | none => b ∈ targets false ops a v

instance (ops : List (Op V E)) (a b : E) (v : V) : Decidable (barred ops a b v) := by
  unfold barred
  split <;> infer_instance

variable {ops : List (Op ℕ Edge)}

theorem mayPos_eq_head? (a b : Edge) (rs : RuleVec) :
    mayPos a b rs = (((rs.filter fun r => r.first = a).filterMap RulePair.second).head?.map
      fun p => decide (p = b)) := by
  induction rs with
  | nil => rfl
  | cons r rs ih =>
    rw [mayPos]
    by_cases hfirst : r.first = a
    · rw [List.filter_cons_of_pos (by simpa using hfirst), List.filterMap_cons]
      cases hsecond : r.second with
      | none => simp [hfirst, ih]
      | some p =>
        by_cases hp : p = b
        · simp [hfirst, hp]
        · simp [hfirst, hp]
    · rw [List.filter_cons_of_neg (by simpa using hfirst)]
      simp [hfirst, ih]

theorem mayNeg_eq_false {a b : Edge} {rs : RuleVec} : mayNeg a b rs = false ↔
    b ∈ (rs.filter fun r => r.first = a).filterMap RulePair.second := by
  simp [mayNeg, and_assoc]

theorem targets_eq {pos : Bool} {t : RuleTable} (h : Resolved pos ops t) (a : Edge) (v : ℕ) :
    ((t.rules v).filter fun r => r.first = a).filterMap RulePair.second = targets pos ops a v := by
  rw [h.rules, List.filter_map, List.filterMap_map, targets]
  rfl

theorem may_eq_false_iff (a b : Edge) (v : ℕ) :
    (ops.foldl Op.run .empty).may a b v = false ↔ barred ops a b v := by
  obtain ⟨hpos, hneg, -⟩ := foldl_run_resolved ops
  rw [Restrictor.may, mayPos_eq_head?, targets_eq hpos, barred]
  cases (targets true ops a v).head? with
  | some p => simp
  | none =>
    rw [← targets_eq hneg]
    exact mayNeg_eq_false

end verdict

section closed
variable {V E : Type*} [DecidableEq V] {rawRests : Restrictions}

def Restrictions.side (rawRests : Restrictions) (pos : Bool) : Osmid → List Restriction :=
  if pos then rawRests.pos else rawRests.neg

/-- No restriction leads back onto the way it starts from. -/
def Proper (rawRests : Restrictions) : Prop :=
  ∀ pos nid, ∀ kv ∈ Restrictions.side rawRests pos nid, kv.eFrom ≠ kv.eTo

/-- All visits of one way come without a visit of another way in between. -/
def Contiguous (xs : List (Visit V E)) : Prop :=
  ∀ p x s, xs = p ++ x :: s → ∀ y ∈ p, y.wid ≠ x.wid → ∀ z ∈ s, z.wid ≠ y.wid

def Restricted (rawRests : Restrictions) (nid : Osmid) : Prop :=
  ∃ pos, Restrictions.side rawRests pos nid ≠ []

def SameNid (rawRests : Restrictions) (xs : List (Visit V E)) : Prop :=
  ∀ x ∈ xs, ∀ y ∈ xs, Restricted rawRests x.nid → y.n = x.n → y.nid = x.nid

/-- The edge of way `t` at `v` that is visited last. -/
def lastEdge (xs : List (Visit V E)) (t : Osmid) (v : V) : Option E :=
  (xs.filterMap fun y => if y.wid = t ∧ y.n = v then some y.e else none).getLast?

def visitRules (rests : Osmid → List Restriction) (xs : List (Visit V E)) (x : Visit V E) :
    List (E × Option E) :=
  ((rests x.nid).filter fun kv => kv.eFrom = x.wid).map fun kv => (x.e, lastEdge xs kv.eTo x.n)

/-- The rules at `v` when every target is the edge of its way that is visited last. -/
def ruleList (rests : Osmid → List Restriction) (xs : List (Visit V E)) (v : V) :
    List (E × Option E) :=
  (xs.filter fun x => x.n = v).flatMap (visitRules rests xs)

def addOf (pos : Bool) (v : V) : Op V E → Option (E × Osmid)
  | .add p frm tos via => if p = pos ∧ via = v then some (frm, tos) else none
  | .relax _ _ _ => none

theorem entries_map_add (pos : Bool) (v : V) (pre ops : List (Op V E)) :
    (entries pos v pre ops).map (fun g => (g.first, g.tos)) = ops.filterMap (addOf pos v) := by
  induction ops generalizing pre with
  | nil => rfl
  | cons op ops ih =>
    rw [entries, List.map_append, ih, List.filterMap_cons]
    cases op with
    | add p frm tos via =>
      by_cases h : p = pos ∧ via = v
      · simp [entryOf, addOf, h]
      · simp [entryOf, addOf, h]
    | relax w n e => simp [entryOf, addOf]

theorem entries_before {pos : Bool} {v : V} (pre ops : List (Op V E)) {g : Entry E}
    (hg : g ∈ entries pos v pre ops) (hnone : ∀ op ∈ ops, relaxOf g.tos v op = none) :
    g.before = lastRelax pre g.tos v := by
  induction ops generalizing pre with
  | nil => simp [entries] at hg
  | cons op ops ih =>
    rw [entries, List.mem_append] at hg
    cases hg with
    | inl hg =>
      cases op with
      | add p frm tos via =>
        rw [entryOf] at hg
        split at hg
        · rw [List.mem_singleton.1 hg]
        · simp at hg
      | relax w n e => simp [entryOf] at hg
    | inr hg =>
      rw [ih (pre ++ [op]) hg fun op hop => hnone op (List.mem_cons_of_mem _ hop), lastRelax_append,
        lastRelax, List.filterMap_cons, hnone op List.mem_cons_self]
      rfl

omit [DecidableEq V] in
theorem mem_restrictionOps {pos : Bool} {x : Visit V E} {kv : Restriction} {op : Op V E}
    (h : op ∈ restrictionOps pos x kv) :
    (op = .add pos x.e kv.eTo x.n ∧ kv.eFrom = x.wid) ∨
      (op = .relax x.wid x.n x.e ∧ kv.eFrom ≠ x.wid ∧ kv.eTo = x.wid) := by
  rw [restrictionOps] at h
  split at h
  · rename_i hfrom
    exact Or.inl ⟨List.mem_singleton.1 h, hfrom⟩
  · rename_i hfrom
    split at h
    · rename_i hto
      exact Or.inr ⟨List.mem_singleton.1 h, hfrom, hto⟩
    · simp at h

omit [DecidableEq V] in
theorem mem_visitOps {x : Visit V E} {op : Op V E} (h : op ∈ visitOps rawRests x) :
    ∃ pos, ∃ kv ∈ Restrictions.side rawRests pos x.nid,
      (op = .add pos x.e kv.eTo x.n ∧ kv.eFrom = x.wid) ∨
        (op = .relax x.wid x.n x.e ∧ kv.eFrom ≠ x.wid ∧ kv.eTo = x.wid) := by
  rw [visitOps, List.mem_append, List.mem_flatMap, List.mem_flatMap] at h
  cases h with
  | inl h =>
    obtain ⟨kv, hkv, hop⟩ := h
    exact ⟨true, kv, hkv, mem_restrictionOps hop⟩
  | inr h =>
    obtain ⟨kv, hkv, hop⟩ := h
    exact ⟨false, kv, hkv, mem_restrictionOps hop⟩

theorem relaxOf_visitOps {x : Visit V E} {op : Op V E} (h : op ∈ visitOps rawRests x) {t : Osmid}
    {v : V} {e : E} (hrelax : relaxOf t v op = some e) : e = x.e ∧ x.wid = t ∧ x.n = v := by
  obtain ⟨pos, kv, -, hop | hop⟩ := mem_visitOps h
  · rw [hop.1] at hrelax
    simp [relaxOf] at hrelax
  · rw [hop.1, relaxOf] at hrelax
    split at hrelax
    · rename_i hcond
      exact ⟨(Option.some.inj hrelax).symm, hcond⟩
    · simp at hrelax

omit [DecidableEq V] in
theorem visitOps_relax {x : Visit V E} {pos : Bool} {kv : Restriction}
    (hkv : kv ∈ Restrictions.side rawRests pos x.nid) (hfrom : kv.eFrom ≠ x.wid)
    (hto : kv.eTo = x.wid) : Op.relax x.wid x.n x.e ∈ visitOps rawRests x := by
  have hop : Op.relax x.wid x.n x.e ∈ restrictionOps pos x kv := by
    simp [restrictionOps, hfrom, hto]
  rw [visitOps, List.mem_append, List.mem_flatMap, List.mem_flatMap]
  cases pos with
  | true => exact Or.inl ⟨kv, hkv, hop⟩
  | false => exact Or.inr ⟨kv, hkv, hop⟩

theorem filterMap_addOf_restrictions (pos p : Bool) (x : Visit V E) (v : V)
    (kvs : List Restriction) :
    (kvs.flatMap (restrictionOps p x)).filterMap (addOf pos v) =
      if p = pos ∧ x.n = v then
        (kvs.filter fun kv => kv.eFrom = x.wid).map fun kv => (x.e, kv.eTo)
      else [] := by
  induction kvs with
  | nil => simp
  | cons kv kvs ih =>
    rw [List.flatMap_cons, List.filterMap_append, ih, restrictionOps]
    by_cases hcond : p = pos ∧ x.n = v
    · by_cases hfrom : kv.eFrom = x.wid
      · simp [hfrom, addOf, hcond]
      · by_cases hto : kv.eTo = x.wid
        · simp [hfrom, hto, addOf, hcond]
        · simp [hfrom, hto, hcond]
    · by_cases hfrom : kv.eFrom = x.wid
      · simp [hfrom, addOf, hcond]
      · by_cases hto : kv.eTo = x.wid
        · simp [hfrom, hto, addOf, hcond]
        · simp [hfrom, hto, hcond]

theorem filterMap_addOf_visit (pos : Bool) (x : Visit V E) (v : V) :
    (visitOps rawRests x).filterMap (addOf pos v) =
      if x.n = v then ((Restrictions.side rawRests pos x.nid).filter fun kv =>
        kv.eFrom = x.wid).map fun kv => (x.e, kv.eTo)
      else [] := by
  rw [visitOps, List.filterMap_append, filterMap_addOf_restrictions, filterMap_addOf_restrictions]
  cases pos with
  | true => simp [Restrictions.side]
  | false => simp [Restrictions.side]

theorem exists_of_lastRelax {xs : List (Visit V E)} {t : Osmid} {v : V} {e : E}
    (h : lastRelax (readOps rawRests xs) t v = some e) : ∃ x ∈ xs, x.wid = t ∧ x.n = v ∧ x.e = e := by
  have hmem := List.mem_of_getLast? h
  obtain ⟨op, hop, hrelax⟩ := List.mem_filterMap.1 hmem
  obtain ⟨x, hx, hop⟩ := List.mem_flatMap.1 hop
  obtain ⟨he, hw, hn⟩ := relaxOf_visitOps hop hrelax
  exact ⟨x, hx, hw, hn, he.symm⟩

theorem lastRelax_eq_none {xs : List (Visit V E)} {t : Osmid} (v : V)
    (h : ∀ x ∈ xs, x.wid ≠ t) : lastRelax (readOps rawRests xs) t v = none := by
  rw [Option.eq_none_iff_forall_ne_some]
  intro e he
  obtain ⟨x, hx, hw, -⟩ := exists_of_lastRelax he
  exact h x hx hw

/-- Where every visit of the way relaxes, the last relaxed edge is the last visited one. -/
theorem lastRelax_eq_lastEdge {t : Osmid} {v : V} (xs : List (Visit V E))
    (h : ∀ x ∈ xs, x.wid = t → x.n = v → Op.relax x.wid x.n x.e ∈ visitOps rawRests x) :
    lastRelax (readOps rawRests xs) t v = lastEdge xs t v := by
  induction xs using List.reverseRecOn with
  | nil => rfl
  | append_singleton xs x ih =>
    have ih := ih fun y hy => h y (List.mem_append_left _ hy)
    rw [readOps, List.flatMap_append, List.flatMap_singleton, lastRelax_append]
    change (lastRelax (visitOps rawRests x) t v).or (lastRelax (readOps rawRests xs) t v) = _
    rw [ih, lastEdge, lastEdge, List.filterMap_append, List.getLast?_append]
    congr 1
    by_cases hx : x.wid = t ∧ x.n = v
    · have hmem := h x (by simp) hx.1 hx.2
      have hrelax : x.e ∈ (visitOps rawRests x).filterMap (relaxOf t v) :=
        List.mem_filterMap.2 ⟨_, hmem, by simp [relaxOf, hx]⟩
      obtain ⟨e, he⟩ : ∃ e, lastRelax (visitOps rawRests x) t v = some e := by
        rw [← Option.isSome_iff_exists, lastRelax, List.getLast?_isSome]
        exact List.ne_nil_of_mem hrelax
      obtain ⟨op, hop, hop'⟩ := List.mem_filterMap.1 (List.mem_of_getLast? he)
      rw [he, (relaxOf_visitOps hop hop').1]
      simp [hx]
    · have hnone : lastRelax (visitOps rawRests x) t v = none := by
        rw [Option.eq_none_iff_forall_ne_some]
        intro e he
        obtain ⟨op, hop, hop'⟩ := List.mem_filterMap.1 (List.mem_of_getLast? he)
        exact hx (relaxOf_visitOps hop hop').2
      rw [hnone]
      simp [hx]

/-- A rule finds the last of all relaxed edges, whichever of the two ways was read first. -/
theorem visit_target (hproper : Proper rawRests) {pre post : List (Visit V E)} {x : Visit V E}
    (hcontig : Contiguous (pre ++ x :: post)) {pos : Bool} {v : V} {g : Entry E}
    (hg : g ∈ entries pos v (readOps rawRests pre) (visitOps rawRests x)) :
    g.target (readOps rawRests (pre ++ x :: post)) v =
      lastRelax (readOps rawRests (pre ++ x :: post)) g.tos v := by
  have hne : x.wid ≠ g.tos := by
    have hadd : (g.first, g.tos) ∈ (visitOps rawRests x).filterMap (addOf pos v) := by
      rw [← entries_map_add pos v (readOps rawRests pre)]
      exact List.mem_map_of_mem hg
    rw [filterMap_addOf_visit] at hadd
    split at hadd
    · obtain ⟨kv, hkv, heq⟩ := List.mem_map.1 hadd
      obtain ⟨hmem, hfrom⟩ := List.mem_filter.1 hkv
      rw [decide_eq_true_eq] at hfrom
      rw [← (Prod.mk.inj heq).2, ← hfrom]
      exact hproper pos x.nid kv hmem
    · simp at hadd
  have hbefore : g.before = lastRelax (readOps rawRests pre) g.tos v := by
    apply entries_before _ _ hg
    intro op hop
    rw [Option.eq_none_iff_forall_ne_some]
    intro e he
    exact hne (relaxOf_visitOps hop he).2.1
  rw [Entry.target, hbefore]
  cases hlast : lastRelax (readOps rawRests pre) g.tos v with
  | none => rw [Option.none_or]
  | some e =>
    obtain ⟨y, hy, hw, -⟩ := exists_of_lastRelax hlast
    have hrest : ∀ z ∈ x :: post, z.wid ≠ g.tos := by
      intro z hz
      cases List.mem_cons.1 hz with
      | inl he => rw [he]; exact hne
      | inr hz =>
        rw [← hw]
        exact hcontig pre x post rfl y hy (by rw [hw]; exact hne.symm) z hz
    have hsplit : readOps rawRests (pre ++ x :: post) =
        readOps rawRests pre ++ readOps rawRests (x :: post) := List.flatMap_append
    rw [Option.some_or, hsplit, lastRelax_append, lastRelax_eq_none v hrest, hlast, Option.none_or]

theorem entries_readOps (hproper : Proper rawRests) (pos : Bool) (v : V)
    (pre xs : List (Visit V E)) (hcontig : Contiguous (pre ++ xs)) :
    (entries pos v (readOps rawRests pre) (readOps rawRests xs)).map
        (fun g => (g.first, g.target (readOps rawRests (pre ++ xs)) v)) =
      (xs.filter fun x => x.n = v).flatMap fun x =>
        ((Restrictions.side rawRests pos x.nid).filter fun kv => kv.eFrom = x.wid).map
          fun kv => (x.e, lastRelax (readOps rawRests (pre ++ xs)) kv.eTo v) := by
  induction xs generalizing pre with
  | nil => rfl
  | cons x xs ih =>
    have hassoc : pre ++ x :: xs = (pre ++ [x]) ++ xs := by simp
    have hnext := ih (pre ++ [x]) (by rw [← hassoc]; exact hcontig)
    rw [← hassoc] at hnext
    have hpre : readOps rawRests (pre ++ [x]) = readOps rawRests pre ++ visitOps rawRests x := by
      rw [readOps, List.flatMap_append, List.flatMap_singleton]
      rfl
    have hcons : readOps rawRests (x :: xs) = visitOps rawRests x ++ readOps rawRests xs :=
      List.flatMap_cons
    have hhead : (entries pos v (readOps rawRests pre) (visitOps rawRests x)).map
        (fun g => (g.first, g.target (readOps rawRests (pre ++ x :: xs)) v)) =
        if x.n = v then ((Restrictions.side rawRests pos x.nid).filter fun kv =>
          kv.eFrom = x.wid).map fun kv =>
            (x.e, lastRelax (readOps rawRests (pre ++ x :: xs)) kv.eTo v)
        else [] := by
      have hadd := entries_map_add pos v (readOps rawRests pre) (visitOps rawRests x)
      rw [filterMap_addOf_visit] at hadd
      calc
        _ = ((entries pos v (readOps rawRests pre) (visitOps rawRests x)).map
              fun g => (g.first, g.tos)).map fun et =>
                (et.1, lastRelax (readOps rawRests (pre ++ x :: xs)) et.2 v) := by
          rw [List.map_map]
          apply List.map_congr_left
          intro g hg
          rw [visit_target hproper hcontig hg]
          rfl
        _ = _ := by
          rw [hadd]
          split
          · rw [List.map_map]
            rfl
          · rfl
    rw [hcons, entries_append, List.map_append, hhead, ← hpre, hnext]
    by_cases hx : x.n = v
    · simp [hx]
    · simp [hx]

/-- The rules of a table, for visits of whole ways and restrictions between different ways. -/
theorem rules_eq_ruleList (hproper : Proper rawRests) {pos : Bool} {v : V}
    {xs : List (Visit V E)} (hcontig : Contiguous xs) (hsame : SameNid rawRests xs) :
    (entries pos v [] (readOps rawRests xs)).map
        (fun g => (g.first, g.target (readOps rawRests xs) v)) =
      ruleList (Restrictions.side rawRests pos) xs v := by
  have h : (entries pos v [] (readOps rawRests xs)).map
      (fun g => (g.first, g.target (readOps rawRests xs) v)) = _ :=
    entries_readOps hproper pos v [] xs hcontig
  rw [h, ruleList]
  apply List.flatMap_congr
  intro x hx
  obtain ⟨hxs, hxv⟩ := List.mem_filter.1 hx
  rw [decide_eq_true_eq] at hxv
  rw [visitRules]
  apply List.map_congr_left
  intro kv hkv
  obtain ⟨hkv, hfrom⟩ := List.mem_filter.1 hkv
  rw [List.nil_append, lastRelax_eq_lastEdge xs, hxv]
  intro y hy hw hn
  have hnid : y.nid = x.nid :=
    hsame x hxs y hy ⟨pos, List.ne_nil_of_mem hkv⟩ (by rw [hn, hxv])
  have hkv' : kv ∈ Restrictions.side rawRests pos y.nid := by rw [hnid]; exact hkv
  apply visitOps_relax hkv'
  · rw [hw]
    exact hproper pos x.nid kv hkv
  · exact hw.symm

end closed

end Pfaedle.ReadEdges

import Pfaedle.Restrictor

set_option autoImplicit false

/-!
# What a sequence of `add` and `relax` calls leaves behind

The target of a rule is the edge that was relaxed last for it before the rule was added. A rule
that found none gets the edge relaxed last of all.
-/
namespace Pfaedle.Restriction
open DirGraphs Osm

inductive Op (V E : Type*)
  | add (pos : Bool) (frm : E) (tos : Osmid) (via : V)
  | relax (wid : Osmid) (n : V) (e : E)

def Op.run (r : Restrictor) : Op ℕ Edge → Restrictor
  | .add pos frm tos via => r.add frm tos via pos
  | .relax wid n e => r.relax wid n e

section entries
variable {V E : Type*} [DecidableEq V]

def relaxOf (wid : Osmid) (v : V) : Op V E → Option E
  | .add _ _ _ _ => none
  | .relax w n e => if w = wid ∧ n = v then some e else none

def lastRelax (ops : List (Op V E)) (wid : Osmid) (v : V) : Option E :=
  (ops.filterMap (relaxOf wid v)).getLast?

structure Entry (E : Type*) where
  first : E
  tos : Osmid
  before : Option E

def entryOf (pos : Bool) (v : V) (pre : List (Op V E)) : Op V E → List (Entry E)
  | .add p frm tos via => if p = pos ∧ via = v then [⟨frm, tos, lastRelax pre tos v⟩] else []
  | .relax _ _ _ => []

def entries (pos : Bool) (v : V) : List (Op V E) → List (Op V E) → List (Entry E)
  | _, [] => []
  | pre, op :: ops => entryOf pos v pre op ++ entries pos v (pre ++ [op]) ops

def Entry.target (ops : List (Op V E)) (v : V) (g : Entry E) : Option E :=
  g.before.or (lastRelax ops g.tos v)

theorem entries_append (pos : Bool) (v : V) (pre ops ops' : List (Op V E)) :
    entries pos v pre (ops ++ ops') = entries pos v pre ops ++ entries pos v (pre ++ ops) ops' := by
  induction ops generalizing pre with
  | nil => simp [entries]
  | cons op ops ih =>
    rw [List.cons_append, entries, entries, ih, List.append_assoc, List.append_assoc]
    rfl

theorem entries_concat (pos : Bool) (v : V) (ops : List (Op V E)) (op : Op V E) :
    entries pos v [] (ops ++ [op]) = entries pos v [] ops ++ entryOf pos v ops op := by
  rw [entries_append, List.nil_append, entries, entries, List.append_nil]

theorem lastRelax_append (ops ops' : List (Op V E)) (wid : Osmid) (v : V) :
    lastRelax (ops ++ ops') wid v = (lastRelax ops' wid v).or (lastRelax ops wid v) := by
  rw [lastRelax, List.filterMap_append, List.getLast?_append]
  rfl

theorem lastRelax_concat_add (ops : List (Op V E)) (pos : Bool) (frm : E) (tos : Osmid) (via : V)
    (wid : Osmid) (v : V) : lastRelax (ops ++ [.add pos frm tos via]) wid v = lastRelax ops wid v :=
  lastRelax_append _ _ _ _

theorem lastRelax_concat_relax (ops : List (Op V E)) (w : Osmid) (n : V) (e : E) (wid : Osmid)
    (v : V) : lastRelax (ops ++ [.relax w n e]) wid v =
      if w = wid ∧ n = v then some e else lastRelax ops wid v := by
  rw [lastRelax_append]
  by_cases h : w = wid ∧ n = v
  · simp [lastRelax, relaxOf, h]
  · simp [lastRelax, relaxOf, h]

end entries

section tables

theorem foldl_modify_getElem? {α : Type*} (f : α → α) (hf : ∀ a, f (f a) = f a) (is : List ℕ)
    (xs : List α) (j : ℕ) : (is.foldl (fun xs i => xs.modify i f) xs)[j]? =
      if j ∈ is then xs[j]?.map f else xs[j]? := by
  induction is generalizing xs with
  | nil => simp
  | cons i is ih =>
    rw [List.foldl_cons, ih, List.getElem?_modify]
    by_cases hij : i = j
    · subst hij
      cases xs[i]? with
      | none => simp
      | some a => simp [hf]
    · simp [hij, Ne.symm hij]

theorem foldl_setSecond (e : Edge) (rules : ℕ → RuleVec) (n : ℕ) (is : List ℕ) (v : ℕ) :
    (is.map (n, ·)).foldl (setSecond e) rules v =
      if v = n then is.foldl (fun rs i => rs.modify i fun r => { r with second := some e }) (rules v)
      else rules v := by
  induction is generalizing rules with
  | nil => simp
  | cons i is ih =>
    rw [List.map_cons, List.foldl_cons, ih]
    by_cases hv : v = n
    · subst hv
      rw [if_pos rfl, if_pos rfl, setSecond, Function.update_self, List.foldl_cons]
    · rw [if_neg hv, if_neg hv, setSecond, Function.update_of_ne hv]

/-- The indices of the rules at `v` that still wait for way `wid`. -/
def waiting (gs : List (Entry Edge)) (wid : Osmid) : List ℕ :=
  (gs.zipIdx.filter fun p => p.1.tos = wid ∧ p.1.before = none).map Prod.snd

theorem mem_waiting {gs : List (Entry Edge)} {wid : Osmid} {i : ℕ} :
    i ∈ waiting gs wid ↔ ∃ g, gs[i]? = some g ∧ g.tos = wid ∧ g.before = none := by
  rw [waiting, List.mem_map]
  constructor
  · intro h
    obtain ⟨⟨g, j⟩, hmem, rfl⟩ := h
    obtain ⟨hmem, hcond⟩ := List.mem_filter.1 hmem
    exact ⟨g, List.mem_zipIdx_iff_getElem?.1 hmem, by simpa using hcond⟩
  · intro h
    obtain ⟨g, hget, hcond⟩ := h
    exact ⟨(g, i), List.mem_filter.2 ⟨List.mem_zipIdx_iff_getElem?.2 hget, by simpa using hcond⟩, rfl⟩

structure Resolved (pos : Bool) (ops : List (Op ℕ Edge)) (t : RuleTable) : Prop where
  rules : ∀ v, t.rules v = (entries pos v [] ops).map fun g => ⟨g.first, g.target ops v⟩
  dangling : ∀ v wid, t.dangling v wid = (waiting (entries pos v [] ops) wid).map (v, ·)

variable {pos : Bool} {ops : List (Op ℕ Edge)} {t : RuleTable}

theorem Resolved.add_same (h : Resolved pos ops t) (frm : Edge) (tos : Osmid) (via : ℕ) :
    Resolved pos (ops ++ [.add pos frm tos via]) (t.add frm (lastRelax ops tos via) tos via) := by
  have htarget : ∀ v (g : Entry Edge), g.target (ops ++ [.add pos frm tos via]) v = g.target ops v :=
    fun v g => by rw [Entry.target, Entry.target, lastRelax_concat_add]
  constructor
  · intro v
    rw [entries_concat]
    simp only [htarget]
    by_cases hv : via = v
    · subst hv
      simp [RuleTable.add, entryOf, h.rules, Entry.target]
    · have hv' : v ≠ via := Ne.symm hv
      simp [RuleTable.add, entryOf, h.rules, hv, Function.update_of_ne hv']
  · intro v wid
    rw [entries_concat]
    by_cases hv : via = v
    · subst hv
      have hlen : (t.rules via).length = (entries pos via [] ops).length := by
        rw [h.rules, List.length_map]
      by_cases hw : wid = tos
      · subst hw
        cases hlast : lastRelax ops wid via with
        | none => simp [RuleTable.add, entryOf, waiting, h.dangling, List.zipIdx_append, hlast, hlen]
        | some e => simp [RuleTable.add, entryOf, waiting, h.dangling, List.zipIdx_append, hlast]
      · have hw' : tos ≠ wid := Ne.symm hw
        by_cases hlast : lastRelax ops tos via = none
        · simp [RuleTable.add, entryOf, waiting, h.dangling, List.zipIdx_append, hlast, hw',
            Function.update_of_ne hw]
        · simp [RuleTable.add, entryOf, waiting, h.dangling, List.zipIdx_append, hlast, hw']
    · have hv' : v ≠ via := Ne.symm hv
      by_cases hlast : lastRelax ops tos via = none
      · simp [RuleTable.add, entryOf, h.dangling, hlast, hv, Function.update_of_ne hv']
      · simp [RuleTable.add, entryOf, h.dangling, hlast, hv]

theorem Resolved.add_other (h : Resolved pos ops t) {pos' : Bool} (hpos : pos' ≠ pos) (frm : Edge)
    (tos : Osmid) (via : ℕ) : Resolved pos (ops ++ [.add pos' frm tos via]) t := by
  have hentries : ∀ v, entries pos v [] (ops ++ [.add pos' frm tos via]) = entries pos v [] ops := by
    intro v
    rw [entries_concat]
    simp [entryOf, hpos]
  constructor
  · intro v
    rw [hentries, h.rules]
    apply List.map_congr_left
    intro g _
    rw [Entry.target, Entry.target, lastRelax_concat_add]
  · intro v wid
    rw [hentries, h.dangling]

theorem Resolved.relax (h : Resolved pos ops t) (wid : Osmid) (n : ℕ) (e : Edge) :
    Resolved pos (ops ++ [.relax wid n e]) (t.relax wid n e) := by
  have hentries : ∀ v, entries pos v [] (ops ++ [.relax wid n e]) = entries pos v [] ops := by
    intro v
    rw [entries_concat, entryOf, List.append_nil]
  constructor
  · intro v
    rw [hentries]
    change (t.dangling n wid).foldl (setSecond e) t.rules v = _
    rw [h.dangling, foldl_setSecond]
    by_cases hv : v = n
    · subst hv
      rw [if_pos rfl, h.rules]
      apply List.ext_getElem?
      intro j
      rw [foldl_modify_getElem? (fun r : RulePair => { r with second := some e }) (fun _ => rfl), List.getElem?_map, List.getElem?_map]
      cases hget : (entries pos v [] ops)[j]? with
      | none => simp
      | some g =>
        have hmem : j ∈ waiting (entries pos v [] ops) wid ↔ g.tos = wid ∧ g.before = none := by
          rw [mem_waiting, hget]
          simp
        simp only [hmem, Option.map_some, Entry.target, lastRelax_concat_relax]
        cases hbefore : g.before with
        | some x => simp
        | none =>
          by_cases hw : g.tos = wid
          · simp [hw]
          · simp [hw, Ne.symm hw]
    · rw [if_neg hv, h.rules]
      apply List.map_congr_left
      intro g _
      rw [Entry.target, Entry.target, lastRelax_concat_relax, if_neg fun hc => hv hc.2.symm]
  · intro v wid'
    rw [hentries]
    exact h.dangling v wid'

end tables

theorem foldl_run_resolved (ops : List (Op ℕ Edge)) :
    Resolved true ops (ops.foldl Op.run .empty).pos ∧
    Resolved false ops (ops.foldl Op.run .empty).neg ∧
    ∀ v wid, (ops.foldl Op.run .empty).rlx v wid = lastRelax ops wid v := by
  induction ops using List.reverseRecOn with
  | nil => exact ⟨⟨fun _ => rfl, fun _ _ => rfl⟩, ⟨fun _ => rfl, fun _ _ => rfl⟩, fun _ _ => rfl⟩
  | append_singleton ops op ih =>
    obtain ⟨hpos, hneg, hrlx⟩ := ih
    rw [List.foldl_append, List.foldl_cons, List.foldl_nil]
    cases op with
    | add pos frm tos via =>
      have hrlx' : ∀ v wid, (ops.foldl Op.run .empty).rlx v wid =
          lastRelax (ops ++ [.add pos frm tos via]) wid v :=
        fun v wid => by rw [lastRelax_concat_add, hrlx]
      cases pos with
      | true =>
        refine ⟨?_, hneg.add_other (by decide) frm tos via, hrlx'⟩
        have h := hpos.add_same frm tos via
        rw [← hrlx] at h
        exact h
      | false =>
        refine ⟨hpos.add_other (by decide) frm tos via, ?_, hrlx'⟩
        have h := hneg.add_same frm tos via
        rw [← hrlx] at h
        exact h
    | relax wid n e =>
      refine ⟨hpos.relax wid n e, hneg.relax wid n e, ?_⟩
      intro v wid'
      rw [lastRelax_concat_relax, ← hrlx]
      generalize ops.foldl Op.run .empty = r
      change Function.update r.rlx n (Function.update (r.rlx n) wid (some e)) v wid' = _
      by_cases hv : v = n
      · subst hv
        rw [Function.update_self]
        by_cases hw : wid' = wid
        · subst hw
          simp
        · rw [Function.update_of_ne hw, if_neg fun hc => hw hc.1.symm]
      · rw [Function.update_of_ne hv, if_neg fun hc => hv hc.2.symm]

end Pfaedle.Restriction

import Pfaedle.RestrictorRules

set_option autoImplicit false

/-!
# Turn verdicts and the order of the rules

The first resolved positive rule for a `from` edge settles every verdict about that edge, so the
order of the rules matters as soon as two of them name different targets.
-/
namespace Pfaedle.Restriction
open DirGraphs Osm

section verdict

/-- One positive rule at most names a target for each `from` edge, repetitions apart. -/
def OneTarget (rs : RuleVec) : Prop :=
  ∀ r ∈ rs, ∀ r' ∈ rs, r.first = r'.first → ∀ a b, r.second = some a → r'.second = some b → a = b

theorem mayPos_skip {frm to_ : Edge} {r : RulePair} (rs : RuleVec)
    (h : r.first = frm → r.second = none) : mayPos frm to_ (r :: rs) = mayPos frm to_ rs := by
  have hfalse : ¬ (r.first = frm ∧ r.second.isSome ∧ r.second ≠ some to_) := by
    rintro ⟨hr, hsome, -⟩
    rw [h hr] at hsome
    cases hsome
  have htrue : ¬ (r.first = frm ∧ r.second = some to_) := by
    rintro ⟨hr, hsome⟩
    rw [h hr] at hsome
    cases hsome
  rw [mayPos, if_neg hfalse, if_neg htrue]

theorem mayPos_settled {frm to_ a : Edge} {r : RulePair} (rs : RuleVec) (hr : r.first = frm)
    (ha : r.second = some a) : mayPos frm to_ (r :: rs) = some (decide (a = to_)) := by
  rw [mayPos, ha]
  by_cases hto : a = to_
  · simp [hr, hto]
  · simp [hr, hto]

theorem mayPos_eq_none {frm : Edge} {rs : RuleVec} (h : ∀ r ∈ rs, r.first = frm → r.second = none)
    (to_ : Edge) : mayPos frm to_ rs = none := by
  induction rs with
  | nil => rfl
  | cons r rs ih =>
    rw [mayPos_skip rs (h r List.mem_cons_self)]
    exact ih fun r hr => h r (List.mem_cons_of_mem _ hr)

/-- The first resolved rule for `frm` settles every verdict. -/
theorem mayPos_first {frm a : Edge} {rs : RuleVec} {r : RulePair} (hmem : r ∈ rs)
    (hr : r.first = frm) (ha : r.second = some a) :
    ∃ r' ∈ rs, ∃ b, r'.first = frm ∧ r'.second = some b ∧
      ∀ to_, mayPos frm to_ rs = some (decide (b = to_)) := by
  induction rs with
  | nil => cases hmem
  | cons h rs ih =>
    by_cases hskip : h.first = frm → h.second = none
    · cases List.mem_cons.1 hmem with
      | inl he =>
        subst he
        rw [hskip hr] at ha
        cases ha
      | inr hmem =>
        obtain ⟨r', hr', b, hfirst, hsecond, hall⟩ := ih hmem
        refine ⟨r', List.mem_cons_of_mem _ hr', b, hfirst, hsecond, ?_⟩
        intro to_
        rw [mayPos_skip rs hskip, hall]
    · rw [Classical.not_imp] at hskip
      obtain ⟨b, hb⟩ := Option.ne_none_iff_exists'.1 hskip.2
      exact ⟨h, List.mem_cons_self, b, hskip.1, hb, fun to_ => mayPos_settled rs hskip.1 hb⟩

theorem OneTarget.mayPos_named {frm a : Edge} {rs : RuleVec} (h : OneTarget rs) {r : RulePair}
    (hmem : r ∈ rs) (hr : r.first = frm) (ha : r.second = some a) (to_ : Edge) :
    mayPos frm to_ rs = some (decide (a = to_)) := by
  obtain ⟨r', hr', b, hfirst, hsecond, hall⟩ := mayPos_first hmem hr ha
  rw [hall, h r hmem r' hr' (hr.trans hfirst.symm) a b ha hsecond]

theorem OneTarget.perm {rs rs' : RuleVec} (h : OneTarget rs) (hperm : rs.Perm rs') :
    OneTarget rs' :=
  fun r hr r' hr' => h r (hperm.mem_iff.2 hr) r' (hperm.mem_iff.2 hr')

theorem OneTarget.mayPos_perm {rs rs' : RuleVec} (h : OneTarget rs) (hperm : rs.Perm rs')
    (frm to_ : Edge) : mayPos frm to_ rs' = mayPos frm to_ rs := by
  by_cases hnone : ∀ r ∈ rs, r.first = frm → r.second = none
  · rw [mayPos_eq_none hnone, mayPos_eq_none fun r hr => hnone r (hperm.mem_iff.2 hr)]
  · push Not at hnone
    obtain ⟨r, hmem, hr, hne⟩ := hnone
    obtain ⟨a, ha⟩ := Option.ne_none_iff_exists'.1 hne
    rw [h.mayPos_named hmem hr ha, (h.perm hperm).mayPos_named (hperm.mem_iff.1 hmem) hr ha]

theorem mayNeg_perm {rs rs' : RuleVec} (hperm : rs.Perm rs') (frm to_ : Edge) :
    mayNeg frm to_ rs' = mayNeg frm to_ rs := by
  rw [mayNeg, mayNeg, hperm.any_eq]

def SameRules (r r' : Restrictor) : Prop :=
  ∀ v, (r.pos.rules v).Perm (r'.pos.rules v) ∧ (r.neg.rules v).Perm (r'.neg.rules v)

theorem SameRules.may_eq {r r' : Restrictor} (h : SameRules r r')
    (hone : ∀ v, OneTarget (r.pos.rules v)) (frm to_ : Edge) (via : ℕ) :
    r'.may frm to_ via = r.may frm to_ via := by
  rw [Restrictor.may, Restrictor.may, (hone via).mayPos_perm (h via).1, mayNeg_perm (h via).2]

def NamedAllowed (r : Restrictor) : Prop :=
  ∀ via, ∀ rule ∈ r.pos.rules via, ∀ to_, rule.second = some to_ → r.may rule.first to_ via = true

theorem namedAllowed_iff (r : Restrictor) :
    NamedAllowed r ↔ ∀ v, OneTarget (r.pos.rules v) := by
  constructor
  · intro h v r₁ hr₁ r₂ hr₂ hfirst a b ha hb
    obtain ⟨_, _, c, _, _, hall⟩ := mayPos_first hr₁ rfl ha
    have h₁ := h v r₁ hr₁ a ha
    have h₂ := h v r₂ hr₂ b hb
    rw [Restrictor.may, hall] at h₁
    rw [Restrictor.may, ← hfirst, hall] at h₂
    rw [← of_decide_eq_true h₁, ← of_decide_eq_true h₂]
  · intro h via rule hrule to_ hto
    rw [Restrictor.may, (h via).mayPos_named hrule rfl hto]
    exact decide_eq_true rfl

end verdict

section adding

/-- The arguments of an `add`. -/
structure TurnRule where
  frm : Edge
  tos : Osmid
  via : ℕ
  pos : Bool

/-- The arguments of a `relax`. -/
structure Relaxed where
  wid : Osmid
  n : ℕ
  e : Edge

def TurnRule.op (x : TurnRule) : Op ℕ Edge := .add x.pos x.frm x.tos x.via

def Relaxed.op (x : Relaxed) : Op ℕ Edge := .relax x.wid x.n x.e

/-- The restrictor after `rules` were added in this order between the given `relax` calls. -/
def added (before : List Relaxed) (rules : List TurnRule) (after : List Relaxed) : Restrictor :=
  (before.map Relaxed.op ++ rules.map TurnRule.op ++ after.map Relaxed.op).foldl Op.run .empty

/-- The edge that was relaxed last for the target before the rules came, or else after. -/
def TurnRule.target (before after : List Relaxed) (x : TurnRule) : Option Edge :=
  (lastRelax (before.map Relaxed.op) x.tos x.via).or (lastRelax (after.map Relaxed.op) x.tos x.via)

def TurnRule.pair (before after : List Relaxed) (x : TurnRule) : RulePair :=
  ⟨x.frm, x.target before after⟩

theorem entries_relaxed (pos : Bool) (v : ℕ) (pre : List (Op ℕ Edge)) (rs : List Relaxed) :
    entries pos v pre (rs.map Relaxed.op) = [] := by
  induction rs generalizing pre with
  | nil => rfl
  | cons x rs ih =>
    rw [List.map_cons, entries, ih]
    rfl

theorem lastRelax_rules (rules : List TurnRule) (wid : Osmid) (v : ℕ) :
    lastRelax (rules.map TurnRule.op) wid v = none := by
  induction rules with
  | nil => rfl
  | cons x rules ih => exact ih

theorem entries_rules (pos : Bool) (v : ℕ) (pre : List (Op ℕ Edge)) (rules : List TurnRule) :
    entries pos v pre (rules.map TurnRule.op) =
      (rules.filter fun x => x.pos = pos ∧ x.via = v).map
        fun x => ⟨x.frm, x.tos, lastRelax pre x.tos v⟩ := by
  induction rules generalizing pre with
  | nil => rfl
  | cons x rules ih =>
    have hpre : ∀ wid, lastRelax (pre ++ [x.op]) wid v = lastRelax pre wid v :=
      fun wid => lastRelax_concat_add pre x.pos x.frm x.tos x.via wid v
    rw [List.map_cons, entries, ih]
    simp only [hpre]
    rw [TurnRule.op, entryOf]
    by_cases hx : x.pos = pos ∧ x.via = v
    · rw [if_pos hx, List.filter_cons, if_pos (decide_eq_true hx), List.map_cons]
      rfl
    · rw [if_neg hx, List.filter_cons, if_neg (by simpa using hx)]
      rfl

theorem resolved_rules {pos : Bool} {before after : List Relaxed} {rules : List TurnRule}
    {t : RuleTable} (h : Resolved pos
      (before.map Relaxed.op ++ rules.map TurnRule.op ++ after.map Relaxed.op) t) (v : ℕ) :
    t.rules v = (rules.filter fun x => x.pos = pos ∧ x.via = v).map (TurnRule.pair before after) := by
  have hentries : entries pos v []
      (before.map Relaxed.op ++ rules.map TurnRule.op ++ after.map Relaxed.op) =
        (rules.filter fun x => x.pos = pos ∧ x.via = v).map
          fun x => ⟨x.frm, x.tos, lastRelax (before.map Relaxed.op) x.tos v⟩ := by
    rw [entries_append, entries_append, entries_relaxed, entries_relaxed, entries_rules,
      List.nil_append, List.append_nil, List.nil_append]
  rw [h.rules, hentries, List.map_map]
  apply List.map_congr_left
  intro x hx
  have hvia : x.via = v := (of_decide_eq_true (List.mem_filter.1 hx).2).2
  have hlast : ∀ wid, lastRelax
      (before.map Relaxed.op ++ rules.map TurnRule.op ++ after.map Relaxed.op) wid v =
        (lastRelax (after.map Relaxed.op) wid v).or (lastRelax (before.map Relaxed.op) wid v) := by
    intro wid
    rw [lastRelax_append, lastRelax_append, lastRelax_rules, Option.none_or]
  have htarget : (lastRelax (before.map Relaxed.op) x.tos v).or
      (lastRelax (before.map Relaxed.op ++ rules.map TurnRule.op ++ after.map Relaxed.op) x.tos v) =
        x.target before after := by
    rw [hlast, TurnRule.target, hvia]
    cases lastRelax (before.map Relaxed.op) x.tos v with
    | some _ => rfl
    | none => rw [Option.or_none]
  exact congrArg (RulePair.mk x.frm) htarget

variable {before after : List Relaxed} {rules rules' : List TurnRule}

theorem added_pos (v : ℕ) : (added before rules after).pos.rules v =
    (rules.filter fun x => x.pos = true ∧ x.via = v).map (TurnRule.pair before after) :=
  resolved_rules (foldl_run_resolved _).1 v

theorem added_neg (v : ℕ) : (added before rules after).neg.rules v =
    (rules.filter fun x => x.pos = false ∧ x.via = v).map (TurnRule.pair before after) :=
  resolved_rules (foldl_run_resolved _).2.1 v

theorem added_sameRules (h : rules.Perm rules') :
    SameRules (added before rules after) (added before rules' after) := by
  intro v
  rw [added_pos, added_pos, added_neg, added_neg]
  exact ⟨(h.filter _).map _, (h.filter _).map _⟩

/-- No two positive rules for the same `from` edge and via node name different targets. -/
def OneTargetRules (before : List Relaxed) (rules : List TurnRule) (after : List Relaxed) : Prop :=
  ∀ x ∈ rules, ∀ y ∈ rules, x.pos = true → y.pos = true → x.frm = y.frm → x.via = y.via →
    ∀ a b, x.target before after = some a → y.target before after = some b → a = b

theorem added_oneTarget_iff :
    (∀ v, OneTarget ((added before rules after).pos.rules v)) ↔
      OneTargetRules before rules after := by
  constructor
  · intro h x hx y hy hxpos hypos hfrm hvia a b ha hb
    have hmem : ∀ z ∈ rules, z.pos = true → z.via = y.via →
        z.pair before after ∈ (added before rules after).pos.rules y.via := by
      intro z hz hpos hzvia
      rw [added_pos]
      exact List.mem_map_of_mem (List.mem_filter.2 ⟨hz, decide_eq_true ⟨hpos, hzvia⟩⟩)
    exact h y.via _ (hmem x hx hxpos hvia) _ (hmem y hy hypos rfl) hfrm a b ha hb
  · intro h v r₁ hr₁ r₂ hr₂ hfirst a b ha hb
    rw [added_pos] at hr₁ hr₂
    obtain ⟨x, hx, rfl⟩ := List.mem_map.1 hr₁
    obtain ⟨y, hy, rfl⟩ := List.mem_map.1 hr₂
    obtain ⟨hx, hxc⟩ := List.mem_filter.1 hx
    obtain ⟨hy, hyc⟩ := List.mem_filter.1 hy
    obtain ⟨hxpos, hxvia⟩ := of_decide_eq_true hxc
    obtain ⟨hypos, hyvia⟩ := of_decide_eq_true hyc
    exact h x hx y hy hxpos hypos hfirst (hxvia.trans hyvia.symm) a b ha hb

/-- In whichever order the rules are added, every verdict is the same and every turn that a
    positive rule names is allowed. -/
def OrderIndependent (before : List Relaxed) (rules : List TurnRule) (after : List Relaxed) :
    Prop :=
  ∀ rules', rules.Perm rules' →
    (∀ frm to_ via, (added before rules' after).may frm to_ via =
      (added before rules after).may frm to_ via) ∧
    NamedAllowed (added before rules' after)

theorem may_orderIndependent_iff (before : List Relaxed) (rules : List TurnRule)
    (after : List Relaxed) :
    OrderIndependent before rules after ↔ OneTargetRules before rules after := by
  rw [← added_oneTarget_iff]
  constructor
  · intro h
    exact (namedAllowed_iff _).1 (h rules (List.Perm.refl _)).2
  · intro hone rules' hperm
    have hsame : SameRules (added before rules after) (added before rules' after) :=
      added_sameRules hperm
    refine ⟨hsame.may_eq hone, ?_⟩
    rw [namedAllowed_iff]
    intro v
    exact (hone v).perm (hsame v).1

/-- Two `only` rules for one edge: the second target is forbidden. -/
theorem may_not_orderIndependent : ¬ ∀ before rules after, OrderIndependent before rules after := by
  intro h
  have hnamed := (h [⟨1, 0, ⟨1, 0, 1⟩⟩, ⟨2, 0, ⟨2, 0, 2⟩⟩]
    [⟨⟨0, 3, 0⟩, 1, 0, true⟩, ⟨⟨0, 3, 0⟩, 2, 0, true⟩] [] _ (List.Perm.refl _)).2
  exact absurd (hnamed 0 ⟨⟨0, 3, 0⟩, some ⟨2, 0, 2⟩⟩ (by decide) ⟨2, 0, 2⟩ rfl) (by decide)

end adding

end Pfaedle.Restriction

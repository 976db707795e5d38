import Pfaedle.Restrictor

set_option autoImplicit false

/-!
# `graph::writeODirEdgs`

Every edge gets a copy in the other direction, and the restrictor is told about the copies of
restricted edges only.
-/
namespace Pfaedle.ODirEdges
open DirGraphs Restriction

/-- `trgraph::edge_payload`; geometry, length, level and lines are copied as `data`. -/
structure EdgePayload (D : Type*) where
  oneWay : ℕ
  hasRestr : Bool
  rev : Bool
  data : D

section payload
variable {D : Type*}

def EdgePayload.is_restricted (p : EdgePayload D) : Bool := p.hasRestr

def EdgePayload.revCopy (p : EdgePayload D) : EdgePayload D :=
  let ret := { p with rev := true }
  if ret.oneWay = 1 then { ret with oneWay := 2 }
  else if ret.oneWay = 2 then { ret with oneWay := 1 }
  else ret

def swapOneWay (oneWay : ℕ) : ℕ := if oneWay = 1 then 2 else if oneWay = 2 then 1 else oneWay

@[simp] theorem EdgePayload.revCopy_rev (p : EdgePayload D) : p.revCopy.rev = true := by
  unfold EdgePayload.revCopy
  grind

@[simp] theorem EdgePayload.revCopy_data (p : EdgePayload D) : p.revCopy.data = p.data := by
  unfold EdgePayload.revCopy
  grind

@[simp] theorem EdgePayload.revCopy_oneWay (p : EdgePayload D) :
    p.revCopy.oneWay = swapOneWay p.oneWay := by
  unfold EdgePayload.revCopy swapOneWay
  grind

@[simp] theorem swapOneWay_swapOneWay (oneWay : ℕ) : swapOneWay (swapOneWay oneWay) = oneWay := by
  unfold swapOneWay
  grind

end payload

section model
variable {NP D : Type*}

abbrev TrGraph (NP D : Type*) := DirGraph NP (EdgePayload D)

def writeODirEdg (st : TrGraph NP D × Restrictor) (e : Edge) : TrGraph NP D × Restrictor :=
  let (g, restor) := st
  match g.getEdg e.getTo e.getFrom with
  | some _ => (g, restor)
  | none =>
    let (newE, g') := g.addEdg e.getTo e.getFrom (g.pl e).revCopy
    (g', if (g.pl e).is_restricted then restor.duplicateEdge e newE else restor)

def writeODirEdgs (g : TrGraph NP D) (restor : Restrictor) : TrGraph NP D × Restrictor :=
  g.nds.foldl (fun st n => (st.1.getAdjListOut n).foldl writeODirEdg st) (g, restor)

end model

section spec
variable {NP D : Type*}

/-- The rule names edges of the graph that are incident to `v`. -/
structure RuleIncident (g : TrGraph NP D) (v : ℕ) (r : RulePair) : Prop where
  first : r.first ∈ g.edges ∧ r.first.hasEnd v
  second : ∀ e, r.second = some e → e ∈ g.edges ∧ e.hasEnd v

/-- The rule leads into `v` and out of it. -/
structure RuleDirected (v : ℕ) (r : RulePair) : Prop where
  first : r.first.getTo = v
  second : ∀ e, r.second = some e → e.getFrom = v

def SameUndirected (e e' : Edge) : Prop :=
  (e.getFrom = e'.getFrom ∧ e.getTo = e'.getTo) ∨ (e.getFrom = e'.getTo ∧ e.getTo = e'.getFrom)

instance (e e' : Edge) : Decidable (SameUndirected e e') := inferInstanceAs (Decidable (_ ∨ _))

def verdictPos (isFrom isTo : Edge → Bool) : RuleVec → Option Bool
  | [] => none
  | r :: rs =>
    if isFrom r.first ∧ r.second.any (fun e => !isTo e) then some false
    else if isFrom r.first ∧ r.second.any isTo then some true
    else verdictPos isFrom isTo rs

/-- The verdict on a turn whose legs are recognised by `isFrom` and `isTo`. -/
def verdict (isFrom isTo : Edge → Bool) (restor : Restrictor) (v : ℕ) : Bool :=
  match verdictPos isFrom isTo (restor.pos.rules v) with
  | some verdict => verdict
  | none => !(restor.neg.rules v).any fun r => isFrom r.first && r.second.any isTo

/-- The verdict of the rules when they are read as rules about undirected edges. -/
def undirectedMay (restor : Restrictor) (a b : Edge) (v : ℕ) : Bool :=
  verdict (fun e => SameUndirected e a) (fun e => SameUndirected e b) restor v

/-- Every component that is directed the wrong way is flagged as restricted and runs in one
    direction only. -/
structure Redirectable (g : TrGraph NP D) (v : ℕ) (r : RulePair) : Prop where
  first : r.first.getTo ≠ v →
    (g.pl r.first).is_restricted ∧ g.getEdg r.first.getTo r.first.getFrom = none
  second : ∀ e, r.second = some e → e.getFrom ≠ v →
    (g.pl e).is_restricted ∧ g.getEdg e.getTo e.getFrom = none

end spec

section verdict

theorem mayPos_eq_verdictPos (a b : Edge) (rs : RuleVec) :
    mayPos a b rs = verdictPos (fun e => e = a) (fun e => e = b) rs := by
  induction rs with
  | nil => rfl
  | cons r rs ih =>
    rw [mayPos, verdictPos, ih]
    cases r.second with
    | none => simp
    | some e => simp

theorem may_eq_verdict (restor : Restrictor) (a b : Edge) (v : ℕ) :
    restor.may a b v = verdict (fun e => e = a) (fun e => e = b) restor v := by
  have hneg : mayNeg a b (restor.neg.rules v) = !(restor.neg.rules v).any fun r =>
      decide (r.first = a) && r.second.any fun e => decide (e = b) := by
    rw [mayNeg]
    congr 2
    funext r
    cases r.second with
    | none => simp
    | some e => simp
  rw [Restrictor.may, verdict, mayPos_eq_verdictPos]
  cases verdictPos (fun e => e = a) (fun e => e = b) (restor.pos.rules v) with
  | some _ => rfl
  | none => exact hneg

theorem verdictPos_map (isFrom isTo isFrom' isTo' : Edge → Bool) (f : RulePair → RulePair)
    (rs : RuleVec) (hfrom : ∀ r ∈ rs, isFrom' (f r).first = isFrom r.first)
    (hsome : ∀ r ∈ rs, (f r).second.any isTo' = r.second.any isTo)
    (hnot : ∀ r ∈ rs, (f r).second.any (fun e => !isTo' e) = r.second.any fun e => !isTo e) :
    verdictPos isFrom' isTo' (rs.map f) = verdictPos isFrom isTo rs := by
  induction rs with
  | nil => rfl
  | cons r rs ih =>
    rw [List.map_cons, verdictPos, verdictPos, hfrom r List.mem_cons_self,
      hsome r List.mem_cons_self, hnot r List.mem_cons_self,
      ih (fun r hr => hfrom r (List.mem_cons_of_mem _ hr))
        (fun r hr => hsome r (List.mem_cons_of_mem _ hr))
        (fun r hr => hnot r (List.mem_cons_of_mem _ hr))]

theorem any_map_congr {p q : RulePair → Bool} {f : RulePair → RulePair} (rs : RuleVec)
    (h : ∀ r ∈ rs, q (f r) = p r) : (rs.map f).any q = rs.any p := by
  induction rs with
  | nil => rfl
  | cons r rs ih =>
    rw [List.map_cons, List.any_cons, List.any_cons, h r List.mem_cons_self,
      ih fun r hr => h r (List.mem_cons_of_mem _ hr)]

end verdict

section pass
variable {NP D : Type*} {g₀ g : TrGraph NP D} {r₀ restor : Restrictor} {v : ℕ}

/-- What becomes of a rule component, which has to be redirected when it is `wrong`. -/
def redirect (g₀ g : TrGraph NP D) (wrong : Edge → Bool) (e : Edge) : Edge :=
  if wrong e ∧ (g₀.pl e).is_restricted ∧ g₀.getEdg e.getTo e.getFrom = none then
    (g.getEdg e.getTo e.getFrom).getD e
  else e

def notInto (v : ℕ) (e : Edge) : Bool := e.getTo ≠ v

def notOutOf (v : ℕ) (e : Edge) : Bool := e.getFrom ≠ v

def redirectRule (g₀ g : TrGraph NP D) (v : ℕ) (r : RulePair) : RulePair where
  first := redirect g₀ g (notInto v) r.first
  second := r.second.map (redirect g₀ g (notOutOf v))

structure PassInvariant (g₀ : TrGraph NP D) (r₀ : Restrictor) (v : ℕ)
    (st : TrGraph NP D × Restrictor) : Prop where
  old : ∀ x ∈ g₀.edges, x ∈ st.1.edges ∧ st.1.pl x = g₀.pl x
  new : ∀ x ∈ st.1.edges, x ∉ g₀.edges → st.1.getEdg x.getTo x.getFrom ≠ none
  pos : st.2.pos.rules v = (r₀.pos.rules v).map (redirectRule g₀ st.1 v)
  neg : st.2.neg.rules v = (r₀.neg.rules v).map (redirectRule g₀ st.1 v)

theorem redirect_start (wrong : Edge → Bool) (e : Edge) : redirect g₀ g₀ wrong e = e := by
  rw [redirect]
  split
  · rename_i h
    rw [h.2.2, Option.getD_none]
  · rfl

theorem passInvariant_start (g₀ : TrGraph NP D) (r₀ : Restrictor) (v : ℕ) :
    PassInvariant g₀ r₀ v (g₀, r₀) := by
  have hcomp : ∀ wrong, redirect g₀ g₀ wrong = id := fun wrong =>
    funext (redirect_start wrong)
  have hrule : redirectRule g₀ g₀ v = id := by
    funext r
    rw [redirectRule, hcomp, hcomp, Option.map_id]
    rfl
  constructor
  · exact fun x hx => ⟨hx, rfl⟩
  · exact fun x hx hnot => absurd hx hnot
  · rw [hrule, List.map_id]
  · rw [hrule, List.map_id]

theorem mapAt_rules (t : RuleTable) (via : ℕ) (f : RulePair → RulePair) (v : ℕ) :
    (t.mapAt via f).rules v = if v = via then (t.rules v).map f else t.rules v := by
  by_cases hv : v = via
  · subst hv
    rw [if_pos rfl]
    exact Function.update_self _ _ _
  · rw [if_neg hv]
    exact Function.update_of_ne hv _ _

/-- A proper edge is exchanged once in the table of an end node. -/
theorem duplicate_rules (t : RuleTable) (e newE : Edge) (hloop : e.getFrom ≠ e.getTo) :
    ((t.mapAt e.getFrom (duplicateRule e e.getFrom newE)).mapAt e.getTo
      (duplicateRule e e.getTo newE)).rules v =
      if e.hasEnd v then (t.rules v).map (duplicateRule e v newE) else t.rules v := by
  rw [mapAt_rules, mapAt_rules]
  by_cases hto : v = e.getTo
  · have hend : e.hasEnd v := Or.inr hto.symm
    rw [if_pos hto, if_neg (by omega), if_pos hend, hto]
  · rw [if_neg hto]
    by_cases hfrom : v = e.getFrom
    · have hend : e.hasEnd v := Or.inl hfrom.symm
      rw [if_pos hfrom, if_pos hend, hfrom]
    · rw [if_neg hfrom, if_neg]
      intro hend
      cases hend with
      | inl h => exact hfrom h.symm
      | inr h => exact hto h.symm

theorem redirect_of_ne {e x : Edge} (p : EdgePayload D) (wrong : Edge → Bool)
    (he : e ∈ g₀.edges) (hx : x ∈ g₀.edges) (hne : x ≠ e) :
    redirect g₀ (g.addEdg e.getTo e.getFrom p).2 wrong x = redirect g₀ g wrong x := by
  have hsame : (g.addEdg e.getTo e.getFrom p).2.getEdg x.getTo x.getFrom =
      g.getEdg x.getTo x.getFrom := by
    apply Option.ext
    intro z
    rw [DirGraph.getEdg_eq_some, DirGraph.getEdg_eq_some, DirGraph.mem_addEdg]
    constructor
    · intro h
      refine ⟨?_, h.2⟩
      cases h.1 with
      | inl hz => exact hz
      | inr hz =>
        have hends := g.addEdg_ends e.getTo e.getFrom p
        rw [hz, hends.1, hends.2.1] at h
        exact absurd (g₀.simple x hx e he h.2.2.symm h.2.1.symm) hne
    · exact fun h => ⟨Or.inl h.1, h.2⟩
  rw [redirect, redirect, hsame]

theorem redirect_step {e x : Edge} (p : EdgePayload D) (wrong : Edge → Bool)
    (hsub : ∀ x ∈ g₀.edges, x ∈ g.edges) (he : e ∈ g₀.edges)
    (hnone : g.getEdg e.getTo e.getFrom = none) (hx : x ∈ g₀.edges)
    (hright : redirect g₀ g wrong x = x ∨ wrong (redirect g₀ g wrong x) = false) :
    redirect g₀ (g.addEdg e.getTo e.getFrom p).2 wrong x =
      if (g₀.pl e).is_restricted ∧ redirect g₀ g wrong x = e ∧ wrong (redirect g₀ g wrong x) then
        (g.addEdg e.getTo e.getFrom p).1
      else redirect g₀ g wrong x := by
  by_cases hxe : x = e
  · subst hxe
    have hself : redirect g₀ g wrong x = x := by rw [redirect, hnone, Option.getD_none, ite_self]
    have hnone₀ : g₀.getEdg x.getTo x.getFrom = none := by
      rw [DirGraph.getEdg_eq_none] at hnone ⊢
      exact fun z hz => hnone z (hsub z hz)
    have hends := g.addEdg_ends x.getTo x.getFrom p
    have hget : (g.addEdg x.getTo x.getFrom p).2.getEdg x.getTo x.getFrom =
        some (g.addEdg x.getTo x.getFrom p).1 :=
      DirGraph.getEdg_eq_some.2 ⟨hends.2.2, hends.1, hends.2.1⟩
    rw [hself, redirect, hget, Option.getD_some]
    by_cases hcond : (g₀.pl x).is_restricted ∧ wrong x
    · rw [if_pos ⟨hcond.2, hcond.1, hnone₀⟩, if_pos ⟨hcond.1, rfl, hcond.2⟩]
    · rw [if_neg fun h => hcond ⟨h.2.1, h.1⟩, if_neg fun h => hcond ⟨h.1, h.2.2⟩]
  · rw [redirect_of_ne p wrong he hx hxe, if_neg]
    intro h
    cases hright with
    | inl hsame => exact hxe (hsame.symm.trans h.2.1)
    | inr hok => rw [hok] at h; exact absurd h.2.2 Bool.false_ne_true

theorem redirect_into (x : Edge) (hx : x.hasEnd v) :
    redirect g₀ g (notInto v) x = x ∨ notInto v (redirect g₀ g (notInto v) x) = false := by
  rw [redirect]
  split
  · rename_i h
    have hfrom : x.getFrom = v := hx.resolve_right (by simpa [notInto] using h.1)
    cases hget : g.getEdg x.getTo x.getFrom with
    | none => exact Or.inl rfl
    | some z =>
      obtain ⟨-, -, hz⟩ := DirGraph.getEdg_eq_some.1 hget
      exact Or.inr (by simp [notInto, hz, hfrom])
  · exact Or.inl rfl

theorem redirect_outOf (x : Edge) (hx : x.hasEnd v) :
    redirect g₀ g (notOutOf v) x = x ∨ notOutOf v (redirect g₀ g (notOutOf v) x) = false := by
  rw [redirect]
  split
  · rename_i h
    have hto : x.getTo = v := hx.resolve_left (by simpa [notOutOf] using h.1)
    cases hget : g.getEdg x.getTo x.getFrom with
    | none => exact Or.inl rfl
    | some z =>
      obtain ⟨-, hz, -⟩ := DirGraph.getEdg_eq_some.1 hget
      exact Or.inr (by simp [notOutOf, hz, hto])
  · exact Or.inl rfl

theorem redirectRule_step {e : Edge} (p : EdgePayload D) (hsub : ∀ x ∈ g₀.edges, x ∈ g.edges)
    (he : e ∈ g₀.edges) (hnone : g.getEdg e.getTo e.getFrom = none) {r : RulePair}
    (hr : RuleIncident g₀ v r) :
    redirectRule g₀ (g.addEdg e.getTo e.getFrom p).2 v r =
      if (g₀.pl e).is_restricted then
        duplicateRule e v (g.addEdg e.getTo e.getFrom p).1 (redirectRule g₀ g v r)
      else redirectRule g₀ g v r := by
  by_cases hflag : (g₀.pl e).is_restricted
  · rw [if_pos hflag]
    apply RulePair.ext
    · change redirect g₀ _ (notInto v) r.first = if _ then _ else _
      rw [redirect_step p (notInto v) hsub he hnone hr.first.1 (redirect_into _ hr.first.2)]
      exact if_congr (by simp [hflag, notInto, redirectRule]) rfl rfl
    · change r.second.map (redirect g₀ _ (notOutOf v)) = if _ then _ else _
      cases hs : r.second with
      | none => simp [redirectRule, hs]
      | some x =>
        obtain ⟨hx, hend⟩ := hr.second x hs
        rw [Option.map_some, redirect_step p (notOutOf v) hsub he hnone hx (redirect_outOf _ hend)]
        rw [apply_ite some]
        apply if_congr _ rfl (by simp [redirectRule, hs])
        simp only [hflag, true_and, redirectRule, hs, Option.map_some, Option.some.injEq]
        constructor
        · intro h
          refine ⟨h.1, ?_⟩
          simpa [notOutOf, h.1] using h.2
        · intro h
          refine ⟨h.1, ?_⟩
          simpa [notOutOf, h.1] using h.2
  · rw [if_neg hflag]
    apply RulePair.ext
    · change redirect g₀ _ (notInto v) r.first = redirect g₀ g (notInto v) r.first
      rw [redirect_step p (notInto v) hsub he hnone hr.first.1 (redirect_into _ hr.first.2),
        if_neg fun h => hflag h.1]
    · change r.second.map _ = r.second.map _
      apply Option.map_congr
      intro x hx
      obtain ⟨hmem, hend⟩ := hr.second x hx
      rw [redirect_step p (notOutOf v) hsub he hnone hmem (redirect_outOf _ hend),
        if_neg fun h => hflag h.1]

theorem redirectRule_far {e : Edge} (p : EdgePayload D) (he : e ∈ g₀.edges) (hfar : ¬ e.hasEnd v)
    {r : RulePair} (hr : RuleIncident g₀ v r) :
    redirectRule g₀ (g.addEdg e.getTo e.getFrom p).2 v r = redirectRule g₀ g v r := by
  have hne : ∀ x : Edge, x.hasEnd v → x ≠ e := fun x hx he => hfar (he ▸ hx)
  apply RulePair.ext
  · exact redirect_of_ne p _ he hr.first.1 (hne _ hr.first.2)
  · apply Option.map_congr
    intro x hx
    obtain ⟨hmem, hend⟩ := hr.second x hx
    exact redirect_of_ne p _ he hmem (hne x hend)

theorem rules_step {e : Edge} (p : EdgePayload D) (hsub : ∀ x ∈ g₀.edges, x ∈ g.edges)
    (he : e ∈ g₀.edges) (hnone : g.getEdg e.getTo e.getFrom = none) (hloop : e.getFrom ≠ e.getTo)
    (t : RuleTable) (rs : RuleVec) (hrs : ∀ r ∈ rs, RuleIncident g₀ v r)
    (ht : t.rules v = rs.map (redirectRule g₀ g v)) (newE : Edge)
    (hnew : newE = (g.addEdg e.getTo e.getFrom p).1) :
    (if (g₀.pl e).is_restricted then
        (t.mapAt e.getFrom (duplicateRule e e.getFrom newE)).mapAt e.getTo
          (duplicateRule e e.getTo newE)
      else t).rules v = rs.map (redirectRule g₀ (g.addEdg e.getTo e.getFrom p).2 v) := by
  have hstep := fun r hr => redirectRule_step p hsub he hnone (hrs r hr)
  by_cases hflag : (g₀.pl e).is_restricted
  · rw [if_pos hflag, duplicate_rules t e newE hloop, ht]
    by_cases hend : e.hasEnd v
    · rw [if_pos hend, List.map_map]
      apply List.map_congr_left
      intro r hr
      rw [hstep r hr, if_pos hflag, hnew]
      rfl
    · rw [if_neg hend]
      apply List.map_congr_left
      intro r hr
      rw [redirectRule_far p he hend (hrs r hr)]
  · rw [if_neg hflag, ht]
    apply List.map_congr_left
    intro r hr
    rw [hstep r hr, if_neg hflag]

structure EdgeDone (st st' : TrGraph NP D × Restrictor) (e : Edge) : Prop where
  kept : ∀ x ∈ st.1.edges, x ∈ st'.1.edges
  nds : st'.1.nds = st.1.nds
  reversed : st'.1.getEdg e.getTo e.getFrom ≠ none

theorem writeODirEdg_done (st : TrGraph NP D × Restrictor) (e : Edge) :
    EdgeDone st (writeODirEdg st e) e := by
  obtain ⟨g, restor⟩ := st
  cases hget : g.getEdg e.getTo e.getFrom with
  | some z =>
    simp only [writeODirEdg, hget]
    exact ⟨fun _ hx => hx, rfl, by simp [hget]⟩
  | none =>
    have hends := g.addEdg_ends e.getTo e.getFrom (g.pl e).revCopy
    simp only [writeODirEdg, hget]
    constructor
    · exact fun x hx => DirGraph.mem_addEdg.2 (Or.inl hx)
    · exact DirGraph.addEdg_nds _ _ _ _
    · rw [DirGraph.getEdg_eq_some.2 ⟨hends.2.2, hends.1, hends.2.1⟩]
      simp

theorem writeODirEdg_step {st : TrGraph NP D × Restrictor}
    (hrules : ∀ r ∈ r₀.rulesAt v, RuleIncident g₀ v r) (I : PassInvariant g₀ r₀ v st) {e : Edge}
    (he : e ∈ st.1.edges) : PassInvariant g₀ r₀ v (writeODirEdg st e) := by
  obtain ⟨g, restor⟩ := st
  cases hget : g.getEdg e.getTo e.getFrom with
  | some z =>
    simp only [writeODirEdg, hget]
    exact I
  | none =>
    have he₀ : e ∈ g₀.edges := by
      by_contra hnot
      exact I.new e he hnot hget
    have hpl : g.pl e = g₀.pl e := (I.old e he₀).2
    have hloop : e.getFrom ≠ e.getTo := by
      intro heq
      exact DirGraph.getEdg_eq_none.1 hget e he heq heq.symm
    have hends := g.addEdg_ends e.getTo e.getFrom (g.pl e).revCopy
    have hsub : ∀ x ∈ g₀.edges, x ∈ g.edges := fun x hx => (I.old x hx).1
    have hpos := rules_step (g.pl e).revCopy hsub he₀ hget hloop restor.pos _
      (fun r hr => hrules r (List.mem_append_left _ hr)) I.pos _ rfl
    have hneg := rules_step (g.pl e).revCopy hsub he₀ hget hloop restor.neg _
      (fun r hr => hrules r (List.mem_append_right _ hr)) I.neg _ rfl
    simp only [writeODirEdg, hget]
    constructor
    · intro x hx
      have hx' := I.old x hx
      exact ⟨DirGraph.mem_addEdg.2 (Or.inl hx'.1), (DirGraph.addEdg_pl hx'.1).trans hx'.2⟩
    · intro x hx hnot
      cases DirGraph.mem_addEdg.1 hx with
      | inl hx =>
        intro hnone
        apply I.new x hx hnot
        rw [DirGraph.getEdg_eq_none] at hnone ⊢
        exact fun z hz => hnone z (DirGraph.mem_addEdg.2 (Or.inl hz))
      | inr hx =>
        rw [hx, hends.1, hends.2.1, DirGraph.getEdg_eq_some.2
          ⟨DirGraph.mem_addEdg.2 (Or.inl he), rfl, rfl⟩]
        simp
    · rw [← hpos, hpl]
      split
      · rfl
      · rfl
    · rw [← hneg, hpl]
      split
      · rfl
      · rfl

theorem reversed_mono {g' : TrGraph NP D} (hsub : ∀ x ∈ g.edges, x ∈ g'.edges) {e : Edge}
    (h : g.getEdg e.getTo e.getFrom ≠ none) : g'.getEdg e.getTo e.getFrom ≠ none := by
  intro hnone
  apply h
  rw [DirGraph.getEdg_eq_none] at hnone ⊢
  exact fun z hz => hnone z (hsub z hz)

section passes
variable {inv : TrGraph NP D × Restrictor → Prop}
  (hstep : ∀ st e, inv st → e ∈ st.1.edges → inv (writeODirEdg st e))

include hstep

theorem foldl_edges (es : List Edge) {st : TrGraph NP D × Restrictor} (I : inv st)
    (hes : ∀ e ∈ es, e ∈ st.1.edges) :
    inv (es.foldl writeODirEdg st) ∧
      (∀ x ∈ st.1.edges, x ∈ (es.foldl writeODirEdg st).1.edges) ∧
      ∀ e ∈ es, (es.foldl writeODirEdg st).1.getEdg e.getTo e.getFrom ≠ none := by
  induction es generalizing st with
  | nil => exact ⟨I, fun _ hx => hx, by simp⟩
  | cons e es ih =>
    have hdone := writeODirEdg_done st e
    obtain ⟨I', hkept, hall⟩ := ih (hstep st e I (hes e List.mem_cons_self))
      fun x hx => hdone.kept x (hes x (List.mem_cons_of_mem _ hx))
    refine ⟨I', fun x hx => hkept x (hdone.kept x hx), ?_⟩
    intro x hx
    cases List.mem_cons.1 hx with
    | inl hx => rw [hx]; exact reversed_mono hkept hdone.reversed
    | inr hx => exact hall x hx

theorem foldl_nds (ns : List ℕ) {st : TrGraph NP D × Restrictor} (I : inv st) :
    let st' := ns.foldl (fun st n => (st.1.getAdjListOut n).foldl writeODirEdg st) st
    inv st' ∧ (∀ x ∈ st.1.edges, x ∈ st'.1.edges) ∧
      ∀ x ∈ st.1.edges, x.getFrom ∈ ns → st'.1.getEdg x.getTo x.getFrom ≠ none := by
  induction ns generalizing st with
  | nil => exact ⟨I, fun _ hx => hx, by simp⟩
  | cons n ns ih =>
    obtain ⟨I', hkept, hall⟩ := foldl_edges hstep (st.1.getAdjListOut n) I
      fun e he => (DirGraph.mem_getAdjListOut.1 he).1
    obtain ⟨I'', hkept', hall'⟩ := ih I'
    refine ⟨I'', fun x hx => hkept' x (hkept x hx), ?_⟩
    intro x hx hn
    cases List.mem_cons.1 hn with
    | inl hn =>
      exact reversed_mono hkept' (hall x (DirGraph.mem_getAdjListOut.2 ⟨hx, hn⟩))
    | inr hn => exact hall' x (hkept x hx) hn

theorem writeODirEdgs_keeps {restor : Restrictor} (I : inv (g, restor))
    (hends : ∀ e ∈ g.edges, e.getFrom ∈ g.nds) :
    inv (writeODirEdgs g restor) ∧
      ∀ e ∈ g.edges, (writeODirEdgs g restor).1.getEdg e.getTo e.getFrom ≠ none := by
  obtain ⟨I', -, hall⟩ := foldl_nds hstep g.nds I
  exact ⟨I', fun e he => hall e he (hends e he)⟩

end passes

theorem writeODirEdgs_invariant (hrules : ∀ r ∈ r₀.rulesAt v, RuleIncident g₀ v r)
    (hends : ∀ e ∈ g₀.edges, e.getFrom ∈ g₀.nds) :
    PassInvariant g₀ r₀ v (writeODirEdgs g₀ r₀) ∧
      ∀ e ∈ g₀.edges, (writeODirEdgs g₀ r₀).1.getEdg e.getTo e.getFrom ≠ none :=
  writeODirEdgs_keeps (fun _ _ I he => writeODirEdg_step hrules I he)
    (passInvariant_start g₀ r₀ v) hends

end pass

section result
variable {NP D : Type*} {g₀ g : TrGraph NP D} {r₀ restor : Restrictor} {v : ℕ}

/-- A redirected component, once its reverse copy is there, is the right one exactly when it was
    right before or could be redirected. -/
theorem redirect_right {x : Edge} (wrong : Edge → Bool)
    (hrev : g.getEdg x.getTo x.getFrom ≠ none)
    (hright : wrong x → ∀ z, g.getEdg x.getTo x.getFrom = some z → wrong z = false) :
    wrong (redirect g₀ g wrong x) = false ↔
      (wrong x → (g₀.pl x).is_restricted ∧ g₀.getEdg x.getTo x.getFrom = none) := by
  rw [redirect]
  cases hwrong : wrong x with
  | false => simp [hwrong]
  | true =>
    split
    · rename_i h
      cases hget : g.getEdg x.getTo x.getFrom with
      | none => exact absurd hget hrev
      | some z => simp [hright hwrong z hget, h.2]
    · rename_i h
      simp only [true_and] at h
      simp [hwrong, h]

theorem redirect_mem (g₀ : TrGraph NP D) {x : Edge} (wrong : Edge → Bool) (hx : x ∈ g.edges) :
    redirect g₀ g wrong x ∈ g.edges ∧ SameUndirected (redirect g₀ g wrong x) x := by
  rw [redirect]
  split
  · cases hget : g.getEdg x.getTo x.getFrom with
    | none => exact ⟨hx, Or.inl ⟨rfl, rfl⟩⟩
    | some z =>
      obtain ⟨hz, hfrom, hto⟩ := DirGraph.getEdg_eq_some.1 hget
      exact ⟨hz, Or.inr ⟨hfrom, hto⟩⟩
  · exact ⟨hx, Or.inl ⟨rfl, rfl⟩⟩

/-- Directed edges of one graph that both lead into `v` are equal when their undirected edges
    are. -/
theorem eq_iff_sameUndirected {x y a : Edge} (hxy : SameUndirected y x) (hy : y ∈ g.edges)
    (ha : a ∈ g.edges) (hends : (y.getTo = v ∧ a.getTo = v) ∨ (y.getFrom = v ∧ a.getFrom = v)) :
    y = a ↔ SameUndirected x a := by
  constructor
  · intro h
    subst h
    cases hxy with
    | inl h => exact Or.inl ⟨h.1.symm, h.2.symm⟩
    | inr h => exact Or.inr ⟨h.2.symm, h.1.symm⟩
  · intro h
    unfold SameUndirected at hxy h
    exact g.simple y hy a ha (by omega) (by omega)

theorem notInto_eq_false {e : Edge} : notInto v e = false ↔ e.getTo = v := by simp [notInto]

theorem notOutOf_eq_false {e : Edge} : notOutOf v e = false ↔ e.getFrom = v := by simp [notOutOf]

theorem redirectRule_directed_iff {r : RulePair} (hr : RuleIncident g₀ v r)
    (hrev : ∀ e ∈ g₀.edges, g.getEdg e.getTo e.getFrom ≠ none) :
    RuleDirected v (redirectRule g₀ g v r) ↔ Redirectable g₀ v r := by
  have hinto : (redirect g₀ g (notInto v) r.first).getTo = v ↔ (r.first.getTo ≠ v →
      (g₀.pl r.first).is_restricted ∧ g₀.getEdg r.first.getTo r.first.getFrom = none) := by
    rw [← notInto_eq_false, redirect_right _ (hrev _ hr.first.1)]
    · simp [notInto]
    · intro hwrong z hz
      rw [notInto_eq_false, (DirGraph.getEdg_eq_some.1 hz).2.2]
      exact hr.first.2.resolve_right (by simpa [notInto] using hwrong)
  have houtOf : ∀ e, r.second = some e → ((redirect g₀ g (notOutOf v) e).getFrom = v ↔
      (e.getFrom ≠ v → (g₀.pl e).is_restricted ∧ g₀.getEdg e.getTo e.getFrom = none)) := by
    intro e he
    rw [← notOutOf_eq_false, redirect_right _ (hrev _ (hr.second e he).1)]
    · simp [notOutOf]
    · intro hwrong z hz
      rw [notOutOf_eq_false, (DirGraph.getEdg_eq_some.1 hz).2.1]
      exact (hr.second e he).2.resolve_left (by simpa [notOutOf] using hwrong)
  constructor
  · intro h
    refine ⟨hinto.1 h.first, ?_⟩
    intro e he
    exact (houtOf e he).1 (h.second _ (by simp [redirectRule, he]))
  · intro h
    refine ⟨hinto.2 h.first, ?_⟩
    intro y hy
    obtain ⟨e, he, rfl⟩ := Option.map_eq_some_iff.1 hy
    exact (houtOf e he).2 (h.second e he)

/-- Rules that have been directed treat directed edges as they treated undirected ones. -/
theorem may_redirected (I : PassInvariant g₀ r₀ v (g, restor))
    (hrules : ∀ r ∈ r₀.rulesAt v, RuleIncident g₀ v r)
    (hdirected : ∀ r ∈ restor.rulesAt v, RuleDirected v r) {a b : Edge} (ha : a ∈ g.edges)
    (hav : a.getTo = v) (hb : b ∈ g.edges) (hbv : b.getFrom = v) :
    restor.may a b v = undirectedMay r₀ a b v := by
  have hdir : ∀ r ∈ r₀.rulesAt v, RuleDirected v (redirectRule g₀ g v r) := by
    intro r hr
    apply hdirected
    rw [Restrictor.rulesAt, I.pos, I.neg, ← List.map_append]
    exact List.mem_map_of_mem hr
  have hfirst : ∀ r ∈ r₀.rulesAt v, decide ((redirectRule g₀ g v r).first = a) =
      decide (SameUndirected r.first a) := by
    intro r hr
    have hmem := redirect_mem g₀ (notInto v) (I.old _ (hrules r hr).first.1).1
    exact decide_eq_decide.2
      (eq_iff_sameUndirected hmem.2 hmem.1 ha (Or.inl ⟨(hdir r hr).first, hav⟩))
  have hsecond : ∀ r ∈ r₀.rulesAt v, ∀ e, r.second = some e →
      decide (redirect g₀ g (notOutOf v) e = b) = decide (SameUndirected e b) := by
    intro r hr e he
    have hmem := redirect_mem g₀ (notOutOf v) (I.old _ ((hrules r hr).second e he).1).1
    have hout := (hdir r hr).second _ (by rw [redirectRule, he]; rfl)
    exact decide_eq_decide.2 (eq_iff_sameUndirected hmem.2 hmem.1 hb (Or.inr ⟨hout, hbv⟩))
  have hsome : ∀ r ∈ r₀.rulesAt v, (redirectRule g₀ g v r).second.any (fun e => decide (e = b)) =
      r.second.any fun e => decide (SameUndirected e b) := by
    intro r hr
    rw [redirectRule]
    cases he : r.second with
    | none => rfl
    | some e => exact hsecond r hr e he
  have hnot : ∀ r ∈ r₀.rulesAt v,
      (redirectRule g₀ g v r).second.any (fun e => !decide (e = b)) =
        r.second.any fun e => !decide (SameUndirected e b) := by
    intro r hr
    rw [redirectRule]
    cases he : r.second with
    | none => rfl
    | some e => exact congrArg Bool.not (hsecond r hr e he)
  have hpos : ∀ r ∈ r₀.pos.rules v, r ∈ r₀.rulesAt v := fun r => List.mem_append_left _
  have hneg : ∀ r ∈ r₀.neg.rules v, r ∈ r₀.rulesAt v := fun r => List.mem_append_right _
  have hany : ((r₀.neg.rules v).map (redirectRule g₀ g v)).any
        (fun r => decide (r.first = a) && r.second.any fun e => decide (e = b)) =
      (r₀.neg.rules v).any fun r =>
        decide (SameUndirected r.first a) && r.second.any fun e => decide (SameUndirected e b) := by
    apply any_map_congr
    intro r hr
    rw [hfirst r (hneg r hr), hsome r (hneg r hr)]
  have hverdict := verdictPos_map (fun e => decide (SameUndirected e a))
    (fun e => decide (SameUndirected e b)) (fun e => decide (e = a)) (fun e => decide (e = b))
    (redirectRule g₀ g v) (r₀.pos.rules v)
    (fun r hr => hfirst r (hpos r hr)) (fun r hr => hsome r (hpos r hr))
    (fun r hr => hnot r (hpos r hr))
  rw [may_eq_verdict, undirectedMay, verdict, verdict, I.pos, I.neg, hverdict, hany]

theorem writeODirEdgs_directed_iff (g₀ : TrGraph NP D) (r₀ : Restrictor) (v : ℕ)
    (hends : ∀ e ∈ g₀.edges, e.getFrom ∈ g₀.nds)
    (hrules : ∀ r ∈ r₀.rulesAt v, RuleIncident g₀ v r) :
    ((∀ r ∈ (writeODirEdgs g₀ r₀).2.rulesAt v, RuleDirected v r) ∧
      ∀ a ∈ (writeODirEdgs g₀ r₀).1.edges, ∀ b ∈ (writeODirEdgs g₀ r₀).1.edges,
        a.getTo = v → b.getFrom = v →
          (writeODirEdgs g₀ r₀).2.may a b v = undirectedMay r₀ a b v) ↔
      ∀ r ∈ r₀.rulesAt v, Redirectable g₀ v r := by
  obtain ⟨I, hrev⟩ := writeODirEdgs_invariant hrules hends
  have hdirected : (∀ r ∈ (writeODirEdgs g₀ r₀).2.rulesAt v, RuleDirected v r) ↔
      ∀ r ∈ r₀.rulesAt v, Redirectable g₀ v r := by
    rw [Restrictor.rulesAt, I.pos, I.neg, ← List.map_append]
    constructor
    · intro h r hr
      exact (redirectRule_directed_iff (hrules r hr) hrev).1 (h _ (List.mem_map_of_mem hr))
    · intro h r hr
      obtain ⟨r', hr', rfl⟩ := List.mem_map.1 hr
      exact (redirectRule_directed_iff (hrules r' hr') hrev).2 (h r' hr')
  rw [← hdirected]
  constructor
  · exact fun h => h.1
  · intro h
    refine ⟨h, ?_⟩
    intro a ha b hb hav hbv
    exact may_redirected I hrules h ha hav hb hbv

/-- Nodes `0`, `1` and `2`, and restricted edges between the given ends. -/
def sampleGraph (ends : List (ℕ × ℕ)) : TrGraph Unit Unit :=
  let nodes := ((DirGraph.empty () ⟨0, true, false, ()⟩).addNd ()).2
  ends.foldl (fun g uv => (g.addEdg uv.1 uv.2 ⟨0, true, false, ()⟩).2)
    ((nodes.addNd ()).2.addNd ()).2

/-- A way out of `1` may not be left for another way out of `1`. -/
def sampleRules (first second : Edge) : Restrictor where
  pos := .empty
  neg := { RuleTable.empty with rules := fun v => if v = 1 then [⟨first, some second⟩] else [] }
  rlx _ _ := none

theorem mem_sampleRules {first second : Edge} {r : RulePair}
    (hr : r ∈ (sampleRules first second).rulesAt 1) : r = ⟨first, some second⟩ := by
  simpa [sampleRules, RuleTable.empty, Restrictor.rulesAt] using hr

theorem sampleRules_incident {g : TrGraph Unit Unit} {first second : Edge}
    (hfirst : first ∈ g.edges ∧ first.hasEnd 1) (hsecond : second ∈ g.edges ∧ second.hasEnd 1) :
    ∀ r ∈ (sampleRules first second).rulesAt 1, RuleIncident g 1 r := by
  intro r hr
  rw [mem_sampleRules hr]
  refine ⟨hfirst, ?_⟩
  intro e he
  rw [← Option.some.inj he]
  exact hsecond

theorem writeODirEdgs_directed_oneWay :
    let st := writeODirEdgs (sampleGraph [(1, 0), (1, 2)]) (sampleRules ⟨0, 1, 0⟩ ⟨1, 1, 2⟩)
    (∀ r ∈ st.2.rulesAt 1, RuleDirected 1 r) ∧
      ∀ a ∈ st.1.edges, ∀ b ∈ st.1.edges, a.getTo = 1 → b.getFrom = 1 →
        st.2.may a b 1 = undirectedMay (sampleRules ⟨0, 1, 0⟩ ⟨1, 1, 2⟩) a b 1 := by
  apply (writeODirEdgs_directed_iff (sampleGraph [(1, 0), (1, 2)])
    (sampleRules ⟨0, 1, 0⟩ ⟨1, 1, 2⟩) 1 (by decide)
    (sampleRules_incident (by decide) (by decide))).2
  intro r hr
  rw [mem_sampleRules hr]
  refine ⟨by decide, ?_⟩
  intro e he
  rw [← Option.some.inj he]
  decide

/-- With the edge `1 → 0` and its reverse both there before the pass, the rule stays as it is. -/
theorem writeODirEdgs_not_directed :
    ¬ ∀ (g₀ : TrGraph Unit Unit) (r₀ : Restrictor) (v : ℕ),
      (∀ e ∈ g₀.edges, e.getFrom ∈ g₀.nds) → (∀ r ∈ r₀.rulesAt v, RuleIncident g₀ v r) →
      (∀ r ∈ (writeODirEdgs g₀ r₀).2.rulesAt v, RuleDirected v r) ∧
        ∀ a ∈ (writeODirEdgs g₀ r₀).1.edges, ∀ b ∈ (writeODirEdgs g₀ r₀).1.edges,
          a.getTo = v → b.getFrom = v →
            (writeODirEdgs g₀ r₀).2.may a b v = undirectedMay r₀ a b v := by
  intro h
  have hbad := (h (sampleGraph [(1, 0), (0, 1), (1, 2)]) (sampleRules ⟨0, 1, 0⟩ ⟨2, 1, 2⟩) 1
    (by decide) (sampleRules_incident (by decide) (by decide))).2
    ⟨1, 0, 1⟩ (by decide) ⟨2, 1, 2⟩ (by decide) rfl rfl
  exact absurd hbad (by decide)

end result

end Pfaedle.ODirEdges

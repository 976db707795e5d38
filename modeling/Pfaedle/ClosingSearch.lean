import Mathlib.Data.Prod.Lex
import Mathlib.Data.Set.Basic
import Mathlib.Logic.Relation
import Pfaedle.PriorityQueue

set_option autoImplicit false

/-!
# Best-first searches that close places

The entries of a search lie at places, and the successors of an entry may depend on more than its
place. A place is closed with the first entry that is popped there, so that an entry is expanded for
all the others at its place. What a search finds depends on the entries that the places are closed
with, and these may be any `Closing`, by the order in which equally cheap entries are popped.
-/
namespace Pfaedle.ClosingSearch

structure Space (A V L : Type*) where
  place : A → V
  cost : A → L
  next : A → List A

section search
variable {A V L : Type*} [DecidableEq V] [LinearOrder L] (S : Space A V L) (goal : V → Bool)

def expand (closed : List V) : List A → Option V × List A
  | [] => (none, [])
  | b :: rest =>
    if S.place b ∈ closed then expand closed rest
    else if goal (S.place b) then (some (S.place b), [])
    else ((expand closed rest).1, b :: (expand closed rest).2)

variable (pq : PriorityQueue A fun a b => S.cost b < S.cost a)

def loop : ℕ → List V → List A → Option V
  | 0, _, _ => none
  | k + 1, closed, q =>
    match pq.pop q with
    | none => none
    | some (a, q) =>
      if S.place a ∈ closed then loop k closed q
      else
        match expand S goal (S.place a :: closed) (S.next a) with
        | (some v, _) => some v
        | (none, new) => loop k (S.place a :: closed) (q ++ new)

def Reached (starts : List A) (a : A) : Prop :=
  ∃ s ∈ starts, Relation.ReflTransGen (fun a b => b ∈ S.next a) s a

/-- The entries of `kept` that a start leads to through entries of `kept`. -/
inductive Led (starts : List A) (kept : Set A) : A → Prop
  | start {s : A} : s ∈ starts → s ∈ kept → Led starts kept s
  | next {a b : A} : Led starts kept a → b ∈ S.next a → b ∈ kept → Led starts kept b

/-- One entry for each place that the search gets to, none of them dearer than a start or a
successor of another at its place. -/
structure Closing (starts : List A) (kept : Set A) : Prop where
  one : ∀ a ∈ kept, ∀ b ∈ kept, S.place a = S.place b → a = b
  led : ∀ a ∈ kept, Led S starts kept a
  starts : ∀ s ∈ starts, ∃ a ∈ kept, S.place a = S.place s ∧ S.cost a ≤ S.cost s
  next : ∀ a ∈ kept, ∀ b ∈ S.next a, ∃ c ∈ kept, S.place c = S.place b ∧ S.cost c ≤ S.cost b

/-- Every entry at the place of `a` that is as cheap has a successor like `b`. -/
def ClearStep (starts : List A) (a b : A) : Prop :=
  b ∈ S.next a ∧ ∀ a', Reached S starts a' → S.place a' = S.place a → S.cost a' ≤ S.cost a →
    ∃ b' ∈ S.next a', S.place b' = S.place b ∧ S.cost b' ≤ S.cost b

def Clear (starts : List A) (a : A) : Prop :=
  ∃ s ∈ starts, Relation.ReflTransGen (ClearStep S starts) s a

end search

section expand
variable {A V L : Type*} [DecidableEq V] {S : Space A V L} {goal : V → Bool} {closed : List V}

theorem expand_found {l : List A} {v : V} (h : (expand S goal closed l).1 = some v) :
    ∃ b ∈ l, S.place b = v ∧ goal v := by
  induction l with
  | nil => cases h
  | cons b l ih =>
    rw [expand] at h
    split_ifs at h with hclosed hgoal
    · obtain ⟨b', hb', hv⟩ := ih h
      exact ⟨b', List.mem_cons_of_mem _ hb', hv⟩
    · cases h
      exact ⟨b, List.mem_cons_self, rfl, hgoal⟩
    · obtain ⟨b', hb', hv⟩ := ih h
      exact ⟨b', List.mem_cons_of_mem _ hb', hv⟩

variable (S goal closed) in
theorem expand_pushed (l : List A) :
    (expand S goal closed l).2.length ≤ l.length ∧ ∀ b ∈ (expand S goal closed l).2,
      b ∈ l ∧ goal (S.place b) = false := by
  induction l with
  | nil => exact ⟨le_rfl, fun b hb => absurd hb List.not_mem_nil⟩
  | cons b l ih =>
    rw [expand]
    split_ifs with hclosed hgoal
    · exact ⟨Nat.le_succ_of_le ih.1, fun x hx =>
        ⟨List.mem_cons_of_mem _ (ih.2 x hx).1, (ih.2 x hx).2⟩⟩
    · exact ⟨Nat.zero_le _, fun x hx => absurd hx List.not_mem_nil⟩
    · refine ⟨Nat.succ_le_succ ih.1, fun x hx => ?_⟩
      rcases List.mem_cons.1 hx with rfl | hx
      · exact ⟨List.mem_cons_self, (Bool.not_eq_true _).mp hgoal⟩
      · exact ⟨List.mem_cons_of_mem _ (ih.2 x hx).1, (ih.2 x hx).2⟩

theorem expand_none {l : List A} (h : (expand S goal closed l).1 = none) {b : A} (hb : b ∈ l) :
    S.place b ∈ closed ∨ b ∈ (expand S goal closed l).2 := by
  induction l with
  | nil => exact absurd hb List.not_mem_nil
  | cons x l ih =>
    rw [expand] at h ⊢
    split_ifs at h ⊢ with hclosed hgoal
    · rcases List.mem_cons.1 hb with rfl | hb
      · exact Or.inl hclosed
      · exact ih h hb
    · rcases List.mem_cons.1 hb with rfl | hb
      · exact Or.inr List.mem_cons_self
      · exact (ih h hb).imp_right (List.mem_cons_of_mem _)

theorem expand_eq_none {l : List A}
    (h : ∀ b ∈ l, S.place b ∈ closed ∨ goal (S.place b) = false) :
    (expand S goal closed l).1 = none := by
  induction l with
  | nil => rfl
  | cons x l ih =>
    have hrest := ih fun b hb => h b (List.mem_cons_of_mem _ hb)
    rw [expand]
    split_ifs with hclosed hgoal
    · exact hrest
    · rcases h x List.mem_cons_self with hx | hx
      · exact absurd hx hclosed
      · exact absurd hgoal (by simp [hx])
    · exact hrest

end expand

section run
variable {A V L : Type*} [LinearOrder L] {S : Space A V L} {goal : V → Bool}
  {pq : PriorityQueue A fun a b => S.cost b < S.cost a} {starts : List A}

section
omit [LinearOrder L]

theorem Reached.next {a b : A} (h : Reached S starts a) (hb : b ∈ S.next a) :
    Reached S starts b := by
  obtain ⟨s, hs, hsteps⟩ := h
  exact ⟨s, hs, hsteps.tail hb⟩

theorem Led.reached {kept : Set A} {a : A} (h : Led S starts kept a) : Reached S starts a := by
  induction h with
  | start hs _ => exact ⟨_, hs, .refl⟩
  | next _ hb _ ih => exact ih.next hb

theorem Led.mono {kept kept' : Set A} (hsub : kept ⊆ kept') {a : A} (h : Led S starts kept a) :
    Led S starts kept' a := by
  induction h with
  | start hs hmem => exact .start hs (hsub hmem)
  | next _ hb hmem ih => exact ih.next hb (hsub hmem)

end

theorem loop_found [DecidableEq V] {k : ℕ} {closed : List V} {q : List A} {v : V}
    (hq : ∀ a ∈ q, Reached S starts a) (h : loop S goal pq k closed q = some v) :
    goal v ∧ ∃ a b, Reached S starts a ∧ b ∈ S.next a ∧ S.place b = v := by
  induction k generalizing closed q with
  | zero => cases h
  | succ k ih =>
    rw [loop] at h
    split at h
    · cases h
    · rename_i a q' hpop
      have hmem := pq.mem_iff hpop
      have ha : Reached S starts a := hq a ((hmem a).2 (Or.inl rfl))
      have hq' : ∀ x ∈ q', Reached S starts x := fun x hx => hq x ((hmem x).2 (Or.inr hx))
      split_ifs at h with hclosed
      · exact ih hq' h
      · split at h
        · rename_i w new hexpand
          cases h
          obtain ⟨b, hb, hv, hgoal⟩ := expand_found (congrArg Prod.fst hexpand)
          exact ⟨hgoal, a, b, ha, hb, hv⟩
        · rename_i new hexpand
          refine ih (fun x hx => ?_) h
          rcases List.mem_append.1 hx with hx | hx
          · exact hq' x hx
          · have hnew : new = _ := (congrArg Prod.snd hexpand).symm
            rw [hnew] at hx
            exact ha.next ((expand_pushed S goal _ _).2 x hx).1

/-- The entries that the search has pushed when those in `settled` have been expanded, unless
their places had been closed. -/
def Pushed (S : Space A V L) (starts settled : List A) (a : A) : Prop :=
  a ∈ starts ∨ ∃ c ∈ settled, a ∈ S.next c

omit [LinearOrder L] in
theorem Pushed.mono {settled : List A} {a b : A} (h : Pushed S starts settled a) :
    Pushed S starts (b :: settled) a :=
  h.imp_right fun ⟨c, hc, ha⟩ => ⟨c, List.mem_cons_of_mem _ hc, ha⟩

/-- The entries `settled` have been expanded, and nothing has been found; `floor` is a cost that no
successor has. -/
structure Explored (S : Space A V L) (goal : V → Bool) (starts : List A) (floor : L)
    (settled q : List A) : Prop where
  one : ∀ a ∈ settled, ∀ b ∈ settled, S.place a = S.place b → a = b
  led : ∀ a ∈ settled, Led S starts {x | x ∈ settled} a
  pushed : ∀ a ∈ q, Pushed S starts settled a
  order : ∀ a ∈ settled, ∀ b ∈ q, S.cost a ≤ S.cost b
  quiet : ∀ a ∈ settled ++ q, goal (S.place a) → floor < S.cost a
  starts : ∀ s ∈ starts, ∃ a ∈ settled ++ q, S.place a = S.place s ∧ S.cost a ≤ S.cost s
  next : ∀ a ∈ settled, ∀ b ∈ S.next a,
    ∃ c ∈ settled ++ q, S.place c = S.place b ∧ S.cost c ≤ S.cost b

variable {floor : L}

theorem Explored.start (h : ∀ s ∈ starts, goal (S.place s) → floor < S.cost s) :
    Explored S goal starts floor [] starts where
  one _ ha := absurd ha List.not_mem_nil
  led _ ha := absurd ha List.not_mem_nil
  pushed _ ha := Or.inl ha
  order _ ha := absurd ha List.not_mem_nil
  quiet := h
  starts s hs := ⟨s, hs, rfl, le_rfl⟩
  next _ ha := absurd ha List.not_mem_nil

theorem mem_after_pop {q q' : List A} {a : A} (hpop : pq.pop q = some (a, q'))
    (settled new : List A) (x : A) :
    x ∈ (a :: settled) ++ (q' ++ new) ↔ x ∈ settled ++ q ∨ x ∈ new := by
  simp only [List.mem_append, List.mem_cons, pq.mem_iff hpop]
  tauto

theorem Explored.skip {settled q q' : List A} {a : A} (h : Explored S goal starts floor settled q)
    (hpop : pq.pop q = some (a, q')) (hclosed : S.place a ∈ settled.map S.place) :
    Explored S goal starts floor settled q' := by
  have hmem := pq.mem_iff hpop
  have hsub : ∀ x ∈ settled ++ q', x ∈ settled ++ q := fun x hx =>
    List.mem_append.2 ((List.mem_append.1 hx).imp_right fun hx => (hmem x).2 (Or.inr hx))
  obtain ⟨c, hc, hplace⟩ := List.mem_map.1 hclosed
  have hcost : S.cost c ≤ S.cost a := h.order c hc a ((hmem a).2 (Or.inl rfl))
  have hkeep : ∀ x : A, (∃ y ∈ settled ++ q, S.place y = S.place x ∧ S.cost y ≤ S.cost x) →
      ∃ y ∈ settled ++ q', S.place y = S.place x ∧ S.cost y ≤ S.cost x := by
    rintro x ⟨y, hy, hyplace, hycost⟩
    rcases List.mem_append.1 hy with hy | hy
    · exact ⟨y, List.mem_append_left _ hy, hyplace, hycost⟩
    · rcases (hmem y).1 hy with rfl | hy
      · exact ⟨c, List.mem_append_left _ hc, hplace.trans hyplace, hcost.trans hycost⟩
      · exact ⟨y, List.mem_append_right _ hy, hyplace, hycost⟩
  exact
    { one := h.one
      led := h.led
      pushed := fun x hx => h.pushed x ((hmem x).2 (Or.inr hx))
      order := fun x hx y hy => h.order x hx y ((hmem y).2 (Or.inr hy))
      quiet := fun x hx => h.quiet x (hsub x hx)
      starts := fun s hs => hkeep s (h.starts s hs)
      next := fun x hx b hb => hkeep b (h.next x hx b hb) }

theorem Explored.expand [DecidableEq V] {settled q q' : List A} {a : A}
    (h : Explored S goal starts floor settled q) (hpop : pq.pop q = some (a, q'))
    (hopen : S.place a ∉ settled.map S.place) (hmono : ∀ b ∈ S.next a, S.cost a ≤ S.cost b)
    (hnone : (expand S goal (S.place a :: settled.map S.place) (S.next a)).1 = none) :
    Explored S goal starts floor (a :: settled)
      (q' ++ (ClosingSearch.expand S goal (S.place a :: settled.map S.place) (S.next a)).2) := by
  have hnew := (expand_pushed S goal (S.place a :: settled.map S.place) (S.next a)).2
  have hafter := mem_after_pop hpop settled
    (ClosingSearch.expand S goal (S.place a :: settled.map S.place) (S.next a)).2
  have haq : a ∈ q := (pq.mem_iff hpop a).2 (Or.inl rfl)
  have hold : ∀ x ∈ settled, S.place x ≠ S.place a := fun x hx hplace =>
    hopen (hplace ▸ List.mem_map_of_mem hx)
  have hled : ∀ x ∈ settled, Led S starts {y | y ∈ a :: settled} x := fun x hx =>
    (h.led x hx).mono fun y hy => List.mem_cons_of_mem _ hy
  refine ⟨?_, fun x hx => ?_, fun x hx => ?_, ?_, fun x hx hgoal => ?_, fun s hs => ?_, ?_⟩
  · intro x hx y hy hplace
    rcases List.mem_cons.1 hx with hxa | hx'
    · rcases List.mem_cons.1 hy with hya | hy'
      · exact hxa.trans hya.symm
      · exact absurd (hplace.symm.trans (congrArg S.place hxa)) (hold y hy')
    · rcases List.mem_cons.1 hy with hya | hy'
      · exact absurd (hplace.trans (congrArg S.place hya)) (hold x hx')
      · exact h.one x hx' y hy' hplace
  · rcases List.mem_cons.1 hx with rfl | hx
    · rcases h.pushed x haq with hstart | ⟨c, hc, hnext⟩
      · exact .start hstart List.mem_cons_self
      · exact (hled c hc).next hnext List.mem_cons_self
    · exact hled x hx
  · rcases List.mem_append.1 hx with hx | hx
    · exact (h.pushed x ((pq.mem_iff hpop x).2 (Or.inr hx))).mono
    · exact Or.inr ⟨a, List.mem_cons_self, (hnew x hx).1⟩
  · intro x hx y hy
    have hxa : S.cost x ≤ S.cost a := by
      rcases List.mem_cons.1 hx with rfl | hx
      · exact le_rfl
      · exact h.order x hx a haq
    rcases List.mem_append.1 hy with hy | hy
    · exact hxa.trans (not_lt.1 (pq.pop_top hpop y ((pq.mem_iff hpop y).2 (Or.inr hy))))
    · exact hxa.trans (hmono y (hnew y hy).1)
  · rcases (hafter x).1 hx with hx | hx
    · exact h.quiet x hx hgoal
    · exact absurd hgoal (by simp [(hnew x hx).2])
  · obtain ⟨c, hc, hlike⟩ := h.starts s hs
    exact ⟨c, (hafter c).2 (Or.inl hc), hlike⟩
  · intro x hx b hb
    rcases List.mem_cons.1 hx with rfl | hx
    · rcases expand_none hnone hb with hclosed | hpushed
      · rcases List.mem_cons.1 hclosed with hself | hclosed
        · exact ⟨x, List.mem_append_left _ List.mem_cons_self, hself.symm, hmono b hb⟩
        · obtain ⟨c, hc, hplace⟩ := List.mem_map.1 hclosed
          exact ⟨c, List.mem_append_left _ (List.mem_cons_of_mem _ hc), hplace,
            (h.order c hc x haq).trans (hmono b hb)⟩
      · exact ⟨b, List.mem_append_right _ (List.mem_append_right _ hpushed), rfl, le_rfl⟩
    · obtain ⟨c, hc, hlike⟩ := h.next x hx b hb
      exact ⟨c, (hafter c).2 (Or.inl hc), hlike⟩

/-- `room closed` bounds what can still be pushed. -/
theorem loop_explored [DecidableEq V] {room : List V → ℕ}
    (hmono : ∀ a, ∀ b ∈ S.next a, S.cost a ≤ S.cost b)
    (hroom : ∀ a closed, S.place a ∉ closed →
      room (S.place a :: closed) + (S.next a).length ≤ room closed)
    {k : ℕ} {settled q : List A} (hk : q.length + room (settled.map S.place) < k)
    (h : Explored S goal starts floor settled q)
    (hnone : loop S goal pq k (settled.map S.place) q = none) :
    ∃ settled', Explored S goal starts floor settled' [] := by
  induction k generalizing settled q with
  | zero => exact absurd hk (Nat.not_lt_zero _)
  | succ k ih =>
    rw [loop] at hnone
    split at hnone
    · rename_i hpop
      rw [pq.eq_nil_of_pop hpop] at h
      exact ⟨settled, h⟩
    · rename_i a q' hpop
      have hlength := pq.length_pop hpop
      split_ifs at hnone with hclosed
      · exact ih (by omega) (h.skip hpop hclosed) hnone
      · split at hnone
        · cases hnone
        · rename_i new hexpand
          have hnew : new = _ := (congrArg Prod.snd hexpand).symm
          have hpushed := (expand_pushed S goal (S.place a :: settled.map S.place) (S.next a)).1
          have hstep := h.expand hpop hclosed (hmono a) (congrArg Prod.fst hexpand)
          rw [← hnew] at hpushed hstep
          have hpaid := hroom a _ hclosed
          refine ih ?_ hstep hnone
          rw [List.length_append, List.map_cons]
          omega

theorem Explored.closing {settled : List A} (h : Explored S goal starts floor settled []) :
    Closing S starts {a | a ∈ settled} where
  one := h.one
  led := h.led
  starts s hs := by
    have hstart := h.starts s hs
    rwa [List.append_nil] at hstart
  next a ha b hb := by
    have hnext := h.next a ha b hb
    rwa [List.append_nil] at hnext

/-- A closing has an entry at the place of a clear entry that is as cheap. -/
theorem Closing.clear {kept : Set A} (h : Closing S starts kept) {a : A}
    (ha : Clear S starts a) : ∃ c ∈ kept, S.place c = S.place a ∧ S.cost c ≤ S.cost a := by
  obtain ⟨s, hs, hsteps⟩ := ha
  induction hsteps with
  | refl => exact h.starts s hs
  | tail _ hstep ih =>
    obtain ⟨c, hc, hplace, hcost⟩ := ih
    obtain ⟨b', hb', hplace', hcost'⟩ := hstep.2 c (h.led c hc).reached hplace hcost
    obtain ⟨d, hd, hdplace, hdcost⟩ := h.next c hc b' hb'
    exact ⟨d, hd, hdplace.trans hplace', hdcost.trans hcost'⟩

end run

section preferring
variable {A V L : Type*} [LinearOrder L] {S : Space A V L} {goal : V → Bool} {starts : List A}
  {kept : Set A} {settled q : List A} {floor : L}

variable (S kept) in
open Classical in
/-- Among the entries that are equally cheap, those in `kept` come first. -/
noncomputable def preferring : PriorityQueue A fun a b => S.cost b < S.cost a :=
  PriorityQueue.leastFirst (fun a => toLex (S.cost a, decide (a ∉ kept))) _
    fun _ _ hlt => Prod.Lex.toLex_lt_toLex.2 (Or.inl hlt)

theorem preferring_pop {a : A} {r : List A} (hpop : (preferring S kept).pop q = some (a, r))
    {b : A} (hb : b ∈ q) (hkept : b ∈ kept) (hcost : S.cost b ≤ S.cost a) : a ∈ kept := by
  have hkey := (PriorityQueue.popLeast_spec _ _ _ _ hpop).2 b hb
  rcases Prod.Lex.toLex_le_toLex.1 hkey with hlt | ⟨-, hle⟩
  · exact absurd hcost (not_le_of_gt hlt)
  · by_contra ha
    simp only [ha, hkept, not_true_eq_false, not_false_eq_true, decide_true, decide_false] at hle
    exact absurd hle (by decide)

/-- The search has closed its places with entries of `kept`, and those that it has pushed wait. -/
structure Follows (S : Space A V L) (starts : List A) (kept : Set A) (settled q : List A) :
    Prop where
  chosen : ∀ a ∈ settled, a ∈ kept
  pushed : ∀ a ∈ q, Pushed S starts settled a
  waiting : ∀ a ∈ kept, a ∉ settled → Pushed S starts settled a → a ∈ q

omit [LinearOrder L] in
theorem Follows.start : Follows S starts kept [] starts where
  chosen _ ha := absurd ha List.not_mem_nil
  pushed _ ha := Or.inl ha
  waiting _ _ _ ha := ha.resolve_right fun ⟨_, hc, _⟩ => absurd hc List.not_mem_nil

/-- On the way to an entry of the closing that is not settled, one waits. -/
theorem Led.waiting (hmono : ∀ a, ∀ b ∈ S.next a, S.cost a ≤ S.cost b)
    (h : Follows S starts kept settled q) {a : A} (ha : Led S starts kept a) :
    a ∈ settled ∨ ∃ b ∈ q, b ∈ kept ∧ S.cost b ≤ S.cost a := by
  induction ha with
  | @start s hs hmem =>
    by_cases hsettled : s ∈ settled
    · exact Or.inl hsettled
    · exact Or.inr ⟨s, h.waiting s hmem hsettled (Or.inl hs), hmem, le_rfl⟩
  | @next a b _ hb hmem ih =>
    by_cases hsettled : b ∈ settled
    · exact Or.inl hsettled
    · refine Or.inr ?_
      rcases ih with ha | ⟨c, hc, hkept, hcost⟩
      · exact ⟨b, h.waiting b hmem hsettled (Or.inr ⟨a, ha, hb⟩), hmem, le_rfl⟩
      · exact ⟨c, hc, hkept, hcost.trans (hmono a b hb)⟩

theorem Follows.popped (h : Follows S starts kept settled q) (hclosing : Closing S starts kept)
    (hmono : ∀ a, ∀ b ∈ S.next a, S.cost a ≤ S.cost b) {a : A} {r : List A}
    (hpop : (preferring S kept).pop q = some (a, r)) (hopen : S.place a ∉ settled.map S.place) :
    a ∈ kept := by
  have hkept : ∃ c ∈ kept, S.place c = S.place a ∧ S.cost c ≤ S.cost a := by
    rcases h.pushed a (((preferring S kept).mem_iff hpop a).2 (Or.inl rfl)) with
      hstart | ⟨x, hx, hnext⟩
    · exact hclosing.starts a hstart
    · exact hclosing.next x (h.chosen x hx) a hnext
  obtain ⟨c, hc, hplace, hcost⟩ := hkept
  rcases (hclosing.led c hc).waiting hmono h with hsettled | ⟨b, hb, hbkept, hbcost⟩
  · exact absurd (hplace ▸ List.mem_map_of_mem hsettled) hopen
  · exact preferring_pop hpop hb hbkept (hbcost.trans hcost)

theorem Closing.not_settled (hclosing : Closing S starts kept)
    (h : ∀ a ∈ settled, a ∈ kept) {a : A} (ha : a ∈ kept) (hopen : a ∉ settled) :
    S.place a ∉ settled.map S.place := by
  intro hmem
  obtain ⟨c, hc, hplace⟩ := List.mem_map.1 hmem
  exact hopen (hclosing.one c (h c hc) a ha hplace ▸ hc)

theorem Follows.skip (h : Follows S starts kept settled q) (hclosing : Closing S starts kept)
    {pq : PriorityQueue A fun a b => S.cost b < S.cost a} {a : A} {r : List A}
    (hpop : pq.pop q = some (a, r)) (hclosed : S.place a ∈ settled.map S.place) :
    Follows S starts kept settled r where
  chosen := h.chosen
  pushed x hx := h.pushed x ((pq.mem_iff hpop x).2 (Or.inr hx))
  waiting x hx hopen hpushed := by
    rcases (pq.mem_iff hpop x).1 (h.waiting x hx hopen hpushed) with rfl | hmem
    · exact absurd hclosed (hclosing.not_settled h.chosen hx hopen)
    · exact hmem

variable [DecidableEq V]

theorem Follows.expand (h : Follows S starts kept settled q) (hclosing : Closing S starts kept)
    {pq : PriorityQueue A fun a b => S.cost b < S.cost a} {a : A} {r : List A}
    (hpop : pq.pop q = some (a, r)) (ha : a ∈ kept)
    (hnone : (expand S goal (S.place a :: settled.map S.place) (S.next a)).1 = none) :
    Follows S starts kept (a :: settled)
      (r ++ (ClosingSearch.expand S goal (S.place a :: settled.map S.place) (S.next a)).2) := by
  have hsettled : ∀ x ∈ a :: settled, x ∈ kept := fun x hx => by
    rcases List.mem_cons.1 hx with rfl | hx
    · exact ha
    · exact h.chosen x hx
  refine ⟨hsettled, fun x hx => ?_, fun x hx hopen hpushed => ?_⟩
  · rcases List.mem_append.1 hx with hx | hx
    · exact (h.pushed x ((pq.mem_iff hpop x).2 (Or.inr hx))).mono
    · exact Or.inr ⟨a, List.mem_cons_self, ((expand_pushed S goal _ _).2 x hx).1⟩
  · have hwaits : Pushed S starts settled x ∨ x ∈ S.next a := by
      rcases hpushed with hstart | ⟨c, hc, hnext⟩
      · exact Or.inl (Or.inl hstart)
      · rcases List.mem_cons.1 hc with rfl | hc
        · exact Or.inr hnext
        · exact Or.inl (Or.inr ⟨c, hc, hnext⟩)
    rcases hwaits with hold | hnext
    · have hxq := h.waiting x hx (fun hmem => hopen (List.mem_cons_of_mem _ hmem)) hold
      rcases (pq.mem_iff hpop x).1 hxq with rfl | hmem
      · exact absurd List.mem_cons_self hopen
      · exact List.mem_append_left _ hmem
    · have hplace := hclosing.not_settled hsettled hx hopen
      rw [List.map_cons] at hplace
      exact List.mem_append_right _ ((expand_none hnone hnext).resolve_left hplace)

/-- With the entries of a closing first, only these are expanded. -/
theorem loop_preferring (hclosing : Closing S starts kept)
    (hmono : ∀ a, ∀ b ∈ S.next a, S.cost a ≤ S.cost b)
    (hfloor : ∀ a, ∀ b ∈ S.next a, S.cost b ≤ floor)
    (hquiet : ∀ a ∈ kept, goal (S.place a) → floor < S.cost a) (k : ℕ)
    (h : Follows S starts kept settled q) :
    loop S goal (preferring S kept) k (settled.map S.place) q = none := by
  induction k generalizing settled q with
  | zero => rfl
  | succ k ih =>
    rw [loop]
    split
    · rfl
    · rename_i a r hpop
      split_ifs with hclosed
      · exact ih (h.skip hclosing hpop hclosed)
      · have ha := h.popped hclosing hmono hpop hclosed
        have hnone : (expand S goal (S.place a :: settled.map S.place) (S.next a)).1 = none := by
          refine expand_eq_none fun b hb => Or.inr ?_
          obtain ⟨c, hc, hplace, hcost⟩ := hclosing.next a ha b hb
          by_contra hgoal
          rw [Bool.not_eq_false] at hgoal
          exact absurd (hcost.trans (hfloor a b hb)) (not_le_of_gt (hquiet c hc (hplace ▸ hgoal)))
        have hstep := h.expand hclosing hpop ha hnone
        split
        · rename_i v new hexpand
          exact absurd (congrArg Prod.fst hexpand) (by simp [hnone])
        · rename_i new hexpand
          have hnew : new = _ := (congrArg Prod.snd hexpand).symm
          rw [← hnew] at hstep
          exact ih hstep

end preferring

section complete
variable {A V L : Type*} [DecidableEq V] [LinearOrder L] {S : Space A V L} {goal : V → Bool}
  {starts : List A} {floor : L}

/-- Something is found in whichever order equally cheap entries are popped if every closing has an
entry at a goal that is cheap enough, and only then. -/
theorem loop_isSome_iff {room : List V → ℕ} (hmono : ∀ a, ∀ b ∈ S.next a, S.cost a ≤ S.cost b)
    (hfloor : ∀ a, ∀ b ∈ S.next a, S.cost b ≤ floor)
    (hroom : ∀ a closed, S.place a ∉ closed →
      room (S.place a :: closed) + (S.next a).length ≤ room closed)
    (hstarts : ∀ s ∈ starts, goal (S.place s) → floor < S.cost s) {k : ℕ}
    (hk : starts.length + room [] < k) :
    (∀ pq, (loop S goal pq k [] starts).isSome) ↔
      ∀ kept, Closing S starts kept → ∃ a ∈ kept, S.cost a ≤ floor ∧ goal (S.place a) := by
  constructor
  · intro hfound kept hclosing
    by_contra hquiet
    have hnone := loop_preferring hclosing hmono hfloor
      (fun a ha hgoal => not_le.1 fun hle => hquiet ⟨a, ha, hle, hgoal⟩) k Follows.start
    have hsome := hfound (preferring S kept)
    rw [List.map_nil] at hnone
    rw [hnone] at hsome
    exact absurd hsome Bool.false_ne_true
  · intro hseen pq
    by_contra hnone
    rw [Bool.not_eq_true, Option.isSome_eq_false_iff, Option.isNone_iff_eq_none] at hnone
    have hbudget : starts.length + room (([] : List A).map S.place) < k := hk
    obtain ⟨settled, h⟩ := loop_explored hmono hroom hbudget (Explored.start hstarts) hnone
    obtain ⟨a, ha, hcost, hgoal⟩ := hseen _ h.closing
    exact absurd hcost (not_le_of_gt (h.quiet a (List.mem_append_left _ ha) hgoal))

end complete

end Pfaedle.ClosingSearch

import Mathlib.Data.List.Count
import Mathlib.Logic.Relation

set_option autoImplicit false

/-!
# Searches that mark what they pop

A loop over a stack takes the top element, changes its state and pushes other elements. If it
marks the elements that it pops and pushes neighbours without a mark, it marks what can be reached.
An element may be on the stack many times and may be popped again after it has been marked.
-/
namespace Pfaedle.StackSearch
variable {σ α : Type*}

/-- The state and the stack that are left when the stack is empty or `k` elements are popped. -/
def run (step : σ → α → σ × List α) : ℕ → σ → List α → σ × List α
  | 0, s, stack => (s, stack)
  | _ + 1, s, [] => (s, [])
  | k + 1, s, a :: stack => run step k (step s a).1 ((step s a).2 ++ stack)

variable {step : σ → α → σ × List α}

variable (step) in
theorem run_inv (inv : σ → List α → Prop)
    (hstep : ∀ s a stack, inv s (a :: stack) → inv (step s a).1 ((step s a).2 ++ stack)) (k : ℕ)
    (s : σ) (stack : List α) (h : inv s stack) :
    inv (run step k s stack).1 (run step k s stack).2 := by
  induction k generalizing s stack with
  | zero => exact h
  | succ k ih =>
    cases stack with
    | nil => exact h
    | cons a stack => exact ih _ _ (hstep s a stack h)

/-- A loop whose rounds pay out of a potential comes to an end. -/
theorem run_empty (inv : σ → List α → Prop) (potential : σ → List α → ℕ)
    (hstep : ∀ s a stack, inv s (a :: stack) → inv (step s a).1 ((step s a).2 ++ stack) ∧
      potential (step s a).1 ((step s a).2 ++ stack) < potential s (a :: stack)) (k : ℕ)
    {s : σ} {stack : List α} (h : inv s stack) (hk : potential s stack ≤ k) :
    (run step k s stack).2 = [] := by
  induction k generalizing s stack with
  | zero =>
    cases stack with
    | nil => rfl
    | cons a stack =>
      have hless := (hstep s a stack h).2
      omega
  | succ k ih =>
    cases stack with
    | nil => rfl
    | cons a stack =>
      obtain ⟨hnext, hless⟩ := hstep s a stack h
      exact ih hnext (by omega)

/-- A step marks its element and pushes the neighbours that have no mark then. -/
structure Marks (step : σ → α → σ × List α) (marked : σ → α → Bool) (adj : α → α → Prop)
    (fan : ℕ) : Prop where
  mark : ∀ s a v, marked (step s a).1 v = true ↔ marked s v = true ∨ v = a
  push : ∀ s a v, v ∈ (step s a).2 ↔ adj a v ∧ marked (step s a).1 v = false
  fan : ∀ s a, (step s a).2.length ≤ fan

section marks
variable {marked : σ → α → Bool} {adj : α → α → Prop} {fan : ℕ}

/-- An unmarked element pays for what it pushes, and so does a round that pushes on behalf of an
    element that was marked before, since it leaves an unmarked element on top. -/
def potential (marked : σ → α → Bool) (fan : ℕ) (all : List α) (s : σ) (stack : List α) : ℕ :=
  stack.length + 2 * fan * all.countP (fun v => !marked s v) +
    if stack.head?.any (marked s) then fan else 0

variable (marked fan) in
theorem potential_le (all : List α) (s : σ) (stack : List α) :
    potential marked fan all s stack ≤
      stack.length + 2 * fan * all.countP (fun v => !marked s v) + fan := by
  unfold potential
  split
  · exact Nat.le_refl _
  · exact Nat.le_add_right _ _

theorem Marks.countP_marked (h : Marks step marked adj fan) (all : List α) (s : σ) {a : α}
    (ha : marked s a = true) :
    all.countP (fun v => !marked (step s a).1 v) = all.countP fun v => !marked s v := by
  refine List.countP_congr fun v _ => ?_
  rw [Bool.not_eq_true', Bool.not_eq_true', ← Bool.not_eq_true, ← Bool.not_eq_true, h.mark]
  constructor
  · exact fun hn hv => hn (Or.inl hv)
  · intro hn hv
    cases hv with
    | inl hv => exact hn hv
    | inr hv => exact hn (hv ▸ ha)

theorem Marks.countP_unmarked (h : Marks step marked adj fan) {all : List α} (s : σ) {a : α}
    (ha : marked s a = false) (hmem : a ∈ all) :
    all.countP (fun v => !marked (step s a).1 v) + 1 ≤
      all.countP fun v => !marked s v := by
  induction all with
  | nil => exact absurd hmem List.not_mem_nil
  | cons v all ih =>
    have hle : (all.countP fun v => !marked (step s a).1 v) ≤
        all.countP fun v => !marked s v := by
      refine List.countP_mono_left fun v _ hv => ?_
      rw [Bool.not_eq_true', ← Bool.not_eq_true, h.mark] at hv
      rw [Bool.not_eq_true', ← Bool.not_eq_true]
      exact fun hs => hv (Or.inl hs)
    rw [List.countP_cons, List.countP_cons]
    by_cases hva : v = a
    · subst hva
      have hnow := (h.mark s v v).2 (Or.inr rfl)
      simp only [hnow, ha, Bool.not_true, Bool.not_false, Bool.false_eq_true, if_false, if_true]
      omega
    · have hrest := ih ((List.mem_cons.1 hmem).resolve_left fun heq => hva heq.symm)
      have hsame : marked (step s a).1 v = marked s v := by
        rw [Bool.eq_iff_iff, h.mark]
        exact or_iff_left hva
      rw [hsame]
      omega

theorem Marks.pays (h : Marks step marked adj fan) {all : List α} (s : σ) {a : α}
    (stack : List α) (hmem : a ∈ all) :
    potential marked fan all (step s a).1 ((step s a).2 ++ stack) <
      potential marked fan all s (a :: stack) := by
  have hfan := h.fan s a
  have hle := potential_le marked fan all (step s a).1
    ((step s a).2 ++ stack)
  rw [List.length_append] at hle
  cases ha : marked s a with
  | false =>
    have hcount := Nat.mul_le_mul_left (2 * fan) (h.countP_unmarked s ha hmem)
    rw [Nat.mul_add, Nat.mul_one] at hcount
    refine Nat.lt_of_le_of_lt hle ?_
    unfold potential
    rw [List.length_cons]
    omega
  | true =>
    have hcount := h.countP_marked all s ha
    have hdue : potential marked fan all s (a :: stack) =
        stack.length + 1 + 2 * fan * all.countP (fun v => !marked s v) + fan := by
      rw [potential, List.head?_cons, Option.any_some, ha, if_pos rfl, List.length_cons]
    rw [hdue]
    rw [hcount] at hle
    cases hpush : (step s a).2 with
    | nil =>
      rw [hpush] at hle
      rw [List.length_nil] at hle
      omega
    | cons b pushed =>
      -- an unmarked element is on top
      have hb := ((h.push s a b).1 (by rw [hpush]; exact List.mem_cons_self)).2
      rw [hpush, List.length_cons] at hfan
      rw [List.cons_append, potential, List.head?_cons, Option.any_some, hb,
        if_neg Bool.false_ne_true, hcount, List.length_cons, List.length_append]
      omega

theorem Marks.run_ends (h : Marks step marked adj fan) {all : List α} {s : σ} {a : α} (ha : a ∈ all)
    (hadj : ∀ u v, u ∈ all → adj u v → v ∈ all) {k : ℕ}
    (hk : 1 + 2 * fan * all.length + fan ≤ k) : (run step k s [a]).2 = [] := by
  refine run_empty (fun _ stack => ∀ v ∈ stack, v ∈ all) (potential marked fan all)
    (fun s b stack hin => ⟨fun v hv => ?_, h.pays s stack (hin b List.mem_cons_self)⟩) k
    (fun v hv => List.mem_singleton.1 hv ▸ ha) ?_
  · cases List.mem_append.1 hv with
    | inl hv => exact hadj b v (hin b List.mem_cons_self) ((h.push s b v).1 hv).1
    | inr hv => exact hin v (List.mem_cons_of_mem _ hv)
  · have hle := potential_le marked fan all s [a]
    have hcount := Nat.mul_le_mul_left (2 * fan)
      (List.countP_le_length (l := all) (p := fun v => !marked s v))
    rw [List.length_singleton] at hle
    omega

theorem Marks.run_sound (h : Marks step marked adj fan) (k : ℕ) (s : σ) (a : α) :
    ∀ v, marked (run step k s [a]).1 v = true →
      marked s v = true ∨ Relation.ReflTransGen adj a v := by
  refine (run_inv step (fun s' stack =>
      (∀ v, marked s' v = true → marked s v = true ∨ Relation.ReflTransGen adj a v) ∧
        ∀ v ∈ stack, Relation.ReflTransGen adj a v)
    (fun s' b stack hinv => ?_) k s [a]
    ⟨fun v hv => Or.inl hv, fun v hv => List.mem_singleton.1 hv ▸ Relation.ReflTransGen.refl⟩).1
  obtain ⟨hmarked, hstack⟩ := hinv
  have hb := hstack b List.mem_cons_self
  refine ⟨fun v hv => ?_, fun v hv => ?_⟩
  · cases (h.mark s' b v).1 hv with
    | inl hv => exact hmarked v hv
    | inr hv => exact Or.inr (hv ▸ hb)
  · cases List.mem_append.1 hv with
    | inl hv => exact hb.tail ((h.push s' b v).1 hv).1
    | inr hv => exact hstack v (List.mem_cons_of_mem _ hv)

/-- The marks are kept, and lead to marked elements or to the stack. -/
theorem Marks.run_closed (h : Marks step marked adj fan) {s : σ} {a : α}
    (hclosed : ∀ u v, marked s u = true → adj u v → marked s v = true) (k : ℕ) :
    (∀ v, marked s v = true → marked (run step k s [a]).1 v = true) ∧
      (marked (run step k s [a]).1 a = true ∨ a ∈ (run step k s [a]).2) ∧
      ∀ u v, marked (run step k s [a]).1 u = true → adj u v →
        marked (run step k s [a]).1 v = true ∨ v ∈ (run step k s [a]).2 := by
  refine run_inv step (fun s' stack =>
      (∀ v, marked s v = true → marked s' v = true) ∧
        (marked s' a = true ∨ a ∈ stack) ∧
        ∀ u v, marked s' u = true → adj u v → marked s' v = true ∨ v ∈ stack)
    (fun s' b stack hinv => ?_) k s [a]
    ⟨fun _ hv => hv, Or.inr (List.mem_singleton_self a),
      fun u v hu hv => Or.inl (hclosed u v hu hv)⟩
  obtain ⟨hold, hstart, hall⟩ := hinv
  have hb := (h.mark s' b b).2 (Or.inr rfl)
  have hkeep : ∀ v, marked s' v = true → marked (step s' b).1 v = true :=
    fun v hv => (h.mark s' b v).2 (Or.inl hv)
  have hpushed : ∀ v, v ∈ b :: stack →
      marked (step s' b).1 v = true ∨ v ∈ (step s' b).2 ++ stack := by
    intro v hv
    cases List.mem_cons.1 hv with
    | inl heq => exact Or.inl (heq ▸ hb)
    | inr hv => exact Or.inr (List.mem_append_right _ hv)
  refine ⟨fun v hv => hkeep v (hold v hv), ?_, fun u v hu huv => ?_⟩
  · exact hstart.elim (fun ha => Or.inl (hkeep a ha)) (hpushed a)
  · cases (h.mark s' b u).1 hu with
    | inl hu => exact (hall u v hu huv).elim (fun hv => Or.inl (hkeep v hv)) (hpushed v)
    | inr hub =>
      subst hub
      cases hv : marked (step s' u).1 v with
      | true => exact Or.inl rfl
      | false => exact Or.inr (List.mem_append_left _ ((h.push s' u v).2 ⟨huv, hv⟩))

/-- What is marked after a search from `a`, when the marks from before are closed. -/
theorem Marks.run_marked (h : Marks step marked adj fan) {all : List α} {s : σ} {a : α}
    (hclosed : ∀ u v, marked s u = true → adj u v → marked s v = true) (ha : a ∈ all)
    (hadj : ∀ u v, u ∈ all → adj u v → v ∈ all) {k : ℕ}
    (hk : 1 + 2 * fan * all.length + fan ≤ k) :
    (run step k s [a]).2 = [] ∧ ∀ v, marked (run step k s [a]).1 v = true ↔
      marked s v = true ∨ Relation.ReflTransGen adj a v := by
  have hempty := h.run_ends (s := s) ha hadj hk
  obtain ⟨hold, hstart, hall⟩ := h.run_closed (a := a) hclosed k
  rw [hempty] at hstart hall
  have hstart := hstart.resolve_right List.not_mem_nil
  refine ⟨hempty, fun v => ⟨h.run_sound k s a v, fun hv => ?_⟩⟩
  cases hv with
  | inl hv => exact hold v hv
  | inr hv =>
    induction hv with
    | refl => exact hstart
    | tail _ hstep ih => exact (hall _ _ ih hstep).resolve_right List.not_mem_nil

end marks

end Pfaedle.StackSearch

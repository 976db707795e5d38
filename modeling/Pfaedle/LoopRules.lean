import Mathlib.Data.List.Basic

set_option autoImplicit false

/-!
# Rules for loops

A loop that counts from `0` is a fold over `List.range`. An invariant indexed by the counter is
carried from the first round to the last. A loop over a list carries what every round keeps, and a
test on the rounds is a test on the states that they start from.
-/
namespace Pfaedle.LoopRules
variable {σ : Type*}

theorem foldl_range (f : σ → ℕ → σ) (inv : ℕ → σ → Prop) (n : ℕ) (init : σ)
    (hinit : inv 0 init) (hstep : ∀ k s, k < n → inv k s → inv (k + 1) (f s k)) :
    inv n ((List.range n).foldl f init) := by
  induction n with
  | zero => exact hinit
  | succ n ih =>
    rw [List.range_succ, List.foldl_append]
    exact hstep n _ (Nat.lt_succ_self n) (ih fun k s hk => hstep k s (Nat.lt_succ_of_lt hk))

theorem foldlM_range (f : σ → ℕ → Option σ) (g : ℕ → ℕ) (inv : ℕ → σ → Prop) (n : ℕ) (init : σ)
    (hinit : inv 0 init)
    (hstep : ∀ k s, k < n → inv k s → ∃ s', f s (g k) = some s' ∧ inv (k + 1) s') :
    ∃ s, ((List.range n).map g).foldlM f init = some s ∧ inv n s := by
  induction n with
  | zero => exact ⟨init, rfl, hinit⟩
  | succ n ih =>
    obtain ⟨s, hs, hinv⟩ := ih fun k s hk => hstep k s (Nat.lt_succ_of_lt hk)
    obtain ⟨s', hs', hinv'⟩ := hstep n s (Nat.lt_succ_self n) hinv
    refine ⟨s', ?_, hinv'⟩
    rw [List.range_succ, List.map_append, List.foldlM_append, hs]
    change (List.foldlM f s [g n] : Option σ) = some s'
    rw [List.foldlM_cons, hs']
    rfl

theorem foldlM_some {α : Type*} (f : σ → α → Option σ) (g : σ → α → σ) (inv : σ → Prop)
    (xs : List α) {s : σ} (hinv : inv s)
    (hstep : ∀ s, ∀ x ∈ xs, inv s → f s x = some (g s x) ∧ inv (g s x)) :
    xs.foldlM f s = some (xs.foldl g s) := by
  induction xs generalizing s with
  | nil => rfl
  | cons x xs ih =>
    have hround := hstep s x List.mem_cons_self hinv
    rw [List.foldlM_cons, hround.1]
    exact ih hround.2 fun s y hy => hstep s y (List.mem_cons_of_mem _ hy)

theorem mapM_some {α β : Type*} {f : α → Option β} {g : α → β} {xs : List α}
    (h : ∀ x ∈ xs, f x = some (g x)) : xs.mapM f = some (xs.map g) := by
  induction xs with
  | nil => rfl
  | cons x xs ih =>
    rw [List.mapM_cons, h x List.mem_cons_self, ih fun y hy => h y (List.mem_cons_of_mem _ hy)]
    rfl

theorem foldlM_filter {α : Type*} {f : σ → α → Option σ} {ok : α → Prop} {p : α → Bool}
    {g : σ → α → σ} (hok : ∀ s x, ok x → f s x = some (if p x then g s x else s))
    (hnot : ∀ s x, ¬ ok x → f s x = none) (xs : List α) (s s' : σ) :
    xs.foldlM f s = some s' ↔ (∀ x ∈ xs, ok x) ∧ s' = (xs.filter p).foldl g s := by
  induction xs generalizing s with
  | nil => simp [eq_comm]
  | cons x xs ih =>
    rw [List.foldlM_cons, List.forall_mem_cons]
    by_cases hx : ok x
    · rw [hok s x hx]
      change xs.foldlM f (if p x then g s x else s) = some s' ↔ _
      rw [ih, List.filter_cons]
      cases p x with
      | false => simp [hx]
      | true => simp [hx]
    · rw [hnot s x hx]
      simp [hx]

/-- A loop that may fail, with what it has to meet after the elements that it has seen. -/
theorem foldlM_prefix {α : Type*} {f : σ → α → Option σ} (rel : σ → List α → Prop)
    {ok : List α → α → Prop} (hok : ∀ s seen x, rel s seen → ((f s x).isSome ↔ ok seen x))
    (hrel : ∀ s seen x s', rel s seen → f s x = some s' → rel s' (seen ++ [x])) (xs : List α)
    {s : σ} {seen : List α} (h : rel s seen) :
    ((xs.foldlM f s).isSome ↔ ∀ l x r, xs = l ++ x :: r → ok (seen ++ l) x) ∧
      ∀ s', xs.foldlM f s = some s' → rel s' (seen ++ xs) := by
  induction xs generalizing s seen with
  | nil =>
    constructor
    · simp
    · intro s' hs'
      rw [List.append_nil]
      exact Option.some.inj hs' ▸ h
  | cons x xs ih =>
    have hx := hok s seen x h
    rw [List.foldlM_cons]
    cases hf : f s x with
    | none =>
      rw [hf] at hx
      constructor
      · refine ⟨fun hsome => (by cases hsome), fun hmeets => hx.2 ?_⟩
        have hfirst := hmeets [] x xs rfl
        rwa [List.append_nil] at hfirst
      · exact fun s' hs' => (by cases hs')
    | some s₁ =>
      rw [hf] at hx
      have hrest := ih (hrel s seen x s₁ h hf)
      simp only [List.append_assoc, List.singleton_append] at hrest
      refine ⟨hrest.1.trans ⟨fun hmeets l y r hsplit => ?_, fun hmeets l y r hsplit => ?_⟩, hrest.2⟩
      · cases l with
        | nil =>
          cases hsplit
          rw [List.append_nil]
          exact hx.1 rfl
        | cons z l =>
          cases hsplit
          exact hmeets l y r rfl
      · exact hmeets (x :: l) y r (by rw [hsplit]; rfl)

/-- A search that goes on after the elements with `go` finds every element that it looks at `ok`. -/
def SearchMeets {α : Type*} (go ok : α → Prop) (xs : List α) : Prop :=
  ∀ l x r, xs = l ++ x :: r → (∀ y ∈ l, go y) → ok x

theorem SearchMeets.nil {α : Type*} {go ok : α → Prop} : SearchMeets go ok [] :=
  fun _ _ _ h _ => absurd h.symm (List.append_ne_nil_of_right_ne_nil _ (List.cons_ne_nil _ _))

theorem searchMeets_cons {α : Type*} {go ok : α → Prop} {x : α} {xs : List α} :
    SearchMeets go ok (x :: xs) ↔ ok x ∧ (go x → SearchMeets go ok xs) := by
  constructor
  · intro h
    refine ⟨h [] x xs rfl fun y hy => absurd hy List.not_mem_nil, fun hgo l y r hsplit hl => ?_⟩
    exact h (x :: l) y r (by rw [hsplit]; rfl) (List.forall_mem_cons.2 ⟨hgo, hl⟩)
  · intro h l y r hsplit hl
    cases l with
    | nil =>
      cases hsplit
      exact h.1
    | cons z l =>
      cases hsplit
      exact h.2 (hl x List.mem_cons_self) l y r rfl fun z hz => hl z (List.mem_cons_of_mem _ hz)

theorem searchMeets_congr {α : Type*} {go ok ok' : α → Prop} {xs : List α}
    (h : ∀ x ∈ xs, ok x ↔ ok' x) : SearchMeets go ok xs ↔ SearchMeets go ok' xs := by
  have hmem : ∀ {l : List α} {x r}, xs = l ++ x :: r → x ∈ xs := fun hsplit =>
    hsplit ▸ List.mem_append_right _ List.mem_cons_self
  constructor
  · exact fun hmeets l x r hsplit hl => (h x (hmem hsplit)).1 (hmeets l x r hsplit hl)
  · exact fun hmeets l x r hsplit hl => (h x (hmem hsplit)).2 (hmeets l x r hsplit hl)

section meets
variable {τ α : Type*}

/-- Every round of a fold starts from a state that is `ok` for it. -/
def FoldMeets (f : σ → α → σ) (ok : σ → α → Prop) : σ → List α → Prop
  | _, [] => True
  | s, x :: xs => ok s x ∧ FoldMeets f ok (f s x) xs

instance (f : σ → α → σ) (ok : σ → α → Prop) [∀ s x, Decidable (ok s x)] :
    ∀ s xs, Decidable (FoldMeets f ok s xs)
  | _, [] => inferInstanceAs (Decidable True)
  | s, x :: xs =>
    have := instDecidableFoldMeets f ok (f s x) xs
    inferInstanceAs (Decidable (_ ∧ _))

theorem foldl_simulation (f : σ → α → σ) (g : τ → α → τ) (ok : σ → α → Prop) (rel : σ → τ → Prop)
    (xs : List α) {s : σ} {t : τ} (hok : FoldMeets f ok s xs) (hrel : rel s t)
    (hstep : ∀ s t, ∀ x ∈ xs, ok s x → rel s t → rel (f s x) (g t x)) :
    rel (xs.foldl f s) (xs.foldl g t) := by
  induction xs generalizing s t with
  | nil => exact hrel
  | cons x xs ih =>
    have hnext := hstep s t x List.mem_cons_self hok.1 hrel
    exact ih hok.2 hnext fun s t y hy => hstep s t y (List.mem_cons_of_mem _ hy)

theorem foldl_inv (f : σ → α → σ) (inv : σ → Prop) (xs : List α) {s : σ} (hinv : inv s)
    (hstep : ∀ s, ∀ x ∈ xs, inv s → inv (f s x)) : inv (xs.foldl f s) := by
  induction xs generalizing s with
  | nil => exact hinv
  | cons x xs ih =>
    exact ih (hstep s x List.mem_cons_self hinv) fun s y hy => hstep s y (List.mem_cons_of_mem _ hy)

theorem foldl_each (f : σ → α → σ) (inv : σ → Prop) (got : α → σ → Prop) (xs : List α) {s : σ}
    (hinv : inv s) (hstep : ∀ s, ∀ x ∈ xs, inv s → inv (f s x))
    (hbring : ∀ s, ∀ x ∈ xs, inv s → got x (f s x))
    (hkeep : ∀ s, ∀ x ∈ xs, ∀ y, inv s → got y s → got y (f s x)) :
    ∀ x ∈ xs, got x (xs.foldl f s) := by
  induction xs generalizing s with
  | nil => exact fun x hx => absurd hx List.not_mem_nil
  | cons x xs ih =>
    have hmem : ∀ {y}, y ∈ xs → y ∈ x :: xs := fun hy => List.mem_cons_of_mem x hy
    have hnext := hstep s x List.mem_cons_self hinv
    intro z hz
    cases List.mem_cons.1 hz with
    | inl heq =>
      have hstays := foldl_inv f (fun s => inv s ∧ got x s) xs
        ⟨hnext, hbring s x List.mem_cons_self hinv⟩
        fun s y hy h => ⟨hstep s y (hmem hy) h.1, hkeep s y (hmem hy) x h.1 h.2⟩
      exact heq ▸ hstays.2
    | inr hz =>
      exact ih hnext (fun s y hy => hstep s y (hmem hy)) (fun s y hy => hbring s y (hmem hy))
        (fun s y hy => hkeep s y (hmem hy)) z hz

theorem FoldMeets.foldl_inv {f : σ → α → σ} {ok : σ → α → Prop} (inv : σ → Prop) {xs : List α}
    {s : σ} (hok : FoldMeets f ok s xs) (hinv : inv s)
    (hstep : ∀ s, ∀ x ∈ xs, ok s x → inv s → inv (f s x)) : inv (xs.foldl f s) := by
  induction xs generalizing s with
  | nil => exact hinv
  | cons x xs ih =>
    exact ih hok.2 (hstep s x List.mem_cons_self hok.1 hinv)
      fun s y hy => hstep s y (List.mem_cons_of_mem _ hy)

theorem foldl_meets (f : σ → α → σ) (ok : σ → α → Prop) (inv : σ → Prop) (xs : List α) {s : σ}
    (hinv : inv s) (hstep : ∀ s, ∀ x ∈ xs, inv s → inv (f s x) ∧ ok s x) :
    inv (xs.foldl f s) ∧ FoldMeets f ok s xs := by
  induction xs generalizing s with
  | nil => exact ⟨hinv, trivial⟩
  | cons x xs ih =>
    obtain ⟨hnext, hok⟩ := hstep s x List.mem_cons_self hinv
    obtain ⟨hlast, hrest⟩ := ih hnext fun s y hy => hstep s y (List.mem_cons_of_mem _ hy)
    exact ⟨hlast, hok, hrest⟩

theorem FoldMeets.meets {f : σ → α → σ} {ok ok' : σ → α → Prop} (inv : σ → Prop) {xs : List α}
    {s : σ} (hok : FoldMeets f ok s xs) (hinv : inv s)
    (hstep : ∀ s, ∀ x ∈ xs, ok s x → inv s → inv (f s x) ∧ ok' s x) :
    inv (xs.foldl f s) ∧ FoldMeets f ok' s xs := by
  induction xs generalizing s with
  | nil => exact ⟨hinv, trivial⟩
  | cons x xs ih =>
    obtain ⟨hnext, hok'⟩ := hstep s x List.mem_cons_self hok.1 hinv
    obtain ⟨hlast, hrest⟩ := ih hok.2 hnext fun s y hy => hstep s y (List.mem_cons_of_mem _ hy)
    exact ⟨hlast, hok', hrest⟩

/-- A value that the loop is to start every round with stays if no round but the last changes it. -/
theorem foldMeets_view_iff {β : Type*} {f : σ → α → σ} {view : σ → β} {stays : σ → α → Prop}
    (hstep : ∀ s x, view (f s x) = view s ↔ stays s x) {own : β} (xs : List α) {s : σ}
    (hs : view s = own) :
    FoldMeets f (fun s _ => view s = own) s xs ↔ FoldMeets f stays s xs.dropLast := by
  induction xs generalizing s with
  | nil => exact Iff.rfl
  | cons x xs ih =>
    cases xs with
    | nil => exact ⟨fun _ => trivial, fun _ => ⟨hs, trivial⟩⟩
    | cons y xs =>
      rw [List.dropLast_cons_cons]
      constructor
      · rintro ⟨-, hrest⟩
        have hx : view (f s x) = own := hrest.1
        exact ⟨(hstep s x).1 (hx.trans hs.symm), (ih hx).1 hrest⟩
      · rintro ⟨hx, hrest⟩
        have hnext : view (f s x) = own := ((hstep s x).2 hx).trans hs
        exact ⟨hs, (ih hnext).2 hrest⟩

theorem foldMeets_view_end_iff {β : Type*} {f : σ → α → σ} {view : σ → β}
    {stays : σ → α → Prop} (hstep : ∀ s x, view (f s x) = view s ↔ stays s x) {own : β}
    (xs : List α) {s : σ} (hs : view s = own) :
    FoldMeets f (fun s _ => view s = own) s xs ∧ view (xs.foldl f s) = own ↔
      FoldMeets f stays s xs := by
  induction xs generalizing s with
  | nil => exact ⟨fun _ => trivial, fun _ => ⟨trivial, hs⟩⟩
  | cons x xs ih =>
    rw [List.foldl_cons]
    constructor
    · rintro ⟨⟨-, hrest⟩, hend⟩
      have hx : view (f s x) = own := by
        cases xs with
        | nil => exact hend
        | cons y xs => exact hrest.1
      exact ⟨(hstep s x).1 (hx.trans hs.symm), (ih hx).1 ⟨hrest, hend⟩⟩
    · rintro ⟨hx, hrest⟩
      have hnext : view (f s x) = own := ((hstep s x).2 hx).trans hs
      obtain ⟨hmeets, hend⟩ := (ih hnext).2 hrest
      exact ⟨⟨hs, hmeets⟩, hend⟩

/-- What a round leaves exactly if it was there before and the round passes the test. -/
theorem foldl_good_iff {f : σ → α → σ} {ok : σ → α → Prop} (good : σ → Prop)
    (hstep : ∀ s x, good (f s x) ↔ ok s x ∧ good s) (xs : List α) (s : σ) :
    good (xs.foldl f s) ↔ FoldMeets f ok s xs ∧ good s := by
  induction xs generalizing s with
  | nil => exact (and_iff_right trivial).symm
  | cons x xs ih => rw [List.foldl_cons, ih, hstep, FoldMeets, and_assoc, and_left_comm]

/-- What comes with a round that fails the test, and does not go away. -/
theorem foldl_of_not_foldMeets {f : σ → α → σ} {ok : σ → α → Prop} (inv bad : σ → Prop)
    {xs : List α} {s : σ} (hnot : ¬ FoldMeets f ok s xs) (hinv : inv s)
    (hstep : ∀ s, ∀ x ∈ xs, inv s → inv (f s x))
    (hstay : ∀ s, ∀ x ∈ xs, inv s → bad s → bad (f s x))
    (hbad : ∀ s, ∀ x ∈ xs, inv s → ¬ ok s x → bad (f s x)) : bad (xs.foldl f s) := by
  induction xs generalizing s with
  | nil => exact absurd trivial hnot
  | cons x xs ih =>
    have hmem : ∀ {y}, y ∈ xs → y ∈ x :: xs := fun hy => List.mem_cons_of_mem x hy
    by_cases hok : ok s x
    · exact ih (fun h => hnot ⟨hok, h⟩) (hstep s x List.mem_cons_self hinv)
        (fun s y hy => hstep s y (hmem hy)) (fun s y hy => hstay s y (hmem hy))
        fun s y hy => hbad s y (hmem hy)
    · have hrest := LoopRules.foldl_inv f (fun s => inv s ∧ bad s) xs
        ⟨hstep s x List.mem_cons_self hinv, hbad s x List.mem_cons_self hinv hok⟩
        fun s y hy h => ⟨hstep s y (hmem hy) h.1, hstay s y (hmem hy) h.1 h.2⟩
      exact hrest.2

end meets

end Pfaedle.LoopRules

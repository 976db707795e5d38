import Pfaedle.CsvText

set_option autoImplicit false

/-!
# Reading back a row that was written

A row of cells is written by `write_joined` and read by `split_record`. Wrapped cells cannot shift
the columns after them; cells that are written as they are can.
-/
namespace Pfaedle.Gtfs

section framing

/-- Whether the end of `e` is inside quotes, when its start is inside quotes as `inside` says;
`none` if there is a separator outside quotes. -/
def framing : Bool → Text → Option Bool
  | inside, [] => some inside
  | inside, c :: cs =>
    if c = quote then framing (!inside) cs
    else if c = csvSeparator ∧ inside = false then none
    else framing inside cs

def scan (s : SplitState) (text : Text) : SplitState := text.foldl splitStep s

theorem framing_append (inside : Bool) (e r : Text) :
    framing inside (e ++ r) = (framing inside e).bind fun b => framing b r := by
  induction e generalizing inside with
  | nil => rfl
  | cons c e ih =>
    rw [List.cons_append, framing, framing]
    split_ifs
    · exact ih _
    · rfl
    · exact ih _

theorem framing_eq_some_of_noQuote {e : Text} (hquote : quote ∉ e) (hsep : csvSeparator ∉ e)
    (inside : Bool) : framing inside e = some inside := by
  induction e with
  | nil => rfl
  | cons c e ih =>
    rw [List.mem_cons, not_or] at hquote hsep
    rw [framing, if_neg (Ne.symm hquote.1), if_neg fun h => hsep.1 h.1.symm, ih hquote.2 hsep.2]

theorem framing_quoted (t : Text) :
    framing true (t.flatMap fun c => if c = quote then [quote, c] else [c]) = some true := by
  induction t with
  | nil => rfl
  | cons c t ih =>
    rw [List.flatMap_cons, framing_append]
    have hc : framing true (if c = quote then [quote, c] else [c]) = some true := by
      split_ifs with hc
      · rw [hc]
        rfl
      · rw [framing, if_neg hc, if_neg fun h => Bool.noConfusion h.2]
        rfl
    rw [hc]
    exact ih

theorem framing_quoteText (t : Text) : framing false (quoteText t) = some false := by
  rw [quoteText, List.cons_append, framing, if_pos rfl, framing_append]
  change (framing true _).bind _ = _
  rw [framing_quoted]
  rfl

theorem framing_wrap (t : Text) : framing false (wrap t) = some false := by
  rw [wrap]
  split_ifs with h
  · exact framing_quoteText t
  · exact framing_eq_some_of_noQuote (fun hq => h (Or.inl hq)) (fun hs => h (Or.inr hs)) false

theorem scan_framed {e : Text} (hfree : TabFree e) {inside inside' : Bool}
    (h : framing inside e = some inside') (fs : List Text) (tok : Text) (q : Bool) :
    scan ⟨fs, tok, inside, q⟩ e = ⟨fs, tok ++ e, inside', q || decide (quote ∈ e)⟩ := by
  induction e generalizing inside tok q with
  | nil =>
    cases h
    rw [List.append_nil]
    simp [scan]
  | cons c e ih =>
    have hrest : TabFree e := fun d hd => hfree d (List.mem_cons_of_mem _ hd)
    obtain ⟨htab, hcr⟩ := hfree c List.mem_cons_self
    rw [framing] at h
    rw [scan, List.foldl_cons, splitStep]
    change scan _ e = _
    split_ifs at h with hquote hsep
    · rw [if_pos hquote, ih hrest h, List.append_assoc, hquote]
      simp
    · have hmem : decide (quote ∈ c :: e) = decide (quote ∈ e) := by
        simp [List.mem_cons, Ne.symm hquote]
      rw [if_neg hquote]
      by_cases hc : c = csvSeparator
      · have hinside : inside = true := (Bool.not_eq_false _).mp fun hi => hsep ⟨hc, hi⟩
        cases hinside
        rw [if_pos hc, if_pos rfl, ih hrest h, List.append_assoc, hmem]
        rfl
      · rw [if_neg hc, if_pos ⟨htab, hcr⟩, ih hrest h, List.append_assoc, hmem]
        rfl

theorem scan_append (s : SplitState) (e r : Text) : scan s (e ++ r) = scan (scan s e) r :=
  List.foldl_append

theorem scan_fields (text : Text) (fs : List Text) (tok : Text) (inside q : Bool) :
    (scan ⟨fs, tok, inside, q⟩ text).finish = fs ++ (scan ⟨[], tok, inside, q⟩ text).finish := by
  induction text generalizing fs tok inside q with
  | nil => rfl
  | cons c text ih =>
    rw [scan, scan, List.foldl_cons, List.foldl_cons, splitStep, splitStep]
    change (scan _ text).finish = fs ++ (scan _ text).finish
    split_ifs with hquote hsep hinside
    · exact ih _ _ _ _
    · exact ih _ _ _ _
    · rw [ih, ih ([] ++ _), List.nil_append, List.append_assoc]
    · exact ih _ _ _ _
    · exact ih _ _ _ _

theorem scan_head (text tok : Text) (inside q : Bool) :
    ∃ p q', (scan ⟨[], tok, inside, q⟩ text).finish.head? = some (normalize (tok ++ p) q') := by
  induction text generalizing tok inside q with
  | nil => exact ⟨[], q, by rw [List.append_nil]; rfl⟩
  | cons c text ih =>
    rw [scan, List.foldl_cons, splitStep]
    change ∃ p q', (scan _ text).finish.head? = _
    have hmore : ∀ inside q,
        ∃ p q', (scan ⟨[], tok ++ [c], inside, q⟩ text).finish.head? =
          some (normalize (tok ++ p) q') := by
      intro inside q
      obtain ⟨p, q', hp⟩ := ih (tok ++ [c]) inside q
      exact ⟨c :: p, q', by rw [hp, List.append_assoc]; rfl⟩
    split_ifs
    · exact hmore _ _
    · exact hmore _ _
    · refine ⟨[], q, ?_⟩
      rw [scan_fields, List.append_nil]
      rfl
    · exact hmore _ _
    · exact ih _ _ _

theorem scan_head_cut {e : Text} (r : Text) {inside : Bool} (h : framing inside e = none)
    (tok : Text) (q : Bool) :
    ∃ p q', p.length < e.length ∧
      (scan ⟨[], tok, inside, q⟩ (e ++ r)).finish.head? = some (normalize (tok ++ p) q') := by
  induction e generalizing inside tok q with
  | nil => cases h
  | cons c e ih =>
    rw [framing] at h
    rw [List.cons_append, scan, List.foldl_cons, splitStep]
    change ∃ p q', _ ∧ (scan _ (e ++ r)).finish.head? = _
    have hmore : ∀ {inside : Bool} q, framing inside e = none →
        ∃ p q', p.length < (c :: e).length ∧
          (scan ⟨[], tok ++ [c], inside, q⟩ (e ++ r)).finish.head? =
            some (normalize (tok ++ p) q') := by
      intro inside q h
      obtain ⟨p, q', hlen, hp⟩ := ih h (tok ++ [c]) q
      exact ⟨c :: p, q', Nat.succ_lt_succ hlen, by rw [hp, List.append_assoc]; rfl⟩
    split_ifs at h with hquote hsep
    · rw [if_pos hquote]
      exact hmore _ h
    · rw [if_neg hquote, if_pos hsep.1, hsep.2]
      refine ⟨[], q, Nat.succ_pos _, ?_⟩
      rw [if_neg Bool.false_ne_true, scan_fields, List.append_nil]
      rfl
    · rw [if_neg hquote]
      by_cases hc : c = csvSeparator
      · have hinside : inside = true := (Bool.not_eq_false _).mp fun hi => hsep ⟨hc, hi⟩
        cases hinside
        rw [if_pos hc, if_pos rfl]
        exact hmore _ h
      · rw [if_neg hc]
        split_ifs
        · exact hmore _ h
        · obtain ⟨p, q', hlen, hp⟩ := ih h tok q
          exact ⟨p, q', Nat.lt_succ_of_lt hlen, hp⟩

end framing

section fields

theorem splitRecord_eq (text : Text) :
    splitRecord false text = (scan ⟨[], [], false, false⟩ text).finish := by
  rw [splitRecord, if_neg fun h => Bool.noConfusion h.1]
  rfl

theorem splitRecord_last {e : Text} (hfree : TabFree e) {inside : Bool}
    (h : framing false e = some inside) :
    splitRecord false e = [normalize e (decide (quote ∈ e))] := by
  rw [splitRecord_eq, scan_framed hfree h]
  rfl

theorem splitRecord_cons {e : Text} (hfree : TabFree e) (h : framing false e = some false)
    (r : Text) :
    splitRecord false (e ++ csvSeparator :: r) =
      normalize e (decide (quote ∈ e)) :: splitRecord false r := by
  rw [splitRecord_eq, scan_append, scan_framed hfree h, scan, List.foldl_cons]
  change (scan (splitStep ⟨[], e, false, decide (quote ∈ e)⟩ csvSeparator) r).finish = _
  have hstep : splitStep ⟨[], e, false, decide (quote ∈ e)⟩ csvSeparator =
      ⟨[normalize e (decide (quote ∈ e))], [], false, false⟩ := by
    rw [splitStep, if_neg (by decide), if_pos rfl, if_neg Bool.false_ne_true]
    rfl
  rw [hstep, scan_fields, splitRecord_eq]
  rfl

/-- A field is read as something else if it is cut, or if it takes a separator with it. -/
theorem head_splitRecord_ne {e : Text} (hclean : Clean e) (r : Text)
    (h : framing false e ≠ some false) :
    (splitRecord false (e ++ csvSeparator :: r)).head? ≠ some e := by
  intro hhead
  rw [splitRecord_eq] at hhead
  cases hframe : framing false e with
  | none =>
    obtain ⟨p, q', hlen, hp⟩ := scan_head_cut (csvSeparator :: r) hframe [] false
    rw [hp, Option.some.injEq] at hhead
    have hle := normalize_length ([] ++ p) q'
    rw [hhead, List.nil_append] at hle
    omega
  | some inside =>
    cases inside with
    | false => exact h hframe
    | true =>
      rw [scan_append, scan_framed hclean.tabFree hframe, scan, List.foldl_cons] at hhead
      have hstep : ∀ q, splitStep ⟨[], [] ++ e, true, q⟩ csvSeparator =
          ⟨[], e ++ [csvSeparator], true, q⟩ := by
        intro q
        rw [splitStep, if_neg (by decide), if_pos rfl, if_pos rfl]
        rfl
      rw [hstep] at hhead
      obtain ⟨p, q', hp⟩ := scan_head r (e ++ [csvSeparator]) true (false || decide (quote ∈ e))
      rw [scan] at hp
      rw [hp, Option.some.injEq] at hhead
      have hcount := congrArg (List.count csvSeparator) hhead
      rw [normalize_count (by decide) (by decide), List.count_append, List.count_append,
        List.count_singleton_self] at hcount
      omega

theorem head_splitRecord_last_ne {e : Text} (h : framing false e = none) :
    (splitRecord false e).head? ≠ some e := by
  intro hhead
  obtain ⟨p, q', hlen, hp⟩ := scan_head_cut [] h [] false
  rw [List.append_nil] at hp
  rw [splitRecord_eq, hp, Option.some.injEq] at hhead
  have hle := normalize_length ([] ++ p) q'
  rw [hhead, List.nil_append] at hle
  omega

end fields

section cells

/-- A field of a written row: text that goes through `wrap`, text that is written as it is, or
text without any special character, such as a number. -/
inductive Cell where
  | wrapped (text : Text)
  | raw (text : Text)
  | plain (text : Text)

def Plain (t : Text) : Prop :=
  ∀ c ∈ t, c ≠ quote ∧ c ≠ csvSeparator ∧ isBlank c = false ∧ c ≠ '\r' ∧ c ≠ '\n'

def Cell.value : Cell → Text
  | wrapped t => t
  | raw t => t
  | plain t => t

def Cell.written : Cell → Text
  | wrapped t => wrap t
  | raw t => t
  | plain t => t

def Cell.Ok : Cell → Prop
  | wrapped t => Clean t
  | raw t => Clean t
  | plain t => Plain t

def Cell.IsText : Cell → Prop
  | plain _ => False
  | _ => True

def SpacesKept (t : Text) : Prop := (quote ∈ t ∨ csvSeparator ∈ t) ∨ trimSpaces t = t

/-- All separators of a text are inside its own quotes, which are closed unless the line ends
there, and reading its spaces and quotes changes nothing. -/
def RawKept (last : Bool) (t : Text) : Prop :=
  (framing false t = some false ∨ last = true ∧ framing false t = some true) ∧
    normalize t (decide (quote ∈ t)) = t

def Cell.Kept (last : Bool) : Cell → Prop
  | wrapped t => SpacesKept t
  | raw t => RawKept last t
  | plain _ => True

def RowKept : List Cell → Prop
  | [] => True
  | [c] => c.Kept true
  | c :: cs => c.Kept false ∧ RowKept cs

instance (t : Text) : Decidable (SpacesKept t) := inferInstanceAs (Decidable (_ ∨ _))

instance (last : Bool) (t : Text) : Decidable (RawKept last t) :=
  inferInstanceAs (Decidable (_ ∧ _))

instance (last : Bool) : (c : Cell) → Decidable (c.Kept last)
  | .wrapped t => inferInstanceAs (Decidable (SpacesKept t))
  | .raw t => inferInstanceAs (Decidable (RawKept last t))
  | .plain _ => inferInstanceAs (Decidable True)

instance decidableRowKept : (cells : List Cell) → Decidable (RowKept cells)
  | [] => inferInstanceAs (Decidable True)
  | [c] => inferInstanceAs (Decidable (c.Kept true))
  | c :: d :: cs =>
    have := decidableRowKept (d :: cs)
    inferInstanceAs (Decidable (c.Kept false ∧ RowKept (d :: cs)))

def line (cells : List Cell) : Text := joined (cells.map Cell.written)

theorem Plain.clean {t : Text} (h : Plain t) : Clean t := by
  intro c hc
  obtain ⟨-, -, hblank, hcr, hnl⟩ := h c hc
  refine ⟨fun htab => ?_, hcr, hnl⟩
  rw [htab] at hblank
  cases hblank

theorem Plain.trim {t : Text} (h : Plain t) : trimSpaces t = t := by
  refine trimSpaces_of_ends (fun c hc => ?_) fun c hc => ?_
  · exact (h c (List.mem_of_mem_head? hc)).2.2.1
  · exact (h c (List.mem_of_mem_getLast? hc)).2.2.1

theorem mem_quoteText {t : Text} {c : Char} (hc : c ∈ quoteText t) : c = quote ∨ c ∈ t := by
  rw [quoteText, List.cons_append, List.mem_cons, List.mem_append, List.mem_singleton] at hc
  rcases hc with hc | hmem | hc
  · exact Or.inl hc
  · obtain ⟨d, hd, hcd⟩ := List.mem_flatMap.1 hmem
    split_ifs at hcd
    · rw [List.mem_cons, List.mem_singleton] at hcd
      exact hcd.imp_right fun heq : c = d => heq ▸ hd
    · exact Or.inr (List.mem_singleton.1 hcd ▸ hd)
  · exact Or.inl hc

theorem mem_wrap {t : Text} {c : Char} (hc : c ∈ wrap t) : c = quote ∨ c ∈ t := by
  rw [wrap] at hc
  split_ifs at hc
  · exact mem_quoteText hc
  · exact Or.inr hc

def wrapRead (t : Text) : Text := if quote ∈ t ∨ csvSeparator ∈ t then t else trimSpaces t

theorem wrapRead_eq_iff (t : Text) : wrapRead t = t ↔ SpacesKept t := by
  rw [wrapRead, SpacesKept]
  split_ifs with h
  · exact ⟨fun _ => Or.inl h, fun _ => rfl⟩
  · exact ⟨Or.inr, fun hk => hk.resolve_left h⟩

theorem wrapRead_idem (t : Text) : wrapRead (wrapRead t) = wrapRead t := by
  by_cases h : quote ∈ t ∨ csvSeparator ∈ t
  · have heq : wrapRead t = t := if_pos h
    rw [heq, heq]
  · have heq : wrapRead t = trimSpaces t := if_neg h
    rw [heq, wrapRead, if_neg, trimSpaces_idem]
    rintro (hq | hs)
    · exact h (Or.inl ((trimSpaces_sublist t).mem hq))
    · exact h (Or.inr ((trimSpaces_sublist t).mem hs))

theorem normalize_wrap (t : Text) : normalize (wrap t) (decide (quote ∈ wrap t)) = wrapRead t := by
  rw [wrap, wrapRead]
  split_ifs with h
  · have hmem : quote ∈ quoteText t := by
      rw [quoteText, List.cons_append]
      exact List.mem_cons_self
    rw [decide_eq_true hmem, normalize_quoteText]
  · have hmem : quote ∉ t := fun hq => h (Or.inl hq)
    rw [decide_eq_false hmem, normalize, if_neg Bool.false_ne_true]

theorem Cell.clean_written {c : Cell} (h : c.Ok) : Clean c.written := by
  cases c with
  | wrapped t =>
    intro d hd
    cases mem_wrap hd with
    | inl heq => exact heq ▸ by decide
    | inr hmem => exact h d hmem
  | raw t => exact h
  | plain t => exact Plain.clean h

theorem Plain.kept {t : Text} (h : Plain t) : RawKept false t := by
  have hquote : quote ∉ t := fun hq => (h _ hq).1 rfl
  have hsep : csvSeparator ∉ t := fun hs => (h _ hs).2.1 rfl
  refine ⟨Or.inl (framing_eq_some_of_noQuote hquote hsep false), ?_⟩
  rw [decide_eq_false hquote, normalize, if_neg Bool.false_ne_true, h.trim]

theorem RawKept.split {t : Text} (hclean : Clean t) (h : RawKept false t) (r : Text) :
    splitRecord false (t ++ csvSeparator :: r) = t :: splitRecord false r := by
  obtain ⟨hframe, hnorm⟩ := h
  have hfalse := hframe.resolve_right fun h => Bool.noConfusion h.1
  rw [splitRecord_cons hclean.tabFree hfalse, hnorm]

theorem RawKept.split_last {t : Text} (hclean : Clean t) (h : RawKept true t) :
    splitRecord false t = [t] := by
  obtain ⟨hframe | ⟨-, hframe⟩, hnorm⟩ := h
  · rw [splitRecord_last hclean.tabFree hframe, hnorm]
  · rw [splitRecord_last hclean.tabFree hframe, hnorm]

theorem RawKept.last {t : Text} (h : RawKept false t) : RawKept true t :=
  ⟨h.1.imp_right fun hh => Bool.noConfusion hh.1, h.2⟩

theorem Cell.Kept.split {c : Cell} (hok : c.Ok) (h : c.Kept false) (r : Text) :
    splitRecord false (c.written ++ csvSeparator :: r) = c.value :: splitRecord false r := by
  cases c with
  | wrapped t =>
    rw [splitRecord_cons (Cell.clean_written hok).tabFree (framing_wrap t), Cell.written, normalize_wrap,
      (wrapRead_eq_iff t).2 h]
    rfl
  | raw t => exact RawKept.split hok h r
  | plain t => exact RawKept.split (Plain.clean hok) (Plain.kept hok) r

theorem Cell.Kept.split_last {c : Cell} (hok : c.Ok) (h : c.Kept true) :
    splitRecord false c.written = [c.value] := by
  cases c with
  | wrapped t =>
    rw [splitRecord_last (Cell.clean_written hok).tabFree (framing_wrap t), Cell.written, normalize_wrap,
      (wrapRead_eq_iff t).2 h]
    rfl
  | raw t => exact RawKept.split_last hok h
  | plain t => exact RawKept.split_last (Plain.clean hok) (Plain.kept hok).last

theorem Cell.kept_of_head {c : Cell} (hok : c.Ok) {r : Text} (htext : c.IsText)
    (h : (splitRecord false (c.written ++ csvSeparator :: r)).head? = some c.value) :
    c.Kept false := by
  cases c with
  | wrapped t =>
    rw [splitRecord_cons (Cell.clean_written hok).tabFree (framing_wrap t), Cell.written, normalize_wrap,
      List.head?_cons, Option.some.injEq] at h
    exact (wrapRead_eq_iff t).1 h
  | raw t =>
    by_cases hframe : framing false t = some false
    · refine ⟨Or.inl hframe, ?_⟩
      rw [Cell.written, splitRecord_cons hok.tabFree hframe, List.head?_cons, Option.some.injEq] at h
      exact h
    · exact absurd h (head_splitRecord_ne hok r hframe)
  | plain t => exact htext.elim

theorem Cell.kept_of_head_last {c : Cell} (hok : c.Ok) (htext : c.IsText)
    (h : (splitRecord false c.written).head? = some c.value) : c.Kept true := by
  cases c with
  | wrapped t =>
    rw [splitRecord_last (Cell.clean_written hok).tabFree (framing_wrap t), Cell.written, normalize_wrap,
      List.head?_cons, Option.some.injEq] at h
    exact (wrapRead_eq_iff t).1 h
  | raw t =>
    cases hframe : framing false t with
    | none => exact absurd h (head_splitRecord_last_ne hframe)
    | some inside =>
      rw [Cell.written, splitRecord_last hok.tabFree hframe, List.head?_cons, Option.some.injEq] at h
      refine ⟨?_, h⟩
      cases inside with
      | false => exact Or.inl hframe
      | true => exact Or.inr ⟨rfl, hframe⟩
  | plain t => exact htext.elim

theorem splitRecord_line {cells : List Cell} (hne : cells ≠ []) (hok : ∀ c ∈ cells, c.Ok)
    (h : RowKept cells) : splitRecord false (line cells) = cells.map Cell.value := by
  induction cells with
  | nil => exact absurd rfl hne
  | cons c cs ih =>
    cases cs with
    | nil => exact Cell.Kept.split_last (hok c List.mem_cons_self) h
    | cons d cs =>
      obtain ⟨hc, hcs⟩ := h
      rw [List.map_cons, ← ih (List.cons_ne_nil _ _) (fun x hx => hok x (List.mem_cons_of_mem _ hx))
        hcs]
      exact hc.split (hok c List.mem_cons_self) _

theorem rowKept_of_reads {cells : List Cell} (hok : ∀ c ∈ cells, c.Ok)
    (h : ∀ (i : ℕ) (c : Cell), cells[i]? = some c → c.IsText →
      (splitRecord false (line cells))[i]?.getD [] = c.value) : RowKept cells := by
  have hhead : ∀ {text x : Text}, (splitRecord false text)[0]?.getD [] = x →
      (splitRecord false text).head? = some x := by
    intro text x hx
    obtain ⟨p, q', hp⟩ := scan_head text [] false false
    rw [← splitRecord_eq] at hp
    rw [List.head?_eq_getElem?] at hp ⊢
    rw [hp, Option.getD_some] at hx
    rw [hp, hx]
  induction cells with
  | nil => trivial
  | cons c cs ih =>
    have hcok := hok c List.mem_cons_self
    cases cs with
    | nil =>
      by_cases htext : c.IsText
      · exact Cell.kept_of_head_last hcok htext (hhead (h 0 c rfl htext))
      · cases c with
        | wrapped t => exact absurd trivial htext
        | raw t => exact absurd trivial htext
        | plain t => trivial
    | cons d cs =>
      have hkept : c.Kept false := by
        by_cases htext : c.IsText
        · exact Cell.kept_of_head hcok htext (hhead (h 0 c rfl htext))
        · cases c with
          | wrapped t => exact absurd trivial htext
          | raw t => exact absurd trivial htext
          | plain t => trivial
      refine ⟨hkept, ih (fun x hx => hok x (List.mem_cons_of_mem _ hx)) fun i x hx htext => ?_⟩
      have hshift := h (i + 1) x (by rw [List.getElem?_cons_succ]; exact hx) htext
      have hsplit : splitRecord false (line (c :: d :: cs)) =
          c.value :: splitRecord false (line (d :: cs)) := hkept.split hcok _
      rwa [hsplit, List.getElem?_cons_succ] at hshift

end cells

section cleanliness

theorem mem_foldl_unquoteStep {t : Text} {s : UnquoteState} {c : Char}
    (h : c ∈ (t.foldl unquoteStep s).res) : c ∈ s.res ∨ c ∈ t := by
  induction t generalizing s with
  | nil => exact Or.inl h
  | cons d t ih =>
    cases ih h with
    | inl hres =>
      cases unquoteStep_res s d with
      | inl heq =>
        rw [heq, List.mem_append, List.mem_singleton] at hres
        exact hres.imp_right fun hc : c = d => hc ▸ List.mem_cons_self
      | inr heq => exact Or.inl (heq.2 ▸ hres)
    | inr hmem => exact Or.inr (List.mem_cons_of_mem _ hmem)

theorem mem_of_mem_normalize {t : Text} {q : Bool} {c : Char} (h : c ∈ normalize t q) : c ∈ t := by
  have htrim : ∀ {c}, c ∈ trimSpaces t → c ∈ t := fun hc => (trimSpaces_sublist t).mem hc
  rw [normalize] at h
  split_ifs at h
  · rw [unquoteText] at h
    have hinner := (mem_foldl_unquoteStep h).resolve_left List.not_mem_nil
    split_ifs at hinner
    · exact htrim (List.mem_of_mem_tail (List.dropLast_subset _ hinner))
    · exact htrim hinner
  · exact htrim h

theorem mem_scan {text : Text} {s : SplitState} {P : Char → Prop}
    (htext : ∀ c ∈ text, c ≠ '\t' → c ≠ '\r' → P c) (hfields : ∀ f ∈ s.fields, ∀ c ∈ f, P c)
    (htoken : ∀ c ∈ s.token, P c) : ∀ f ∈ (scan s text).finish, ∀ c ∈ f, P c := by
  induction text generalizing s with
  | nil =>
    intro f hf
    cases List.mem_append.1 hf with
    | inl hold => exact hfields f hold
    | inr hnew =>
      rw [List.mem_singleton.1 hnew]
      exact fun c hc => htoken c (mem_of_mem_normalize hc)
  | cons c text ih =>
    have hrest : ∀ d ∈ text, d ≠ '\t' → d ≠ '\r' → P d :=
      fun d hd => htext d (List.mem_cons_of_mem _ hd)
    have hadd : c ≠ '\t' → c ≠ '\r' → ∀ d ∈ s.token ++ [c], P d := by
      intro htab hcr d hd
      cases List.mem_append.1 hd with
      | inl hold => exact htoken d hold
      | inr hnew =>
        rw [List.mem_singleton.1 hnew]
        exact htext c List.mem_cons_self htab hcr
    rw [scan, List.foldl_cons, splitStep]
    change ∀ f ∈ (scan _ text).finish, ∀ c ∈ f, P c
    split_ifs with hquote hsep hinside hkeep
    · exact ih hrest hfields (hadd (hquote ▸ by decide) (hquote ▸ by decide))
    · exact ih hrest hfields (hadd (hsep ▸ by decide) (hsep ▸ by decide))
    · refine ih hrest (fun f hf => ?_) fun d hd => absurd hd List.not_mem_nil
      cases List.mem_append.1 hf with
      | inl hold => exact hfields f hold
      | inr hnew =>
        rw [List.mem_singleton.1 hnew]
        exact fun d hd => htoken d (mem_of_mem_normalize hd)
    · exact ih hrest hfields (hadd hkeep.1 hkeep.2)
    · exact ih hrest hfields htoken

theorem splitRecord_clean {text : Text} (hnl : '\n' ∉ text) :
    ∀ f ∈ splitRecord false text, Clean f := by
  rw [splitRecord_eq]
  exact mem_scan (fun c hc htab hcr => ⟨htab, hcr, fun heq => hnl (heq ▸ hc)⟩)
    (fun f hf => absurd hf List.not_mem_nil) fun c hc => absurd hc List.not_mem_nil

theorem splitRecord_tabFree (isHeader : Bool) (text : Text) :
    ∀ f ∈ splitRecord isHeader text, TabFree f :=
  mem_scan (fun _ _ htab hcr => ⟨htab, hcr⟩) (fun _ hf => absurd hf List.not_mem_nil)
    fun _ hc => absurd hc List.not_mem_nil

end cleanliness

section files

def file (rows : List (List Cell)) : Text := rows.flatMap fun row => line row ++ ['\n']

theorem lines_append {l : Text} (h : '\n' ∉ l) (rest : Text) :
    lines (l ++ '\n' :: rest) = l :: lines rest := by
  induction l with
  | nil => rfl
  | cons c l ih =>
    rw [List.mem_cons, not_or] at h
    rw [List.cons_append, lines, if_neg (Ne.symm h.1), ih h.2]

theorem newline_not_mem_lines {text l : Text} (h : l ∈ lines text) : '\n' ∉ l := by
  induction text generalizing l with
  | nil => exact absurd h List.not_mem_nil
  | cons c text ih =>
    rw [lines] at h
    split_ifs at h with hc
    · cases List.mem_cons.1 h with
      | inl hnil => exact hnil ▸ List.not_mem_nil
      | inr hmem => exact ih hmem
    · cases hlines : lines text with
      | nil =>
        rw [hlines, List.mem_singleton] at h
        rw [h, List.mem_singleton]
        exact Ne.symm hc
      | cons m ms =>
        rw [hlines] at h
        rw [hlines] at ih
        cases List.mem_cons.1 h with
        | inl hl =>
          rw [hl, List.mem_cons, not_or]
          exact ⟨Ne.symm hc, ih List.mem_cons_self⟩
        | inr hmem => exact ih (List.mem_cons_of_mem _ hmem)

theorem clean_line {cells : List Cell} (hok : ∀ c ∈ cells, c.Ok) : Clean (line cells) := by
  induction cells with
  | nil => exact fun c hc => absurd hc List.not_mem_nil
  | cons c cs ih =>
    have hc := Cell.clean_written (hok c List.mem_cons_self)
    cases cs with
    | nil => exact hc
    | cons d cs =>
      intro x hx
      change x ∈ c.written ++ csvSeparator :: line (d :: cs) at hx
      rw [List.mem_append, List.mem_cons] at hx
      rcases hx with hx | rfl | hx
      · exact hc x hx
      · decide
      · exact ih (fun y hy => hok y (List.mem_cons_of_mem _ hy)) x hx

theorem lines_file {rows : List (List Cell)} (hok : ∀ row ∈ rows, ∀ c ∈ row, c.Ok) :
    lines (file rows) = rows.map line := by
  induction rows with
  | nil => rfl
  | cons row rows ih =>
    have hnl : '\n' ∉ line row := fun hmem =>
      (clean_line (hok row List.mem_cons_self) _ hmem).2.2 rfl
    rw [file, List.flatMap_cons, List.append_assoc, List.singleton_append, lines_append hnl]
    exact congrArg _ (ih fun r hr => hok r (List.mem_cons_of_mem _ hr))

end files

end Pfaedle.Gtfs

import Mathlib.Data.List.DropRight
import Mathlib.Data.List.Basic

set_option autoImplicit false

/-!
# Text fields in CSV files

`csv_parser::split_record` and the functions of `gtfs/misc.cpp` that read and write fields.
-/
namespace Pfaedle.Gtfs

/-- A `std::string`; each character is one byte. -/
abbrev Text := List Char

def csvSeparator : Char := ','

def quote : Char := '"'

def isBlank (c : Char) : Bool := c == ' ' || c == '\t'

def trimSpaces (token : Text) : Text := (token.dropWhile isBlank).rdropWhile isBlank

structure UnquoteState where
  res : Text
  prevIsQuote : Bool
  prevIsSkipped : Bool

def unquoteStep (s : UnquoteState) (c : Char) : UnquoteState :=
  if c ≠ quote then ⟨s.res ++ [c], false, false⟩
  else if s.prevIsQuote then
    { s with res := if s.prevIsSkipped then s.res ++ [c] else s.res
             prevIsSkipped := !s.prevIsSkipped }
  else { s with prevIsQuote := true, res := s.res ++ [c] }

def unquoteText (text : Text) : Text :=
  let inner :=
    if 1 < text.length ∧ text.head? = some quote ∧ text.getLast? = some quote then
      text.tail.dropLast
    else text
  (inner.foldl unquoteStep ⟨[], false, false⟩).res

def normalize (token : Text) (hasQuotes : Bool) : Text :=
  let res := trimSpaces token
  if hasQuotes then unquoteText res else res

/-- `std::quoted` with the quotation mark as delimiter and as escape. -/
def quoteText (text : Text) : Text :=
  quote :: text.flatMap (fun c => if c = quote then [quote, c] else [c]) ++ [quote]

def wrap (text : Text) : Text :=
  if quote ∈ text ∨ csvSeparator ∈ text then quoteText text else text

/-- A line that `write_joined` writes, without its newline. -/
def joined : List Text → Text
  | [] => []
  | [e] => e
  | e :: es => e ++ csvSeparator :: joined es

structure SplitState where
  fields : List Text
  token : Text
  isInsideQuotes : Bool
  quotesInToken : Bool

def splitStep (s : SplitState) (c : Char) : SplitState :=
  if c = quote then
    { s with token := s.token ++ [c], isInsideQuotes := !s.isInsideQuotes, quotesInToken := true }
  else if c = csvSeparator then
    if s.isInsideQuotes then { s with token := s.token ++ [c] }
    else { s with fields := s.fields ++ [normalize s.token s.quotesInToken]
                  token := []
                  quotesInToken := false }
  else if c ≠ '\t' ∧ c ≠ '\r' then { s with token := s.token ++ [c] }
  else s

def SplitState.finish (s : SplitState) : List Text :=
  s.fields ++ [normalize s.token s.quotesInToken]

def utf8Bom : Text := ['\xef', '\xbb', '\xbf']

def splitRecord (isHeader : Bool) (record : Text) : List Text :=
  let record := if isHeader ∧ utf8Bom <+: record then record.drop 3 else record
  (record.foldl splitStep ⟨[], [], false, false⟩).finish

/-- The lines that `getline` reads one after the other. -/
def lines : Text → List Text
  | [] => []
  | c :: cs =>
    if c = '\n' then [] :: lines cs
    else
      match lines cs with
      | [] => [[c]]
      | l :: ls => (c :: l) :: ls

def Clean (t : Text) : Prop := ∀ c ∈ t, c ≠ '\t' ∧ c ≠ '\r' ∧ c ≠ '\n'

def TabFree (t : Text) : Prop := ∀ c ∈ t, c ≠ '\t' ∧ c ≠ '\r'

theorem Clean.tabFree {t : Text} (h : Clean t) : TabFree t :=
  fun c hc => ⟨(h c hc).1, (h c hc).2.1⟩

section trimming

theorem trimSpaces_of_ends {t : Text} (hhead : ∀ c, t.head? = some c → isBlank c = false)
    (hlast : ∀ c, t.getLast? = some c → isBlank c = false) : trimSpaces t = t := by
  have hdrop : t.dropWhile isBlank = t := by
    cases t with
    | nil => rfl
    | cons c t => rw [List.dropWhile_cons, hhead c rfl]; rfl
  rw [trimSpaces, hdrop, List.rdropWhile_eq_self_iff]
  intro hne
  rw [hlast _ (List.getLast?_eq_some_getLast hne)]
  exact Bool.false_ne_true

theorem trimSpaces_sublist (t : Text) : (trimSpaces t).Sublist t :=
  (List.rdropWhile_prefix _ _).sublist.trans (List.dropWhile_sublist _)

theorem trimSpaces_idem (t : Text) : trimSpaces (trimSpaces t) = trimSpaces t := by
  refine trimSpaces_of_ends (fun c hc => ?_) fun c hc => ?_
  · obtain ⟨r, hr⟩ := List.rdropWhile_prefix isBlank (t.dropWhile isBlank)
    have hne : (t.dropWhile isBlank).head? = some c := by
      rw [← hr, List.head?_append]
      change ((trimSpaces t).head?.or _) = _
      rw [hc]
      rfl
    have hnot := List.head?_dropWhile_not isBlank t
    rw [hne] at hnot
    exact hnot
  · have hne : trimSpaces t ≠ [] := fun h => by
      rw [h] at hc
      cases hc
    have hlast := List.rdropWhile_last_not isBlank (t.dropWhile isBlank) hne
    rw [List.getLast?_eq_some_getLast hne, Option.some.injEq] at hc
    rw [← hc]
    exact Bool.eq_false_iff.2 hlast

theorem count_dropWhile {p : Char → Bool} {a : Char} (ha : p a = false) (t : Text) :
    (t.dropWhile p).count a = t.count a := by
  induction t with
  | nil => rfl
  | cons c t ih =>
    rw [List.dropWhile_cons]
    cases hc : p c with
    | false => rfl
    | true =>
      have hne : c ≠ a := fun h => by rw [h, ha] at hc; cases hc
      rw [if_pos rfl, ih, List.count_cons_of_ne hne]

theorem count_trimSpaces {a : Char} (ha : isBlank a = false) (t : Text) :
    (trimSpaces t).count a = t.count a := by
  rw [trimSpaces, List.rdropWhile, List.count_reverse, count_dropWhile ha, List.count_reverse,
    count_dropWhile ha]

end trimming

section unquoting

theorem unquoteStep_res (s : UnquoteState) (c : Char) :
    (unquoteStep s c).res = s.res ++ [c] ∨ c = quote ∧ (unquoteStep s c).res = s.res := by
  rw [unquoteStep]
  split_ifs with hne hprev hskip
  · exact Or.inl rfl
  · exact Or.inl rfl
  · exact Or.inr ⟨not_ne_iff.1 hne, rfl⟩
  · exact Or.inl rfl

theorem foldl_unquoteStep_length (t : Text) (s : UnquoteState) :
    (t.foldl unquoteStep s).res.length ≤ s.res.length + t.length := by
  induction t generalizing s with
  | nil => exact Nat.le_refl _
  | cons c t ih =>
    have hih := ih (unquoteStep s c)
    rw [List.foldl_cons, List.length_cons]
    cases unquoteStep_res s c with
    | inl h =>
      rw [h, List.length_append, List.length_singleton] at hih
      omega
    | inr h =>
      rw [h.2] at hih
      omega

theorem foldl_unquoteStep_count {a : Char} (ha : a ≠ quote) (t : Text) (s : UnquoteState) :
    (t.foldl unquoteStep s).res.count a = s.res.count a + t.count a := by
  induction t generalizing s with
  | nil => rfl
  | cons c t ih =>
    rw [List.foldl_cons, ih]
    cases unquoteStep_res s c with
    | inl h =>
      rw [h, List.count_append, List.count_cons, List.count_cons, List.count_nil]
      omega
    | inr h => rw [h.2, List.count_cons_of_ne (h.1 ▸ ha.symm)]

theorem unquoteText_length (t : Text) : (unquoteText t).length ≤ t.length := by
  rw [unquoteText]
  refine (foldl_unquoteStep_length _ _).trans ?_
  split_ifs
  · simp only [List.length_nil, List.length_dropLast, List.length_tail]
    omega
  · simp only [List.length_nil, Nat.zero_add, Nat.le_refl]

theorem unquoteText_count {a : Char} (ha : a ≠ quote) (t : Text) :
    (unquoteText t).count a = t.count a := by
  rw [unquoteText, foldl_unquoteStep_count ha, List.count_nil, Nat.zero_add]
  split_ifs with h
  · obtain ⟨hlen, hhead, hlast⟩ := h
    cases t with
    | nil => exact absurd hlen (by simp)
    | cons c t =>
      have hc : c = quote := Option.some.inj hhead
      have hne : t ≠ [] := fun hnil => by simp [hnil] at hlen
      have ht : t.getLast hne = quote := by
        rw [List.getLast?_cons_of_ne_nil hne, List.getLast?_eq_some_getLast hne] at hlast
        exact Option.some.inj hlast
      rw [List.tail_cons, List.count_cons_of_ne (hc ▸ ha.symm)]
      conv_rhs => rw [← List.dropLast_concat_getLast hne, List.count_append, ht]
      rw [List.count_cons_of_ne ha.symm, List.count_nil, Nat.add_zero]
  · rfl

theorem normalize_length (t : Text) (q : Bool) : (normalize t q).length ≤ t.length := by
  have htrim := (trimSpaces_sublist t).length_le
  rw [normalize]
  split_ifs
  · exact (unquoteText_length _).trans htrim
  · exact htrim

theorem normalize_count {a : Char} (ha : a ≠ quote) (hb : isBlank a = false) (t : Text)
    (q : Bool) : (normalize t q).count a = t.count a := by
  rw [normalize]
  split_ifs
  · rw [unquoteText_count ha, count_trimSpaces hb]
  · exact count_trimSpaces hb t

theorem foldl_unquoteStep_quoted (t : Text) (s : UnquoteState)
    (h : s.prevIsQuote = s.prevIsSkipped) :
    ((t.flatMap fun c => if c = quote then [quote, c] else [c]).foldl unquoteStep s).res =
      s.res ++ t := by
  induction t generalizing s with
  | nil => exact (List.append_nil _).symm
  | cons c t ih =>
    rw [List.flatMap_cons, List.foldl_append]
    split_ifs with hc
    · obtain ⟨res, prev, skip⟩ := s
      cases h
      cases prev with
      | false =>
        have hstep : [quote, c].foldl unquoteStep ⟨res, false, false⟩ = ⟨res ++ [c], true, true⟩ := by
          rw [hc]
          rfl
        rw [hstep, ih _ rfl, List.append_assoc]
        rfl
      | true =>
        have hstep : [quote, c].foldl unquoteStep ⟨res, true, true⟩ = ⟨res ++ [c], true, true⟩ := by
          rw [hc]
          rfl
        rw [hstep, ih _ rfl, List.append_assoc]
        rfl
    · have hstep : [c].foldl unquoteStep s = ⟨s.res ++ [c], false, false⟩ := by
        rw [List.foldl_cons, List.foldl_nil, unquoteStep, if_pos hc]
      rw [hstep, ih _ rfl, List.append_assoc]
      rfl

theorem normalize_quoteText (t : Text) : normalize (quoteText t) true = t := by
  have htrim : trimSpaces (quoteText t) = quoteText t := by
    refine trimSpaces_of_ends (fun c hc => ?_) fun c hc => ?_
    · rw [quoteText, List.cons_append, List.head?_cons, Option.some.injEq] at hc
      exact hc ▸ rfl
    · rw [quoteText, List.getLast?_concat, Option.some.injEq] at hc
      exact hc ▸ rfl
  rw [normalize, if_pos rfl, htrim, unquoteText, if_pos]
  · rw [quoteText, List.cons_append, List.tail_cons, List.dropLast_concat,
      foldl_unquoteStep_quoted t _ rfl]
    rfl
  · refine ⟨?_, rfl, ?_⟩
    · rw [quoteText, List.cons_append, List.length_cons, List.length_append, List.length_singleton]
      omega
    · rw [quoteText, List.getLast?_concat]

end unquoting

end Pfaedle.Gtfs

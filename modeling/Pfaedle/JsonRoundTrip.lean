import Pfaedle.JsonEscape
import Pfaedle.JsonMarks

set_option autoImplicit false

/-!
# What is read from a written tree

Strings are escaped and names are not. A text that is read as the tree has at least the marks that
its names need, so no text with a bare quotation mark, backslash or control character in a name is
read as the tree it was written from, however the rest of it is taken.
-/
namespace Pfaedle.JsonWriter
open Gtfs JsonText

section trees

mutual

def Val.tree : Val → Json
  | .jsnull => .null
  | .int i => .int i
  | .bool b => .bool b
  | .string str => .str str
  | .array arr => .arr (treeElems arr)
  | .dict dict => .obj (treeMembers dict)

def treeElems : List Val → List Json
  | [] => []
  | v :: vs => v.tree :: treeElems vs

def treeMembers : List (Text × Val) → List (Text × Json)
  | [] => []
  | (k, v) :: dict => (k, v.tree) :: treeMembers dict

end

mutual

/-- Every `dict` is a `std::map`: its keys increase. -/
def Val.Maps : Val → Prop
  | .array arr => ElemsMaps arr
  | .dict dict => (dict.map Prod.fst).Pairwise (· < ·) ∧ MembersMaps dict
  | _ => True

def ElemsMaps : List Val → Prop
  | [] => True
  | v :: vs => v.Maps ∧ ElemsMaps vs

def MembersMaps : List (Text × Val) → Prop
  | [] => True
  | (_, v) :: dict => v.Maps ∧ MembersMaps dict

end

mutual

def Val.plainKeys : Val → Bool
  | .array arr => elemsPlain arr
  | .dict dict => membersPlain dict
  | _ => true

def elemsPlain : List Val → Bool
  | [] => true
  | v :: vs => v.plainKeys && elemsPlain vs

def membersPlain : List (Text × Val) → Bool
  | [] => true
  | (k, v) :: dict => k.all plainChar && (v.plainKeys && membersPlain dict)

end

/-- A tree that a writer accepts at its root. -/
structure RootedTree where
  val : Val
  maps : val.Maps
  rooted : val.isContainer = true

end trees

theorem treeMembers_keys (ms : List (Text × Val)) :
    (treeMembers ms).map Prod.fst = ms.map Prod.fst := by
  induction ms with
  | nil => rfl
  | cons m ms ih => rw [treeMembers, List.map_cons, List.map_cons, ih]

section reading
variable {pretty : Bool} {indent : ℕ}

theorem readAtom_toStr (i : ℤ) {rest : Text} (h : EndsNumber rest) :
    readAtom (toStr i ++ rest) = some (.int i, rest) := by
  obtain ⟨c, t, htext, hc⟩ := toStr_head i
  have hnumber : readAtom (toStr i ++ rest) = readNumber (toStr i ++ rest) := by
    rw [htext]
    exact readAtom_number hc _
  rw [hnumber, toStr]
  split_ifs with hneg
  · rw [List.cons_append, readNumber_neg _ h, Int.ofNat_natAbs_of_nonpos hneg.le, neg_neg]
  · rw [readNumber_nat _ h, Int.natAbs_of_nonneg (not_lt.1 hneg)]

mutual

theorem readValue_valText : ∀ (v : Val) (depth : ℕ), v.Maps → v.plainKeys = true →
    ∀ (ws rest : Text) (n : ℕ), Blank ws → EndsNumber rest →
    (valText pretty indent depth v).length ≤ n →
    readValue n (ws ++ (valText pretty indent depth v ++ rest)) = some (v.tree, rest)
  | v, depth, hmaps, hplain, ws, rest, 0, _, _, hn => by
    have hpos := valText_pos pretty indent depth v
    omega
  | .jsnull, depth, _, _, ws, rest, n + 1, hws, _, _ =>
    readValue_other hws (by decide) (by decide) (by decide) (by decide)
  | .bool false, depth, _, _, ws, rest, n + 1, hws, _, _ =>
    readValue_other hws (by decide) (by decide) (by decide) (by decide)
  | .bool true, depth, _, _, ws, rest, n + 1, hws, _, _ =>
    readValue_other hws (by decide) (by decide) (by decide) (by decide)
  | .int i, depth, _, _, ws, rest, n + 1, hws, hrest, _ => by
    obtain ⟨c, t, htext, hc⟩ := toStr_head i
    have hatom := readAtom_toStr i hrest
    have hne : ∀ d : Char, d.isDigit = false → d ≠ '-' → c ≠ d := fun d => ne_of_number hc
    rw [valText, Val.tree, ← hatom, htext, List.cons_append]
    exact readValue_other hws (not_isWs_of_number hc) (hne _ (by decide) (by decide))
      (hne _ (by decide) (by decide)) (hne _ (by decide) (by decide))
  | .string str, depth, _, _, ws, rest, n + 1, hws, _, _ => by
    have hlen := length_le_escape str
    have hlt : str.length < (jsonStringEscape str ++ '"' :: rest).length + 1 := by
      rw [List.length_append]
      omega
    simp only [valText, List.cons_append, List.append_assoc, List.nil_append]
    exact readValue_quote hws (readString_escape str hlt rest)
  | .array [], depth, _, _, ws, rest, n + 1, hws, _, _ =>
    readValue_noElems hws (expect_same Blank.nil (by decide) rest)
  | .array (v :: vs), depth, hmaps, hplain, ws, rest, n + 1, hws, _, hn => by
    simp only [valText, List.length_cons, List.length_append, List.length_nil] at hn
    have helems := readElems_elemsText (v :: vs) (depth + 1) hmaps hplain [] rest n
      (List.cons_ne_nil v vs) Blank.nil (by omega)
    have hclose : expect ']' (elemsText pretty indent (depth + 1) true (v :: vs) ++ ']' :: rest) =
        none := by
      obtain ⟨ws', hws', htext⟩ := elemsText_first pretty indent (depth + 1) v vs
      obtain ⟨c, t, hhead, hc, hne, -⟩ := valText_head pretty indent (depth + 1) v
      rw [htext, hhead, List.append_assoc, List.cons_append, List.cons_append,
        expect_other hws' hc hne]
    simp only [valText, List.cons_append, List.append_assoc, List.nil_append]
    exact readValue_elems hws hclose helems
  | .dict [], depth, _, _, ws, rest, n + 1, hws, _, _ => by
    simp only [valText, membersText, List.cons_append, List.append_assoc, List.nil_append]
    exact readValue_noMembers hws (expect_same (blank_lineText pretty indent depth) (by decide) rest)
  | .dict ((k, v) :: ms), depth, hmaps, hplain, ws, rest, n + 1, hws, _, hn => by
    simp only [valText, List.length_cons, List.length_append, List.length_nil] at hn
    have hmembers := readMembers_membersText ((k, v) :: ms) (depth + 1) hmaps.2 hplain depth [] rest
      n (List.cons_ne_nil _ ms) Blank.nil (by omega)
    have hclose : expect '}' (membersText pretty indent (depth + 1) true ((k, v) :: ms) ++
        (lineText pretty indent depth ++ '}' :: rest)) = none := by
      rw [membersText_first, List.append_assoc, List.cons_append,
        expect_other (blank_lineText _ _ _) (by decide) (by decide)]
    have hdict : dictOf (treeMembers ((k, v) :: ms)) = treeMembers ((k, v) :: ms) := by
      apply dictOf_sorted
      rw [treeMembers_keys]
      exact hmaps.1
    simp only [valText, Val.tree, List.cons_append, List.append_assoc, List.nil_append]
    rw [← hdict]
    exact readValue_members hws hclose hmembers

theorem readElems_elemsText : ∀ (vs : List Val) (depth : ℕ), ElemsMaps vs → elemsPlain vs = true →
    ∀ (ws rest : Text) (n : ℕ), vs ≠ [] → Blank ws →
    (elemsText pretty indent depth true vs).length < n →
    readElems n (ws ++ (elemsText pretty indent depth true vs ++ ']' :: rest)) =
      some (treeElems vs, rest)
  | [], _, _, _, _, _, _, hne, _, _ => absurd rfl hne
  | v :: vs, depth, hmaps, hplain, ws, rest, n, _, hws, hn => by
    obtain ⟨m, rfl⟩ : ∃ m, n = m + 1 := ⟨n - 1, by omega⟩
    obtain ⟨hv, hvs⟩ := Bool.and_eq_true_iff.1 hplain
    obtain ⟨ws', hws', htext⟩ := elemsText_first pretty indent depth v vs
    have hpos := valText_pos pretty indent depth v
    have hlen := congrArg List.length htext
    simp only [List.length_append] at hlen
    have hvalue := readValue_valText v depth hmaps.1 hv (ws ++ ws')
      (elemsText pretty indent depth false vs ++ ']' :: rest) m (hws.append hws')
      (endsNumber_elems depth vs rest) (by omega)
    rw [htext]
    simp only [List.append_assoc] at hvalue ⊢
    cases vs with
    | nil =>
      exact readElems_last hvalue (expect_same Blank.nil (by decide) rest)
    | cons v' vs =>
      have hlater := elemsText_later pretty indent depth v' vs
      have hlen' := congrArg List.length hlater
      simp only [List.length_cons, List.length_append] at hlen'
      have hrest := readElems_elemsText (v' :: vs) depth hmaps.2 hvs (blankText pretty) rest m
        (List.cons_ne_nil v' vs) blank_blankText (by omega)
      rw [hlater, List.cons_append, List.append_assoc] at hvalue ⊢
      exact readElems_more hvalue (expect_other Blank.nil (by decide) (by decide) _)
        (expect_same Blank.nil (by decide) _) hrest

theorem readMembers_membersText : ∀ (ms : List (Text × Val)) (depth : ℕ), MembersMaps ms →
    membersPlain ms = true → ∀ (depth' : ℕ) (ws rest : Text) (n : ℕ), ms ≠ [] → Blank ws →
    (membersText pretty indent depth true ms).length < n →
    readMembers n (ws ++ (membersText pretty indent depth true ms ++
      (lineText pretty indent depth' ++ '}' :: rest))) = some (treeMembers ms, rest)
  | [], _, _, _, _, _, _, _, hne, _, _ => absurd rfl hne
  | (k, v) :: ms, depth, hmaps, hplain, depth', ws, rest, n, _, hws, hn => by
    obtain ⟨m, rfl⟩ : ∃ m, n = m + 1 := ⟨n - 1, by omega⟩
    obtain ⟨hk, hvms⟩ := Bool.and_eq_true_iff.1 hplain
    obtain ⟨hv, hms⟩ := Bool.and_eq_true_iff.1 hvms
    have htext := membersText_first pretty indent depth k v ms
    have hpos := valText_pos pretty indent depth v
    have hlen := congrArg List.length htext
    simp only [List.length_append, List.length_cons] at hlen
    have hvalue := readValue_valText v depth hmaps.1 hv (blankText pretty)
      (membersText pretty indent depth false ms ++ (lineText pretty indent depth' ++ '}' :: rest)) m
      blank_blankText (endsNumber_members depth depth' ms rest) (by omega)
    have hopen : ∀ s, expect '"' (ws ++ lineText pretty indent depth ++ '"' :: s) = some s :=
      expect_same (hws.append (blank_lineText pretty indent depth)) (by decide)
    have hname : ∀ s, readString ((k ++ '"' :: s).length + 1) (k ++ '"' :: s) = some (k, s) := by
      intro s
      apply readString_plain hk
      rw [List.length_append]
      omega
    rw [htext]
    simp only [List.append_assoc, List.cons_append] at hvalue hopen ⊢
    cases ms with
    | nil =>
      exact readMembers_last (hopen _) (hname _) (expect_same Blank.nil (by decide) _) hvalue
        (expect_same (blank_lineText pretty indent depth') (by decide) rest)
    | cons m' ms =>
      have hlater := membersText_later pretty indent depth m' ms
      have hlen' := congrArg List.length hlater
      simp only [List.length_cons, List.length_append] at hlen'
      have hrest := readMembers_membersText (m' :: ms) depth hmaps.2 hms depth' (blankText pretty)
        rest m (List.cons_ne_nil m' ms) blank_blankText (by omega)
      rw [hlater, List.cons_append, List.append_assoc] at hvalue ⊢
      exact readMembers_more (hopen _) (hname _) (expect_same Blank.nil (by decide) _) hvalue
        (expect_other Blank.nil (by decide) (by decide) _) (expect_same Blank.nil (by decide) _)
        hrest

end

end reading

section marks
variable {pretty : Bool} {indent : ℕ}

theorem marks_eq_zero {s : Text} (h : ∀ c ∈ s, mark c = 0) : marks s = 0 := by
  induction s with
  | nil => rfl
  | cons c s ih =>
    rw [marks_cons, h c List.mem_cons_self, ih fun d hd => h d (List.mem_cons_of_mem _ hd)]

@[simp] theorem marks_blankText : marks (blankText pretty) = 0 := by
  cases pretty <;> decide

@[simp] theorem marks_sepText (first : Bool) : marks (sepText pretty first) = 0 := by
  cases first <;> cases pretty <;> decide

@[simp] theorem marks_lineText (depth : ℕ) : marks (lineText pretty indent depth) = 0 := by
  apply marks_eq_zero
  intro c hc
  cases pretty with
  | false => exact absurd hc List.not_mem_nil
  | true =>
    rw [lineText, if_pos rfl, List.mem_cons, List.mem_replicate] at hc
    rcases hc with rfl | ⟨-, rfl⟩ <;> decide

theorem marks_toStr (i : ℤ) : marks (toStr i) = 0 := by
  have hdigit : ∀ n, ∀ c ∈ Nat.toDigits 10 n, mark c = 0 := by
    intro n c hc
    have hc : c.isDigit = true := isDigit_of_mem hc
    rw [mark, if_neg]
    rintro (rfl | rfl | rfl) <;> cases hc
  apply marks_eq_zero
  rw [toStr]
  split_ifs
  · intro c hc
    cases List.mem_cons.1 hc with
    | inl heq => subst heq; decide
    | inr hmem => exact hdigit _ c hmem
  · exact hdigit _

theorem marks_hex4 {n : ℕ} (h : n < 32) : marks (hex4 n) = 0 := by
  have hall : ∀ m : Fin 32, marks (hex4 m) = 0 := by decide +kernel
  exact hall ⟨n, h⟩

theorem charMarks_plain {c : Char} (h : plainChar c = true) : charMarks c = mark c := by
  obtain ⟨hquote, hback, hlow⟩ := of_decide_eq_true h
  have hne : ∀ d : Char, d.toNat < 0x20 → c ≠ d := by
    rintro d hd rfl
    omega
  have hshort : ¬ (c = '\x08' ∨ c = '\x0c' ∨ c = '\n' ∨ c = '\r' ∨ c = '\t') := by
    rintro (hc | hc | hc | hc | hc) <;> exact hne _ (by decide) hc
  rw [charMarks, if_neg (not_or.2 ⟨hquote, hback⟩), if_neg hshort, if_neg (by omega)]

theorem mark_lt_charMarks {c : Char} (h : plainChar c = false) : mark c < charMarks c := by
  have hmark := mark_le_one c
  have hspecial : c = '"' ∨ c = '\\' ∨ c.toNat < 0x20 := by
    by_contra hnone
    simp only [not_or, not_lt] at hnone
    exact of_decide_eq_false h hnone
  rw [charMarks]
  split_ifs with hquote hshort hlow
  · omega
  · rcases hshort with rfl | rfl | rfl | rfl | rfl <;> decide
  · omega
  · rw [not_or] at hquote
    rcases hspecial with hc | hc | hc
    · exact absurd hc hquote.1
    · exact absurd hc hquote.2
    · exact absurd hc hlow

/-- An escape spends no more marks than its character needs. -/
theorem marks_escapeChar (c : Char) : marks (escapeChar c) ≤ charMarks c := by
  by_cases hplain : plainChar c = true
  · rw [escapeChar_plain hplain, charMarks_plain hplain, marks_cons, marks_nil, Nat.add_zero]
  · rw [escapeChar]
    split_ifs with hquote hback hb hf hn hr ht hlow
    · subst c; decide
    · subst c; decide
    · subst c; decide
    · subst c; decide
    · subst c; decide
    · subst c; decide
    · subst c; decide
    · have hhex : marks (hex4 c.toNat) = 0 := marks_hex4 (by omega)
      have hstart : marks ['\\', 'u'] = 2 := by decide
      rw [marks_append, hhex, hstart, charMarks, if_neg (not_or.2 ⟨hquote, hback⟩),
        if_neg (by simp [hb, hf, hn, hr, ht]), if_pos (by omega)]
    · rw [Bool.not_eq_true] at hplain
      rw [marks_cons, marks_nil]
      exact (mark_lt_charMarks hplain).le

theorem marks_escape (str : Text) : marks (jsonStringEscape str) ≤ textMarks str := by
  induction str with
  | nil => exact le_rfl
  | cons c str ih =>
    have hchar := marks_escapeChar c
    rw [jsonStringEscape] at ih ⊢
    rw [List.flatMap_cons, marks_append, textMarks_cons]
    omega

def lapse (good : Bool) : ℕ := if good then 0 else 1

theorem lapse_and (a b : Bool) : lapse (a && b) ≤ lapse a + lapse b := by
  cases a <;> cases b <;> decide

theorem marks_key (k : Text) : marks k + lapse (k.all plainChar) ≤ textMarks k := by
  induction k with
  | nil => exact le_rfl
  | cons c k ih =>
    have hboth := lapse_and (plainChar c) (k.all plainChar)
    have hchar : mark c + lapse (plainChar c) ≤ charMarks c := by
      cases hplain : plainChar c with
      | true => exact (charMarks_plain hplain).ge
      | false => exact mark_lt_charMarks hplain
    rw [marks_cons, textMarks_cons, List.all_cons]
    omega

mutual

/-- The text of a tree has no more marks than the tree needs, and too few of them if a key is not
    plain. -/
theorem marks_valText : ∀ (v : Val) (depth : ℕ),
    marks (valText pretty indent depth v) + lapse v.plainKeys ≤ v.tree.marks
  | .jsnull, _ => by
    simp only [valText, Val.tree, Json.marks, Val.plainKeys]
    decide
  | .int i, _ => by
    simp only [valText, Val.tree, Json.marks, Val.plainKeys, marks_toStr]
    decide
  | .bool b, _ => by
    simp only [valText, Val.tree, Json.marks, Val.plainKeys]
    cases b <;> decide
  | .string str, _ => by
    have hstr := marks_escape str
    have hquote : mark '"' = 1 := by decide
    have hnone : lapse true = 0 := rfl
    simp only [valText, Val.tree, Json.marks, Val.plainKeys, List.cons_append, marks_cons,
      marks_append, marks_nil, hquote, hnone]
    omega
  | .array vs, depth => by
    have helems := marks_elemsText vs (depth + 1) true
    have hopen : mark '[' = 0 := by decide
    have hclose : mark ']' = 0 := by decide
    simp only [valText, Val.tree, Json.marks, Val.plainKeys, marks_cons, marks_append, marks_nil,
      hopen, hclose]
    omega
  | .dict ms, depth => by
    have hmembers := marks_membersText ms (depth + 1) true
    have hopen : mark '\x7b' = 0 := by decide
    have hclose : mark '\x7d' = 0 := by decide
    simp only [valText, Val.tree, Json.marks, Val.plainKeys, marks_cons, marks_append, marks_nil,
      marks_lineText, hopen, hclose]
    omega

theorem marks_elemsText : ∀ (vs : List Val) (depth : ℕ) (first : Bool),
    marks (elemsText pretty indent depth first vs) + lapse (elemsPlain vs) ≤
      elemMarks (treeElems vs)
  | [], _, _ => le_rfl
  | v :: vs, depth, first => by
    have hv := marks_valText v depth
    have hvs := marks_elemsText vs depth false
    have hboth := lapse_and v.plainKeys (elemsPlain vs)
    have hlead : marks (if v.isDict then lineText pretty indent depth else []) = 0 := by
      split_ifs
      · exact marks_lineText depth
      · rfl
    simp only [elemsText, treeElems, elemMarks, elemsPlain, marks_append, marks_sepText, hlead]
    omega

theorem marks_membersText : ∀ (ms : List (Text × Val)) (depth : ℕ) (first : Bool),
    marks (membersText pretty indent depth first ms) + lapse (membersPlain ms) ≤
      memberMarks (treeMembers ms)
  | [], _, _ => le_rfl
  | (k, v) :: ms, depth, first => by
    have hk := marks_key k
    have hv := marks_valText v depth
    have hms := marks_membersText ms depth false
    have hall := lapse_and (k.all plainChar) (v.plainKeys && membersPlain ms)
    have hboth := lapse_and v.plainKeys (membersPlain ms)
    have hquote : mark '"' = 1 := by decide
    have hcolon : mark ':' = 0 := by decide
    simp only [membersText, treeMembers, memberMarks, membersPlain, marks_append, marks_cons,
      marks_sepText, marks_lineText, marks_blankText, hquote, hcolon]
    omega

end

end marks

section roundTrip
variable (pretty : Bool) (indent : ℕ)

/-- The writer's text is read as the tree that was written exactly when the keys are plain. -/
theorem write_parses_iff (t : RootedTree) :
    (∃ out, write pretty indent t.val = .ok out ∧ parse out = some t.val.tree) ↔
      t.val.plainKeys = true := by
  rw [write_text t.rooted]
  constructor
  · rintro ⟨out, hout, hparse⟩
    obtain rfl := Except.ok.inj hout
    have hneeded := parse_marks hparse
    have hspent : marks (valText pretty indent 0 t.val) + lapse t.val.plainKeys ≤
        t.val.tree.marks := marks_valText t.val 0
    by_contra hkeys
    rw [Bool.not_eq_true] at hkeys
    rw [hkeys] at hspent
    have hone : lapse false = 1 := rfl
    omega
  · intro hkeys
    refine ⟨_, rfl, ?_⟩
    have hread : readValue ((valText pretty indent 0 t.val).length + 1)
        ([] ++ (valText pretty indent 0 t.val ++ [])) = some (t.val.tree, []) :=
      readValue_valText t.val 0 t.maps hkeys [] [] _ Blank.nil EndsNumber.nil (Nat.le_succ _)
    rw [List.nil_append, List.append_nil] at hread
    rw [parse, hread]
    rfl

def quoteKey : RootedTree where
  val := .dict [(['"'], .int 1)]
  maps := ⟨List.pairwise_singleton _ _, trivial, trivial⟩
  rooted := rfl

theorem write_not_parsed :
    ¬ ∃ out, write false 2 quoteKey.val = .ok out ∧ parse out = some quoteKey.val.tree := by
  rintro ⟨out, hwrite, hparse⟩
  rw [write_text quoteKey.rooted] at hwrite
  obtain rfl := Except.ok.inj hwrite
  have hnone : (parse (valText false 2 0 quoteKey.val)).isNone = true := by decide +kernel
  rw [hparse] at hnone
  cases hnone

end roundTrip

end Pfaedle.JsonWriter

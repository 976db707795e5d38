import Pfaedle.JsonLayout
import Pfaedle.JsonRead

set_option autoImplicit false

/-!
# What a reader makes of the writer's strings and blanks

An escaped string is read back, a plain key is its own escape, and what the layout puts between
the tokens is blank.
-/
namespace Pfaedle.JsonWriter
open Gtfs JsonText

section escape

theorem hex4_eq {n : ℕ} (h : n < 32) :
    hex4 n = ['0', '0', Nat.digitChar (n / 16), Nat.digitChar (n % 16)] := by
  have hall : ∀ m : Fin 32,
      hex4 m = ['0', '0', Nat.digitChar (m / 16), Nat.digitChar (m % 16)] := by decide +kernel
  exact hall ⟨n, h⟩

theorem hexVal_digitChar {n : ℕ} (h : n < 16) : hexVal (Nat.digitChar n) = some n := by
  have hall : ∀ m : Fin 16, hexVal (Nat.digitChar m) = some (m : ℕ) := by decide +kernel
  exact hall ⟨n, h⟩

theorem readHex4_hex4 {n : ℕ} (h : n < 32) (s : Text) : readHex4 (hex4 n ++ s) = some (n, s) := by
  have hzero : hexVal '0' = some 0 := by decide
  have hhigh : hexVal (Nat.digitChar (n / 16)) = some (n / 16) := hexVal_digitChar (by omega)
  have hlow : hexVal (Nat.digitChar (n % 16)) = some (n % 16) := hexVal_digitChar (by omega)
  rw [hex4_eq h]
  simp only [List.cons_append, List.nil_append, readHex4, hzero, hhigh, hlow]
  congr 2
  omega

theorem readUnicode_hex4 {c : Char} (h : c.toNat < 32) (s : Text) :
    readUnicode (hex4 c.toNat ++ s) = some (c, s) := by
  rw [readUnicode, readHex4_hex4 h, Option.bind_some, if_neg (by omega), if_neg (by omega),
    Char.ofNat_toNat]

theorem escapeChar_plain {c : Char} (h : plainChar c = true) : escapeChar c = [c] := by
  obtain ⟨hquote, hback, hlow⟩ := of_decide_eq_true h
  have hne : ∀ d : Char, d.toNat < 0x20 → c ≠ d := by
    rintro d hd rfl
    omega
  rw [escapeChar, if_neg hquote, if_neg hback, if_neg (hne _ (by decide)),
    if_neg (hne _ (by decide)), if_neg (hne _ (by decide)), if_neg (hne _ (by decide)),
    if_neg (hne _ (by decide)), if_neg (by omega)]

theorem jsonStringEscape_plain {k : Text} (h : k.all plainChar = true) :
    jsonStringEscape k = k := by
  rw [List.all_eq_true] at h
  induction k with
  | nil => rfl
  | cons c k ih =>
    rw [jsonStringEscape, List.flatMap_cons, escapeChar_plain (h c List.mem_cons_self)]
    exact congrArg (c :: ·) (ih fun d hd => h d (List.mem_cons_of_mem _ hd))

/-- An escaped character begins with something else than a quotation mark and is read back. -/
theorem readChar_escapeChar (c : Char) (s : Text) :
    ∃ d t, escapeChar c ++ s = d :: t ∧ d ≠ '"' ∧ readChar (d :: t) = some (c, s) := by
  by_cases hplain : plainChar c = true
  · refine ⟨c, s, ?_, (of_decide_eq_true hplain).1, readChar_plain hplain s⟩
    rw [escapeChar_plain hplain]
    rfl
  · have hshort : ∀ e d : Char, e ≠ 'u' → simpleEscape e = some d →
        readChar ('\\' :: e :: s) = some (d, s) := by
      intro e d hu he
      change (if e = 'u' then readUnicode s else (simpleEscape e).map (·, s)) = _
      rw [if_neg hu, he]
      rfl
    rw [escapeChar]
    split_ifs with hquote hback hb hf hn hr ht hlow
    · exact ⟨'\\', '"' :: s, rfl, by decide, hquote ▸ hshort '"' '"' (by decide) (by decide)⟩
    · exact ⟨'\\', '\\' :: s, rfl, by decide, hback ▸ hshort '\\' '\\' (by decide) (by decide)⟩
    · exact ⟨'\\', 'b' :: s, rfl, by decide, hb ▸ hshort 'b' '\x08' (by decide) (by decide)⟩
    · exact ⟨'\\', 'f' :: s, rfl, by decide, hf ▸ hshort 'f' '\x0c' (by decide) (by decide)⟩
    · exact ⟨'\\', 'n' :: s, rfl, by decide, hn ▸ hshort 'n' '\n' (by decide) (by decide)⟩
    · exact ⟨'\\', 'r' :: s, rfl, by decide, hr ▸ hshort 'r' '\r' (by decide) (by decide)⟩
    · exact ⟨'\\', 't' :: s, rfl, by decide, ht ▸ hshort 't' '\t' (by decide) (by decide)⟩
    · refine ⟨'\\', 'u' :: (hex4 c.toNat ++ s), by simp, by decide, ?_⟩
      exact readUnicode_hex4 (by omega) s
    · exfalso
      apply hplain
      rw [plainChar, decide_eq_true_eq]
      exact ⟨hquote, hback, by omega⟩

theorem readString_escape (str : Text) {n : ℕ} (h : str.length < n) (rest : Text) :
    readString n (jsonStringEscape str ++ '"' :: rest) = some (str, rest) := by
  induction str generalizing n with
  | nil =>
    obtain ⟨m, rfl⟩ : ∃ m, n = m + 1 := ⟨n - 1, by omega⟩
    exact readString_quote m rest
  | cons c str ih =>
    obtain ⟨m, rfl⟩ : ∃ m, n = m + 1 := ⟨n - 1, by omega⟩
    obtain ⟨d, t, hsplit, hd, hread⟩ :=
      readChar_escapeChar c (jsonStringEscape str ++ '"' :: rest)
    rw [jsonStringEscape, List.flatMap_cons, List.append_assoc]
    rw [jsonStringEscape] at hsplit hread ih
    rw [hsplit, readString_cons m hd hread, ih (by simpa using h)]
    rfl

theorem readString_plain {k : Text} (hk : k.all plainChar = true) {n : ℕ} (h : k.length < n)
    (rest : Text) : readString n (k ++ '"' :: rest) = some (k, rest) := by
  have hread := readString_escape k h rest
  rwa [jsonStringEscape_plain hk] at hread

theorem length_le_escape (str : Text) : str.length ≤ (jsonStringEscape str).length := by
  induction str with
  | nil => exact le_rfl
  | cons c str ih =>
    obtain ⟨d, t, hsplit, -, -⟩ := readChar_escapeChar c []
    rw [List.append_nil] at hsplit
    rw [jsonStringEscape] at ih ⊢
    rw [List.flatMap_cons, hsplit, List.length_append]
    simp only [List.length_cons]
    omega

end escape

section layout
variable {pretty : Bool} {indent : ℕ}

theorem blank_blankText : Blank (blankText pretty) := by
  cases pretty <;> simp [Blank, blankText, isWs]

variable (pretty indent) in
theorem blank_lineText (depth : ℕ) : Blank (lineText pretty indent depth) := by
  cases pretty with
  | false => exact Blank.nil
  | true =>
    intro c hc
    rw [lineText, if_pos rfl, List.mem_cons, List.mem_replicate] at hc
    rcases hc with rfl | ⟨-, rfl⟩ <;> decide

variable (pretty indent) in
theorem elemsText_first (depth : ℕ) (v : Val) (vs : List Val) :
    ∃ ws, Blank ws ∧ elemsText pretty indent depth true (v :: vs) =
      ws ++ (valText pretty indent depth v ++ elemsText pretty indent depth false vs) := by
  refine ⟨if v.isDict then lineText pretty indent depth else [], ?_, ?_⟩
  · split_ifs
    · exact blank_lineText pretty indent depth
    · exact Blank.nil
  · simp [elemsText, sepText]

variable (pretty indent) in
theorem membersText_first (depth : ℕ) (k : Text) (v : Val) (ms : List (Text × Val)) :
    membersText pretty indent depth true ((k, v) :: ms) =
      lineText pretty indent depth ++ '"' :: (k ++ '"' :: ':' :: (blankText pretty ++
        (valText pretty indent depth v ++ membersText pretty indent depth false ms))) := by
  simp [membersText, sepText]

variable (pretty indent) in
theorem elemsText_later (depth : ℕ) (v : Val) (vs : List Val) :
    elemsText pretty indent depth false (v :: vs) =
      ',' :: (blankText pretty ++ elemsText pretty indent depth true (v :: vs)) := by
  simp [elemsText, sepText]

variable (pretty indent) in
theorem membersText_later (depth : ℕ) (m : Text × Val) (ms : List (Text × Val)) :
    membersText pretty indent depth false (m :: ms) =
      ',' :: (blankText pretty ++ membersText pretty indent depth true (m :: ms)) := by
  simp [membersText, sepText]

theorem toStr_head (i : ℤ) : ∃ c t, toStr i = c :: t ∧ (c.isDigit = true ∨ c = '-') := by
  rw [toStr]
  split_ifs with hneg
  · exact ⟨'-', _, rfl, Or.inr rfl⟩
  · cases hdigits : Nat.toDigits 10 i.natAbs with
    | nil => exact absurd hdigits Nat.toDigits_ne_nil
    | cons c digits =>
      exact ⟨c, digits, rfl, Or.inl (isDigit_of_mem (hdigits ▸ List.mem_cons_self))⟩

theorem ne_of_number {c d : Char} (h : c.isDigit = true ∨ c = '-') (hd : d.isDigit = false)
    (hne : d ≠ '-') : c ≠ d := by
  rintro rfl
  exact h.elim (fun hdigit => Bool.false_ne_true (hd.symm.trans hdigit)) hne

theorem not_isWs_of_number {c : Char} (h : c.isDigit = true ∨ c = '-') : isWs c = false := by
  simp [isWs, ne_of_number h]

variable (pretty indent) in
theorem valText_head (depth : ℕ) (v : Val) :
    ∃ c t, valText pretty indent depth v = c :: t ∧ isWs c = false ∧ c ≠ ']' ∧ c ≠ '}' := by
  cases v with
  | int i =>
    obtain ⟨c, t, htext, hc⟩ := toStr_head i
    rw [valText]
    exact ⟨c, t, htext, not_isWs_of_number hc, ne_of_number hc (by decide) (by decide),
      ne_of_number hc (by decide) (by decide)⟩
  | bool b =>
    cases b
    · exact ⟨'f', ['a', 'l', 's', 'e'], rfl, by decide, by decide, by decide⟩
    · exact ⟨'t', ['r', 'u', 'e'], rfl, by decide, by decide, by decide⟩
  | jsnull => exact ⟨'n', ['u', 'l', 'l'], rfl, by decide, by decide, by decide⟩
  | string str => exact ⟨'"', _, rfl, by decide, by decide, by decide⟩
  | array arr => exact ⟨'[', _, rfl, by decide, by decide, by decide⟩
  | dict dict => exact ⟨'{', _, rfl, by decide, by decide, by decide⟩

variable (pretty indent) in
theorem valText_pos (depth : ℕ) (v : Val) : 0 < (valText pretty indent depth v).length := by
  obtain ⟨c, t, htext, -⟩ := valText_head pretty indent depth v
  rw [htext]
  exact Nat.succ_pos _

theorem endsNumber_elems (depth : ℕ) (vs : List Val) (rest : Text) :
    EndsNumber (elemsText pretty indent depth false vs ++ ']' :: rest) := by
  cases vs with
  | nil => exact EndsNumber.cons (by decide) rest
  | cons v vs =>
    rw [elemsText_later]
    exact EndsNumber.cons (by decide) _

theorem endsNumber_members (depth depth' : ℕ) (ms : List (Text × Val)) (rest : Text) :
    EndsNumber (membersText pretty indent depth false ms ++
      (lineText pretty indent depth' ++ '}' :: rest)) := by
  cases ms with
  | nil =>
    rw [membersText, List.nil_append]
    cases pretty
    · exact EndsNumber.cons (by decide) rest
    · exact EndsNumber.cons (by decide) _
  | cons m ms =>
    rw [membersText_later]
    exact EndsNumber.cons (by decide) _

end layout

end Pfaedle.JsonWriter

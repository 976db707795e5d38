import Pfaedle.JsonText

set_option autoImplicit false

/-!
# Texts that are read

Blanks ahead of a token do not matter, a number ends where no digit follows, and members that come
in the order of their keys are a map already.
-/
namespace Pfaedle.JsonText

section blanks

def Blank (ws : List Char) : Prop := ∀ c ∈ ws, isWs c = true

theorem Blank.nil : Blank [] := fun _ h => absurd h List.not_mem_nil

theorem Blank.append {ws ws' : List Char} (h : Blank ws) (h' : Blank ws') : Blank (ws ++ ws') := by
  intro c hc
  cases List.mem_append.1 hc with
  | inl hleft => exact h c hleft
  | inr hright => exact h' c hright

theorem skipWs_cons {c : Char} (h : isWs c = false) (s : List Char) : skipWs (c :: s) = c :: s := by
  rw [skipWs, List.dropWhile_cons, h]
  rfl

theorem skipWs_blank {ws : List Char} (h : Blank ws) (s : List Char) :
    skipWs (ws ++ s) = skipWs s := by
  induction ws with
  | nil => rfl
  | cons c ws ih =>
    rw [List.cons_append, skipWs, List.dropWhile_cons, if_pos (h c List.mem_cons_self)]
    exact ih fun d hd => h d (List.mem_cons_of_mem _ hd)

theorem expect_blank {ws : List Char} (h : Blank ws) (c : Char) {d : Char} (hd : isWs d = false)
    (s : List Char) : expect c (ws ++ d :: s) = if d = c then some s else none := by
  simp [expect, skipWs_blank h, skipWs_cons hd]

theorem expect_same {ws : List Char} (h : Blank ws) {c : Char} (hc : isWs c = false)
    (s : List Char) : expect c (ws ++ c :: s) = some s := by
  rw [expect_blank h c hc, if_pos rfl]

theorem expect_other {ws : List Char} (h : Blank ws) {c d : Char} (hd : isWs d = false)
    (hne : d ≠ c) (s : List Char) : expect c (ws ++ d :: s) = none := by
  rw [expect_blank h c hd, if_neg hne]

end blanks

section strings

def plainChar (c : Char) : Bool := c ≠ '"' ∧ c ≠ '\\' ∧ 0x20 ≤ c.toNat

theorem readChar_plain {c : Char} (h : plainChar c = true) (s : List Char) :
    readChar (c :: s) = some (c, s) := by
  obtain ⟨hquote, hback, hlow⟩ := of_decide_eq_true h
  change (if c = '\\' then _ else if c = '"' ∨ c.toNat < 0x20 then none else some (c, s)) = _
  rw [if_neg hback, if_neg]
  rintro (hc | hc)
  · exact hquote hc
  · omega

theorem readString_quote (n : ℕ) (s : List Char) :
    readString (n + 1) ('"' :: s) = some ([], s) := by
  simp [readString]

theorem readString_cons (n : ℕ) {c d : Char} {s t : List Char} (hd : d ≠ '"')
    (h : readChar (d :: s) = some (c, t)) :
    readString (n + 1) (d :: s) = (readString n t).map fun q => (c :: q.1, q.2) := by
  rw [readString, if_neg, h]
  · rfl
  · intro heq
    exact hd (Option.some.inj heq)

end strings

section numbers

def EndsNumber (s : List Char) : Prop :=
  ∀ c, s.head? = some c → c.isDigit = false ∧ c ≠ '.' ∧ c ≠ 'e' ∧ c ≠ 'E'

theorem EndsNumber.nil : EndsNumber [] := fun _ h => by cases h

theorem EndsNumber.cons {c : Char} (h : c.isDigit = false ∧ c ≠ '.' ∧ c ≠ 'e' ∧ c ≠ 'E')
    (s : List Char) : EndsNumber (c :: s) := by
  intro d hd
  rw [← Option.some.inj hd]
  exact h

theorem EndsNumber.takeWhile {s : List Char} (h : EndsNumber s) :
    s.takeWhile Char.isDigit = [] := by
  cases s with
  | nil => rfl
  | cons c s => rw [List.takeWhile_cons, (h c rfl).1]; rfl

theorem EndsNumber.dropWhile {s : List Char} (h : EndsNumber s) :
    s.dropWhile Char.isDigit = s := by
  cases s with
  | nil => rfl
  | cons c s => rw [List.dropWhile_cons, (h c rfl).1]; rfl

theorem EndsNumber.fraction {s : List Char} (h : EndsNumber s) : readFraction s = some ([], s) := by
  cases s with
  | nil => rfl
  | cons c s =>
    have hc := (h c rfl).2.1
    rw [readFraction]
    rintro t ⟨⟩
    exact hc rfl

theorem EndsNumber.exponent {s : List Char} (h : EndsNumber s) :
    readExponent s = some (none, s) := by
  cases s with
  | nil => rfl
  | cons c s =>
    obtain ⟨-, -, he, hE⟩ := h c rfl
    change (if c = 'e' ∨ c = 'E' then _ else some (none, c :: s)) = _
    exact if_neg (not_or.2 ⟨he, hE⟩)

theorem isDigit_of_mem {n : ℕ} {c : Char} (h : c ∈ Nat.toDigits 10 n) : c.isDigit = true :=
  Nat.isDigit_of_mem_toDigits (by omega) (by omega) h

theorem digitChar_ne_zero {n : ℕ} (hpos : 0 < n) (hlt : n < 10) : Nat.digitChar n ≠ '0' := by
  have hall : ∀ m : Fin 10, 0 < (m : ℕ) → Nat.digitChar m ≠ '0' := by decide
  exact hall ⟨n, hlt⟩ hpos

theorem toDigits_head (n : ℕ) (h : (Nat.toDigits 10 n).head? = some '0') : n = 0 := by
  induction n using Nat.strongRecOn with
  | ind n ih =>
    by_cases hlt : n < 10
    · rw [Nat.toDigits_of_lt_base hlt] at h
      by_contra hne
      exact digitChar_ne_zero (Nat.pos_of_ne_zero hne) hlt (Option.some.inj h)
    · have hle : 10 ≤ n := by omega
      have hhead : (Nat.toDigits 10 (n / 10) ++ [Nat.digitChar (n % 10)]).head? =
          (Nat.toDigits 10 (n / 10)).head? := List.head?_append_of_ne_nil _ Nat.toDigits_ne_nil
      rw [Nat.toDigits_of_base_le (by omega) hle, hhead] at h
      have hzero := ih (n / 10) (by omega) h
      omega

theorem readUnsigned_toDigits (negative : Bool) (n : ℕ) {rest : List Char} (h : EndsNumber rest) :
    readUnsigned negative (Nat.toDigits 10 n ++ rest) =
      some (.int (if negative then -(n : ℤ) else n), rest) := by
  have htake : (Nat.toDigits 10 n ++ rest).takeWhile Char.isDigit = Nat.toDigits 10 n := by
    rw [List.takeWhile_append_of_pos fun c hc => isDigit_of_mem hc, h.takeWhile, List.append_nil]
  have hdrop : (Nat.toDigits 10 n ++ rest).dropWhile Char.isDigit = rest := by
    rw [List.dropWhile_append_of_pos fun c hc => isDigit_of_mem hc, h.dropWhile]
  have hstart : ¬ (Nat.toDigits 10 n = [] ∨
      ((Nat.toDigits 10 n).head? = some '0' ∧ Nat.toDigits 10 n ≠ ['0'])) := by
    rintro (hnil | ⟨hhead, hne⟩)
    · exact Nat.toDigits_ne_nil hnil
    · rw [toDigits_head n hhead] at hne
      exact hne (Nat.toDigits_zero 10)
  rw [readUnsigned]
  dsimp only
  rw [htake, if_neg hstart, hdrop, h.fraction]
  simp [h.exponent, Nat.ofDigitChars_ten_toDigits]

theorem readNumber_neg (n : ℕ) {rest : List Char} (h : EndsNumber rest) :
    readNumber ('-' :: (Nat.toDigits 10 n ++ rest)) = some (.int (-(n : ℤ)), rest) :=
  readUnsigned_toDigits true n h

theorem readNumber_nat (n : ℕ) {rest : List Char} (h : EndsNumber rest) :
    readNumber (Nat.toDigits 10 n ++ rest) = some (.int n, rest) := by
  have hread := readUnsigned_toDigits false n h
  cases hdigits : Nat.toDigits 10 n with
  | nil => exact absurd hdigits Nat.toDigits_ne_nil
  | cons c digits =>
    have hc : c.isDigit = true := isDigit_of_mem (hdigits ▸ List.mem_cons_self)
    rw [hdigits] at hread
    rw [List.cons_append, readNumber]
    · exact hread
    · rintro t ⟨⟩
      exact absurd hc (by decide)

/-- What begins with a digit or a minus sign is no literal name. -/
theorem readAtom_number {c : Char} (h : c.isDigit = true ∨ c = '-') (s : List Char) :
    readAtom (c :: s) = readNumber (c :: s) := by
  have hname : ∀ d name, d.isDigit = false → d ≠ '-' → ¬ (d :: name) <+: c :: s := by
    rintro d name hd hne ⟨t, ht⟩
    rw [List.cons_append] at ht
    obtain rfl := (List.cons.inj ht).1
    exact h.elim (fun hdigit => Bool.false_ne_true (hd.symm.trans hdigit)) hne
  have htrue : ¬ "true".toList <+: c :: s := hname 't' ['r', 'u', 'e'] (by decide) (by decide)
  have hfalse : ¬ "false".toList <+: c :: s :=
    hname 'f' ['a', 'l', 's', 'e'] (by decide) (by decide)
  have hnull : ¬ "null".toList <+: c :: s := hname 'n' ['u', 'l', 'l'] (by decide) (by decide)
  rw [readAtom, if_neg htrue, if_neg hfalse, if_neg hnull]

end numbers

section values

theorem dictOf_sorted {ms : List (List Char × Json)}
    (h : (ms.map Prod.fst).Pairwise (· < ·)) : dictOf ms = ms := by
  have hfold : ∀ m : List (List Char × Json), ((m ++ ms).map Prod.fst).Pairwise (· < ·) →
      ms.foldl (fun m p => SortedMap.alterEntries p.1 (fun _ => p.2) m) m = m ++ ms := by
    induction ms with
    | nil => exact fun m _ => (List.append_nil m).symm
    | cons p ms ih =>
      intro m hm
      have hlast : ∀ e ∈ m, e.1 < p.1 := by
        intro e he
        rw [List.map_append, List.pairwise_append] at hm
        exact hm.2.2 _ (List.mem_map_of_mem he) _ (by simp)
      rw [List.append_cons] at hm
      rw [List.foldl_cons, SortedMap.alterEntries_last hlast,
        ih (List.pairwise_cons.1 h).2 _ hm, List.append_assoc]
      rfl
  exact hfold [] h

section steps
variable {n : ℕ} {ws s t rest k : List Char} {v : Json}

theorem readValue_quote (hws : Blank ws) (hk : readString (s.length + 1) s = some (k, rest)) :
    readValue (n + 1) (ws ++ '"' :: s) = some (.str k, rest) := by
  have hquote : expect '"' (ws ++ '"' :: s) = some s := expect_same hws (by decide) s
  simp only [readValue, hquote, hk, Option.map_some]

theorem readValue_other (hws : Blank ws) {c : Char} (hc : isWs c = false) (hquote : c ≠ '"')
    (hopen : c ≠ '[') (hbrace : c ≠ '{') : readValue (n + 1) (ws ++ c :: s) = readAtom (c :: s) := by
  simp only [readValue, expect_other hws hc hquote, expect_other hws hc hopen,
    expect_other hws hc hbrace, skipWs_blank hws, skipWs_cons hc]

theorem readValue_noElems (hws : Blank ws) (hclose : expect ']' s = some rest) :
    readValue (n + 1) (ws ++ '[' :: s) = some (.arr [], rest) := by
  have hquote : expect '"' (ws ++ '[' :: s) = none := expect_other hws (by decide) (by decide) s
  have hopen : expect '[' (ws ++ '[' :: s) = some s := expect_same hws (by decide) s
  have hbrace : expect '{' (ws ++ '[' :: s) = none := expect_other hws (by decide) (by decide) s
  simp only [readValue, hquote, hopen, hbrace, hclose]

theorem readValue_elems {vs : List Json} (hws : Blank ws) (hclose : expect ']' s = none)
    (hvs : readElems n s = some (vs, rest)) :
    readValue (n + 1) (ws ++ '[' :: s) = some (.arr vs, rest) := by
  have hquote : expect '"' (ws ++ '[' :: s) = none := expect_other hws (by decide) (by decide) s
  have hopen : expect '[' (ws ++ '[' :: s) = some s := expect_same hws (by decide) s
  have hbrace : expect '{' (ws ++ '[' :: s) = none := expect_other hws (by decide) (by decide) s
  simp only [readValue, hquote, hopen, hbrace, hclose, hvs, Option.map_some]

theorem readValue_noMembers (hws : Blank ws) (hclose : expect '}' s = some rest) :
    readValue (n + 1) (ws ++ '{' :: s) = some (.obj [], rest) := by
  have hquote : expect '"' (ws ++ '{' :: s) = none := expect_other hws (by decide) (by decide) s
  have hopen : expect '[' (ws ++ '{' :: s) = none := expect_other hws (by decide) (by decide) s
  have hbrace : expect '{' (ws ++ '{' :: s) = some s := expect_same hws (by decide) s
  simp only [readValue, hquote, hopen, hbrace, hclose]

theorem readValue_members {ms : List (List Char × Json)} (hws : Blank ws)
    (hclose : expect '}' s = none) (hms : readMembers n s = some (ms, rest)) :
    readValue (n + 1) (ws ++ '{' :: s) = some (.obj (dictOf ms), rest) := by
  have hquote : expect '"' (ws ++ '{' :: s) = none := expect_other hws (by decide) (by decide) s
  have hopen : expect '[' (ws ++ '{' :: s) = none := expect_other hws (by decide) (by decide) s
  have hbrace : expect '{' (ws ++ '{' :: s) = some s := expect_same hws (by decide) s
  simp only [readValue, hquote, hopen, hbrace, hclose, hms, Option.map_some]

theorem readElems_last (hv : readValue n s = some (v, t)) (hclose : expect ']' t = some rest) :
    readElems (n + 1) s = some ([v], rest) := by
  simp only [readElems, hv, Option.bind_some, hclose]

theorem readElems_more {t' : List Char} {vs : List Json} (hv : readValue n s = some (v, t))
    (hclose : expect ']' t = none) (hcomma : expect ',' t = some t')
    (hvs : readElems n t' = some (vs, rest)) : readElems (n + 1) s = some (v :: vs, rest) := by
  simp only [readElems, hv, Option.bind_some, hclose, hcomma, hvs, Option.map_some]

variable {s₁ s₂ s₃ : List Char}

theorem readMembers_last (hopen : expect '"' s = some s₁)
    (hk : readString (s₁.length + 1) s₁ = some (k, s₂)) (hcolon : expect ':' s₂ = some s₃)
    (hv : readValue n s₃ = some (v, t)) (hclose : expect '}' t = some rest) :
    readMembers (n + 1) s = some ([(k, v)], rest) := by
  simp only [readMembers, hopen, hk, hcolon, hv, Option.bind_some, hclose]

theorem readMembers_more {t' : List Char} {ms : List (List Char × Json)}
    (hopen : expect '"' s = some s₁) (hk : readString (s₁.length + 1) s₁ = some (k, s₂))
    (hcolon : expect ':' s₂ = some s₃) (hv : readValue n s₃ = some (v, t))
    (hclose : expect '}' t = none) (hcomma : expect ',' t = some t')
    (hms : readMembers n t' = some (ms, rest)) :
    readMembers (n + 1) s = some ((k, v) :: ms, rest) := by
  simp only [readMembers, hopen, hk, hcolon, hv, Option.bind_some, hclose, hcomma, hms,
    Option.map_some]

end steps

end values

end Pfaedle.JsonText

import Pfaedle.JsonText

set_option autoImplicit false

/-!
# How many marks a JSON text needs

The marks of a text are its quotation marks, its backslashes and its letters `u`. Numbers, blanks
and brackets have none, so that the marks of a text do not depend on its layout, and every text
of a value has at least the marks that its strings and its names need.
-/
namespace Pfaedle.JsonText

section marks

def mark (c : Char) : ℕ := if c = '"' ∨ c = '\\' ∨ c = 'u' then 1 else 0

def marks : List Char → ℕ
  | [] => 0
  | c :: s => mark c + marks s

def charMarks (c : Char) : ℕ :=
  if c = '"' ∨ c = '\\' then 2
  else if c = '\x08' ∨ c = '\x0c' ∨ c = '\n' ∨ c = '\r' ∨ c = '\t' then 1
  else if c.toNat < 0x20 then 2
  else mark c

def textMarks : List Char → ℕ
  | [] => 0
  | c :: s => charMarks c + textMarks s

mutual

def Json.marks : Json → ℕ
  | .null => 1
  | .bool b => if b then 1 else 0
  | .int _ => 0
  | .real _ _ => 0
  | .str s => textMarks s + 2
  | .arr vs => elemMarks vs
  | .obj ms => memberMarks ms

def elemMarks : List Json → ℕ
  | [] => 0
  | v :: vs => v.marks + elemMarks vs

def memberMarks : List (List Char × Json) → ℕ
  | [] => 0
  | (k, v) :: ms => textMarks k + 2 + v.marks + memberMarks ms

end

@[simp] theorem marks_nil : marks [] = 0 := rfl

@[simp] theorem marks_cons (c : Char) (s : List Char) : marks (c :: s) = mark c + marks s :=
  rfl

@[simp] theorem marks_append (s t : List Char) : marks (s ++ t) = marks s + marks t := by
  induction s with
  | nil => simp
  | cons c s ih => simp [ih, Nat.add_assoc]

@[simp] theorem textMarks_nil : textMarks [] = 0 := rfl

@[simp] theorem textMarks_cons (c : Char) (s : List Char) :
    textMarks (c :: s) = charMarks c + textMarks s := rfl

theorem marks_le_of_suffix {s t : List Char} (h : s <:+ t) : marks s ≤ marks t := by
  obtain ⟨r, rfl⟩ := h
  rw [marks_append]
  omega

theorem mark_le_one (c : Char) : mark c ≤ 1 := by
  rw [mark]
  split_ifs <;> omega

theorem charMarks_le_two (c : Char) : charMarks c ≤ 2 := by
  have hmark := mark_le_one c
  rw [charMarks]
  split_ifs <;> omega

theorem marks_skipWs_le (s : List Char) : marks (skipWs s) ≤ marks s :=
  marks_le_of_suffix (List.dropWhile_suffix isWs)

theorem expect_marks {c : Char} {s rest : List Char} (h : expect c s = some rest) :
    marks rest + mark c ≤ marks s := by
  have hskip := marks_skipWs_le s
  rw [expect] at h
  split_ifs at h with hhead
  cases hs : skipWs s with
  | nil =>
    rw [hs] at hhead
    cases hhead
  | cons d t =>
    rw [hs] at h hhead hskip
    obtain rfl : t = rest := Option.some.inj h
    obtain rfl : d = c := Option.some.inj hhead
    rw [marks_cons] at hskip
    omega

end marks

section strings

theorem readHex4_marks {s rest : List Char} {n : ℕ} (h : readHex4 s = some (n, rest)) :
    marks rest ≤ marks s := by
  unfold readHex4 at h
  split at h
  · split at h
    · obtain ⟨-, rfl⟩ := Prod.mk.inj (Option.some.inj h)
      simp only [marks_cons]
      omega
    · cases h
  · cases h

theorem readLow_marks {high : ℕ} {s rest : List Char} {c : Char}
    (h : readLow high s = some (c, rest)) : marks rest ≤ marks s := by
  unfold readLow at h
  split at h
  · obtain ⟨⟨n, t⟩, hhex, hlow⟩ := Option.bind_eq_some_iff.1 h
    have hmarks := readHex4_marks hhex
    dsimp only at hlow
    split_ifs at hlow
    obtain ⟨-, rfl⟩ := Prod.mk.inj (Option.some.inj hlow)
    simp only [marks_cons]
    omega
  · cases h

theorem readUnicode_marks {s rest : List Char} {c : Char} (h : readUnicode s = some (c, rest)) :
    marks rest ≤ marks s := by
  rw [readUnicode] at h
  obtain ⟨⟨n, t⟩, hhex, hrest⟩ := Option.bind_eq_some_iff.1 h
  have hmarks := readHex4_marks hhex
  dsimp only at hrest
  split_ifs at hrest
  · exact (readLow_marks hrest).trans hmarks
  · obtain ⟨-, rfl⟩ := Prod.mk.inj (Option.some.inj hrest)
    exact hmarks

theorem simpleEscape_marks {d c : Char} (h : simpleEscape d = some c) :
    charMarks c ≤ mark d + 1 := by
  rw [simpleEscape] at h
  split_ifs at h with hself hb hf hn hr ht
  · obtain rfl := Option.some.inj h
    rcases hself with rfl | rfl | rfl <;> decide
  all_goals
    obtain rfl := Option.some.inj h
    subst d
    decide

theorem readChar_marks {s rest : List Char} {c : Char} (h : readChar s = some (c, rest)) :
    marks rest + charMarks c ≤ marks s := by
  unfold readChar at h
  split at h
  · cases h
  · rename_i c' s
    split_ifs at h with hback hplain
    · subst hback
      have hslash : mark '\\' = 1 := by decide
      split at h
      · cases h
      · rename_i d s
        split_ifs at h with hu
        · subst hu
          have hletter : mark 'u' = 1 := by decide
          have hrest := readUnicode_marks h
          have htwo := charMarks_le_two c
          simp only [marks_cons]
          omega
        · obtain ⟨c', hc', heq⟩ := Option.map_eq_some_iff.1 h
          obtain ⟨rfl, rfl⟩ := Prod.mk.inj heq
          have hmarks := simpleEscape_marks hc'
          simp only [marks_cons]
          omega
    · obtain ⟨rfl, rfl⟩ := Prod.mk.inj (Option.some.inj h)
      rw [not_or] at hplain
      have hcost : charMarks c' ≤ mark c' := by
        rw [charMarks, if_neg (not_or.2 ⟨hplain.1, hback⟩)]
        split_ifs with hshort hlow
        · exfalso
          apply hplain.2
          rcases hshort with rfl | rfl | rfl | rfl | rfl <;> decide
        · exact absurd hlow hplain.2
        · exact le_rfl
      rw [marks_cons]
      omega

theorem readString_marks (n : ℕ) {s cs rest : List Char} (h : readString n s = some (cs, rest)) :
    marks rest + (textMarks cs + 1) ≤ marks s := by
  induction n generalizing s cs rest with
  | zero => cases h
  | succ n ih =>
    rw [readString] at h
    split_ifs at h with hquote
    · obtain ⟨rfl, rfl⟩ := Prod.mk.inj (Option.some.inj h)
      obtain ⟨t, rfl⟩ := List.head?_eq_some_iff.1 hquote
      have hone : mark '"' = 1 := by decide
      rw [marks_cons, List.tail_cons, textMarks_nil]
      omega
    · obtain ⟨⟨c, t⟩, hc, hmap⟩ := Option.bind_eq_some_iff.1 h
      obtain ⟨⟨ds, rest'⟩, hds, heq⟩ := Option.map_eq_some_iff.1 hmap
      dsimp only at hds heq
      obtain ⟨rfl, rfl⟩ := Prod.mk.inj heq
      have hchar := readChar_marks hc
      have hstring := ih hds
      rw [textMarks_cons]
      omega

end strings

section numbers

theorem readFraction_marks {s ds rest : List Char} (h : readFraction s = some (ds, rest)) :
    marks rest ≤ marks s := by
  unfold readFraction at h
  split at h
  · rename_i t
    split_ifs at h
    obtain ⟨-, rfl⟩ := Prod.mk.inj (Option.some.inj h)
    exact marks_le_of_suffix ((List.dropWhile_suffix _).trans (List.suffix_cons _ t))
  · obtain ⟨-, rfl⟩ := Prod.mk.inj (Option.some.inj h)
    exact le_rfl

theorem readDigits_marks {s rest : List Char} {n : ℕ} (h : readDigits s = some (n, rest)) :
    marks rest ≤ marks s := by
  rw [readDigits] at h
  split_ifs at h
  obtain ⟨-, rfl⟩ := Prod.mk.inj (Option.some.inj h)
  exact marks_le_of_suffix (List.dropWhile_suffix _)

theorem readExponent_marks {s rest : List Char} {e : Option ℤ}
    (h : readExponent s = some (e, rest)) : marks rest ≤ marks s := by
  unfold readExponent at h
  split at h
  · obtain ⟨-, rfl⟩ := Prod.mk.inj (Option.some.inj h)
    exact le_rfl
  · split_ifs at h
    · split at h
      all_goals
        obtain ⟨⟨n, t⟩, hn, heq⟩ := Option.map_eq_some_iff.1 h
        obtain ⟨-, rfl⟩ := Prod.mk.inj heq
        have hdigits := readDigits_marks hn
        simp only [marks_cons]
        omega
    · obtain ⟨-, rfl⟩ := Prod.mk.inj (Option.some.inj h)
      exact le_rfl

theorem readUnsigned_marks {negative : Bool} {s rest : List Char} {v : Json}
    (h : readUnsigned negative s = some (v, rest)) : marks rest + v.marks ≤ marks s := by
  rw [readUnsigned] at h
  dsimp only at h
  split at h
  · cases h
  obtain ⟨⟨ds, t⟩, hfrac, hmap⟩ := Option.bind_eq_some_iff.1 h
  obtain ⟨⟨e, t'⟩, hexp, heq⟩ := Option.map_eq_some_iff.1 hmap
  have hdigits : marks (s.dropWhile Char.isDigit) ≤ marks s :=
    marks_le_of_suffix (List.dropWhile_suffix _)
  have hfraction := readFraction_marks hfrac
  have hexponent := readExponent_marks hexp
  dsimp only at hexponent heq
  split_ifs at heq
  all_goals
    obtain ⟨rfl, rfl⟩ := Prod.mk.inj heq
    rw [Json.marks]
    omega

theorem readNumber_marks {s rest : List Char} {v : Json} (h : readNumber s = some (v, rest)) :
    marks rest + v.marks ≤ marks s := by
  unfold readNumber at h
  split at h
  · have hmarks := readUnsigned_marks h
    rw [marks_cons]
    omega
  · exact readUnsigned_marks h

theorem readAtom_marks {s rest : List Char} {v : Json} (h : readAtom s = some (v, rest)) :
    marks rest + v.marks ≤ marks s := by
  rw [readAtom] at h
  split_ifs at h with htrue hfalse hnull
  · obtain ⟨t, rfl⟩ := htrue
    obtain ⟨rfl, rfl⟩ := Prod.mk.inj (Option.some.inj h)
    have hname : marks "true".toList = 1 := by decide
    rw [marks_append, hname]
    exact (Nat.add_comm _ _).le
  · obtain ⟨t, rfl⟩ := hfalse
    obtain ⟨rfl, rfl⟩ := Prod.mk.inj (Option.some.inj h)
    rw [marks_append]
    exact Nat.le_add_left _ _
  · obtain ⟨t, rfl⟩ := hnull
    obtain ⟨rfl, rfl⟩ := Prod.mk.inj (Option.some.inj h)
    have hname : marks "null".toList = 1 := by decide
    rw [marks_append, hname]
    exact (Nat.add_comm _ _).le
  · exact readNumber_marks h

end numbers

section values

theorem alterEntries_marks (k : List Char) (v : Json) (ms : List (List Char × Json)) :
    memberMarks (SortedMap.alterEntries k (fun _ => v) ms) ≤
      textMarks k + 2 + v.marks + memberMarks ms := by
  induction ms with
  | nil => exact le_rfl
  | cons m ms ih =>
    rw [SortedMap.alterEntries]
    split_ifs with hlt heq
    · exact le_rfl
    · simp only [memberMarks]
      omega
    · simp only [memberMarks] at ih ⊢
      omega

theorem dictOf_marks (ms : List (List Char × Json)) : memberMarks (dictOf ms) ≤ memberMarks ms := by
  have hfold : ∀ m : List (List Char × Json),
      memberMarks (ms.foldl (fun m p => SortedMap.alterEntries p.1 (fun _ => p.2) m) m) ≤
        memberMarks m + memberMarks ms := by
    induction ms with
    | nil => exact fun m => le_rfl
    | cons p ms ih =>
      intro m
      have hput := alterEntries_marks p.1 p.2 m
      have hrest := ih (SortedMap.alterEntries p.1 (fun _ => p.2) m)
      rw [List.foldl_cons]
      simp only [memberMarks]
      omega
  have hall := hfold []
  rw [memberMarks, Nat.zero_add] at hall
  exact hall

/-- One level of the reader, once the levels below are known to use up their marks. -/
structure MarksUsed (n : ℕ) : Prop where
  value : ∀ {s v rest}, readValue n s = some (v, rest) → marks rest + v.marks ≤ marks s
  elems : ∀ {s vs rest}, readElems n s = some (vs, rest) → marks rest + elemMarks vs ≤ marks s
  members : ∀ {s ms rest}, readMembers n s = some (ms, rest) →
    marks rest + memberMarks ms ≤ marks s

theorem MarksUsed.readValue {n : ℕ} (h : MarksUsed n) {s rest : List Char} {v : Json}
    (hv : readValue (n + 1) s = some (v, rest)) : marks rest + v.marks ≤ marks s := by
  have hquote : mark '"' = 1 := by decide
  rw [JsonText.readValue] at hv
  split at hv
  · rename_i hexpect
    obtain ⟨⟨cs, t'⟩, hcs, heq⟩ := Option.map_eq_some_iff.1 hv
    obtain ⟨rfl, rfl⟩ := Prod.mk.inj heq
    have hmarks := readString_marks _ hcs
    have hopen := expect_marks hexpect
    simp only [Json.marks]
    omega
  · rename_i hexpect _
    have hopen := expect_marks hexpect
    split at hv
    · rename_i t' hclose
      obtain ⟨rfl, rfl⟩ := Prod.mk.inj (Option.some.inj hv)
      have hend := expect_marks hclose
      simp only [Json.marks, elemMarks]
      omega
    · obtain ⟨⟨vs, t'⟩, hvs, heq⟩ := Option.map_eq_some_iff.1 hv
      obtain ⟨rfl, rfl⟩ := Prod.mk.inj heq
      have hmarks := h.elems hvs
      simp only [Json.marks]
      omega
  · rename_i hexpect _ _
    have hopen := expect_marks hexpect
    split at hv
    · rename_i t' hclose
      obtain ⟨rfl, rfl⟩ := Prod.mk.inj (Option.some.inj hv)
      have hend := expect_marks hclose
      simp only [Json.marks, memberMarks]
      omega
    · obtain ⟨⟨ms, t'⟩, hms, heq⟩ := Option.map_eq_some_iff.1 hv
      obtain ⟨rfl, rfl⟩ := Prod.mk.inj heq
      have hmarks := h.members hms
      have hdict := dictOf_marks ms
      simp only [Json.marks]
      omega
  · exact (readAtom_marks hv).trans (marks_skipWs_le s)

theorem MarksUsed.readElems {n : ℕ} (h : MarksUsed n) {s rest : List Char} {vs : List Json}
    (hvs : readElems (n + 1) s = some (vs, rest)) : marks rest + elemMarks vs ≤ marks s := by
  rw [JsonText.readElems] at hvs
  obtain ⟨⟨v, t⟩, hv, hrest⟩ := Option.bind_eq_some_iff.1 hvs
  have hfirst := h.value hv
  dsimp only at hrest
  split at hrest
  · rename_i t' _ hclose
    obtain ⟨rfl, rfl⟩ := Prod.mk.inj (Option.some.inj hrest)
    have hend := expect_marks hclose
    simp only [elemMarks]
    omega
  · rename_i t' _ hcomma
    obtain ⟨⟨vs', t''⟩, hvs', heq⟩ := Option.map_eq_some_iff.1 hrest
    obtain ⟨rfl, rfl⟩ := Prod.mk.inj heq
    have hmarks := h.elems hvs'
    have hsep := expect_marks hcomma
    simp only [elemMarks]
    omega
  · cases hrest

theorem MarksUsed.readMembers {n : ℕ} (h : MarksUsed n) {s rest : List Char}
    {ms : List (List Char × Json)} (hms : readMembers (n + 1) s = some (ms, rest)) :
    marks rest + memberMarks ms ≤ marks s := by
  have hquote : mark '"' = 1 := by decide
  rw [JsonText.readMembers] at hms
  obtain ⟨t, hopen, hkey⟩ := Option.bind_eq_some_iff.1 hms
  obtain ⟨⟨k, t₁⟩, hk, hcolon⟩ := Option.bind_eq_some_iff.1 hkey
  obtain ⟨t₂, hc, hvalue⟩ := Option.bind_eq_some_iff.1 hcolon
  obtain ⟨⟨v, t₃⟩, hv, hrest⟩ := Option.bind_eq_some_iff.1 hvalue
  have hstart := expect_marks hopen
  have hname := readString_marks _ hk
  have hcolon := expect_marks hc
  have hmark := h.value hv
  dsimp only at hcolon hrest
  split at hrest
  · rename_i t' _ hclose
    obtain ⟨rfl, rfl⟩ := Prod.mk.inj (Option.some.inj hrest)
    have hend := expect_marks hclose
    simp only [memberMarks]
    omega
  · rename_i t' _ hcomma
    obtain ⟨⟨ms', t''⟩, hms', heq⟩ := Option.map_eq_some_iff.1 hrest
    obtain ⟨rfl, rfl⟩ := Prod.mk.inj heq
    have hmarks := h.members hms'
    have hsep := expect_marks hcomma
    simp only [memberMarks]
    omega
  · cases hrest

theorem marksUsed (n : ℕ) : MarksUsed n := by
  induction n with
  | zero =>
    constructor
    all_goals
      intro _ _ _ h
      cases h
  | succ n ih => exact ⟨ih.readValue, ih.readElems, ih.readMembers⟩

theorem parse_marks {s : List Char} {v : Json} (h : parse s = some v) : v.marks ≤ marks s := by
  obtain ⟨⟨v', rest⟩, hv, hrest⟩ := Option.bind_eq_some_iff.1 h
  have hmarks := (marksUsed _).value hv
  dsimp only at hrest
  split_ifs at hrest
  obtain rfl := Option.some.inj hrest
  omega

end values

end Pfaedle.JsonText

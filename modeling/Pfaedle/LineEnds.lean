import Pfaedle.FeedRows
import Pfaedle.CsvCodec

set_option autoImplicit false

/-!
# Line ends and blank lines of a table

`getline` cuts at a line feed, `split_record` drops carriage returns, and `read_row` knows a blank
row by one comparison with a carriage return.
-/
namespace Pfaedle.Gtfs

section texts

def crlf (text : Text) : Text := text.flatMap fun c => if c = '\n' then ['\r', '\n'] else [c]

/-- No line of the text ends in `\r\n`. -/
def LfText (text : Text) : Prop := ¬ ['\r', '\n'] <:+: text

instance (text : Text) : Decidable (LfText text) :=
  inferInstanceAs (Decidable ¬ ['\r', '\n'] <:+: text)

inductive Blanked : List Text → List Text → Prop
  | nil : Blanked [] []
  | keep (row : Text) {rows rows' : List Text} : Blanked rows rows' →
      Blanked (row :: rows) (row :: rows')
  | blank {rows rows' : List Text} : Blanked rows rows' → Blanked rows ([] :: rows')

/-- `text'` is `text` with empty lines inserted after the header. -/
def BlanksInserted (text text' : Text) : Prop :=
  ∃ header rows rows', lines text = header :: rows ∧ lines text' = header :: rows' ∧
    Blanked rows rows'

/-- What a table does to the data of a handler, with the code that is returned. -/
def outcome {F : Type} (text : Text) (filename : String)
    (addEntity : Record → F → Option (Result × F)) (f : F) : Option (ResultCode × F) :=
  (parseCsv (fun _ => some text) filename addEntity f).map fun out => (out.1.code, out.2)

/-- No handler sees a difference, be it in the records or in the code. -/
def SameParse (text text' : Text) : Prop :=
  ∀ (F : Type) (filename : String) (addEntity : Record → F → Option (Result × F)) (f : F),
    outcome text filename addEntity f = outcome text' filename addEntity f

/-- Neither the line ends nor inserted empty lines change what is read. -/
def EndsDontMatter (text text' : Text) : Prop :=
  SameParse text (crlf text) ∧ SameParse text text' ∧ SameParse (crlf text) (crlf text')

end texts

section handing

variable {F : Type}

def handRecords (filename : String) (addEntity : Record → F → Option (Result × F)) :
    List Record → F → Option (Result × F)
  | [], f => some (⟨.ok, "Parsed ".toList ++ filename.toList⟩, f)
  | record :: records, f =>
    match addEntity record f with
    | none => none
    | some (res, f) =>
      if res.code = .ok then handRecords filename addEntity records f
      else some ({ res with
        message := res.message ++ " while adding item from ".toList ++ filename.toList }, f)

def rowRecords (names rows : List Text) : List Record :=
  (rows.map (readRow names)).filter fun record => record.entries ≠ []

theorem rowRecords_cons (names : List Text) (row : Text) (rows : List Text) :
    rowRecords names (row :: rows) = if (readRow names row).entries = [] then rowRecords names rows
      else readRow names row :: rowRecords names rows := by
  simp [rowRecords, List.filter_cons]

theorem parseRows_eq_handRecords (filename : String) (names rows : List Text)
    (addEntity : Record → F → Option (Result × F)) (f : F) :
    parseRows filename names addEntity rows f =
      handRecords filename addEntity (rowRecords names rows) f := by
  induction rows generalizing f with
  | nil => rfl
  | cons row rows ih =>
    rw [parseRows, rowRecords_cons]
    split_ifs with hempty
    · exact ih f
    · rw [handRecords]
      cases addEntity (readRow names row) f with
      | none => rfl
      | some out =>
        obtain ⟨res, f'⟩ := out
        simp only [ih]

/-- The header of the table is not empty and names `names`, and these are its records. -/
def Headed (text : Text) (names : List Text) (records : List Record) : Prop :=
  ∃ header rows, lines text = header :: rows ∧ header ≠ [] ∧ names = splitRecord true header ∧
    records = rowRecords names rows

theorem outcome_headed {text : Text} {names : List Text} {records : List Record}
    (h : Headed text names records) (filename : String)
    (addEntity : Record → F → Option (Result × F)) (f : F) :
    outcome text filename addEntity f =
      (handRecords filename addEntity records f).map fun out => (out.1.code, out.2) := by
  obtain ⟨header, rows, hlines, hne, rfl, rfl⟩ := h
  simp [outcome, parseCsv, hlines, hne, parseRows_eq_handRecords]

theorem outcome_headless {text : Text} (h : (lines text).head?.getD [] = []) (filename : String)
    (addEntity : Record → F → Option (Result × F)) (f : F) :
    outcome text filename addEntity f = some (.errorInvalidFieldFormat, f) := by
  cases hlines : lines text with
  | nil => simp [outcome, parseCsv, hlines]
  | cons header rows =>
    rw [hlines] at h
    simp only [List.head?_cons, Option.getD_some] at h
    simp [outcome, parseCsv, hlines, h]

def collect (record : Record) (records : List Record) : Option (Result × List Record) :=
  some (.ok, records ++ [record])

theorem handRecords_collect (filename : String) (records seen : List Record) :
    handRecords filename collect records seen =
      some (⟨.ok, "Parsed ".toList ++ filename.toList⟩, seen ++ records) := by
  induction records generalizing seen with
  | nil => simp [handRecords]
  | cons record records ih => simp [handRecords, collect, Result.ok, ih]

theorem sameParse_of_headed {text text' : Text} {names : List Text} {records : List Record}
    (h : Headed text names records) (h' : Headed text' names records) : SameParse text text' := by
  intro F filename addEntity f
  rw [outcome_headed h, outcome_headed h']

theorem sameParse_of_headless {text text' : Text} (h : (lines text).head?.getD [] = [])
    (h' : (lines text').head?.getD [] = []) : SameParse text text' := by
  intro F filename addEntity f
  rw [outcome_headless h, outcome_headless h']

theorem SameParse.records_eq {text text' : Text} {names names' : List Text}
    {records records' : List Record} (hsame : SameParse text text')
    (h : Headed text names records) (h' : Headed text' names' records') : records = records' := by
  have hout := hsame (List Record) "" collect []
  rw [outcome_headed h, outcome_headed h', handRecords_collect, handRecords_collect] at hout
  simpa using hout

theorem SameParse.head_eq {text text' : Text} {names : List Text} {records : List Record}
    (hsame : SameParse text text') (h : (lines text).head?.getD [] = [])
    (h' : Headed text' names records) : False := by
  have hout := hsame (List Record) "" collect []
  rw [outcome_headless h, outcome_headed h', handRecords_collect] at hout
  cases hout

end handing

section lineEnds

/-- A line of a text and the same line of the text with `\r\n`. The last line may be without an
end. -/
def CrLine (row row' : Text) : Prop :=
  row' = row ∧ row ≠ [] ∨ row' = row ++ ['\r'] ∧ row.getLast? ≠ some '\r'

theorem lines_eq_nil {text : Text} (h : lines text = []) : text = [] := by
  cases text with
  | nil => rfl
  | cons c cs =>
    rw [lines] at h
    split_ifs at h
    cases hcs : lines cs with
    | nil =>
      rw [hcs] at h
      cases h
    | cons row rows =>
      rw [hcs] at h
      cases h

theorem head_of_lines_nil_cons {text : Text} {rows : List Text} (h : lines text = [] :: rows) :
    ∃ rest, text = '\n' :: rest := by
  cases text with
  | nil => cases h
  | cons c cs =>
    rw [lines] at h
    split_ifs at h with hc
    · exact ⟨cs, by rw [hc]⟩
    · cases hcs : lines cs with
      | nil =>
        rw [hcs] at h
        cases h
      | cons row rows =>
        rw [hcs] at h
        cases h

theorem LfText.tail {c : Char} {cs : Text} (h : LfText (c :: cs)) : LfText cs :=
  fun hpart => h (hpart.trans (List.suffix_cons c cs).isInfix)

theorem lines_crlf {text : Text} (h : LfText text) :
    List.Forall₂ CrLine (lines text) (lines (crlf text)) := by
  induction text with
  | nil => exact .nil
  | cons c cs ih =>
    have htail := ih h.tail
    by_cases hc : c = '\n'
    · have hcr : lines (crlf (c :: cs)) = ['\r'] :: lines (crlf cs) := by
        simp [crlf, hc, lines]
      rw [hcr, lines, if_pos hc]
      exact .cons (.inr ⟨rfl, by simp⟩) htail
    · have hcr : crlf (c :: cs) = c :: crlf cs := by
        simp [crlf, hc]
      rw [hcr, lines, lines, if_neg hc, if_neg hc]
      cases hcs : lines cs with
      | nil =>
        rw [lines_eq_nil hcs]
        exact .cons (.inl ⟨rfl, by simp⟩) .nil
      | cons row rows =>
        rw [hcs] at htail
        cases hcs' : lines (crlf cs) with
        | nil =>
          rw [hcs'] at htail
          cases htail
        | cons row' rows' =>
          rw [hcs'] at htail
          cases htail with
          | cons hrow hrows =>
            refine .cons ?_ hrows
            rcases hrow with ⟨rfl, hne⟩ | ⟨rfl, hlast⟩
            · exact .inl ⟨rfl, by simp⟩
            · refine .inr ⟨rfl, ?_⟩
              cases row with
              | nil =>
                -- The next character is the line feed, so `c` is no carriage return.
                obtain ⟨rest, rfl⟩ := head_of_lines_nil_cons hcs
                rintro hcr
                have hc' : c = '\r' := by simpa using hcr
                exact h ⟨[], rest, by simp [hc']⟩
              | cons d row => simpa using hlast

/-- `split_record` skips the carriage return at the end of a line. -/
theorem splitRecord_cr (isHeader : Bool) (row : Text) :
    splitRecord isHeader (row ++ ['\r']) = splitRecord isHeader row := by
  have hstep : ∀ s : SplitState, splitStep s '\r' = s := fun s => by
    simp [splitStep, quote, csvSeparator]
  have hfold : ∀ text : Text, ∀ s : SplitState,
      (text ++ ['\r']).foldl splitStep s = text.foldl splitStep s := by
    simp [hstep]
  have hbom : utf8Bom <+: row ++ ['\r'] ↔ utf8Bom <+: row := by
    constructor
    · intro h
      rcases List.prefix_concat_iff.1 h with heq | hrow
      · have := congrArg List.getLast? heq
        simp [utf8Bom] at this
      · exact hrow
    · exact fun h => h.trans (List.prefix_append _ _)
  simp only [splitRecord, hbom]
  split_ifs with hheader
  · have hlength : 3 ≤ row.length := hheader.2.length_le
    rw [List.drop_append_of_le_length hlength, hfold]
  · rw [hfold]

/-- With `\r\n` an empty row is skipped, and any other one is read as with a line feed. -/
theorem readRow_crLine {row row' : Text} (h : CrLine row row') (names : List Text) :
    readRow names row' = if row = [] then .empty else readRow names row := by
  rcases h with ⟨rfl, hne⟩ | ⟨rfl, hlast⟩
  · rw [if_neg hne]
  · split_ifs with hempty
    · rw [hempty]
      rfl
    · have hrow : row ≠ ['\r'] := by
        rintro rfl
        exact hlast rfl
      have hcr : row ++ ['\r'] ≠ ['\r'] := by
        simpa using hempty
      rw [readRow, if_neg hcr, splitRecord_cr, readRow, if_neg hrow]

def nonBlank (rows : List Text) : List Text := rows.filter fun row => row ≠ []

theorem nonBlank_cons (row : Text) (rows : List Text) :
    nonBlank (row :: rows) = if row = [] then nonBlank rows else row :: nonBlank rows := by
  simp [nonBlank, List.filter_cons]

theorem rowRecords_crLine {rows rows' : List Text} (h : List.Forall₂ CrLine rows rows')
    (names : List Text) : rowRecords names rows' = rowRecords names (nonBlank rows) := by
  induction h with
  | nil => rfl
  | @cons row row' rows rows' hrow hrows ih =>
    rw [rowRecords_cons, nonBlank_cons, readRow_crLine hrow, ih]
    by_cases hempty : row = []
    · simp [hempty, SortedMap.empty]
    · simp [hempty, rowRecords_cons]

theorem readRow_nil {names : List Text} (hnames : names ≠ []) :
    (readRow names []).entries ≠ [] := by
  obtain ⟨name, names, rfl⟩ := List.exists_cons_of_ne_nil hnames
  have hfields : splitRecord false [] = [[]] := rfl
  rw [readRow, if_neg (by simp), hfields]
  simp [SortedMap.set, SortedMap.alter, SortedMap.empty, SortedMap.alterEntries]

theorem rowRecords_length {names : List Text} (hnames : names ≠ []) (rows : List Text) :
    (rowRecords names rows).length =
      (rowRecords names (nonBlank rows)).length + rows.count [] := by
  induction rows with
  | nil => rfl
  | cons row rows ih =>
    rw [rowRecords_cons, nonBlank_cons]
    by_cases hempty : row = []
    · simp [hempty, readRow_nil hnames]
      omega
    · simp only [hempty, if_false, rowRecords_cons]
      split_ifs <;> simp [hempty] <;> omega

theorem headed_crlf {text header : Text} {rows : List Text} (h : LfText text)
    (hlines : lines text = header :: rows) :
    Headed (crlf text) (splitRecord true header)
      (rowRecords (splitRecord true header) (nonBlank rows)) := by
  have hcr := lines_crlf h
  rw [hlines] at hcr
  obtain ⟨header', rows', hheader, hrows, hlines'⟩ := List.forall₂_cons_left_iff.1 hcr
  rw [← rowRecords_crLine hrows]
  rcases hheader with ⟨rfl, hne⟩ | ⟨rfl, -⟩
  · exact ⟨header', rows', hlines', hne, rfl, rfl⟩
  · refine ⟨_, rows', hlines', by simp, ?_, rfl⟩
    rw [splitRecord_cr]

theorem sameParse_crlf_iff {text : Text} (h : LfText text) :
    SameParse text (crlf text) ↔ [] ∉ lines text := by
  cases hlines : lines text with
  | nil =>
    have hempty := lines_eq_nil hlines
    subst hempty
    exact ⟨fun _ => List.not_mem_nil, fun _ => sameParse_of_headless rfl rfl⟩
  | cons header rows =>
    have hcr := headed_crlf h hlines
    by_cases hheader : header = []
    · constructor
      · intro hsame
        exact (hsame.head_eq (by simp [hlines, hheader]) hcr).elim
      · intro hnot
        exact absurd (by simp [hheader]) hnot
    · have hlf : Headed text _ _ := ⟨header, rows, hlines, hheader, rfl, rfl⟩
      constructor
      · intro hsame hmem
        have hcount := congrArg List.length (hsame.records_eq hlf hcr)
        rw [rowRecords_length (splitRecord_ne_nil _ _)] at hcount
        have hpos := List.count_pos_iff.2 ((List.mem_cons.1 hmem).resolve_left (Ne.symm hheader))
        omega
      · intro hnot
        have hrows : nonBlank rows = rows := by
          apply List.filter_eq_self.2
          intro row hrow
          have hne : row ≠ [] := by
            rintro rfl
            exact hnot (List.mem_cons_of_mem _ hrow)
          simpa using hne
        rw [hrows] at hcr
        exact sameParse_of_headed hlf hcr

end lineEnds

section blanks

theorem Blanked.nonBlank_eq {rows rows' : List Text} (h : Blanked rows rows') :
    nonBlank rows' = nonBlank rows := by
  induction h with
  | nil => rfl
  | keep row h ih => rw [nonBlank_cons, nonBlank_cons, ih]
  | blank h ih => simpa [nonBlank_cons] using ih

theorem Blanked.length_le {rows rows' : List Text} (h : Blanked rows rows') :
    rows.length ≤ rows'.length := by
  induction h with
  | nil => exact Nat.le_refl _
  | keep row h ih => simpa using ih
  | blank h ih =>
    rw [List.length_cons]
    omega

theorem Blanked.eq_of_length {rows rows' : List Text} (h : Blanked rows rows')
    (hlength : rows'.length = rows.length) : rows' = rows := by
  induction h with
  | nil => rfl
  | keep row h ih => rw [ih (by simpa using hlength)]
  | blank h ih =>
    have := h.length_le
    rw [List.length_cons] at hlength
    omega

theorem Blanked.rowRecords_length {names rows rows' : List Text} (hnames : names ≠ [])
    (h : Blanked rows rows') :
    (rowRecords names rows').length + rows.length =
      (rowRecords names rows).length + rows'.length := by
  induction h with
  | nil => rfl
  | keep row h ih =>
    rw [rowRecords_cons, rowRecords_cons]
    split_ifs <;> simp <;> omega
  | blank h ih =>
    simp [rowRecords_cons, readRow_nil hnames]
    omega

theorem sameParse_blanks_iff {text text' header : Text} {rows rows' : List Text}
    (hlines : lines text = header :: rows) (hlines' : lines text' = header :: rows')
    (hheader : header ≠ []) (h : Blanked rows rows') : SameParse text text' ↔ rows' = rows := by
  have hhead : Headed text _ _ := ⟨header, rows, hlines, hheader, rfl, rfl⟩
  have hhead' : Headed text' _ _ := ⟨header, rows', hlines', hheader, rfl, rfl⟩
  constructor
  · intro hsame
    have hcount := congrArg List.length (hsame.records_eq hhead hhead')
    have hlength := h.rowRecords_length (splitRecord_ne_nil true header)
    exact h.eq_of_length (by omega)
  · rintro rfl
    exact sameParse_of_headed hhead hhead'

theorem sameParse_crlf_blanks {text text' : Text} (h : LfText text) (h' : LfText text')
    (hblanks : BlanksInserted text text') : SameParse (crlf text) (crlf text') := by
  obtain ⟨header, rows, rows', hlines, hlines', hrows⟩ := hblanks
  have hcr := headed_crlf h' hlines'
  rw [hrows.nonBlank_eq] at hcr
  exact sameParse_of_headed (headed_crlf h hlines) hcr

theorem blanked_refl (rows : List Text) : Blanked rows rows := by
  induction rows with
  | nil => exact .nil
  | cons row rows ih => exact .keep row ih

theorem lines_rows {rows : List Text} (hrows : ∀ row ∈ rows, '\n' ∉ row) (rest : Text) :
    lines (rows.flatMap (· ++ ['\n']) ++ rest) = rows ++ lines rest := by
  induction rows with
  | nil => rfl
  | cons row rows ih =>
    have htail := ih fun r hr => hrows r (List.mem_cons_of_mem _ hr)
    have hline := lines_append (hrows row List.mem_cons_self)
      (rows.flatMap (· ++ ['\n']) ++ rest)
    rw [htail] at hline
    simpa using hline

theorem blanksInserted_newline {header : Text} {rows : List Text}
    (hrows : ∀ row ∈ header :: rows, '\n' ∉ row) (rest : Text) :
    BlanksInserted ((header :: rows).flatMap (· ++ ['\n']) ++ rest)
      ((header :: rows).flatMap (· ++ ['\n']) ++ '\n' :: rest) := by
  refine ⟨header, rows ++ lines rest, rows ++ [] :: lines rest, lines_rows hrows rest,
    lines_rows hrows _, ?_⟩
  clear hrows
  induction rows with
  | nil => exact .blank (blanked_refl _)
  | cons row rows ih => exact .keep row ih

/-- With `\r\n` inserted empty lines never matter; with line feeds nothing does exactly if there
is no empty line at all. -/
theorem endsDontMatter_iff {text text' : Text} (h : LfText text) (h' : LfText text')
    (hblanks : BlanksInserted text text') :
    SameParse (crlf text) (crlf text') ∧
      (EndsDontMatter text text' ↔ [] ∉ lines text ∧ lines text' = lines text) := by
  have hcrlf := sameParse_crlf_blanks h h' hblanks
  obtain ⟨header, rows, rows', hlines, hlines', hrows⟩ := hblanks
  refine ⟨hcrlf, ?_⟩
  rw [EndsDontMatter, sameParse_crlf_iff h]
  constructor
  · rintro ⟨hempty, hsame, -⟩
    have hheader : header ≠ [] := by
      rintro rfl
      exact hempty (by simp [hlines])
    rw [sameParse_blanks_iff hlines hlines' hheader hrows] at hsame
    exact ⟨hempty, by rw [hlines, hlines', hsame]⟩
  · rintro ⟨hempty, heq⟩
    have hheader : header ≠ [] := by
      rintro rfl
      exact hempty (by simp [hlines])
    refine ⟨hempty, ?_, hcrlf⟩
    rw [hlines, hlines'] at heq
    exact (sameParse_blanks_iff hlines hlines' hheader hrows).2 (List.cons.inj heq).2

theorem endsDontMatter_two_lines :
    SameParse (crlf "a\n1\n".toList) (crlf "a\n1\n\n".toList) ∧
      EndsDontMatter "a\n1\n".toList "a\n1\n".toList := by
  have hsame : BlanksInserted "a\n1\n".toList "a\n1\n".toList :=
    ⟨['a'], [['1']], [['1']], rfl, rfl, blanked_refl _⟩
  have hblank : BlanksInserted "a\n1\n".toList "a\n1\n\n".toList :=
    blanksInserted_newline (show ∀ row ∈ [['a'], ['1']], '\n' ∉ row by decide) []
  exact ⟨(endsDontMatter_iff (by decide) (by decide) hblank).1,
    (endsDontMatter_iff (by decide) (by decide) hsame).2.2 (by decide)⟩

/-- An empty line is one more record, unless it ends in `\r\n`. -/
theorem blank_line_matters :
    BlanksInserted "a\n1\n".toList "a\n\n1\n".toList ∧ LfText "a\n\n1\n".toList ∧
      ¬ SameParse "a\n1\n".toList "a\n\n1\n".toList ∧
      ¬ SameParse "a\n\n1\n".toList (crlf "a\n\n1\n".toList) ∧
      ¬ EndsDontMatter "a\n1\n".toList "a\n\n1\n".toList := by
  have hblanked : Blanked [['1']] [[], ['1']] := .blank (blanked_refl _)
  have hlf : LfText "a\n\n1\n".toList := by decide
  have hsame : ¬ SameParse "a\n1\n".toList "a\n\n1\n".toList := by
    rw [sameParse_blanks_iff (show lines _ = ['a'] :: _ from rfl) rfl (by decide) hblanked]
    decide
  refine ⟨⟨['a'], _, _, rfl, rfl, hblanked⟩, hlf, hsame, ?_, fun h => hsame h.2.1⟩
  rw [sameParse_crlf_iff hlf]
  decide

end blanks

end Pfaedle.Gtfs

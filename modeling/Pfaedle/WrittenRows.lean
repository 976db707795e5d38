import Pfaedle.FeedWritter
import Pfaedle.FeedRows

set_option autoImplicit false

/-!
# The records of written rows
-/
namespace Pfaedle.Gtfs

section records

/-- A written row as `csv_parser` hands it to a handler. -/
def rowRecord (columns : List (String × Cell)) : Record :=
  readRow ((columns.map Prod.fst).map String.toList) (line (columns.map Prod.snd))

def DistinctNames (columns : List (String × Cell)) : Prop :=
  ((columns.map Prod.fst).map String.toList).Nodup

theorem find?_readRow {names : List Text} (hnodup : names.Nodup) {row : Text} (hrow : row ≠ ['\r'])
    {i : ℕ} {k : Text} (hk : names[i]? = some k) :
    (readRow names row).find? k = (splitRecord false row)[i]? := by
  rw [readRow, if_neg hrow]
  exact SortedMap.find?_setAll_zip _ hnodup hk

variable {columns : List (String × Cell)}

theorem find?_rowRecord (hnames : DistinctNames columns) (hok : ∀ p ∈ columns, p.2.Ok) {i : ℕ}
    {p : String × Cell} (hp : columns[i]? = some p) :
    (rowRecord columns).find? p.1.toList =
      (splitRecord false (line (columns.map Prod.snd)))[i]? := by
  refine find?_readRow hnames (fun hcr => ?_) ?_
  · have hclean : Clean (line (columns.map Prod.snd)) :=
      clean_line fun c hc => by
        obtain ⟨q, hq, rfl⟩ := List.mem_map.1 hc
        exact hok q hq
    rw [hcr] at hclean
    exact (hclean '\r' List.mem_cons_self).2.1 rfl
  · rw [List.getElem?_map, List.getElem?_map, hp]
    rfl

theorem RowKept.find? (hnames : DistinctNames columns) (hok : ∀ p ∈ columns, p.2.Ok)
    (hkept : RowKept (columns.map Prod.snd)) {p : String × Cell} (hp : p ∈ columns) :
    (rowRecord columns).find? p.1.toList = some p.2.value := by
  obtain ⟨i, hi⟩ := List.mem_iff_getElem?.1 hp
  have hcells : ∀ c ∈ columns.map Prod.snd, c.Ok := fun c hc => by
    obtain ⟨q, hq, rfl⟩ := List.mem_map.1 hc
    exact hok q hq
  have hne : columns.map Prod.snd ≠ [] := fun hnil => by
    rw [List.map_eq_nil_iff.1 hnil] at hp
    exact absurd hp List.not_mem_nil
  rw [find?_rowRecord hnames hok hi, splitRecord_line hne hcells hkept, List.getElem?_map,
    List.getElem?_map, hi]
  rfl

theorem rowKept_of_values (hnames : DistinctNames columns) (hok : ∀ p ∈ columns, p.2.Ok)
    (h : ∀ p ∈ columns, p.2.IsText → getValueOrDefault (rowRecord columns) p.1 [] = p.2.value) :
    RowKept (columns.map Prod.snd) := by
  refine rowKept_of_reads (fun c hc => ?_) fun i c hc htext => ?_
  · obtain ⟨q, hq, rfl⟩ := List.mem_map.1 hc
    exact hok q hq
  · rw [List.getElem?_map, Option.map_eq_some_iff] at hc
    obtain ⟨p, hp, rfl⟩ := hc
    have hvalue := h p (List.mem_of_getElem? hp) htext
    rwa [getValueOrDefault, find?_rowRecord hnames hok hp] at hvalue

/-- A wrapped column after columns that are wrapped or plain is not shifted. -/
theorem getElem?_splitRecord_wrapped {pre post : List Cell} {t : Text}
    (hok : ∀ c ∈ pre ++ .wrapped t :: post, c.Ok)
    (hpre : ∀ c ∈ pre, framing false c.written = some false) :
    (splitRecord false (line (pre ++ .wrapped t :: post)))[pre.length]? = some (wrapRead t) := by
  induction pre with
  | nil =>
    have hclean : Clean (wrap t) :=
      Cell.clean_written (c := .wrapped t) (hok _ List.mem_cons_self)
    cases post with
    | nil =>
      change (splitRecord false (wrap t))[0]? = _
      rw [splitRecord_last hclean.tabFree (framing_wrap t), normalize_wrap]
      rfl
    | cons d post =>
      change (splitRecord false (wrap t ++ csvSeparator :: line (d :: post)))[0]? = _
      rw [splitRecord_cons hclean.tabFree (framing_wrap t), normalize_wrap]
      rfl
  | cons c pre ih =>
    have hrest := ih (fun x hx => hok x (List.mem_cons_of_mem _ hx))
      fun x hx => hpre x (List.mem_cons_of_mem _ hx)
    have hline : line (c :: pre ++ .wrapped t :: post) =
        c.written ++ csvSeparator :: line (pre ++ .wrapped t :: post) := by
      cases pre <;> rfl
    rw [hline, splitRecord_cons (Cell.clean_written (hok c List.mem_cons_self)).tabFree
      (hpre c List.mem_cons_self)]
    exact hrest

theorem find?_wrapped (hnames : DistinctNames columns) (hok : ∀ p ∈ columns, p.2.Ok)
    {pre post : List (String × Cell)} {name : String} {t : Text}
    (hcolumns : columns = pre ++ (name, .wrapped t) :: post)
    (hpre : ∀ p ∈ pre, framing false p.2.written = some false) :
    (rowRecord columns).find? name.toList = some (wrapRead t) := by
  have hat : columns[pre.length]? = some (name, .wrapped t) := by
    rw [hcolumns, List.getElem?_append_right (Nat.le_refl _), Nat.sub_self]
    rfl
  have hget := find?_rowRecord hnames hok hat
  have hcells : columns.map Prod.snd = pre.map Prod.snd ++ .wrapped t :: post.map Prod.snd := by
    rw [hcolumns, List.map_append]
    rfl
  have hlength : (pre.map Prod.snd).length = pre.length := List.length_map _
  rw [hget, hcells, ← hlength]
  refine getElem?_splitRecord_wrapped (fun c hc => ?_) fun c hc => ?_
  · rw [← hcells] at hc
    obtain ⟨q, hq, rfl⟩ := List.mem_map.1 hc
    exact hok q hq
  · obtain ⟨q, hq, rfl⟩ := List.mem_map.1 hc
    exact hpre q hq

theorem find?_wrapped_first (hnames : DistinctNames columns) (hok : ∀ p ∈ columns, p.2.Ok)
    {post : List (String × Cell)} {name : String} {t : Text}
    (hcolumns : columns = (name, .wrapped t) :: post) :
    (rowRecord columns).find? name.toList = some (wrapRead t) :=
  find?_wrapped hnames hok (hcolumns.trans (List.nil_append _).symm)
    fun _ hp => absurd hp List.not_mem_nil

end records

section headers

structure HeaderOk (header : List String) : Prop where
  names : (header.map String.toList).Nodup
  noNewline : '\n' ∉ joined (header.map String.toList)
  notEmpty : joined (header.map String.toList) ≠ []
  split : splitRecord true (joined (header.map String.toList)) = header.map String.toList

theorem agencyHeader_ok : HeaderOk agencyHeader := ⟨by decide, by decide, by decide, by decide⟩

theorem routesHeader_ok : HeaderOk routesHeader := ⟨by decide, by decide, by decide, by decide⟩

theorem shapesHeader_ok : HeaderOk shapesHeader := ⟨by decide, by decide, by decide, by decide⟩

theorem tripsHeader_ok : HeaderOk tripsHeader := ⟨by decide, by decide, by decide, by decide⟩

theorem stopsHeader_ok : HeaderOk stopsHeader := ⟨by decide, by decide, by decide, by decide⟩

theorem stopTimesHeader_ok : HeaderOk stopTimesHeader :=
  ⟨by decide, by decide, by decide, by decide⟩

end headers

section files

/-- The rows of a table that `write_csv` writes. -/
structure TableRows (header : List String) (rows : List (List (String × Cell))) : Prop where
  headerOk : HeaderOk header
  names : ∀ row ∈ rows, row.map Prod.fst = header
  ok : ∀ row ∈ rows, ∀ p ∈ row, p.2.Ok
  notEmpty : header ≠ []

def tableText (header : List String) (rows : List (List (String × Cell))) : Text :=
  writeJoined (header.map String.toList) ++
    (rows.map fun row => row.map fun p => p.2.written).flatMap writeJoined

variable {header : List String} {rows : List (List (String × Cell))}

theorem TableRows.distinct (h : TableRows header rows) {row : List (String × Cell)}
    (hrow : row ∈ rows) : DistinctNames row := by
  rw [DistinctNames, h.names row hrow]
  exact h.headerOk.names

theorem TableRows.lines (h : TableRows header rows) :
    lines (tableText header rows) = joined (header.map String.toList) ::
      rows.map fun row => line (row.map Prod.snd) := by
  have hfile : (rows.map fun row => row.map fun p => p.2.written).flatMap writeJoined =
      file (rows.map fun row => row.map Prod.snd) := by
    rw [file, List.flatMap_map, List.flatMap_map]
    refine List.flatMap_congr fun row _ => ?_
    rw [writeJoined, line, List.map_map]
    rfl
  have hrows : ∀ cells ∈ rows.map fun row => row.map Prod.snd, ∀ c ∈ cells, c.Ok := by
    intro cells hcells c hc
    obtain ⟨row, hrow, rfl⟩ := List.mem_map.1 hcells
    obtain ⟨p, hp, rfl⟩ := List.mem_map.1 hc
    exact h.ok row hrow p hp
  rw [tableText, hfile, writeJoined, List.append_assoc, List.singleton_append,
    lines_append h.headerOk.noNewline, lines_file hrows, List.map_map]
  rfl

theorem TableRows.record_ne (h : TableRows header rows) {row : List (String × Cell)}
    (hrow : row ∈ rows) : (rowRecord row).entries ≠ [] := by
  intro hempty
  have hnames := h.names row hrow
  cases hcase : row with
  | nil =>
    rw [hcase] at hnames
    exact h.notEmpty hnames.symm
  | cons p rest =>
    have hp : row[0]? = some p := by rw [hcase]; rfl
    have hfind := find?_rowRecord (h.distinct hrow) (h.ok row hrow) hp
    obtain ⟨t, q, hhead⟩ := scan_head (line (row.map Prod.snd)) [] false false
    rw [← splitRecord_eq, List.head?_eq_getElem?] at hhead
    rw [hhead, SortedMap.find?_eq_some_iff, hempty] at hfind
    exact absurd hfind List.not_mem_nil

theorem TableRows.records (h : TableRows header rows) :
    ((rows.map fun row => line (row.map Prod.snd)).map (readRow (header.map String.toList))).filter
      (fun record => record.entries ≠ []) = rows.map rowRecord := by
  have hrecords : (rows.map fun row => line (row.map Prod.snd)).map
      (readRow (header.map String.toList)) = rows.map rowRecord := by
    rw [List.map_map]
    refine List.map_congr_left fun row hrow => ?_
    rw [rowRecord, h.names row hrow]
    rfl
  rw [hrecords, List.filter_eq_self]
  intro record hrecord
  obtain ⟨row, hrow, rfl⟩ := List.mem_map.1 hrecord
  exact decide_eq_true (h.record_ne hrow)

theorem TableRows.dataRows (h : TableRows header rows) {files : Files} {filename : String}
    (hfile : files filename = some (tableText header rows)) :
    dataRows files filename = rows.map rowRecord := by
  rw [Gtfs.dataRows, hfile]
  dsimp only
  rw [h.lines]
  dsimp only
  rw [h.headerOk.split]
  exact h.records

theorem TableRows.parseCsv (h : TableRows header rows) {F A : Type} {add : F → A → F}
    {addEntity : Record → F → Option (Result × F)} {files : Files} {filename : String} {es : List A}
    (hfile : files filename = some (tableText header rows))
    (hes : List.Forall₂ (fun row e => ∀ f, addEntity (rowRecord row) f = some (.ok, add f e))
      rows es) (f : F) :
    ∃ res, parseCsv files filename addEntity f = some (res, es.foldl add f) ∧ res.code = .ok := by
  refine ⟨⟨.ok, "Parsed ".toList ++ filename.toList⟩, ?_, rfl⟩
  rw [Gtfs.parseCsv, hfile]
  dsimp only
  rw [h.lines]
  dsimp only
  rw [if_neg h.headerOk.notEmpty, h.headerOk.split]
  refine parseRows_all ?_ f
  rw [h.records, List.forall₂_map_left_iff]
  exact hes

end files

end Pfaedle.Gtfs

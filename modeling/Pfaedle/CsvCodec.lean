import Pfaedle.CsvRows

set_option autoImplicit false

/-!
# The row codec

Rows that `split_record` returns, written with `wrap` and split again. Quoting is what keeps the
spaces around a field, and `wrap` quotes only fields with a quotation mark or a separator.
-/
namespace Pfaedle.Gtfs

/-- The lists of field values that `split_record` returns. -/
def IsRecord (fs : List Text) : Prop := ∃ isHeader text, splitRecord isHeader text = fs

theorem IsRecord.tabFree {fs : List Text} (h : IsRecord fs) : ∀ f ∈ fs, TabFree f := by
  obtain ⟨isHeader, text, rfl⟩ := h
  exact splitRecord_tabFree isHeader text

theorem splitRecord_ne_nil (isHeader : Bool) (text : Text) : splitRecord isHeader text ≠ [] :=
  List.append_ne_nil_of_right_ne_nil _ (List.cons_ne_nil _ _)

theorem joined_cons {e : Text} {es : List Text} (h : es ≠ []) :
    joined (e :: es) = e ++ csvSeparator :: joined es := by
  cases es with
  | nil => exact absurd rfl h
  | cons f es => rfl

theorem splitRecord_joined {es : List Text} (hne : es ≠ []) (hfree : ∀ e ∈ es, TabFree e)
    (hframe : ∀ e ∈ es, framing false e = some false) :
    splitRecord false (joined es) = es.map fun e => normalize e (decide (quote ∈ e)) := by
  induction es with
  | nil => exact absurd rfl hne
  | cons e es ih =>
    rw [List.forall_mem_cons] at hfree hframe
    by_cases hes : es = []
    · rw [hes]
      exact splitRecord_last hfree.1 hframe.1
    · rw [joined_cons hes, splitRecord_cons hfree.1 hframe.1, ih hes hfree.2 hframe.2]
      rfl

theorem TabFree.of_quoted {t e : Text} (h : TabFree t) (hmem : ∀ c ∈ e, c = quote ∨ c ∈ t) :
    TabFree e := by
  intro c hc
  cases hmem c hc with
  | inl heq => exact heq ▸ by decide
  | inr hct => exact h c hct

theorem splitRecord_joined_wrap {fs : List Text} (hne : fs ≠ []) (hfree : ∀ f ∈ fs, TabFree f) :
    splitRecord false (joined (fs.map wrap)) = fs.map wrapRead := by
  rw [splitRecord_joined, List.map_map]
  · exact List.map_congr_left fun f _ => normalize_wrap f
  · exact fun h => hne (List.map_eq_nil_iff.1 h)
  · rw [List.forall_mem_map]
    exact fun f hf => (hfree f hf).of_quoted fun c hc => mem_wrap hc
  · rw [List.forall_mem_map]
    exact fun f _ => framing_wrap f

theorem splitRecord_joined_quoteText {fs : List Text} (hne : fs ≠ [])
    (hfree : ∀ f ∈ fs, TabFree f) : splitRecord false (joined (fs.map quoteText)) = fs := by
  rw [splitRecord_joined, List.map_map]
  · conv_rhs => rw [← List.map_id fs]
    refine List.map_congr_left fun f _ => ?_
    have hmem : quote ∈ quoteText f := by
      rw [quoteText, List.cons_append]
      exact List.mem_cons_self
    rw [Function.comp_apply, decide_eq_true hmem, normalize_quoteText]
    rfl
  · exact fun h => hne (List.map_eq_nil_iff.1 h)
  · rw [List.forall_mem_map]
    exact fun f hf => (hfree f hf).of_quoted fun c hc => mem_quoteText hc
  · rw [List.forall_mem_map]
    exact fun f _ => framing_quoteText f

theorem isRecord_iff (fs : List Text) : IsRecord fs ↔ fs ≠ [] ∧ ∀ f ∈ fs, TabFree f := by
  refine ⟨fun h => ⟨?_, h.tabFree⟩, fun h => ⟨false, _, splitRecord_joined_quoteText h.1 h.2⟩⟩
  obtain ⟨isHeader, text, rfl⟩ := h
  exact splitRecord_ne_nil isHeader text

section headers

theorem splitRecord_header (text : Text) :
    splitRecord true text =
      if utf8Bom <+: text then splitRecord false (text.drop 3) else splitRecord false text := by
  rw [splitRecord]
  split_ifs with hand hbom hbom
  · rw [splitRecord_eq]
    rfl
  · exact absurd hand.2 hbom
  · exact absurd ⟨rfl, hbom⟩ hand
  · rw [splitRecord_eq]
    rfl

/-- A separator is no byte of the mark, so the mark is read from the first field alone. -/
theorem utf8Bom_joined {e : Text} {es : List Text} :
    utf8Bom <+: joined (e :: es) ↔ utf8Bom <+: e := by
  by_cases hes : es = []
  · rw [hes]
    rfl
  · rw [joined_cons hes]
    refine ⟨fun h => ?_, fun h => h.trans (List.prefix_append _ _)⟩
    obtain ⟨rest, hrest⟩ := h
    have hsep : csvSeparator ∉ utf8Bom := by decide
    rcases List.append_eq_append_iff.1 hrest with ⟨as, he, -⟩ | ⟨bs, hbom, hcons⟩
    · exact ⟨as, he.symm⟩
    · cases bs with
      | nil =>
        rw [List.append_nil] at hbom
        exact hbom ▸ List.prefix_rfl
      | cons b bs =>
        have hb : csvSeparator = b := (List.cons.inj hcons).1
        exact absurd (hbom ▸ List.mem_append_right e (hb ▸ List.mem_cons_self)) hsep

theorem utf8Bom_wrap (t : Text) :
    utf8Bom <+: wrap t ↔ utf8Bom <+: t ∧ ¬(quote ∈ t ∨ csvSeparator ∈ t) := by
  rw [wrap]
  split_ifs with h
  · refine ⟨fun hbom => ?_, fun hbom => absurd h hbom.2⟩
    obtain ⟨rest, hrest⟩ := hbom
    exact absurd (List.cons.inj hrest).1 (by decide)
  · exact ⟨fun hbom => ⟨hbom, h⟩, fun hbom => hbom.1⟩

theorem wrapRead_length (t : Text) : (wrapRead t).length ≤ t.length := by
  rw [wrapRead]
  split_ifs
  · exact Nat.le_refl _
  · exact (trimSpaces_sublist t).length_le

/-- A mark that is not quoted is lost, and the field with it. -/
theorem splitRecord_header_bom_ne {f : Text} {fs : List Text} (hfree : ∀ t ∈ f :: fs, TabFree t)
    (hbom : utf8Bom <+: wrap f) :
    splitRecord true (joined ((f :: fs).map wrap)) ≠ f :: fs := by
  intro hread
  rw [List.map_cons, splitRecord_header, if_pos (utf8Bom_joined.2 hbom)] at hread
  obtain ⟨⟨t, rfl⟩, hplain⟩ := (utf8Bom_wrap f).1 hbom
  rw [List.mem_append, List.mem_append, not_or, not_or, not_or] at hplain
  have hsame : ∀ es : List Text, joined ((utf8Bom ++ t) :: es) = utf8Bom ++ joined (t :: es) := by
    intro es
    cases es <;> rfl
  have hwrap : wrap (utf8Bom ++ t) = utf8Bom ++ t := by
    rw [wrap, if_neg]
    rw [List.mem_append, List.mem_append, not_or, not_or, not_or]
    exact hplain
  have hwrapt : wrap t = t := if_neg (not_or.2 ⟨hplain.1.2, hplain.2.2⟩)
  rw [hwrap, hsame] at hread
  change splitRecord false (joined (t :: fs.map wrap)) = _ at hread
  rw [← hwrapt, ← List.map_cons, splitRecord_joined_wrap (List.cons_ne_nil _ _)] at hread
  · have hlen := congrArg List.length (List.cons.inj hread).1
    have hle := wrapRead_length t
    rw [hwrapt, List.length_append] at hlen
    have hbomlen : utf8Bom.length = 3 := rfl
    omega
  · rw [List.forall_mem_cons] at hfree ⊢
    exact ⟨fun c hc => hfree.1 c (List.mem_append_right _ hc), hfree.2⟩

end headers

/-- The fields that come back: no spaces outside quotes, and in a header no bare mark in front. -/
def RecordKept (isHeader : Bool) (fs : List Text) : Prop :=
  (∀ f ∈ fs, SpacesKept f) ∧
    (isHeader = true → ∀ f ∈ fs.head?, utf8Bom <+: f → quote ∈ f ∨ csvSeparator ∈ f)

instance (t : Text) : Decidable (TabFree t) := List.decidableBAll _ t

instance (isHeader : Bool) (fs : List Text) : Decidable (RecordKept isHeader fs) :=
  inferInstanceAs (Decidable ((∀ f ∈ fs, SpacesKept f) ∧ (isHeader = true → _)))

theorem map_wrapRead_eq_iff (fs : List Text) :
    fs.map wrapRead = fs ↔ ∀ f ∈ fs, SpacesKept f := by
  conv_lhs =>
    rhs
    rw [← List.map_id fs]
  rw [List.map_inj_left]
  exact forall₂_congr fun f _ => wrapRead_eq_iff f

theorem splitRecord_wrap_iff (isHeader : Bool) (fs : List Text) (h : IsRecord fs) :
    splitRecord isHeader (joined (fs.map wrap)) = fs ↔ RecordKept isHeader fs := by
  obtain ⟨hne, hfree⟩ := (isRecord_iff fs).1 h
  cases isHeader with
  | false =>
    rw [splitRecord_joined_wrap hne hfree, map_wrapRead_eq_iff]
    exact ⟨fun hs => ⟨hs, fun hf => Bool.noConfusion hf⟩, fun hs => hs.1⟩
  | true =>
    cases fs with
    | nil => exact absurd rfl hne
    | cons f fs =>
      by_cases hbom : utf8Bom <+: wrap f
      · refine ⟨fun hread => absurd hread (splitRecord_header_bom_ne hfree hbom), fun hkept => ?_⟩
        obtain ⟨hf, hplain⟩ := (utf8Bom_wrap f).1 hbom
        exact absurd (hkept.2 rfl f rfl hf) hplain
      · have hjoined : ¬utf8Bom <+: joined ((f :: fs).map wrap) :=
          fun hb => hbom (utf8Bom_joined.1 hb)
        rw [splitRecord_header, if_neg hjoined, splitRecord_joined_wrap hne hfree,
          map_wrapRead_eq_iff]
        refine ⟨fun hs => ⟨hs, fun _ g hg hbg => ?_⟩, fun hs => hs.1⟩
        cases Option.some.inj hg
        by_contra hplain
        exact hbom ((utf8Bom_wrap f).2 ⟨hbg, hplain⟩)

theorem splitRecord_wrap_sisters :
    splitRecord true (joined (["27681".toList, [], "Sisters, OR".toList, ['"', 'a']].map wrap)) =
      ["27681".toList, [], "Sisters, OR".toList, ['"', 'a']] :=
  (splitRecord_wrap_iff true _ ((isRecord_iff _).2 (by decide))).2 (by decide)

/-- The line with the one field `" a "` loses the spaces that its quotes kept. -/
theorem splitRecord_wrap_ne :
    ¬∀ (isHeader : Bool) (fs : List Text), IsRecord fs →
      splitRecord isHeader (joined (fs.map wrap)) = fs := by
  intro h
  have hread := h false [" a ".toList] ⟨false, "\" a \"".toList, by decide⟩
  exact absurd hread (by decide)

end Pfaedle.Gtfs

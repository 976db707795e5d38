import Mathlib.Data.List.Infix

set_option autoImplicit false

/-!
# The items of a separated list

A text that stands next to a separator is the start or the end of an item.
-/
namespace Pfaedle.SplitItems
variable {α : Type*} {sep : α}

theorem intercalate_around (before : List (List α)) (x : List α) (after : List (List α)) :
    [sep].intercalate (before ++ x :: after) =
      before.flatMap (· ++ [sep]) ++ (x ++ after.flatMap (sep :: ·)) := by
  induction before with
  | nil =>
    induction after generalizing x with
    | nil => simp
    | cons y after ih =>
      have hrest := ih y
      rw [List.nil_append] at hrest ⊢
      rw [List.intercalate_cons_cons, hrest]
      simp
  | cons y before ih =>
    obtain ⟨z, rest, hrest⟩ : ∃ z rest, before ++ x :: after = z :: rest :=
      List.exists_cons_of_ne_nil (by simp)
    rw [List.cons_append, hrest, List.intercalate_cons_cons, ← hrest, ih]
    simp

variable [DecidableEq α]

theorem eq_around {text x : List α} {before after : List (List α)}
    (h : text.splitOn sep = before ++ x :: after) :
    text = before.flatMap (· ++ [sep]) ++ (x ++ after.flatMap (sep :: ·)) := by
  rw [← intercalate_around, ← h, List.intercalate_splitOn]

theorem infix_sep_cons {text x : List α} (h : x ∈ (text.splitOn sep).tail) :
    sep :: x <:+: text := by
  obtain ⟨first, rest, hsplit⟩ := List.exists_cons_of_ne_nil (List.splitOn_ne_nil sep text)
  rw [hsplit] at h
  obtain ⟨before, after, hrest⟩ := List.append_of_mem h
  rw [List.tail_cons] at hrest
  rw [hrest, ← List.cons_append] at hsplit
  rw [eq_around hsplit]
  rcases List.eq_nil_or_concat before with rfl | ⟨before', y, rfl⟩
  · exact ⟨first, after.flatMap (sep :: ·), by simp⟩
  · refine ⟨(first :: before').flatMap (· ++ [sep]) ++ y, after.flatMap (sep :: ·), ?_⟩
    simp

theorem infix_concat_sep {text x : List α} (h : x ∈ (text.splitOn sep).dropLast) :
    x ++ [sep] <:+: text := by
  rcases List.eq_nil_or_concat (text.splitOn sep) with hnil | ⟨rest, last, hsplit⟩
  · exact absurd hnil (List.splitOn_ne_nil sep text)
  · rw [List.concat_eq_append] at hsplit
    rw [hsplit, List.dropLast_concat] at h
    obtain ⟨before, after, hrest⟩ := List.append_of_mem h
    rw [hrest, List.append_assoc, List.cons_append] at hsplit
    rw [eq_around hsplit]
    cases after with
    | nil => exact ⟨before.flatMap (· ++ [sep]), last, by simp⟩
    | cons y after =>
      refine ⟨before.flatMap (· ++ [sep]), y ++ (after ++ [last]).flatMap (sep :: ·), ?_⟩
      simp

theorem splitOn_append {b : List α} (hb : sep ∉ b) (text : List α) :
    ∃ x rest, (b ++ text).splitOn sep = x :: rest ∧ b <+: x := by
  induction b with
  | nil =>
    obtain ⟨x, rest, h⟩ := List.exists_cons_of_ne_nil (List.splitOn_ne_nil sep text)
    exact ⟨x, rest, h, List.nil_prefix⟩
  | cons c b ih =>
    obtain ⟨x, rest, h, hx⟩ := ih fun hmem => hb (List.mem_cons_of_mem _ hmem)
    have hc : (c == sep) = false := beq_eq_false_iff_ne.2 fun heq => hb (heq ▸ List.mem_cons_self)
    refine ⟨c :: x, rest, ?_, List.cons_prefix_cons.2 ⟨rfl, hx⟩⟩
    rw [List.cons_append, List.splitOn_cons_eq_if_modifyHead, hc, h]
    rfl

theorem append_splitOn {b : List α} (hb : sep ∉ b) (text : List α) :
    ∃ x ∈ (text ++ b).splitOn sep, b <:+ x := by
  induction text with
  | nil => exact ⟨b, by rw [List.nil_append, List.splitOn_eq_singleton hb]; simp, List.suffix_rfl⟩
  | cons c text ih =>
    obtain ⟨x, hx, hsuffix⟩ := ih
    rw [List.cons_append, List.splitOn_cons_eq_if_modifyHead]
    split_ifs with hc
    · exact ⟨x, List.mem_cons_of_mem _ hx, hsuffix⟩
    · obtain ⟨first, rest, h⟩ := List.exists_cons_of_ne_nil (List.splitOn_ne_nil sep (text ++ b))
      rw [h] at hx ⊢
      cases List.mem_cons.1 hx with
      | inl heq =>
        refine ⟨c :: first, List.mem_cons_self, ?_⟩
        exact (heq ▸ hsuffix).trans (List.suffix_cons c first)
      | inr hmem => exact ⟨x, List.mem_cons_of_mem _ hmem, hsuffix⟩

/-- What stands behind a separator starts an item that is not the first. -/
theorem infix_sep_cons_iff {b : List α} (hb : sep ∉ b) {text : List α} :
    sep :: b <:+: text ↔ ∃ x ∈ (text.splitOn sep).tail, b <+: x := by
  constructor
  · rintro ⟨front, back, rfl⟩
    obtain ⟨x, rest, h, hx⟩ := splitOn_append hb back
    refine ⟨x, ?_, hx⟩
    rw [List.append_assoc, List.cons_append, List.splitOn_append_cons_self, h,
      List.tail_append_of_ne_nil (List.splitOn_ne_nil sep front)]
    exact List.mem_append_right _ List.mem_cons_self
  · rintro ⟨x, hx, hprefix⟩
    obtain ⟨back, rfl⟩ := hprefix
    exact List.IsInfix.trans ⟨[], back, rfl⟩ (infix_sep_cons hx)

/-- What stands in front of a separator ends an item that is not the last. -/
theorem infix_concat_sep_iff {b : List α} (hb : sep ∉ b) {text : List α} :
    b ++ [sep] <:+: text ↔ ∃ x ∈ (text.splitOn sep).dropLast, b <:+ x := by
  constructor
  · rintro ⟨front, back, rfl⟩
    obtain ⟨x, hx, hsuffix⟩ := append_splitOn hb front
    refine ⟨x, ?_, hsuffix⟩
    have hsplit : front ++ (b ++ [sep]) ++ back = (front ++ b) ++ sep :: back := by simp
    rw [hsplit, List.splitOn_append_cons_self,
      List.dropLast_append_of_ne_nil (List.splitOn_ne_nil sep back)]
    exact List.mem_append_left _ hx
  · rintro ⟨x, hx, hsuffix⟩
    obtain ⟨front, rfl⟩ := hsuffix
    exact List.IsInfix.trans ⟨front, [], by simp⟩ (infix_concat_sep hx)

end Pfaedle.SplitItems

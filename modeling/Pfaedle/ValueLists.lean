import Pfaedle.Osm
import Pfaedle.SpeedLimits
import Pfaedle.SplitItems

set_option autoImplicit false

/-!
# Multi-value rules

`valMatches` looks for the value of a rule next to a semicolon of the tag value, and does not look
where the item ends.
-/
namespace Pfaedle.Osm

open SplitItems SpeedLimits

section items
variable (a b : String)

def items : List (List Char) := a.toList.splitOn ';'

/-- `b` is an item without the blanks around it. -/
def Listed : Prop := ∃ x ∈ items a, trim x = b.toList

instance : Decidable (Listed a b) := inferInstanceAs (Decidable (∃ x ∈ items a, _))

/-- `b` stands next to a semicolon with at most one blank between. -/
def NextToSemicolon : Prop :=
  (∃ x ∈ (items a).tail, b.toList <+: x ∨ ' ' :: b.toList <+: x) ∨
    ∃ x ∈ (items a).dropLast, b.toList <:+ x ∨ b.toList ++ [' '] <:+ x

/-- An item that is `b` stands next to a semicolon or is the value, and `b` next to a semicolon
comes with an item that is `b`. -/
structure Separable : Prop where
  found : Listed a b → a = b ∨ NextToSemicolon a b
  whole : NextToSemicolon a b → Listed a b

end items

section matching
variable {a b : String}

theorem occursIn_iff : occursIn a b = true ↔ b.toList <:+: a.toList := decide_eq_true_iff

theorem occursIn_after (hb : ';' ∉ b.toList) :
    occursIn a (";" ++ b) = true ↔ ∃ x ∈ (items a).tail, b.toList <+: x := by
  rw [occursIn_iff, String.toList_append]
  exact infix_sep_cons_iff hb

theorem occursIn_afterBlank (hb : ';' ∉ b.toList) :
    occursIn a ("; " ++ b) = true ↔ ∃ x ∈ (items a).tail, ' ' :: b.toList <+: x := by
  have hblank : ';' ∉ ' ' :: b.toList := fun hmem =>
    (List.mem_cons.1 hmem).elim (fun heq => absurd heq (by decide)) hb
  rw [occursIn_iff, String.toList_append]
  exact infix_sep_cons_iff hblank

theorem occursIn_before (hb : ';' ∉ b.toList) :
    occursIn a (b ++ ";") = true ↔ ∃ x ∈ (items a).dropLast, b.toList <:+ x := by
  rw [occursIn_iff, String.toList_append]
  exact infix_concat_sep_iff hb

theorem occursIn_beforeBlank (hb : ';' ∉ b.toList) :
    occursIn a (b ++ " ;") = true ↔ ∃ x ∈ (items a).dropLast, b.toList ++ [' '] <:+ x := by
  have hblank : ';' ∉ b.toList ++ [' '] := fun hmem =>
    (List.mem_append.1 hmem).elim hb fun heq => absurd (List.mem_singleton.1 heq) (by decide)
  have hassoc : (b ++ " ;").toList = b.toList ++ [' '] ++ [';'] := by
    rw [String.toList_append, List.append_assoc]
    rfl
  rw [occursIn_iff, hassoc]
  exact infix_concat_sep_iff hblank

theorem valMatches_iff (hb : ';' ∉ b.toList) (hstar : b ≠ "*") :
    valMatches a b true = true ↔ a = b ∨ NextToSemicolon a b := by
  have horder : ∀ p q r s t : Prop, (((p ∨ q) ∨ r) ∨ s) ∨ t ↔ t ∨ (p ∨ r) ∨ q ∨ s := by
    intro p q r s t
    tauto
  unfold valMatches NextToSemicolon
  simp only [Bool.or_eq_true, Bool.true_and, decide_eq_true_eq, occursIn_after hb,
    occursIn_before hb, occursIn_afterBlank hb, occursIn_beforeBlank hb, and_or_left, exists_or, hstar,
    false_or]
  exact horder _ _ _ _ _

theorem listed_self (hb : ';' ∉ b.toList) (hblank : trim b.toList = b.toList) : Listed b b := by
  refine ⟨b.toList, ?_, hblank⟩
  rw [items, List.splitOn_eq_singleton hb]
  exact List.mem_singleton_self _

/-- A rule for one of several values looks at the items of the tag value. -/
theorem valMatches_listed_iff (hb : ';' ∉ b.toList) (hblank : trim b.toList = b.toList)
    (hstar : b ≠ "*") : (valMatches a b true = true ↔ Listed a b) ↔ Separable a b := by
  rw [valMatches_iff hb hstar]
  constructor
  · exact fun h => ⟨h.2, fun hnext => h.1 (Or.inr hnext)⟩
  · intro h
    refine ⟨?_, h.found⟩
    rintro (rfl | hnext)
    · exact listed_self hb hblank
    · exact h.whole hnext

theorem valMatches_listed_spaced : valMatches "rail; bus" "bus" true = true ↔
    Listed "rail; bus" "bus" := by
  refine (valMatches_listed_iff (by decide) (by decide) (by decide)).2
    ⟨fun _ => Or.inr (Or.inl ⟨" bus".toList, by decide, Or.inr (by decide)⟩), fun _ => by decide⟩

/-- An item that starts with the value of the rule, and an item with a blank in front of it. -/
theorem valMatches_not_listed :
    valMatches "rail;busway" "bus" true = true ∧ ¬ Listed "rail;busway" "bus" ∧
      valMatches " bus" "bus" true = false ∧ Listed " bus" "bus" ∧
      ¬ ∀ a b : String, ';' ∉ b.toList → trim b.toList = b.toList → b ≠ "*" →
        (valMatches a b true = true ↔ Listed a b) := by
  have hmatches : valMatches "rail;busway" "bus" true = true := by decide
  have hnot : ¬ Listed "rail;busway" "bus" := by decide
  refine ⟨hmatches, hnot, by decide, by decide, fun h => hnot ?_⟩
  exact (h "rail;busway" "bus" (by decide) (by decide) (by decide)).1 hmatches

end matching

end Pfaedle.Osm

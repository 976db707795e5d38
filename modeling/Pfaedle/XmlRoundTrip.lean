import Pfaedle.XmlText
import Pfaedle.XmlWriter

set_option autoImplicit false

/-!
# What is read from written XML

The calls of a writer build a forest. Whatever the calls are and in whatever order they come, the
writer takes them if they build one, and after the tags are closed the forest is what a reader gets
from the stream, with or without layout.
-/
namespace Pfaedle.XmlWriter
open Gtfs XmlText

section documents

/-- What has been written since the last tag, with the layout before its parts. -/
inductive Gap where
  | text (s : Text)
  | comment (s : Text)

structure Doc where
  forest : Forest
  gap : Gap

def Doc.empty : Doc := ⟨.empty, .text []⟩

def attrsRead (attrs : List (Text × Text)) : List (Text × Text) :=
  attrs.map fun kv => (kv.1, kv.2.map attrChar)

def validTag (tag : Text) : Bool := (Writer.checkTagName tag).isOk

def Doc.closeTag (d : Doc) : Doc :=
  match d.gap with
  | .text s => if d.forest.opens = [] then d else ⟨(d.forest.putText s).finish, .text []⟩
  | .comment s => ⟨d.forest.add (.comment (trim s)), .text []⟩

variable (lay : ℕ → Text)

def Doc.call (d : Doc) : Call → Option Doc
  | .openTag tag attrs =>
    match d.gap with
    | .text s =>
      if validTag tag then
        some ⟨(d.forest.putText s).start tag (attrsRead attrs.entries), .text []⟩
      else none
    | .comment _ => none
  | .openComment =>
    match d.gap with
    | .text s => some ⟨d.forest.putText s, .comment []⟩
    | .comment _ => some d
  | .writeText t =>
    match d.gap with
    | .text s =>
      if d.forest.opens = [] then none
      else some { d with gap := .text (s ++ lay d.forest.opens.length ++ t) }
    | .comment s => some { d with gap := .comment (s ++ lay (d.forest.opens.length + 1) ++ t) }
  | .closeTag => some d.closeTag

def Doc.calls (d : Doc) (calls : List Call) : Option Doc := calls.foldlM (Doc.call lay) d

def Doc.depth (d : Doc) : ℕ :=
  match d.gap with
  | .text _ => d.forest.opens.length
  | .comment _ => d.forest.opens.length + 1

def Doc.nodes (d : Doc) : List Xml := (Doc.closeTag^[d.depth] d).forest.nodes

/-- A writer can be told so where names are names, the characters are allowed and no comment has two
dashes in a row. -/
def Doc.Fits (d : Doc) : Call → Prop
  | .openTag _ attrs => ∀ kv ∈ attrs.entries, isName kv.1 = true ∧ kv.2.all isXmlChar = true
  | .writeText t =>
    t.all isXmlChar = true ∧
      match d.gap with
      | .text _ => True
      | .comment s => NoDashes (s ++ lay (d.forest.opens.length + 1) ++ t)
  | _ => True

def Doc.FitsAll : Doc → List Call → Prop
  | _, [] => True
  | d, call :: calls => d.Fits lay call ∧ ∀ d' ∈ d.call lay call, d'.FitsAll calls

instance (d : Doc) (call : Call) : Decidable (d.Fits lay call) := by
  cases call with
  | openTag tag attrs => exact List.decidableBAll _ _
  | openComment => exact instDecidableTrue
  | writeText t =>
    obtain ⟨f, gap⟩ := d
    cases gap with
    | text s => exact instDecidableAnd
    | comment s => exact instDecidableAnd
  | closeTag => exact instDecidableTrue

instance fitsAllDecidable : (d : Doc) → (calls : List Call) → Decidable (d.FitsAll lay calls)
  | _, [] => instDecidableTrue
  | _, _ :: calls =>
    have := fun d' => fitsAllDecidable d' calls
    instDecidableAnd

end documents

section characters

theorem layout_blanks (pretty : Bool) (indent depth : ℕ) :
    ∀ c ∈ Writer.layout pretty indent depth, isXmlBlank c = true := by
  intro c hc
  rw [Writer.layout] at hc
  split at hc
  · cases List.mem_cons.1 hc with
    | inl heq =>
      rw [heq]
      rfl
    | inr hmem =>
      rw [List.eq_of_mem_replicate hmem]
      rfl
  · exact absurd hc List.not_mem_nil

theorem isNameStart_nameChar {c : Char} (h : isNameStart c = true) : isNameChar c = true := by
  rw [isNameChar, h]
  rfl

theorem isXmlChar_of_isNameChar {c : Char} (h : isNameChar c = true) : isXmlChar c = true := by
  have hbelow : ∀ n : Fin 32, isNameChar (Char.ofNat n) = false := by decide
  have hother : ∀ n : ℕ, isNameChar (Char.ofNat n) = false → c.toNat ≠ n := by
    rintro n hn rfl
    rw [Char.ofNat_toNat, h] at hn
    exact absurd hn (by decide)
  have hlow : 32 ≤ c.toNat := by
    by_contra hlt
    exact hother c.toNat (hbelow ⟨c.toNat, not_le.1 hlt⟩) rfl
  have hlast := hother 0xFFFE (by decide)
  have hlast' := hother 0xFFFF (by decide)
  simp [isXmlChar, hlow, hlast, hlast']

theorem escapeChar_nameChar {c : Char} (h : isNameChar c = true) (quot : Char) :
    Writer.escapeChar quot c = [c] := by
  have hne : ∀ d : Char, isNameChar d = false → c ≠ d := by
    rintro d hd rfl
    rw [h] at hd
    exact absurd hd (by decide)
  rw [Writer.escapeChar, if_neg (fun hq => hne '"' (by decide) hq.2),
    if_neg (fun hq => hne '\'' (by decide) hq.2), if_neg (hne '<' (by decide)),
    if_neg (hne '>' (by decide)), if_neg (hne '&' (by decide))]

theorem isName_chars {name : Text} (h : isName name = true) : ∀ c ∈ name, isNameChar c = true := by
  cases name with
  | nil => exact fun c hc => absurd hc List.not_mem_nil
  | cons c s =>
    obtain ⟨hc, hs⟩ := Bool.and_eq_true_iff.1 h
    intro d hd
    cases List.mem_cons.1 hd with
    | inl heq => exact heq ▸ isNameStart_nameChar hc
    | inr hmem => exact List.all_eq_true.1 hs d hmem

theorem escape_name {name : Text} (h : isName name = true) (quot : Char) :
    name.flatMap (Writer.escapeChar quot) = name := by
  have hchars := isName_chars h
  rw [List.flatMap_congr (g := fun c => [c]) fun c hc => escapeChar_nameChar (hchars c hc) quot]
  exact List.flatMap_singleton' name

theorem isTagChar_nameChar {c : Char} (h : Writer.isTagChar c = true) : isNameChar c = true := by
  simp only [Writer.isTagChar, Bool.or_eq_true] at h
  simp only [isNameChar, isNameStart, Bool.or_eq_true]
  tauto

theorem isName_of_validTag {tag : Text} (h : validTag tag = true) : isName tag = true := by
  rw [validTag, Writer.checkTagName] at h
  split_ifs at h with hhead hxml hall
  · exact absurd h Bool.false_ne_true
  · exact absurd h Bool.false_ne_true
  · exact absurd h Bool.false_ne_true
  rw [Bool.not_eq_true, Bool.not_eq_false'] at hhead hall
  cases tag with
  | nil => exact absurd hhead (by decide)
  | cons c s =>
    have hc : isNameStart c = true := by
      simp only [List.head?_cons, Option.any_some, Bool.or_eq_true] at hhead
      simp only [isNameStart, Bool.or_eq_true]
      tauto
    have hs : s.all isNameChar = true :=
      List.all_eq_true.2 fun d hd =>
        isTagChar_nameChar (List.all_eq_true.1 hall d (List.mem_cons_of_mem c hd))
    rw [isName, hc, hs]
    rfl

end characters

section pieces
variable {f : Forest}

theorem run_char {m : Mode} {m' : Mode × Forest} {c : Char} {s : Text} (hc : isXmlChar c = true)
    (hnext : next m f c = some m') : run (m, f) (c :: s) = run m' s := by
  rw [run_cons, step_of_char hc, hnext]
  rfl

theorem run_each {m : Text → Mode} {piece : Char → Text} {res : Char → Char} {s : Text}
    (h : ∀ acc, ∀ c ∈ s, run (m acc, f) (piece c) = some (m (acc ++ [res c]), f)) (acc : Text) :
    run (m acc, f) (s.flatMap piece) = some (m (acc ++ s.map res), f) := by
  induction s generalizing acc with
  | nil =>
    rw [List.map_nil, List.append_nil]
    rfl
  | cons c s ih =>
    rw [List.flatMap_cons]
    apply run_of_append (h acc c List.mem_cons_self)
    rw [ih (fun acc d hd => h acc d (List.mem_cons_of_mem c hd)), List.append_assoc]
    rfl

theorem run_escape_content (acc : Text) {s : Text} (hs : s.all isXmlChar = true) :
    run (.content acc, f) (s.flatMap (Writer.escapeChar ' ')) = some (.content (acc ++ s), f) := by
  have hchar : ∀ acc, ∀ c ∈ s, run (.content acc, f) (Writer.escapeChar ' ' c) =
      some (.content (acc ++ [id c]), f) := by
    intro acc c hc
    rw [Writer.escapeChar, if_neg fun hq => absurd hq.1 (by decide),
      if_neg fun hq => absurd hq.1 (by decide)]
    split_ifs with hlt hgt hamp
    · rw [hlt]
      rfl
    · rw [hgt]
      rfl
    · rw [hamp]
      rfl
    · rw [run_singleton (List.all_eq_true.1 hs c hc), next, if_neg hlt, if_neg hamp,
        if_neg fun hend => hgt hend.1]
      rfl
  have hrun := run_each (m := Mode.content) hchar acc
  rwa [List.map_id] at hrun

theorem run_escape_attr (t : Tag) (key acc : Text) {s : Text} (hs : s.all isXmlChar = true) :
    run (.attrVal t key '"' acc, f) (s.flatMap (Writer.escapeChar '"')) =
      some (.attrVal t key '"' (acc ++ s.map attrChar), f) := by
  apply run_each (m := Mode.attrVal t key '"')
  intro acc c hc
  rw [Writer.escapeChar]
  split_ifs with hquot hapos hlt hgt hamp
  · rw [hquot.2]
    rfl
  · exact absurd hapos.1 (by decide)
  · rw [hlt]
    rfl
  · rw [hgt]
    rfl
  · rw [hamp]
    rfl
  · rw [run_singleton (List.all_eq_true.1 hs c hc), next, if_neg fun heq => hquot ⟨rfl, heq⟩,
      if_neg hlt, if_neg hamp]

theorem run_blanks (acc : Text) {b : Text} (hb : ∀ c ∈ b, isXmlBlank c = true) :
    run (.content acc, f) b = some (.content (acc ++ b), f) := by
  have hchar : ∀ acc, ∀ c ∈ b, run (.content acc, f) [c] = some (.content (acc ++ [id c]), f) := by
    intro acc c hc
    have hblank := hb c hc
    have hne : ∀ d : Char, isXmlBlank d = false → c ≠ d := by
      rintro d hd rfl
      rw [hblank] at hd
      exact absurd hd (by decide)
    rw [run_singleton (isXmlChar_of_isXmlBlank hblank), next, if_neg (hne '<' (by decide)),
      if_neg (hne '&' (by decide)), if_neg fun hend => hne '>' (by decide) hend.1]
    rfl
  have hrun := run_each (m := Mode.content) hchar acc
  rwa [List.map_id, List.flatMap_singleton'] at hrun

theorem run_names {m : Text → Mode} (acc : Text) {s : Text} (hs : ∀ c ∈ s, isNameChar c = true)
    (h : ∀ acc, ∀ c, isNameChar c = true → next (m acc) f c = some (m (acc ++ [c]), f)) :
    run (m acc, f) s = some (m (acc ++ s), f) := by
  have hchar : ∀ acc, ∀ c ∈ s, run (m acc, f) [c] = some (m (acc ++ [id c]), f) := by
    intro acc c hc
    rw [run_singleton (isXmlChar_of_isNameChar (hs c hc))]
    exact h acc c (hs c hc)
  have hrun := run_each hchar acc
  rwa [List.map_id, List.flatMap_singleton'] at hrun

theorem run_startName (f : Forest) {tag : Text} (htag : isName tag = true) :
    run (.opening, f) tag = some (.startName tag, f) := by
  cases tag with
  | nil => exact absurd htag (by decide)
  | cons c s =>
    have hstart := (Bool.and_eq_true_iff.1 htag).1
    have hne : ∀ d : Char, isNameStart d = false → c ≠ d := by
      rintro d hd rfl
      rw [hstart] at hd
      exact absurd hd (by decide)
    have hchars := isName_chars htag
    have hnext : next .opening f c = some (.startName [c], f) := by
      rw [next, if_neg (hne _ (by decide)), if_neg (hne _ (by decide)), if_pos hstart]
    rw [run_char (isXmlChar_of_isNameChar (hchars c List.mem_cons_self)) hnext]
    exact run_names (m := Mode.startName) [c] (fun d hd => hchars d (List.mem_cons_of_mem c hd))
      fun acc d hd => if_pos hd

theorem run_endName (f : Forest) {tag : Text} (htag : isName tag = true) :
    run (.endName [], f) tag = some (.endName tag, f) :=
  run_names (m := Mode.endName) [] (isName_chars htag) fun _ _ hd => if_pos hd

theorem run_key (t : Tag) {key : Text} (hkey : isName key = true) :
    run (.inTag t true, f) key = some (.attrName t key, f) := by
  cases key with
  | nil => exact absurd hkey (by decide)
  | cons c s =>
    have hstart := (Bool.and_eq_true_iff.1 hkey).1
    have hne : ∀ d : Char, isNameStart d = false → c ≠ d := by
      rintro d hd rfl
      rw [hstart] at hd
      exact absurd hd (by decide)
    have hchars := isName_chars hkey
    have hblank : isXmlBlank c ≠ true := by
      intro hb
      simp only [isXmlBlank, Bool.or_eq_true, decide_eq_true_eq] at hb
      obtain (rfl | rfl) | rfl := hb <;> exact absurd hstart (by decide)
    have hnext : next (.inTag t true) f c = some (.attrName t [c], f) := by
      rw [next, afterAttr, if_neg hblank, if_neg (hne _ (by decide)), if_neg (hne _ (by decide)),
        hstart]
      rfl
    rw [run_char (isXmlChar_of_isNameChar (hchars c List.mem_cons_self)) hnext]
    exact run_names (m := Mode.attrName t) [c] (fun d hd => hchars d (List.mem_cons_of_mem c hd))
      fun acc d hd => if_pos hd

theorem run_comment (acc : Text) {s : Text} (hs : s.all isXmlChar = true)
    (hfree : NoDashes (acc ++ s)) :
    run (.comment acc, f) s = some (.comment (acc ++ s), f) := by
  induction s generalizing acc with
  | nil =>
    rw [List.append_nil]
    rfl
  | cons c s ih =>
    obtain ⟨hc, hs⟩ := Bool.and_eq_true_iff.1 hs
    have hacc : NoDashes acc := (List.isChain_append.1 hfree).1
    rw [List.append_cons] at hfree ⊢
    have hnext : next (.comment acc) f c = some (.comment (acc ++ [c]), f) :=
      if_neg hacc.no_end
    rw [run_char hc hnext]
    exact ih (acc ++ [c]) hs hfree

theorem run_commentEnd {s b : Text} (hs : NoDashes s) (hb : ∀ c ∈ b, isXmlBlank c = true) :
    run (.comment (' ' :: s), f) (b ++ " -->".toList) =
      some (.content [], f.add (.comment (trim s))) := by
  have hdash : '-' ∉ b := fun hmem => absurd (hb _ hmem) (by decide)
  have hblanks : ∀ c ∈ b ++ [' '], isXmlBlank c = true := by
    intro c hc
    rcases List.mem_append.1 hc with hc | hc
    · exact hb c hc
    · rw [List.mem_singleton.1 hc]
      rfl
  have hfree : NoDashes (' ' :: s ++ (b ++ " -".toList)) := by
    have hstart : NoDashes (' ' :: s) := hs.cons fun d _ hboth => absurd hboth.1 (by decide)
    refine hstart.append ((noDashes_of_notMem hdash).append (by decide) (Or.inr (by decide))) ?_
    right
    cases b with
    | nil => decide
    | cons c b =>
      intro hhead
      exact hdash (Option.some.inj hhead ▸ List.mem_cons_self)
  have hall : (b ++ " -".toList).all isXmlChar = true := by
    rw [List.all_append, Bool.and_eq_true]
    exact ⟨List.all_eq_true.2 fun c hc => isXmlChar_of_isXmlBlank (hb c hc), by decide⟩
  have hopen := run_comment (f := f) (' ' :: s) hall hfree
  have hsplit : b ++ " -->".toList = b ++ " -".toList ++ ['-', '>'] := by simp
  have hacc : ' ' :: s ++ (b ++ " -".toList) ++ ['-'] =
      ' ' :: (s ++ (b ++ [' '])) ++ ['-'] ++ ['-'] := by simp
  have hlast : run (.comment (' ' :: s ++ (b ++ " -".toList)), f) ['-', '>'] =
      some (.content [], f.add (.comment (trim s))) := by
    have hnext : next (.comment (' ' :: s ++ (b ++ " -".toList))) f '-' =
        some (.comment (' ' :: s ++ (b ++ " -".toList) ++ ['-']), f) := if_neg hfree.no_end
    have hsuffix : "--".toList <:+ ' ' :: s ++ (b ++ " -".toList) ++ ['-'] := by
      rw [hacc]
      exact ⟨' ' :: (s ++ (b ++ [' '])), by simp⟩
    rw [run_char (by decide) hnext, run_singleton (by decide), next, if_pos hsuffix, if_pos rfl,
      hacc, List.dropLast_concat, List.dropLast_concat, trim_cons_blank (by decide),
      trim_append_blanks s hblanks]
  rw [hsplit]
  exact run_of_append hopen hlast

end pieces

section forests
variable {f : Forest}

def tags (opens : List Open) : List XmlNode := opens.map fun o => ⟨.tag, o.tag, false⟩

theorem tags_add (node : Xml) (f : Forest) : tags (f.add node).opens = tags f.opens := by
  rw [Forest.add]
  split
  · rfl
  · rename_i o opens hopens
    rw [hopens]
    rfl

theorem tags_putText (s : Text) (f : Forest) : tags (f.putText s).opens = tags f.opens := by
  rw [Forest.putText]
  split
  · rfl
  · exact tags_add _ f

theorem tags_finish (f : Forest) : tags f.finish.opens = (tags f.opens).tail := by
  rw [Forest.finish]
  split
  · rename_i hopens
    rw [hopens]
    rfl
  · rename_i o opens hopens
    rw [tags_add, hopens]
    rfl

theorem opens_length (f : Forest) : (tags f.opens).length = f.opens.length := List.length_map _

def Named (f : Forest) : Prop := ∀ n ∈ tags f.opens, isName n.pload = true

theorem Named.same {g : Forest} (h : Named f) (htags : tags g.opens = tags f.opens) : Named g := by
  rw [Named, htags]
  exact h

theorem Named.start (h : Named f) {tag : Text} (htag : isName tag = true)
    (attrs : List (Text × Text)) : Named (f.start tag attrs) := by
  intro n hn
  cases List.mem_cons.1 hn with
  | inl heq =>
    rw [heq]
    exact htag
  | inr hmem => exact h n hmem

theorem Named.finish (h : Named f) : Named f.finish := by
  intro n hn
  rw [tags_finish] at hn
  exact h n (List.mem_of_mem_tail hn)

theorem putText_blanks (s : Text) {b : Text} (hb : ∀ c ∈ b, isXmlBlank c = true) (f : Forest) :
    f.putText (s ++ b) = f.putText s := by
  rw [Forest.putText, trim_append_blanks s hb, Forest.putText]

theorem run_lt {s b : Text} (hroot : f.opens = [] → trim s = []) (hb : ∀ c ∈ b, isXmlBlank c = true) :
    run (.content (s ++ b), f) ['<'] = some (.opening, f.putText s) := by
  rw [run_singleton (by decide), next, if_pos rfl, Forest.addText, trim_append_blanks s hb,
    putText_blanks s hb, if_neg]
  · rfl
  · rintro ⟨hopens, hne⟩
    exact hne (hroot hopens)

end forests

section states

def Writer.lay (w : Writer) : ℕ → Text := layout w.pretty w.indent

/-- What has been read of the stream, which starts with `pre`. -/
def Read (pre : Text) (w : Writer) (m : Mode) (f : Forest) : Prop :=
  ∃ out, w.out = pre ++ out ∧ run (.content [], .empty) out = some (m, f)

def hangMode (t : Tag) : Mode := if t.attrs = [] then .startName t.name else .inTag t false

/-- The writer is inside the elements of the forest, after the text. -/
structure Inside (pre : Text) (lay : ℕ → Text) (w : Writer) (f : Forest) (s : Text) : Prop where
  read : Read pre w (.content s) f
  stack : w.nstack = tags f.opens
  lay : w.lay = lay
  named : Named f

inductive Agrees (pre : Text) (lay : ℕ → Text) (w : Writer) : Doc → Prop where
  | content {f : Forest} {s : Text} (inside : Inside pre lay w f s) (root : f.opens = [] → trim s = []) :
    Agrees pre lay w ⟨f, .text s⟩
  | hanging {f : Forest} (t : Tag) (read : Read pre w (hangMode t) f)
    (stack : w.nstack = ⟨.tag, t.name, true⟩ :: tags f.opens) (sameLay : w.lay = lay)
    (named : Named f) (name : isName t.name = true) :
    Agrees pre lay w ⟨f.start t.name t.attrs, .text []⟩
  | comment {f : Forest} {s : Text} (read : Read pre w (.comment (' ' :: s)) f)
    (stack : w.nstack = ⟨.comment, [], false⟩ :: tags f.opens) (sameLay : w.lay = lay)
    (named : Named f) (free : NoDashes s) : Agrees pre lay w ⟨f, .comment s⟩

variable {pre : Text} {lay : ℕ → Text} {w : Writer} {f : Forest} {s : Text}

theorem Read.put {m m' : Mode} {f' : Forest} (h : Read pre w m f) {t : Text}
    (hrun : run (m, f) t = some (m', f')) : Read pre (w.put t) m' f' := by
  obtain ⟨out, hout, hread⟩ := h
  refine ⟨out ++ t, ?_, run_of_append hread hrun⟩
  change w.out ++ t = _
  rw [hout, List.append_assoc]

theorem Writer.lay_blanks (w : Writer) (n : ℕ) : ∀ c ∈ w.lay n, isXmlBlank c = true :=
  layout_blanks w.pretty w.indent n

theorem tags_notComment {nstack : List XmlNode} (h : ∃ opens, nstack = tags opens) :
    (nstack.head?.any fun n => n.t = .comment) = false := by
  obtain ⟨opens, rfl⟩ := h
  cases opens with
  | nil => rfl
  | cons o opens => rfl

theorem Inside.notComment (h : Inside pre lay w f s) : w.inComment = false :=
  tags_notComment ⟨_, h.stack⟩

theorem Inside.doIndent (h : Inside pre lay w f s) :
    Inside pre lay w.doIndent f (s ++ lay f.opens.length) where
  read := by
    have hlay : Writer.layout w.pretty w.indent w.nstack.length = lay f.opens.length := by
      rw [h.stack, opens_length, ← h.lay]
      rfl
    rw [Writer.doIndent, hlay]
    exact h.read.put (run_blanks s (h.lay ▸ w.lay_blanks _))
  stack := h.stack
  lay := h.lay
  named := h.named

theorem run_hang_end (t : Tag) (f : Forest) :
    run (hangMode t, f) ['>'] = some (.content [], f.start t.name t.attrs) := by
  rw [hangMode]
  split
  · rename_i hnil
    rw [hnil]
    rfl
  · rfl

theorem run_hang_slash (t : Tag) (f : Forest) :
    run (hangMode t, f) " />".toList = some (.content [], (f.start t.name t.attrs).finish) := by
  rw [hangMode]
  split
  · rename_i hnil
    rw [hnil]
    rfl
  · rfl

theorem run_hang_blank (t : Tag) (f : Forest) :
    run (hangMode t, f) [' '] = some (.inTag t true, f) := by
  obtain ⟨name, attrs⟩ := t
  rw [hangMode]
  split
  · rename_i hnil
    obtain rfl : attrs = [] := hnil
    rfl
  · rfl

theorem Agrees.closeHanging (h : Agrees pre lay w ⟨f, .text s⟩) :
    Inside pre lay w.closeHanging f s ∧ (f.opens = [] → trim s = []) := by
  cases h with
  | content inside root =>
    refine ⟨?_, root⟩
    have hsame : w.closeHanging = w := by
      rw [Writer.closeHanging, inside.stack]
      cases f.opens with
      | nil => rfl
      | cons o opens => rfl
    rw [hsame]
    exact inside
  | @hanging g t read stack sameLay named name =>
    refine ⟨?_, fun hnil => absurd hnil (List.cons_ne_nil _ _)⟩
    have hclose : w.closeHanging =
        { w.put ['>'] with nstack := ⟨.tag, t.name, false⟩ :: tags g.opens } := by
      rw [Writer.closeHanging, stack]
      rfl
    rw [hclose]
    exact ⟨read.put (run_hang_end t g), rfl, sameLay, named.start name t.attrs⟩

end states

section calls
variable {pre : Text} {lay : ℕ → Text} {w : Writer} {f : Forest} {s : Text}

/-- A start tag is written as far as its attributes `t.attrs`. -/
structure Hangs (pre : Text) (lay : ℕ → Text) (w : Writer) (t : Tag) (f : Forest) : Prop where
  read : Read pre w (hangMode t) f
  stack : w.nstack = tags f.opens
  lay : w.lay = lay
  named : Named f

theorem Inside.lt (h : Inside pre lay w f s) (hroot : f.opens = [] → trim s = []) {rest : Text}
    {m : Mode × Forest} (hrun : run (.opening, f.putText s) rest = some m) :
    Read pre (w.doIndent.put ('<' :: rest)) m.1 m.2 := by
  have hblanks : ∀ c ∈ lay f.opens.length, isXmlBlank c = true := h.lay ▸ w.lay_blanks _
  exact h.doIndent.read.put (run_of_append (run_lt hroot hblanks) hrun)

theorem hangMode_append (t : Tag) (kv : Text × Text) :
    hangMode { t with attrs := t.attrs ++ [kv] } =
      .inTag { t with attrs := t.attrs ++ [kv] } false :=
  if_neg (List.append_ne_nil_of_right_ne_nil _ (List.cons_ne_nil _ _))

theorem Hangs.putAttr {t : Tag} (h : Hangs pre lay w t f) {kv : Text × Text}
    (hkey : isName kv.1 = true) (hval : kv.2.all isXmlChar = true)
    (hnew : kv.1 ∉ t.attrs.map Prod.fst) :
    Hangs pre lay (w.putAttr kv) { t with attrs := t.attrs ++ [(kv.1, kv.2.map attrChar)] } f := by
  have hout : w.inComment = false := tags_notComment ⟨_, h.stack⟩
  have hput : w.putAttr kv = ((((w.put [' ']).put kv.1).put ['=', '"']).put
      (kv.2.flatMap (Writer.escapeChar '"'))).put ['"'] := by
    have hcomment : ∀ u : Writer, u.nstack = w.nstack → u.inComment = false := by
      intro u hu
      rw [Writer.inComment, hu]
      exact hout
    rw [Writer.putAttr, Writer.putEsced, Writer.putEsced, hcomment (w.put [' ']) rfl,
      hcomment ((((w.put [' ']).put _).put ['=', '"'])) rfl, escape_name hkey]
    rfl
  have hkeyRead := (h.read.put (run_hang_blank t f)).put (run_key t hkey)
  have hquot : run (.attrName t kv.1, f) ['=', '"'] = some (.attrVal t kv.1 '"' [], f) := rfl
  have hvalRead := (hkeyRead.put hquot).put (run_escape_attr t kv.1 [] hval)
  have hend : run (.attrVal t kv.1 '"' ([] ++ kv.2.map attrChar), f) ['"'] =
      some (.inTag { t with attrs := t.attrs ++ [(kv.1, kv.2.map attrChar)] } false, f) := by
    rw [run_singleton (by decide), next, if_pos rfl, if_neg hnew]
    rfl
  rw [hput]
  exact ⟨hangMode_append t _ ▸ hvalRead.put hend, h.stack, h.lay, h.named⟩

theorem Hangs.putAttrs {t : Tag} (h : Hangs pre lay w t f) {attrs : List (Text × Text)}
    (hfit : ∀ kv ∈ attrs, isName kv.1 = true ∧ kv.2.all isXmlChar = true)
    (hnodup : (t.attrs.map Prod.fst ++ attrs.map Prod.fst).Nodup) :
    Hangs pre lay (attrs.foldl Writer.putAttr w) { t with attrs := t.attrs ++ attrsRead attrs } f := by
  induction attrs generalizing w t with
  | nil =>
    rw [attrsRead, List.map_nil, List.append_nil]
    exact h
  | cons kv attrs ih =>
    obtain ⟨hkey, hval⟩ := hfit kv List.mem_cons_self
    have hnew : kv.1 ∉ t.attrs.map Prod.fst := fun hmem =>
      List.disjoint_of_nodup_append hnodup hmem List.mem_cons_self
    have hnext := ih (h.putAttr hkey hval hnew)
      (fun kv' hkv' => hfit kv' (List.mem_cons_of_mem kv hkv'))
      (by rwa [List.map_append, List.map_singleton, List.append_assoc])
    rwa [List.append_assoc] at hnext

theorem Agrees.openTag (h : Agrees pre lay w ⟨f, .text s⟩) {tag : Text} {attrs : SortedMap Text Text}
    (htag : validTag tag = true)
    (hfit : ∀ kv ∈ attrs.entries, isName kv.1 = true ∧ kv.2.all isXmlChar = true) :
    Agrees pre lay ((attrs.entries.foldl Writer.putAttr (w.closeHanging.doIndent.put ('<' :: tag))).push
      .tag tag true) ⟨(f.putText s).start tag (attrsRead attrs.entries), .text []⟩ := by
  obtain ⟨hinside, hroot⟩ := h.closeHanging
  have hname := isName_of_validTag htag
  have hnamed : Named (f.putText s) := hinside.named.same (tags_putText s f)
  have hstart : Hangs pre lay (w.closeHanging.doIndent.put ('<' :: tag)) ⟨tag, []⟩ (f.putText s) :=
    ⟨hinside.lt hroot (run_startName _ hname), hinside.stack.trans (tags_putText s f).symm,
      hinside.lay, hnamed⟩
  have hdone := hstart.putAttrs hfit attrs.keys_nodup
  exact .hanging ⟨tag, attrsRead attrs.entries⟩ hdone.read
    (congrArg (List.cons _) hdone.stack) hdone.lay hnamed hname

theorem Agrees.openComment (h : Agrees pre lay w ⟨f, .text s⟩) :
    Agrees pre lay ((w.closeHanging.doIndent.put "<!-- ".toList).push .comment [] false)
      ⟨f.putText s, .comment []⟩ := by
  obtain ⟨hinside, hroot⟩ := h.closeHanging
  have hrun : run (.opening, f.putText s) "!-- ".toList =
      some (.comment [' '], f.putText s) := rfl
  exact .comment (hinside.lt hroot hrun)
    (congrArg (List.cons _) (hinside.stack.trans (tags_putText s f).symm)) hinside.lay
    (hinside.named.same (tags_putText s f)) List.isChain_nil

theorem Agrees.writeText (h : Agrees pre lay w ⟨f, .text s⟩) (hopen : f.opens ≠ []) {t : Text}
    (ht : t.all isXmlChar = true) :
    Agrees pre lay (w.closeHanging.doIndent.putEsced t ' ')
      ⟨f, .text (s ++ lay f.opens.length ++ t)⟩ := by
  have hinside := h.closeHanging.1.doIndent
  rw [Writer.putEsced, hinside.notComment]
  exact .content ⟨hinside.read.put (run_escape_content _ ht), hinside.stack, hinside.lay,
    hinside.named⟩ fun hnil => absurd hnil hopen

theorem Agrees.writeComment (h : Agrees pre lay w ⟨f, .comment s⟩) {t : Text}
    (ht : t.all isXmlChar = true)
    (hfree : NoDashes (s ++ lay (f.opens.length + 1) ++ t)) :
    Agrees pre lay (w.closeHanging.doIndent.putEsced t ' ')
      ⟨f, .comment (s ++ lay (f.opens.length + 1) ++ t)⟩ := by
  cases h with
  | comment read stack sameLay named _ =>
    have hhang : w.closeHanging = w := by
      rw [Writer.closeHanging, stack]
      rfl
    have hlay : Writer.layout w.pretty w.indent w.nstack.length = lay (f.opens.length + 1) := by
      rw [stack, List.length_cons, opens_length, ← sameLay]
      rfl
    have hcomment : w.doIndent.inComment = true := by
      rw [Writer.inComment]
      change (w.nstack.head?.any fun n => n.t = .comment) = true
      rw [stack]
      rfl
    have hput : w.doIndent.putEsced t ' ' = w.put (lay (f.opens.length + 1) ++ t) := by
      rw [Writer.putEsced, hcomment, if_pos rfl, Writer.doIndent, hlay, Writer.put, Writer.put,
        Writer.put, List.append_assoc]
    have hall : (lay (f.opens.length + 1) ++ t).all isXmlChar = true := by
      rw [List.all_append, ht, Bool.and_true]
      exact List.all_eq_true.2 fun c hc =>
        isXmlChar_of_isXmlBlank (w.lay_blanks _ c (sameLay ▸ hc))
    have hfree' : NoDashes (' ' :: s ++ (lay (f.opens.length + 1) ++ t)) := by
      rw [List.cons_append, ← List.append_assoc]
      exact hfree.cons fun d _ hboth => absurd hboth.1 (by decide)
    rw [hhang, hput]
    rw [List.append_assoc] at hfree ⊢
    exact .comment (read.put (run_comment (' ' :: s) hall hfree')) stack sameLay named hfree

theorem closeTag_top {n : XmlNode} {rest : List XmlNode} (hstack : w.nstack = n :: rest)
    (hn : n.t ≠ .text) : w.closeTag =
      match n.t with
      | .comment => w.pop.doIndent.put " -->".toList
      | .tag =>
        if n.hanging then (w.put " />".toList).pop
        else w.pop.doIndent.put ("</".toList ++ n.pload ++ ['>'])
      | .text => w := by
  have hdrop : w.dropTexts = w := by
    rw [Writer.dropTexts, hstack, List.dropWhile_cons_of_neg (by simpa using hn), ← hstack]
  cases ht : n.t with
  | text => exact absurd ht hn
  | tag => simp only [Writer.closeTag, hdrop, hstack, ht]
  | comment => simp only [Writer.closeTag, hdrop, hstack, ht]

theorem closeTag_empty (hstack : w.nstack = []) : w.closeTag = w := by
  have hdrop : w.dropTexts = w := by
    rw [Writer.dropTexts, hstack, List.dropWhile_nil, ← hstack]
  rw [Writer.closeTag, hdrop, hstack]

theorem pop_doIndent_put (w : Writer) (t : Text) :
    ∃ b, (∀ c ∈ b, isXmlBlank c = true) ∧ w.pop.doIndent.put t = w.pop.put (b ++ t) := by
  refine ⟨_, layout_blanks w.pretty w.indent w.pop.nstack.length, ?_⟩
  change w.pop.doIndent.put t = w.pop.put (Writer.layout w.pop.pretty w.pop.indent _ ++ t)
  rw [Writer.doIndent, Writer.put, Writer.put, Writer.put, List.append_assoc]

theorem run_endTag {o : Open} {opens : List Open} (hopens : tags f.opens = tags (o :: opens))
    (hname : isName o.tag = true) :
    run (.opening, f) ('/' :: (o.tag ++ ['>'])) = some (.content [], f.finish) := by
  have hslash : next .opening f '/' = some (.endName [], f) := rfl
  rw [run_char (by decide) hslash]
  apply run_of_append (run_endName f hname)
  have hhead : f.opens.head?.map Open.tag = some o.tag := by
    have hloads := congrArg (fun ns : List XmlNode => (ns.map XmlNode.pload).head?) hopens
    rw [tags, tags, List.map_map, List.map_map, List.head?_map] at hloads
    exact hloads
  rw [run_singleton (by decide), next, if_neg (by decide), afterEnd, if_neg (by decide),
    if_pos rfl, Forest.close, if_pos hhead]
  rfl

theorem Agrees.closeElement (h : Inside pre lay w f s) (hroot : f.opens = [] → trim s = []) :
    Agrees pre lay w.closeTag (Doc.closeTag ⟨f, .text s⟩) := by
  have hnamed := (h.named.same (tags_putText s f)).finish
  rw [Doc.closeTag]
  dsimp only
  cases hopens : f.opens with
  | nil =>
    have hclosed : w.closeTag = w := closeTag_empty (by rw [h.stack, hopens]; rfl)
    rw [if_pos rfl, hclosed]
    exact .content h hroot
  | cons o opens =>
    rw [if_neg (List.cons_ne_nil _ _)]
    have hstack : w.nstack = ⟨.tag, o.tag, false⟩ :: tags opens := by
      rw [h.stack, hopens]
      rfl
    have hname : isName o.tag = true := by
      apply h.named ⟨.tag, o.tag, false⟩
      rw [← h.stack, hstack]
      exact List.mem_cons_self
    have hsame : tags (f.putText s).opens = tags (o :: opens) := by rw [tags_putText, hopens]
    obtain ⟨b, hb, hput⟩ := pop_doIndent_put w ("</".toList ++ o.tag ++ ['>'])
    have hread : Read pre w.closeTag (.content []) (f.putText s).finish := by
      rw [closeTag_top hstack (by simp)]
      change Read pre (w.pop.doIndent.put ("</".toList ++ o.tag ++ ['>'])) _ _
      rw [hput]
      have hrun := run_of_append (run_of_append (run_blanks s hb) (run_lt hroot hb))
        (run_endTag hsame hname)
      rw [List.append_assoc] at hrun
      exact Read.put (w := w.pop) h.read hrun
    have hfinish : w.closeTag.nstack = tags (f.putText s).finish.opens := by
      rw [closeTag_top hstack (by simp), tags_finish, hsame]
      change w.nstack.tail = _
      rw [hstack]
      rfl
    have hlay : w.closeTag.lay = lay := by
      rw [closeTag_top hstack (by simp)]
      exact h.lay
    exact .content ⟨hread, hfinish, hlay, hnamed⟩ fun _ => rfl

theorem Agrees.closeTag {d : Doc} (h : Agrees pre lay w d) : Agrees pre lay w.closeTag d.closeTag := by
  cases h with
  | content inside root => exact .closeElement inside root
  | @hanging g t read stack sameLay named name =>
    have hclosed : w.closeTag = (w.put " />".toList).pop := by
      rw [closeTag_top stack (by simp)]
      rfl
    have hfinish : w.closeTag.nstack = tags (g.start t.name t.attrs).finish.opens := by
      rw [tags_finish, hclosed]
      change w.nstack.tail = _
      rw [stack]
      rfl
    have hread : Read pre w.closeTag (.content []) (g.start t.name t.attrs).finish := by
      rw [hclosed]
      exact read.put (run_hang_slash t g)
    have hlay : w.closeTag.lay = lay := by
      rw [hclosed]
      exact sameLay
    exact .content ⟨hread, hfinish, hlay, (named.start name t.attrs).finish⟩ fun _ => rfl
  | @comment g s read stack sameLay named free =>
    obtain ⟨b, hb, hput⟩ := pop_doIndent_put w " -->".toList
    have hclosed : w.closeTag = w.pop.put (b ++ " -->".toList) := by
      rw [closeTag_top stack (by simp), ← hput]
    have hread : Read pre w.closeTag (.content []) (g.add (.comment (trim s))) := by
      rw [hclosed]
      exact Read.put (w := w.pop) read (run_commentEnd free hb)
    have hstack : w.closeTag.nstack = tags (g.add (.comment (trim s))).opens := by
      rw [hclosed, tags_add]
      change w.nstack.tail = _
      rw [stack]
      rfl
    have hlay : w.closeTag.lay = lay := by
      rw [hclosed]
      exact sameLay
    exact .content ⟨hread, hstack, hlay, named.same (tags_add _ g)⟩ fun _ => rfl

end calls

section documents
variable {pre : Text} {lay : ℕ → Text} {w : Writer} {d : Doc}

theorem Agrees.inComment (h : Agrees pre lay w d) :
    w.inComment = true ↔ ∃ s, d.gap = .comment s := by
  cases h with
  | content inside root =>
    rw [inside.notComment]
    exact ⟨fun heq => absurd heq (by decide), fun ⟨_, hs⟩ => by cases hs⟩
  | hanging t read stack sameLay named name =>
    rw [Writer.inComment, stack]
    exact ⟨fun heq => absurd heq (by simp), fun ⟨_, hs⟩ => by cases hs⟩
  | comment read stack sameLay named _ =>
    rw [Writer.inComment, stack]
    exact ⟨fun _ => ⟨_, rfl⟩, fun _ => rfl⟩

theorem Agrees.depth (h : Agrees pre lay w d) : w.nstack.length = d.depth := by
  cases h with
  | content inside root => rw [inside.stack, opens_length, Doc.depth]
  | hanging t read stack sameLay named name =>
    rw [stack, List.length_cons, opens_length, Doc.depth]
    rfl
  | comment read stack sameLay named _ => rw [stack, List.length_cons, opens_length, Doc.depth]

theorem checkTagName_of_validTag {tag : Text} (h : validTag tag = true) :
    Writer.checkTagName tag = .ok () := by
  rw [validTag] at h
  cases hcheck : Writer.checkTagName tag with
  | error e =>
    rw [hcheck] at h
    cases h
  | ok u => rfl

theorem checkTagName_of_not_validTag {tag : Text} (h : ¬validTag tag = true) :
    ∃ e, Writer.checkTagName tag = .error e := by
  rw [validTag] at h
  cases hcheck : Writer.checkTagName tag with
  | error e => exact ⟨e, rfl⟩
  | ok u =>
    rw [hcheck] at h
    exact absurd rfl h

/-- A call that is allowed is taken, and any other is refused. -/
theorem Agrees.call (h : Agrees pre lay w d) {call : Call} (hfit : d.Fits lay call) :
    (∃ w' d', call.run w = .ok w' ∧ d.call lay call = some d' ∧ Agrees pre lay w' d') ∨
      ∃ e, call.run w = .error e ∧ d.call lay call = none := by
  obtain ⟨f, gap⟩ := d
  cases call with
  | openTag tag attrs =>
    cases gap with
    | comment s =>
      refine Or.inr ⟨⟨"Opening tags not allowed while inside comment.".toList⟩, ?_, rfl⟩
      exact if_pos (h.inComment.2 ⟨s, rfl⟩)
    | text s =>
      have hout : ¬w.inComment = true := fun hin => by
        obtain ⟨_, hgap⟩ := h.inComment.1 hin
        cases hgap
      by_cases htag : validTag tag = true
      · refine Or.inl ⟨_, _, ?_, if_pos htag, h.openTag htag hfit⟩
        rw [Call.run, Writer.openTag, if_neg hout, checkTagName_of_validTag htag]
        rfl
      · obtain ⟨e, he⟩ := checkTagName_of_not_validTag htag
        refine Or.inr ⟨e, ?_, if_neg htag⟩
        rw [Call.run, Writer.openTag, if_neg hout, he]
        rfl
  | openComment =>
    left
    cases gap with
    | comment s =>
      have hsame : w.openComment = w := if_pos (h.inComment.2 ⟨s, rfl⟩)
      refine ⟨w.openComment, _, rfl, rfl, ?_⟩
      rw [hsame]
      exact h
    | text s =>
      have hout : ¬w.inComment = true := fun hin => by
        obtain ⟨_, hgap⟩ := h.inComment.1 hin
        cases hgap
      refine ⟨w.openComment, _, rfl, rfl, ?_⟩
      rw [Writer.openComment, if_neg hout]
      exact h.openComment
  | writeText t =>
    have hdepth := h.depth
    cases gap with
    | text s =>
      by_cases hopens : f.opens = []
      · refine Or.inr ⟨⟨"Text content not allowed in prolog / trailing.".toList⟩, ?_,
          if_pos hopens⟩
        rw [Doc.depth, hopens] at hdepth
        exact if_pos (List.eq_nil_of_length_eq_zero hdepth)
      · refine Or.inl ⟨_, _, ?_, if_neg hopens, h.writeText hopens hfit.1⟩
        rw [Call.run, Writer.writeText, if_neg]
        intro hnil
        rw [hnil, Doc.depth] at hdepth
        exact hopens (List.eq_nil_of_length_eq_zero hdepth.symm)
    | comment s =>
      refine Or.inl ⟨_, _, ?_, rfl, h.writeComment hfit.1 hfit.2⟩
      rw [Call.run, Writer.writeText, if_neg]
      intro hnil
      rw [hnil, Doc.depth] at hdepth
      exact absurd hdepth.symm (Nat.succ_ne_zero _)
  | closeTag => exact Or.inl ⟨_, _, rfl, rfl, h.closeTag⟩

theorem Agrees.calls (h : Agrees pre lay w d) {calls : List Call} (hfit : d.FitsAll lay calls) :
    (∃ w' d', runCalls calls w = .ok w' ∧ d.calls lay calls = some d' ∧ Agrees pre lay w' d') ∨
      ∃ e, runCalls calls w = .error e ∧ d.calls lay calls = none := by
  induction calls generalizing w d with
  | nil => exact Or.inl ⟨w, d, rfl, rfl, h⟩
  | cons call calls ih =>
    obtain ⟨hcall, hrest⟩ := hfit
    obtain ⟨w', d', hrun, hdoc, hagrees⟩ | ⟨e, hrun, hdoc⟩ := h.call hcall
    · rw [runCalls, List.foldlM_cons, hrun, Doc.calls, List.foldlM_cons, hdoc]
      exact ih hagrees (hrest d' hdoc)
    · refine Or.inr ⟨e, ?_, ?_⟩
      · rw [runCalls, List.foldlM_cons, hrun]
        rfl
      · rw [Doc.calls, List.foldlM_cons, hdoc]
        rfl

theorem Agrees.iterate (h : Agrees pre lay w d) (n : ℕ) :
    Agrees pre lay (Writer.closeTag^[n] w) (Doc.closeTag^[n] d) := by
  induction n generalizing w d with
  | zero => exact h
  | succ n ih => exact ih h.closeTag

theorem closeTag_depth (d : Doc) : d.closeTag.depth = d.depth - 1 := by
  obtain ⟨f, gap⟩ := d
  cases gap with
  | text s =>
    rw [Doc.closeTag]
    dsimp only
    split
    · rename_i hopens
      change f.opens.length = f.opens.length - 1
      rw [hopens]
      rfl
    · change (f.putText s).finish.opens.length = f.opens.length - 1
      rw [← opens_length, tags_finish, tags_putText, List.length_tail, opens_length]
  | comment s =>
    change (f.add (.comment (trim s))).opens.length = f.opens.length + 1 - 1
    rw [← opens_length, tags_add, opens_length, Nat.add_sub_cancel]

theorem iterate_depth (d : Doc) (n : ℕ) : (Doc.closeTag^[n] d).depth = d.depth - n := by
  induction n generalizing d with
  | zero => rfl
  | succ n ih => rw [Function.iterate_succ_apply, ih, closeTag_depth, Nat.sub_sub, Nat.add_comm 1]

theorem Agrees.closeTags (h : Agrees pre lay w d) :
    ∃ out m, w.closeTags.out = pre ++ out ∧ run (.content [], .empty) out = some m ∧
      finished m = if Rooted d.nodes then some d.nodes else none := by
  have hclosed := h.iterate d.depth
  have hdepth := iterate_depth d d.depth
  rw [Nat.sub_self] at hdepth
  rw [Writer.closeTags, h.depth, Doc.nodes]
  generalize Doc.closeTag^[d.depth] d = closed at hclosed hdepth ⊢
  cases hclosed with
  | @content f s inside root =>
    have hopens : f.opens = [] := List.eq_nil_of_length_eq_zero hdepth
    obtain ⟨out, hout, hread⟩ := inside.read
    refine ⟨out, _, hout, hread, ?_⟩
    exact if_congr (by rw [eq_true hopens, eq_true (root hopens), true_and, true_and]) rfl rfl
  | hanging t read stack sameLay named name => exact absurd hdepth (Nat.succ_ne_zero _)
  | comment read stack sameLay named _ => exact absurd hdepth (Nat.succ_ne_zero _)

theorem agrees_new (pretty : Bool) (indent : ℕ) :
    Agrees [] (Writer.layout pretty indent) (newWriter pretty indent) Doc.empty :=
  .content ⟨⟨[], rfl, rfl⟩, rfl, rfl, fun _ hn => absurd hn List.not_mem_nil⟩ fun _ => rfl

/-- The writer takes the calls that build nodes, and a reader gets them from what is written if they
are a document. -/
theorem calls_read (pretty : Bool) (indent : ℕ) (calls : List Call)
    (hfit : Doc.empty.FitsAll (Writer.layout pretty indent) calls) :
    (runCalls calls (newWriter pretty indent)).toOption.map (fun w => parse w.closeTags.out) =
      (Doc.empty.calls (Writer.layout pretty indent) calls).map fun d =>
        if Rooted d.nodes then some d.nodes else none := by
  obtain ⟨w, d, hrun, hdoc, hagrees⟩ | ⟨e, hrun, hdoc⟩ := (agrees_new pretty indent).calls hfit
  · obtain ⟨out, m, hout, hread, hfinished⟩ := hagrees.closeTags
    rw [hrun, hdoc]
    refine congrArg some ?_
    dsimp only
    rw [hout, List.nil_append, parse_of_run hread, hfinished]
  · rw [hrun, hdoc]
    rfl

def sampleCalls : List Call :=
  [.openComment, .writeText "- written -".toList, .closeTag, openTag "union".toList,
    openTagWith "has-kv".toList [("v".toList, "a & \"b\"".toList), ("k".toList, "x<y".toList)],
    .closeTag, .writeText "1 > 0".toList, .closeTag]

theorem calls_read_sample :
    (runCalls sampleCalls (newWriter true 4)).toOption.map (fun w => parse w.closeTags.out) =
      some (some [.comment "- written -".toList,
        .elem "union".toList []
          [.elem "has-kv".toList
              [("k".toList, "x<y".toList), ("v".toList, "a & \"b\"".toList)] [],
            .text "1 > 0".toList]]) :=
  (calls_read true 4 sampleCalls (by decide)).trans rfl

end documents

end Pfaedle.XmlWriter

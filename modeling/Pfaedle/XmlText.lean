import Mathlib.Data.List.Chain
import Mathlib.Data.List.DropRight
import Mathlib.Data.List.Infix
import Mathlib.Tactic.Common

set_option autoImplicit false

/-!
# XML texts

A reader of the standard grammar without document types, processing instructions, CDATA sections and
references by number, and with one declaration. It takes one character after the other, so that what
is read of a text is read before what follows. A line ends in `\n`. Blanks around texts and comments
are layout.
-/
namespace Pfaedle.XmlText

inductive Xml where
  | elem (tag : List Char) (attrs : List (List Char × List Char)) (childs : List Xml)
  | text (s : List Char)
  | comment (s : List Char)

section characters

def isXmlBlank (c : Char) : Bool := c = ' ' || c = '\t' || c = '\n'

def isXmlChar (c : Char) : Bool :=
  0x20 ≤ c.toNat && c.toNat ≠ 0xFFFE && c.toNat ≠ 0xFFFF || c = '\t' || c = '\n'

def inRanges (ranges : List (ℕ × ℕ)) (c : Char) : Bool :=
  ranges.any fun r => r.1 ≤ c.toNat && c.toNat ≤ r.2

def nameStarts : List (ℕ × ℕ) :=
  [(0xC0, 0xD6), (0xD8, 0xF6), (0xF8, 0x2FF), (0x370, 0x37D), (0x37F, 0x1FFF), (0x200C, 0x200D),
    (0x2070, 0x218F), (0x2C00, 0x2FEF), (0x3001, 0xD7FF), (0xF900, 0xFDCF), (0xFDF0, 0xFFFD),
    (0x10000, 0xEFFFF)]

def nameExtras : List (ℕ × ℕ) := [(0xB7, 0xB7), (0x300, 0x36F), (0x203F, 0x2040)]

def isNameStart (c : Char) : Bool := c.isAlpha || c = '_' || c = ':' || inRanges nameStarts c

def isNameChar (c : Char) : Bool :=
  isNameStart c || c.isDigit || c = '-' || c = '.' || inRanges nameExtras c

def isName : List Char → Bool
  | [] => false
  | c :: s => isNameStart c && s.all isNameChar

def trim (s : List Char) : List Char := (s.dropWhile isXmlBlank).rdropWhile isXmlBlank

def attrChar (c : Char) : Char := if isXmlBlank c then ' ' else c

def decodeRef (name : List Char) : Option Char :=
  if name = "lt".toList then some '<'
  else if name = "gt".toList then some '>'
  else if name = "amp".toList then some '&'
  else if name = "quot".toList then some '"'
  else if name = "apos".toList then some '\''
  else none

def NoDashes (s : List Char) : Prop := s.IsChain fun c d => ¬(c = '-' ∧ d = '-')

instance (s : List Char) : Decidable (NoDashes s) := inferInstanceAs (Decidable (List.IsChain _ s))

end characters

structure Open where
  tag : List Char
  attrs : List (List Char × List Char)
  childs : List Xml

/-- The nodes that are complete, and the elements around the place that is read, the inner ones
first. -/
structure Forest where
  nodes : List Xml
  opens : List Open

namespace Forest

def empty : Forest := ⟨[], []⟩

def add (node : Xml) (f : Forest) : Forest :=
  match f.opens with
  | [] => { f with nodes := f.nodes ++ [node] }
  | o :: opens => { f with opens := { o with childs := o.childs ++ [node] } :: opens }

def putText (s : List Char) (f : Forest) : Forest :=
  if trim s = [] then f else f.add (.text (trim s))

def addText (s : List Char) (f : Forest) : Option Forest :=
  if f.opens = [] ∧ trim s ≠ [] then none else some (f.putText s)

def start (tag : List Char) (attrs : List (List Char × List Char)) (f : Forest) : Forest :=
  { f with opens := ⟨tag, attrs, []⟩ :: f.opens }

def finish (f : Forest) : Forest :=
  match f.opens with
  | [] => f
  | o :: opens => add (.elem o.tag o.attrs o.childs) ⟨f.nodes, opens⟩

def close (tag : List Char) (f : Forest) : Option Forest :=
  if f.opens.head?.map Open.tag = some tag then some f.finish else none

end Forest

structure Tag where
  name : List Char
  attrs : List (List Char × List Char)

inductive Mode where
  | content (s : List Char)
  | contentRef (s name : List Char)
  | opening
  | startName (name : List Char)
  | inTag (t : Tag) (blank : Bool)
  | attrName (t : Tag) (key : List Char)
  | attrEq (t : Tag) (key : List Char)
  | attrQuote (t : Tag) (key : List Char)
  | attrVal (t : Tag) (key : List Char) (quot : Char) (val : List Char)
  | attrRef (t : Tag) (key : List Char) (quot : Char) (val name : List Char)
  | slash (t : Tag)
  | endName (name : List Char)
  | endBlank (name : List Char)
  | bang (dash : Bool)
  | comment (s : List Char)

def afterAttr (t : Tag) (blank : Bool) (f : Forest) (c : Char) : Option (Mode × Forest) :=
  if isXmlBlank c then some (.inTag t true, f)
  else if c = '>' then some (.content [], f.start t.name t.attrs)
  else if c = '/' then some (.slash t, f)
  else if blank && isNameStart c then some (.attrName t [c], f)
  else none

def afterKey (t : Tag) (key : List Char) (f : Forest) (c : Char) : Option (Mode × Forest) :=
  if isXmlBlank c then some (.attrEq t key, f)
  else if c = '=' then some (.attrQuote t key, f)
  else none

def afterEnd (name : List Char) (f : Forest) (c : Char) : Option (Mode × Forest) :=
  if isXmlBlank c then some (.endBlank name, f)
  else if c = '>' then (f.close name).map (.content [], ·)
  else none

def next : Mode → Forest → Char → Option (Mode × Forest)
  | .content s, f, c =>
    if c = '<' then (f.addText s).map (.opening, ·)
    else if c = '&' then some (.contentRef s [], f)
    -- the end of a CDATA section
    else if c = '>' ∧ "]]".toList <:+ s then none
    else some (.content (s ++ [c]), f)
  | .contentRef s name, f, c =>
    if c = ';' then (decodeRef name).map fun d => (.content (s ++ [d]), f)
    else some (.contentRef s (name ++ [c]), f)
  | .opening, f, c =>
    if c = '/' then some (.endName [], f)
    else if c = '!' then some (.bang false, f)
    else if isNameStart c then some (.startName [c], f)
    else none
  | .startName name, f, c =>
    if isNameChar c then some (.startName (name ++ [c]), f) else afterAttr ⟨name, []⟩ false f c
  | .inTag t blank, f, c => afterAttr t blank f c
  | .attrName t key, f, c =>
    if isNameChar c then some (.attrName t (key ++ [c]), f) else afterKey t key f c
  | .attrEq t key, f, c => afterKey t key f c
  | .attrQuote t key, f, c =>
    if isXmlBlank c then some (.attrQuote t key, f)
    else if c = '"' ∨ c = '\'' then some (.attrVal t key c [], f)
    else none
  | .attrVal t key quot val, f, c =>
    if c = quot then
      -- a key that comes twice is no attribute
      if key ∈ t.attrs.map Prod.fst then none
      else some (.inTag { t with attrs := t.attrs ++ [(key, val)] } false, f)
    else if c = '<' then none
    else if c = '&' then some (.attrRef t key quot val [], f)
    else some (.attrVal t key quot (val ++ [attrChar c]), f)
  | .attrRef t key quot val name, f, c =>
    if c = ';' then (decodeRef name).map fun d => (.attrVal t key quot (val ++ [d]), f)
    else some (.attrRef t key quot val (name ++ [c]), f)
  | .slash t, f, c =>
    if c = '>' then some (.content [], (f.start t.name t.attrs).finish) else none
  | .endName name, f, c =>
    if isNameChar c then some (.endName (name ++ [c]), f) else afterEnd name f c
  | .endBlank name, f, c => afterEnd name f c
  | .bang dash, f, c =>
    if c = '-' then some (if dash then .comment [] else .bang true, f) else none
  | .comment s, f, c =>
    if "--".toList <:+ s then
      if c = '>' then some (.content [], f.add (.comment (trim (s.dropLast.dropLast)))) else none
    else some (.comment (s ++ [c]), f)

def step (m : Mode × Forest) (c : Char) : Option (Mode × Forest) :=
  if isXmlChar c then next m.1 m.2 c else none

def run (m : Mode × Forest) (s : List Char) : Option (Mode × Forest) := s.foldlM step m

def Xml.isElem : Xml → Bool
  | .elem _ _ _ => true
  | _ => false

/-- One element is around all the others. -/
def Rooted (nodes : List Xml) : Prop := nodes.countP Xml.isElem = 1

instance (nodes : List Xml) : Decidable (Rooted nodes) := inferInstanceAs (Decidable (_ = _))

def finished : Mode × Forest → Option (List Xml)
  | (.content s, f) =>
    if f.opens = [] ∧ trim s = [] ∧ Rooted f.nodes then some f.nodes else none
  | _ => none

def declaration : List Char := "<?xml version=\"1.0\" encoding=\"UTF-8\"?>".toList

def body (s : List Char) : List Char :=
  if declaration <+: s then s.drop declaration.length else s

def parse (s : List Char) : Option (List Xml) := run (.content [], .empty) (body s) >>= finished

section runs
variable {m : Mode} {f : Forest} {m' : Mode × Forest}

theorem run_cons (m : Mode × Forest) (c : Char) (s : List Char) :
    run m (c :: s) = (step m c).bind fun m => run m s := rfl

theorem run_append (m : Mode × Forest) (s s' : List Char) :
    run m (s ++ s') = (run m s).bind fun m => run m s' := List.foldlM_append

theorem run_of_append {m m' m'' : Mode × Forest} {s s' : List Char} (h : run m s = some m')
    (h' : run m' s' = some m'') : run m (s ++ s') = some m'' := by
  rw [run_append, h]
  exact h'

theorem parse_declaration (s : List Char) :
    parse (declaration ++ s) = run (.content [], .empty) s >>= finished := by
  rw [parse, body, if_pos (List.prefix_append declaration s), List.drop_left]

/-- What can be read as it is has no declaration. -/
theorem parse_of_run {s : List Char} (h : run (.content [], .empty) s = some m') :
    parse s = finished m' := by
  have hplain : ¬declaration <+: s := by
    rintro ⟨rest, rfl⟩
    have hnone : run (.content [], .empty) declaration = none := rfl
    rw [run_append, hnone] at h
    cases h
  rw [parse, body, if_neg hplain, h]
  rfl

theorem step_of_char {c : Char} (h : isXmlChar c = true) : step (m, f) c = next m f c := if_pos h

theorem run_singleton {c : Char} (h : isXmlChar c = true) : run (m, f) [c] = next m f c := by
  rw [run_cons, step_of_char h]
  cases next m f c with
  | none => rfl
  | some _ => rfl

theorem isXmlChar_of_isXmlBlank {c : Char} (h : isXmlBlank c = true) : isXmlChar c = true := by
  simp only [isXmlBlank, Bool.or_eq_true, decide_eq_true_eq] at h
  obtain (rfl | rfl) | rfl := h <;> rfl

end runs

section dashes
variable {s t : List Char}

theorem NoDashes.append (hs : NoDashes s) (ht : NoDashes t)
    (h : s.getLast? ≠ some '-' ∨ t.head? ≠ some '-') : NoDashes (s ++ t) := by
  refine List.isChain_append.2 ⟨hs, ht, ?_⟩
  rintro c hc d hd ⟨rfl, rfl⟩
  exact h.elim (fun h => h hc) fun h => h hd

theorem noDashes_of_notMem (h : '-' ∉ s) : NoDashes s := by
  induction s with
  | nil => exact List.isChain_nil
  | cons c s ih =>
    refine (ih fun hmem => h (List.mem_cons_of_mem c hmem)).cons fun d _ hboth => h ?_
    rw [← hboth.1]
    exact List.mem_cons_self

theorem NoDashes.no_end (h : NoDashes s) : ¬"--".toList <:+ s := by
  rintro ⟨rest, rfl⟩
  have hend := (List.isChain_append.1 h).2.1
  exact absurd hend (by decide)

end dashes

section trimming

theorem trim_append_blanks (s : List Char) {b : List Char} (hb : ∀ c ∈ b, isXmlBlank c = true) :
    trim (s ++ b) = trim s := by
  have hdrop : ∀ t : List Char, (t ++ b).rdropWhile isXmlBlank = t.rdropWhile isXmlBlank := by
    intro t
    rw [List.rdropWhile, List.reverse_append,
      List.dropWhile_append_of_pos fun c hc => hb c (List.mem_reverse.1 hc), List.rdropWhile]
  rw [trim, trim, List.dropWhile_append]
  split
  · rename_i hnil
    rw [List.isEmpty_iff] at hnil
    rw [hnil, List.dropWhile_eq_nil_iff.2 hb]
  · exact hdrop _

theorem trim_cons_blank {c : Char} (hc : isXmlBlank c = true) (s : List Char) :
    trim (c :: s) = trim s := by
  rw [trim, List.dropWhile_cons_of_pos hc, trim]

end trimming

end Pfaedle.XmlText

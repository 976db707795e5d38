import Mathlib.Data.Char
import Mathlib.Data.List.Lex
import Pfaedle.CsvText
import Pfaedle.SortedMap

set_option autoImplicit false

/-!
# `XmlWriter`

The writer keeps a stack of what is open. A start tag is hanging until something follows it. The
stream is the text that has been written to it.
-/
namespace Pfaedle.XmlWriter
open Gtfs

inductive XmlNodeType where
  | tag
  | text
  | comment
  deriving DecidableEq

structure XmlNode where
  t : XmlNodeType
  pload : Text
  hanging : Bool

structure XmlWriterException where
  msg : Text

structure Writer where
  out : Text
  nstack : List XmlNode
  pretty : Bool
  indent : ℕ

namespace Writer

def put (w : Writer) (s : Text) : Writer := { w with out := w.out ++ s }

def push (w : Writer) (t : XmlNodeType) (pload : Text) (hanging : Bool) : Writer :=
  { w with nstack := ⟨t, pload, hanging⟩ :: w.nstack }

def pop (w : Writer) : Writer := { w with nstack := w.nstack.tail }

def inComment (w : Writer) : Bool := w.nstack.head?.any fun n => n.t = .comment

/-- `isalpha`, `isdigit` and the signs that a tag may have. -/
def isTagChar (c : Char) : Bool :=
  c.isAlpha || c.isDigit || c = '-' || c = '_' || c = '.' || c = ':'

def checkTagName (str : Text) : Except XmlWriterException Unit :=
  if !(str.head?.any fun c => c.isAlpha || c = '_') then
    .error ⟨"XML elements must start with either a letter or an underscore".toList⟩
  else if (str.take 3).map Char.toLower = "xml".toList then
    .error ⟨"XML elements cannot start with XML, xml, Xml etc.".toList⟩
  else if !str.all isTagChar then
    .error ⟨("XML elements can only contain letters, digits, hyphens, underscores and " ++
      "periods.").toList⟩
  else .ok ()

/-- `doIndent` puts this before what it is called for. -/
def layout (pretty : Bool) (indent depth : ℕ) : Text :=
  if pretty then '\n' :: List.replicate (depth * indent) ' ' else []

def doIndent (w : Writer) : Writer := w.put (layout w.pretty w.indent w.nstack.length)

def closeHanging (w : Writer) : Writer :=
  match w.nstack with
  | [] => w
  | n :: nstack =>
    if n.hanging then { w.put ['>'] with nstack := { n with hanging := false } :: nstack }
    else if n.t = .text then w.pop
    else w

def escapeChar (quot c : Char) : Text :=
  if quot = '"' ∧ c = '"' then "&quot;".toList
  else if quot = '\'' ∧ c = '\'' then "&apos;".toList
  else if c = '<' then "&lt;".toList
  else if c = '>' then "&gt;".toList
  else if c = '&' then "&amp;".toList
  else [c]

def putEsced (str : Text) (quot : Char) (w : Writer) : Writer :=
  w.put (if w.inComment then str else str.flatMap (escapeChar quot))

def putAttr (w : Writer) (kv : Text × Text) : Writer :=
  (((w.put [' ']).putEsced kv.1 '"').put ['=', '"'] |>.putEsced kv.2 '"').put ['"']

def openTag (tag : Text) (attrs : SortedMap Text Text) (w : Writer) :
    Except XmlWriterException Writer :=
  if w.inComment then .error ⟨"Opening tags not allowed while inside comment.".toList⟩
  else (checkTagName tag).map fun _ =>
    (attrs.entries.foldl putAttr (w.closeHanging.doIndent.put ('<' :: tag))).push .tag tag true

def openComment (w : Writer) : Writer :=
  -- don't allow nested comments
  if w.inComment then w
  else (w.closeHanging.doIndent.put "<!-- ".toList).push .comment [] false

def writeText (text : Text) (w : Writer) : Except XmlWriterException Writer :=
  if w.nstack = [] then
    .error ⟨"Text content not allowed in prolog / trailing.".toList⟩
  else .ok (w.closeHanging.doIndent.putEsced text ' ')

def dropTexts (w : Writer) : Writer :=
  { w with nstack := w.nstack.dropWhile fun n => n.t = .text }

def closeTag (w : Writer) : Writer :=
  let w := w.dropTexts
  match w.nstack with
  | [] => w
  | n :: _ =>
    match n.t with
    | .comment => w.pop.doIndent.put " -->".toList
    | .tag =>
      if n.hanging then (w.put " />".toList).pop
      else w.pop.doIndent.put ("</".toList ++ n.pload ++ ['>'])
    | .text => w

/-- `closeTag` takes something off a stack that is not empty. -/
def closeTags (w : Writer) : Writer := closeTag^[w.nstack.length] w

end Writer

def newWriter (pretty : Bool) (indent : ℕ) : Writer := ⟨[], [], pretty, indent⟩

inductive Call where
  | openTag (tag : Text) (attrs : SortedMap Text Text)
  | openComment
  | writeText (text : Text)
  | closeTag

def Call.run : Call → Writer → Except XmlWriterException Writer
  | .openTag tag attrs, w => w.openTag tag attrs
  | .openComment, w => .ok w.openComment
  | .writeText text, w => w.writeText text
  | .closeTag, w => .ok w.closeTag

def runCalls (calls : List Call) (w : Writer) : Except XmlWriterException Writer :=
  calls.foldlM (fun w call => call.run w) w

def openTag (tag : Text) : Call := .openTag tag .empty

def openTagWith (tag : Text) (attrs : List (Text × Text)) : Call :=
  .openTag tag (SortedMap.empty.insertAll attrs)

end Pfaedle.XmlWriter

import Pfaedle.StdText

set_option autoImplicit false

/-!
# `json::Writer`

The writer keeps a stack of the containers that are open, and of the key that waits for its value.
Strings are sequences of characters: `jsonStringEscape` changes bytes below 0x80 only, which are
characters of their own. The stream is the text that has been written to it.
-/
namespace Pfaedle.JsonWriter
open Gtfs

section escape

def hex4 (n : ℕ) : Text :=
  List.replicate (4 - (Nat.toDigits 16 n).length) '0' ++ Nat.toDigits 16 n

def escapeChar (c : Char) : Text :=
  if c = '"' then ['\\', '"']
  else if c = '\\' then ['\\', '\\']
  else if c = '\x08' then ['\\', 'b']
  else if c = '\x0c' then ['\\', 'f']
  else if c = '\n' then ['\\', 'n']
  else if c = '\r' then ['\\', 'r']
  else if c = '\t' then ['\\', 't']
  else if c.toNat ≤ 0x1f then ['\\', 'u'] ++ hex4 c.toNat
  else [c]

def jsonStringEscape (unesc : Text) : Text := unesc.flatMap escapeChar

end escape

/-- `json::Val` without its `FLOAT`. The entries of a `std::map` come in the order of their keys. -/
inductive Val where
  | jsnull
  | int (i : ℤ)
  | bool (b : Bool)
  | string (str : Text)
  | array (arr : List Val)
  | dict (dict : List (Text × Val))

inductive NodeType where
  | obj
  | arr
  | key
  deriving DecidableEq

structure Node where
  type : NodeType
  empty : Bool

structure WriterException where
  msg : Text

structure Writer where
  out : Text
  stack : List Node
  pretty : Bool
  indent : ℕ

namespace Writer

def put (w : Writer) (s : Text) : Writer := { w with out := w.out ++ s }

def push (w : Writer) (type : NodeType) : Writer := { w with stack := ⟨type, true⟩ :: w.stack }

def pop (w : Writer) : Writer := { w with stack := w.stack.tail }

def topIs (w : Writer) (type : NodeType) : Bool := w.stack.head?.any fun n => n.type = type

def blank (w : Writer) : Text := if w.pretty then [' '] else []

def prettor (w : Writer) : Writer :=
  if w.pretty then w.put ('\n' :: List.replicate (w.indent * w.stack.length) ' ') else w

def separate (w : Writer) : Writer :=
  match w.stack with
  | [] => w
  | n :: stack =>
    { (if n.empty then w else w.put (',' :: w.blank)) with
      stack := { n with empty := false } :: stack }

def valCheck (w : Writer) : Except WriterException Writer :=
  if !(w.topIs .key || w.topIs .arr) then .error ⟨"Value not allowed here.".toList⟩
  else
    let w := if w.topIs .key then w.pop else w
    .ok (if w.topIs .arr then w.separate else w)

def obj (w : Writer) : Except WriterException Writer :=
  if w.topIs .obj then .error ⟨"Object not allowed as key".toList⟩
  else
    let w := if w.topIs .key then w.pop else w
    (if w.topIs .arr then w.valCheck else .ok w).map fun w =>
      ((if w.topIs .arr then w.prettor else w).put ['{']).push .obj

def arr (w : Writer) : Except WriterException Writer :=
  if w.topIs .obj then .error ⟨"Array not allowed as key".toList⟩
  else
    let w := if w.topIs .key then w.pop else w
    (if w.topIs .arr then w.valCheck else .ok w).map fun w => (w.put ['[']).push .arr

def key (k : Text) (w : Writer) : Except WriterException Writer :=
  if !w.topIs .obj then .error ⟨"Keys only allowed in objects.".toList⟩
  else .ok ((w.separate.prettor.put ('"' :: k ++ ['"', ':'] ++ w.blank)).push .key)

/-- What the `val` of a string, an `int`, a `bool` and `Null` have in common. -/
def valPut (s : Text) (w : Writer) : Except WriterException Writer :=
  w.valCheck.map fun w => w.put s

def close (w : Writer) : Except WriterException Writer :=
  match w.stack with
  | [] => .ok w
  | ⟨.obj, _⟩ :: _ => .ok (w.pop.prettor.put ['}'])
  | ⟨.arr, _⟩ :: _ => .ok (w.pop.put [']'])
  | ⟨.key, _⟩ :: _ => .error ⟨"Missing value.".toList⟩

def closeAll (w : Writer) : Except WriterException Writer :=
  (List.range w.stack.length).foldlM (fun w _ => w.close) w

mutual

def val : Val → Writer → Except WriterException Writer
  | .jsnull, w => w.valPut "null".toList
  | .int i, w => w.valPut (toStr i)
  | .bool b, w => w.valPut (if b then "true".toList else "false".toList)
  | .string str, w => w.valPut ('"' :: jsonStringEscape str ++ ['"'])
  | .array arr, w => w.arr >>= valAll arr >>= close
  | .dict dict, w => w.obj >>= keyVals dict >>= close

def valAll : List Val → Writer → Except WriterException Writer
  | [], w => .ok w
  | v :: vs, w => val v w >>= valAll vs

def keyVals : List (Text × Val) → Writer → Except WriterException Writer
  | [], w => .ok w
  | (k, v) :: dict, w => w.key k >>= val v >>= keyVals dict

end

end Writer

/-- What a new writer leaves in its stream: `val(v)` and `closeAll()`. -/
def write (pretty : Bool) (indent : ℕ) (v : Val) : Except WriterException Text :=
  (Writer.val v ⟨[], [], pretty, indent⟩ >>= Writer.closeAll).map Writer.out

end Pfaedle.JsonWriter

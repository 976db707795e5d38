import Mathlib.Data.Char
import Mathlib.Data.List.Lex
import Mathlib.Tactic.Common
import Pfaedle.SortedMap

set_option autoImplicit false

/-!
# JSON texts

A reader of the standard grammar. A text is a sequence of characters; bytes from 0x80 on, which are
parts of characters, are passed through as they are. An object is a map, and of two members with
one key the later one stays.
-/
namespace Pfaedle.JsonText

/-- `real m e` is the number `m * 10 ^ e`; an `obj` lists its members by key. -/
inductive Json where
  | null
  | bool (b : Bool)
  | int (i : ℤ)
  | real (m e : ℤ)
  | str (s : List Char)
  | arr (vs : List Json)
  | obj (ms : List (List Char × Json))

def isWs (c : Char) : Bool := c = ' ' || c = '\t' || c = '\n' || c = '\r'

def skipWs (s : List Char) : List Char := s.dropWhile isWs

section strings

def hexVal (c : Char) : Option ℕ :=
  if c.isDigit then some (c.toNat - '0'.toNat)
  else if 'a' ≤ c ∧ c ≤ 'f' then some (c.toNat - 'a'.toNat + 10)
  else if 'A' ≤ c ∧ c ≤ 'F' then some (c.toNat - 'A'.toNat + 10)
  else none

def readHex4 : List Char → Option (ℕ × List Char)
  | a :: b :: c :: d :: s =>
    match hexVal a, hexVal b, hexVal c, hexVal d with
    | some a, some b, some c, some d => some (((a * 16 + b) * 16 + c) * 16 + d, s)
    | _, _, _, _ => none
  | _ => none

def readLow (high : ℕ) : List Char → Option (Char × List Char)
  | '\\' :: 'u' :: s =>
    (readHex4 s).bind fun p =>
      if 0xdc00 ≤ p.1 ∧ p.1 < 0xe000 then
        some (Char.ofNat (0x10000 + (high - 0xd800) * 0x400 + (p.1 - 0xdc00)), p.2)
      else none
  | _ => none

def readUnicode (s : List Char) : Option (Char × List Char) :=
  (readHex4 s).bind fun p =>
    if 0xd800 ≤ p.1 ∧ p.1 < 0xdc00 then readLow p.1 p.2
    else if 0xdc00 ≤ p.1 ∧ p.1 < 0xe000 then none
    else some (Char.ofNat p.1, p.2)

def simpleEscape (c : Char) : Option Char :=
  if c = '"' ∨ c = '\\' ∨ c = '/' then some c
  else if c = 'b' then some '\x08'
  else if c = 'f' then some '\x0c'
  else if c = 'n' then some '\n'
  else if c = 'r' then some '\r'
  else if c = 't' then some '\t'
  else none

def readChar : List Char → Option (Char × List Char)
  | [] => none
  | c :: s =>
    if c = '\\' then
      match s with
      | [] => none
      | d :: s => if d = 'u' then readUnicode s else (simpleEscape d).map (·, s)
    else if c = '"' ∨ c.toNat < 0x20 then none
    else some (c, s)

/-- A string after its opening quotation mark, of less than `n` characters. -/
def readString : ℕ → List Char → Option (List Char × List Char)
  | 0, _ => none
  | n + 1, s =>
    if s.head? = some '"' then some ([], s.tail)
    else (readChar s).bind fun p => (readString n p.2).map fun q => (p.1 :: q.1, q.2)

end strings

section numbers

def readFraction : List Char → Option (List Char × List Char)
  | '.' :: s =>
    if s.takeWhile Char.isDigit = [] then none
    else some (s.takeWhile Char.isDigit, s.dropWhile Char.isDigit)
  | s => some ([], s)

def readDigits (s : List Char) : Option (ℕ × List Char) :=
  if s.takeWhile Char.isDigit = [] then none
  else some (Nat.ofDigitChars 10 (s.takeWhile Char.isDigit) 0, s.dropWhile Char.isDigit)

def readExponent : List Char → Option (Option ℤ × List Char)
  | [] => some (none, [])
  | c :: s =>
    if c = 'e' ∨ c = 'E' then
      match s with
      | '-' :: s => (readDigits s).map fun p => (some (-(p.1 : ℤ)), p.2)
      | '+' :: s => (readDigits s).map fun p => (some (p.1 : ℤ), p.2)
      | s => (readDigits s).map fun p => (some (p.1 : ℤ), p.2)
    else some (none, c :: s)

/-- A number without its sign; digits after a leading zero are not a number. -/
def readUnsigned (negative : Bool) (s : List Char) : Option (Json × List Char) :=
  let digits := s.takeWhile Char.isDigit
  if digits = [] ∨ (digits.head? = some '0' ∧ digits ≠ ['0']) then none
  else
    (readFraction (s.dropWhile Char.isDigit)).bind fun frac =>
      (readExponent frac.2).map fun exp =>
        let mantissa : ℤ := Nat.ofDigitChars 10 (digits ++ frac.1) 0
        let signed := if negative then -mantissa else mantissa
        if frac.1 = [] ∧ exp.1 = none then (.int signed, exp.2)
        else (.real signed (exp.1.getD 0 - frac.1.length), exp.2)

def readNumber : List Char → Option (Json × List Char)
  | '-' :: s => readUnsigned true s
  | s => readUnsigned false s

end numbers

def readAtom (s : List Char) : Option (Json × List Char) :=
  if "true".toList <+: s then some (.bool true, s.drop 4)
  else if "false".toList <+: s then some (.bool false, s.drop 5)
  else if "null".toList <+: s then some (.null, s.drop 4)
  else readNumber s

def dictOf (ms : List (List Char × Json)) : List (List Char × Json) :=
  ms.foldl (fun m p => SortedMap.alterEntries p.1 (fun _ => p.2) m) []

def expect (c : Char) (s : List Char) : Option (List Char) :=
  if (skipWs s).head? = some c then some (skipWs s).tail else none

mutual

/-- A value, with at most `n` levels and members; what follows it is left over. -/
def readValue : ℕ → List Char → Option (Json × List Char)
  | 0, _ => none
  | n + 1, s =>
    match expect '"' s, expect '[' s, expect '{' s with
    | some s, _, _ => (readString (s.length + 1) s).map fun p => (.str p.1, p.2)
    | _, some s, _ =>
      match expect ']' s with
      | some s => some (.arr [], s)
      | none => (readElems n s).map fun p => (.arr p.1, p.2)
    | _, _, some s =>
      match expect '}' s with
      | some s => some (.obj [], s)
      | none => (readMembers n s).map fun p => (.obj (dictOf p.1), p.2)
    | none, none, none => readAtom (skipWs s)

def readElems : ℕ → List Char → Option (List Json × List Char)
  | 0, _ => none
  | n + 1, s =>
    (readValue n s).bind fun v =>
      match expect ']' v.2, expect ',' v.2 with
      | some s, _ => some ([v.1], s)
      | none, some s => (readElems n s).map fun p => (v.1 :: p.1, p.2)
      | none, none => none

def readMembers : ℕ → List Char → Option (List (List Char × Json) × List Char)
  | 0, _ => none
  | n + 1, s =>
    (expect '"' s).bind fun s =>
      (readString (s.length + 1) s).bind fun k =>
        (expect ':' k.2).bind fun s =>
          (readValue n s).bind fun v =>
            match expect '}' v.2, expect ',' v.2 with
            | some s, _ => some ([(k.1, v.1)], s)
            | none, some s => (readMembers n s).map fun p => ((k.1, v.1) :: p.1, p.2)
            | none, none => none

end

def parse (s : List Char) : Option Json :=
  (readValue (s.length + 1) s).bind fun p => if skipWs p.2 = [] then some p.1 else none

end Pfaedle.JsonText

import Pfaedle.JsonWriter

set_option autoImplicit false

/-!
# The text of a tree

What the writer puts into its stream is a function of the tree alone: the stack only carries the
depth and whether a comma is due.
-/
namespace Pfaedle.JsonWriter
open Gtfs

section text

def Val.isDict : Val → Bool
  | .dict _ => true
  | _ => false

def Val.isContainer : Val → Bool
  | .array _ => true
  | .dict _ => true
  | _ => false

variable (pretty : Bool) (indent : ℕ)

def blankText : Text := if pretty then [' '] else []

def lineText (depth : ℕ) : Text :=
  if pretty then '\n' :: List.replicate (indent * depth) ' ' else []

def sepText (first : Bool) : Text := if first then [] else ',' :: blankText pretty

mutual

/-- The text of a value below `depth` open containers. -/
def valText : ℕ → Val → Text
  | _, .jsnull => "null".toList
  | _, .int i => toStr i
  | _, .bool b => if b then "true".toList else "false".toList
  | _, .string str => '"' :: jsonStringEscape str ++ ['"']
  | depth, .array arr => '[' :: (elemsText (depth + 1) true arr ++ [']'])
  | depth, .dict dict =>
    '{' :: (membersText (depth + 1) true dict ++ (lineText pretty indent depth ++ ['}']))

def elemsText : ℕ → Bool → List Val → Text
  | _, _, [] => []
  | depth, first, v :: vs =>
    sepText pretty first ++ ((if v.isDict then lineText pretty indent depth else []) ++
      (valText depth v ++ elemsText depth false vs))

def membersText : ℕ → Bool → List (Text × Val) → Text
  | _, _, [] => []
  | depth, first, (k, v) :: dict =>
    sepText pretty first ++ (lineText pretty indent depth ++
      ('"' :: (k ++ '"' :: ':' :: (blankText pretty ++
        (valText depth v ++ membersText depth false dict)))))

end

end text

section machine
variable {pretty : Bool} {indent : ℕ}

namespace Writer

@[simp] theorem put_mk (out s : Text) (stack : List Node) :
    put ⟨out, stack, pretty, indent⟩ s = ⟨out ++ s, stack, pretty, indent⟩ := rfl

@[simp] theorem push_mk (out : Text) (stack : List Node) (type : NodeType) :
    push ⟨out, stack, pretty, indent⟩ type = ⟨out, ⟨type, true⟩ :: stack, pretty, indent⟩ := rfl

@[simp] theorem pop_mk (out : Text) (n : Node) (stack : List Node) :
    pop ⟨out, n :: stack, pretty, indent⟩ = ⟨out, stack, pretty, indent⟩ := rfl

@[simp] theorem blank_mk (out : Text) (stack : List Node) :
    blank ⟨out, stack, pretty, indent⟩ = blankText pretty := rfl

@[simp] theorem topIs_nil (out : Text) (type : NodeType) :
    topIs ⟨out, [], pretty, indent⟩ type = false := rfl

@[simp] theorem topIs_cons (out : Text) (n : Node) (stack : List Node) (type : NodeType) :
    topIs ⟨out, n :: stack, pretty, indent⟩ type = decide (n.type = type) := rfl

@[simp] theorem prettor_mk (out : Text) (stack : List Node) :
    prettor ⟨out, stack, pretty, indent⟩ =
      ⟨out ++ lineText pretty indent stack.length, stack, pretty, indent⟩ := by
  cases pretty <;> simp [prettor, lineText]

@[simp] theorem separate_mk (out : Text) (type : NodeType) (empty : Bool) (stack : List Node) :
    separate ⟨out, ⟨type, empty⟩ :: stack, pretty, indent⟩ =
      ⟨out ++ sepText pretty empty, ⟨type, false⟩ :: stack, pretty, indent⟩ := by
  cases empty <;> simp [separate, sepText]

theorem valCheck_arr (out : Text) (empty : Bool) (stack : List Node) :
    valCheck ⟨out, ⟨.arr, empty⟩ :: stack, pretty, indent⟩ =
      .ok ⟨out ++ sepText pretty empty, ⟨.arr, false⟩ :: stack, pretty, indent⟩ := by
  simp [valCheck]

/-- A key is only ever on top of the object that it belongs to. -/
theorem valCheck_key (out : Text) (empty empty' : Bool) (stack : List Node) :
    valCheck ⟨out, ⟨.key, empty⟩ :: ⟨.obj, empty'⟩ :: stack, pretty, indent⟩ =
      .ok ⟨out, ⟨.obj, empty'⟩ :: stack, pretty, indent⟩ := by
  simp [valCheck]

end Writer

/-- Where a value may come: the stack before it, what is written ahead of it, and the stack that it
    leaves behind. -/
inductive Slot (pretty : Bool) (indent : ℕ) : List Node → Val → Text → List Node → Prop
  | root (v : Val) : v.isContainer = true → Slot pretty indent [] v [] []
  | member (v : Val) (empty empty' : Bool) (stack : List Node) :
      Slot pretty indent (⟨.key, empty⟩ :: ⟨.obj, empty'⟩ :: stack) v [] (⟨.obj, empty'⟩ :: stack)
  | elem (v : Val) (empty : Bool) (stack : List Node) :
      Slot pretty indent (⟨.arr, empty⟩ :: stack) v
        (sepText pretty empty ++ if v.isDict then lineText pretty indent (stack.length + 1) else [])
        (⟨.arr, false⟩ :: stack)

section slot
variable {stack stack' : List Node} {v : Val} {lead : Text}

theorem Slot.valPut (h : Slot pretty indent stack v lead stack') (hv : v.isContainer = false)
    (out s : Text) :
    Writer.valPut s ⟨out, stack, pretty, indent⟩ =
      .ok ⟨out ++ (lead ++ s), stack', pretty, indent⟩ := by
  have hdict : v.isDict = false := by
    cases v <;> first | rfl | cases hv
  cases h with
  | root _ hroot =>
    rw [hv] at hroot
    cases hroot
  | member => simp [Writer.valPut, Writer.valCheck_key, Except.map]
  | elem => simp [Writer.valPut, Writer.valCheck_arr, Except.map, hdict]

theorem Slot.arr {vs : List Val} (h : Slot pretty indent stack (.array vs) lead stack')
    (out : Text) :
    Writer.arr ⟨out, stack, pretty, indent⟩ =
      .ok ⟨out ++ (lead ++ ['[']), ⟨.arr, true⟩ :: stack', pretty, indent⟩ := by
  cases h with
  | root => simp [Writer.arr, Except.map]
  | member => simp [Writer.arr, Except.map]
  | elem => simp [Writer.arr, Writer.valCheck_arr, Except.map, Val.isDict]

theorem Slot.obj {ms : List (Text × Val)} (h : Slot pretty indent stack (.dict ms) lead stack')
    (out : Text) :
    Writer.obj ⟨out, stack, pretty, indent⟩ =
      .ok ⟨out ++ (lead ++ ['{']), ⟨.obj, true⟩ :: stack', pretty, indent⟩ := by
  cases h with
  | root => simp [Writer.obj, Except.map]
  | member => simp [Writer.obj, Except.map]
  | elem => simp [Writer.obj, Writer.valCheck_arr, Except.map, Val.isDict]

end slot

mutual

theorem val_text : ∀ (v : Val) {stack stack' : List Node} {lead : Text},
    Slot pretty indent stack v lead stack' → ∀ out,
    Writer.val v ⟨out, stack, pretty, indent⟩ =
      .ok ⟨out ++ (lead ++ valText pretty indent stack'.length v), stack', pretty, indent⟩
  | .jsnull, _, _, _, h, out => by
    rw [Writer.val, valText, h.valPut rfl]
  | .int i, _, _, _, h, out => by
    rw [Writer.val, valText, h.valPut rfl]
  | .bool b, _, _, _, h, out => by
    rw [Writer.val, valText, h.valPut rfl]
  | .string str, _, _, _, h, out => by
    rw [Writer.val, valText, h.valPut rfl]
  | .array vs, _, stack', lead, h, out => by
    rw [Writer.val, h.arr, ok_bind, valAll_text vs, ok_bind, Writer.close]
    simp [valText]
  | .dict ms, _, stack', lead, h, out => by
    rw [Writer.val, h.obj, ok_bind, keyVals_text ms, ok_bind, Writer.close]
    simp [valText]

theorem valAll_text : ∀ (vs : List Val) (out : Text) (empty : Bool) (stack : List Node),
    Writer.valAll vs ⟨out, ⟨.arr, empty⟩ :: stack, pretty, indent⟩ =
      .ok ⟨out ++ elemsText pretty indent (stack.length + 1) empty vs,
        ⟨.arr, empty && vs.isEmpty⟩ :: stack, pretty, indent⟩
  | [], out, empty, stack => by
    simp [Writer.valAll, elemsText]
  | v :: vs, out, empty, stack => by
    rw [Writer.valAll, val_text v (Slot.elem v empty stack), ok_bind, valAll_text vs]
    simp [elemsText]

theorem keyVals_text : ∀ (ms : List (Text × Val)) (out : Text) (empty : Bool) (stack : List Node),
    Writer.keyVals ms ⟨out, ⟨.obj, empty⟩ :: stack, pretty, indent⟩ =
      .ok ⟨out ++ membersText pretty indent (stack.length + 1) empty ms,
        ⟨.obj, empty && ms.isEmpty⟩ :: stack, pretty, indent⟩
  | [], out, empty, stack => by
    simp [Writer.keyVals, membersText]
  | (k, v) :: ms, out, empty, stack => by
    have hkey : Writer.key k ⟨out, ⟨.obj, empty⟩ :: stack, pretty, indent⟩ =
        .ok ⟨out ++ (sepText pretty empty ++ (lineText pretty indent (stack.length + 1) ++
          ('"' :: (k ++ '"' :: ':' :: blankText pretty)))),
          ⟨.key, true⟩ :: ⟨.obj, false⟩ :: stack, pretty, indent⟩ := by
      simp [Writer.key]
    rw [Writer.keyVals, hkey, ok_bind, val_text v (Slot.member v true false stack), ok_bind,
      keyVals_text ms]
    simp [membersText]

end

theorem write_text {v : Val} (h : v.isContainer = true) :
    write pretty indent v = .ok (valText pretty indent 0 v) := by
  rw [write, val_text v (Slot.root v h)]
  rfl

end machine

end Pfaedle.JsonWriter

import Pfaedle.DirGraph
import Pfaedle.Osm

set_option autoImplicit false

/-!
# `pfaedle::trgraph::restrictor`

Turn rules at a via node, with edge pointers for both legs. Positive and negative rules live in
tables of the same shape; a missing table entry is an empty one.
-/
namespace Pfaedle.Restriction
open DirGraphs Osm

/-- A null `second` stands for a target that has not been read yet. -/
@[ext]
structure RulePair where
  first : Edge
  second : Option Edge
deriving DecidableEq

abbrev RuleVec := List RulePair

/-- `_pos` with `_posDangling`, or `_neg` with `_negDangling`. -/
structure RuleTable where
  rules : ℕ → RuleVec
  dangling : ℕ → Osmid → List (ℕ × ℕ)

structure Restrictor where
  pos : RuleTable
  neg : RuleTable
  rlx : ℕ → Osmid → Option Edge

def RuleTable.empty : RuleTable := ⟨fun _ => [], fun _ _ => []⟩

def Restrictor.empty : Restrictor := ⟨.empty, .empty, fun _ _ => none⟩

def setSecond (e : Edge) (rules : ℕ → RuleVec) (path : ℕ × ℕ) : ℕ → RuleVec :=
  Function.update rules path.1
    ((rules path.1).modify path.2 fun r => { r with second := some e })

def RuleTable.relax (t : RuleTable) (wid : Osmid) (n : ℕ) (e : Edge) : RuleTable :=
  { t with rules := (t.dangling n wid).foldl (setSecond e) t.rules }

def Restrictor.relax (r : Restrictor) (wid : Osmid) (n : ℕ) (e : Edge) : Restrictor where
  rlx := Function.update r.rlx n (Function.update (r.rlx n) wid (some e))
  pos := r.pos.relax wid n e
  neg := r.neg.relax wid n e

def RuleTable.add (t : RuleTable) (frm : Edge) (toE : Option Edge) (to_ : Osmid) (via : ℕ) :
    RuleTable where
  rules := Function.update t.rules via (t.rules via ++ [⟨frm, toE⟩])
  dangling :=
    if toE = none then
      Function.update t.dangling via (Function.update (t.dangling via) to_
        (t.dangling via to_ ++ [(via, (t.rules via).length)]))
    else t.dangling

def Restrictor.add (r : Restrictor) (frm : Edge) (to_ : Osmid) (via : ℕ) (pos : Bool) :
    Restrictor :=
  let toE := r.rlx via to_
  if pos then { r with pos := r.pos.add frm toE to_ via }
  else { r with neg := r.neg.add frm toE to_ via }

/-- The first loop of `may`; `none` when it ends without a verdict. -/
def mayPos (frm to_ : Edge) : RuleVec → Option Bool
  | [] => none
  | r :: rs =>
    if r.first = frm ∧ r.second.isSome ∧ r.second ≠ some to_ then some false
    else if r.first = frm ∧ r.second = some to_ then some true
    else mayPos frm to_ rs

def mayNeg (frm to_ : Edge) (rs : RuleVec) : Bool :=
  !rs.any fun r => r.first = frm ∧ r.second = some to_

def Restrictor.may (r : Restrictor) (frm to_ : Edge) (via : ℕ) : Bool :=
  match mayPos frm to_ (r.pos.rules via) with
  | some verdict => verdict
  | none => mayNeg frm to_ (r.neg.rules via)

def RuleTable.mapAt (t : RuleTable) (via : ℕ) (f : RulePair → RulePair) : RuleTable :=
  { t with rules := Function.update t.rules via ((t.rules via).map f) }

def Restrictor.mapAt (r : Restrictor) (via : ℕ) (f : RulePair → RulePair) : Restrictor :=
  { r with pos := r.pos.mapAt via f, neg := r.neg.mapAt via f }

def replaceRule (old newE : Edge) (r : RulePair) : RulePair where
  first := if r.first = old then newE else r.first
  second := if r.second = some old then some newE else r.second

def Restrictor.replaceEdgeAt (r : Restrictor) (old : Edge) (via : ℕ) (newE : Edge) : Restrictor :=
  r.mapAt via (replaceRule old newE)

def Restrictor.replaceEdge (r : Restrictor) (old newA newB : Edge) : Restrictor :=
  let (newFrom, newTo) :=
    if old.getFrom = newA.getFrom ∨ old.getFrom = newA.getTo then (newA, newB) else (newB, newA)
  (r.replaceEdgeAt old old.getFrom newFrom).replaceEdgeAt old old.getTo newTo

def duplicateRule (old : Edge) (via : ℕ) (newE : Edge) (r : RulePair) : RulePair where
  first := if r.first = old ∧ r.first.getTo ≠ via then newE else r.first
  second := if r.second = some old ∧ old.getFrom ≠ via then some newE else r.second

def Restrictor.duplicateEdgeAt (r : Restrictor) (old : Edge) (via : ℕ) (newE : Edge) :
    Restrictor := r.mapAt via (duplicateRule old via newE)

def Restrictor.duplicateEdge (r : Restrictor) (old newE : Edge) : Restrictor :=
  (r.duplicateEdgeAt old old.getFrom newE).duplicateEdgeAt old old.getTo newE

def Restrictor.rulesAt (r : Restrictor) (v : ℕ) : RuleVec := r.pos.rules v ++ r.neg.rules v

end Pfaedle.Restriction

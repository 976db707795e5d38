import Pfaedle.LiveGraph
import Mathlib.Data.Finset.Insert
import Mathlib.Data.Finset.Erase

set_option autoImplicit false

/-!
# Adjacency lists on the heap

The objects of `DirGraph`, `DirNode` and `Edge` at their addresses. An edge is in the lists of both of
its ends, and a node takes the edges at it along when it is deleted. Following a pointer to an object
that is not there is `none`.
-/
namespace Pfaedle.AdjacencyLists
open DirGraphs

structure EdgeObject (EP : Type) where
  getFrom : ℕ
  getTo : ℕ
  pl : EP

structure NodeObject (NP : Type) where
  adjListIn : List ℕ
  adjListOut : List ℕ
  pl : NP

/-- `_nodes`, and the objects that have been made and not deleted. -/
structure Heap (NP EP : Type) where
  nodes : Finset ℕ
  node : ℕ → Option (NodeObject NP)
  edge : ℕ → Option (EdgeObject EP)

section model
variable {NP EP : Type}

def EdgeObject.getOtherNd (e : EdgeObject EP) (notNode : ℕ) : ℕ :=
  if e.getTo = notNode then e.getFrom else e.getTo

def Heap.empty : Heap NP EP := ⟨∅, fun _ => none, fun _ => none⟩

def deleteEdge (h : Heap NP EP) (e : ℕ) : Heap NP EP :=
  { h with edge := Function.update h.edge e none }

def setNode (h : Heap NP EP) (n : ℕ) (nd : NodeObject NP) : Heap NP EP :=
  { h with node := Function.update h.node n (some nd) }

def addEdge (h : Heap NP EP) (n e : ℕ) : Option (Heap NP EP) := do
  let nd ← h.node n
  let eP ← h.edge e
  some (setNode h n
    { nd with
      adjListOut := if eP.getFrom = n ∧ e ∉ nd.adjListOut then nd.adjListOut ++ [e]
        else nd.adjListOut
      adjListIn := if eP.getTo = n ∧ e ∉ nd.adjListIn then nd.adjListIn ++ [e]
        else nd.adjListIn })

def removeEdge (h : Heap NP EP) (n e : ℕ) : Option (Heap NP EP) := do
  let nd ← h.node n
  let eP ← h.edge e
  some (setNode h n
    { nd with
      adjListOut := if eP.getFrom = n then nd.adjListOut.erase e else nd.adjListOut
      adjListIn := if eP.getTo = n then nd.adjListIn.erase e else nd.adjListIn })

def findEdg (h : Heap NP EP) (frm to_ : ℕ) : List ℕ → Option (Option ℕ)
  | [] => some none
  | e :: es => do
    let eP ← h.edge e
    if eP.getOtherNd frm = to_ then some (some e) else findEdg h frm to_ es

/-- `Graph::getEdg`; the inner `none` is the null pointer. -/
def getEdg (h : Heap NP EP) (frm to_ : ℕ) : Option (Option ℕ) := do
  let nd ← h.node frm
  findEdg h frm to_ nd.adjListOut

def addNd (h : Heap NP EP) (a : ℕ) (p : NP) : Heap NP EP :=
  { setNode h a ⟨[], [], p⟩ with nodes := insert a h.nodes }

def addEdg (h : Heap NP EP) (frm to_ a : ℕ) (p : EP) : Option (ℕ × Heap NP EP) := do
  match ← getEdg h frm to_ with
  | some e => some (e, h)
  | none =>
    let h ← addEdge { h with edge := Function.update h.edge a (some ⟨frm, to_, p⟩) } frm a
    let h ← addEdge h to_ a
    some (a, h)

def delEdg (h : Heap NP EP) (frm to_ : ℕ) : Option (Heap NP EP) := do
  match ← getEdg h frm to_ with
  | none => some h
  | some toDel =>
    let h ← removeEdge h frm toDel
    let h ← removeEdge h to_ toDel
    match ← getEdg h frm to_ with
    | some _ => none
    | none => some (deleteEdge h toDel)

/-- The first loop of `~DirNode` over what is left of `_adjListOut`, with `_adjListIn`. An edge that
    is not found there must not be erased. -/
def delSelfEdges (n : ℕ) : List ℕ → List ℕ → Heap NP EP → Option (List ℕ × List ℕ × Heap NP EP)
  | [], ins, h => some ([], ins, h)
  | e :: es, ins, h => do
    let eP ← h.edge e
    if eP.getTo = n then
      if e ∈ ins then delSelfEdges n es (ins.erase e) (deleteEdge h e) else none
    else
      let (outs, ins, h) ← delSelfEdges n es ins h
      some (e :: outs, ins, h)

/-- The other two loops, which take an edge from the list of its far end. -/
def delEdgesTo (far : EdgeObject EP → ℕ) (n : ℕ) : List ℕ → Heap NP EP → Option (Heap NP EP)
  | [], h => some h
  | e :: es, h => do
    let eP ← h.edge e
    if far eP ≠ n then
      let h ← removeEdge h (far eP) e
      delEdgesTo far n es (deleteEdge h e)
    else delEdgesTo far n es h

/-- `Graph::delNd`: the destructor, and the node set without the node. -/
def delNd (h : Heap NP EP) (n : ℕ) : Option (Heap NP EP) := do
  if n ∈ h.nodes then
    let nd ← h.node n
    let (outs, ins, h) ← delSelfEdges n nd.adjListOut nd.adjListIn h
    let h ← delEdgesTo EdgeObject.getTo n outs h
    let h ← delEdgesTo EdgeObject.getFrom n ins h
    some { h with nodes := h.nodes.erase n, node := Function.update h.node n none }
  else none

inductive Op (NP EP : Type) where
  | addNd (a : ℕ) (p : NP)
  | addEdg (frm to_ a : ℕ) (p : EP)
  | delEdg (frm to_ : ℕ)
  | delNd (n : ℕ)

def Op.run (h : Heap NP EP) : Op NP EP → Option (Heap NP EP)
  | .addNd a p => some (AdjacencyLists.addNd h a p)
  | .addEdg frm to_ a p => (AdjacencyLists.addEdg h frm to_ a p).map Prod.snd
  | .delEdg frm to_ => AdjacencyLists.delEdg h frm to_
  | .delNd n => AdjacencyLists.delNd h n

/-- The operands are nodes of the graph, and `new` returns no address that is in use. It may return
    the address of an object that has been deleted. -/
def Op.Allowed (h : Heap NP EP) : Op NP EP → Prop
  | .addNd a _ => (h.node a).isNone
  | .addEdg frm to_ a _ => frm ∈ h.nodes ∧ to_ ∈ h.nodes ∧ (h.edge a).isNone
  | .delEdg frm to_ => frm ∈ h.nodes ∧ to_ ∈ h.nodes
  | .delNd n => n ∈ h.nodes

instance (h : Heap NP EP) : ∀ op : Op NP EP, Decidable (op.Allowed h)
  | .addNd _ _ => inferInstanceAs (Decidable (_ = true))
  | .addEdg _ _ _ _ => inferInstanceAs (Decidable (_ ∧ _ ∧ _ = true))
  | .delEdg _ _ => inferInstanceAs (Decidable (_ ∧ _))
  | .delNd _ => inferInstanceAs (Decidable (_ ∈ _))

def runOps (h : Heap NP EP) (ops : List (Op NP EP)) : Option (Heap NP EP) := ops.foldlM Op.run h

/-- Every operation is allowed in the state that the ones before it leave. -/
def AllowedRun (h : Heap NP EP) : List (Op NP EP) → Prop
  | [] => True
  | op :: ops => op.Allowed h ∧ ∀ h' ∈ op.run h, AllowedRun h' ops

instance : ∀ (ops : List (Op NP EP)) (h : Heap NP EP), Decidable (AllowedRun h ops)
  | [], _ => inferInstanceAs (Decidable True)
  | op :: ops, h =>
    have (h' : Heap NP EP) : Decidable (AllowedRun h' ops) := instDecidableAllowedRun ops h'
    inferInstanceAs (Decidable (_ ∧ ∀ h' ∈ op.run h, _))

structure Consistent (h : Heap NP EP) : Prop where
  nodes : ∀ n, (h.node n).isSome ↔ n ∈ h.nodes
  ends : ∀ {e eP}, h.edge e = some eP → eP.getFrom ∈ h.nodes ∧ eP.getTo ∈ h.nodes
  out_once : ∀ {e eP nd}, h.edge e = some eP → h.node eP.getFrom = some nd →
    nd.adjListOut.count e = 1
  in_once : ∀ {e eP nd}, h.edge e = some eP → h.node eP.getTo = some nd → nd.adjListIn.count e = 1
  simple : ∀ {e eP e' eP'}, h.edge e = some eP → h.edge e' = some eP' → eP.getFrom = eP'.getFrom →
    eP.getTo = eP'.getTo → e = e'
  getEdg : ∀ {u v}, u ∈ h.nodes → v ∈ h.nodes → ∃ r, getEdg h u v = some r ∧
    ∀ e, r = some e ↔ ∃ eP, h.edge e = some eP ∧ eP.getFrom = u ∧ eP.getTo = v
  out_live : ∀ {n nd}, h.node n = some nd → ∀ e ∈ nd.adjListOut, ∃ eP, h.edge e = some eP ∧
    eP.getFrom = n
  in_live : ∀ {n nd}, h.node n = some nd → ∀ e ∈ nd.adjListIn, ∃ eP, h.edge e = some eP ∧
    eP.getTo = n

end model

end Pfaedle.AdjacencyLists

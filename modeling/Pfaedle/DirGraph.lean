import Mathlib.Data.List.Basic
import Mathlib.Data.List.Nodup
import Mathlib.Logic.Function.Basic

set_option autoImplicit false

/-!
# `util::graph::DirGraph`

Node and edge pointers are numbers that are handed out once. The adjacency lists of a node are
the live edges at that node, oldest first, as `addEdge` and `removeEdge` leave them.
-/
namespace Pfaedle.DirGraphs

structure Edge where
  id : ℕ
  getFrom : ℕ
  getTo : ℕ
deriving DecidableEq, Repr

namespace Edge

def getOtherNd (e : Edge) (notNode : ℕ) : ℕ := if e.getTo = notNode then e.getFrom else e.getTo

def hasEnd (e : Edge) (n : ℕ) : Prop := e.getFrom = n ∨ e.getTo = n

instance (e : Edge) (n : ℕ) : Decidable (e.hasEnd n) := inferInstanceAs (Decidable (_ ∨ _))

end Edge

structure DirGraph (NP EP : Type*) where
  /-- `_nodes` in address order. -/
  nds : List ℕ
  npl : ℕ → NP
  edges : List Edge
  pl : Edge → EP
  nextNd : ℕ
  nextEdge : ℕ
  fresh : ∀ e ∈ edges, e.id < nextEdge
  simple : ∀ e ∈ edges, ∀ e' ∈ edges, e.getFrom = e'.getFrom → e.getTo = e'.getTo → e = e'

namespace DirGraph
variable {NP EP : Type*}

def empty (np : NP) (ep : EP) : DirGraph NP EP where
  nds := []
  npl _ := np
  edges := []
  pl _ := ep
  nextNd := 0
  nextEdge := 0
  fresh := by simp
  simple := by simp

def getAdjListOut (g : DirGraph NP EP) (n : ℕ) : List Edge := g.edges.filter fun e => e.getFrom = n

def getAdjListIn (g : DirGraph NP EP) (n : ℕ) : List Edge := g.edges.filter fun e => e.getTo = n

def getDeg (g : DirGraph NP EP) (n : ℕ) : ℕ := (g.getAdjListOut n).length

def getInDeg (g : DirGraph NP EP) (n : ℕ) : ℕ := (g.getAdjListIn n).length

def getEdg (g : DirGraph NP EP) (u v : ℕ) : Option Edge :=
  (g.getAdjListOut u).find? fun e => e.getOtherNd u = v

def addNd (g : DirGraph NP EP) (p : NP) : ℕ × DirGraph NP EP :=
  (g.nextNd, { g with nds := g.nds ++ [g.nextNd], npl := Function.update g.npl g.nextNd p
                      nextNd := g.nextNd + 1 })

def setPl (g : DirGraph NP EP) (e : Edge) (p : EP) : DirGraph NP EP :=
  { g with pl := Function.update g.pl e p }

theorem mem_getAdjListOut {g : DirGraph NP EP} {n : ℕ} {e : Edge} :
    e ∈ g.getAdjListOut n ↔ e ∈ g.edges ∧ e.getFrom = n := by
  simp [getAdjListOut]

theorem mem_getAdjListIn {g : DirGraph NP EP} {n : ℕ} {e : Edge} :
    e ∈ g.getAdjListIn n ↔ e ∈ g.edges ∧ e.getTo = n := by
  simp [getAdjListIn]

theorem otherNd_out {e : Edge} {u v : ℕ} (he : e.getFrom = u) :
    e.getOtherNd u = v ↔ e.getTo = v := by
  rw [Edge.getOtherNd]
  split
  · rename_i hloop
    rw [he, hloop]
  · rfl

theorem getEdg_eq_some {g : DirGraph NP EP} {u v : ℕ} {e : Edge} :
    g.getEdg u v = some e ↔ e ∈ g.edges ∧ e.getFrom = u ∧ e.getTo = v := by
  constructor
  · intro h
    have hmem := mem_getAdjListOut.1 (List.mem_of_find?_eq_some h)
    have hend : e.getOtherNd u = v := by simpa using List.find?_some h
    exact ⟨hmem.1, hmem.2, (otherNd_out hmem.2).1 hend⟩
  · intro h
    have hmem := mem_getAdjListOut.2 ⟨h.1, h.2.1⟩
    cases hfind : g.getEdg u v with
    | none =>
      have hnone := List.find?_eq_none.1 hfind e hmem
      simp [otherNd_out h.2.1, h.2.2] at hnone
    | some x =>
      have hx := mem_getAdjListOut.1 (List.mem_of_find?_eq_some hfind)
      have hend : x.getOtherNd u = v := by simpa using List.find?_some hfind
      rw [otherNd_out hx.2] at hend
      rw [g.simple x hx.1 e h.1 (hx.2.trans h.2.1.symm) (hend.trans h.2.2.symm)]

theorem getEdg_eq_none {g : DirGraph NP EP} {u v : ℕ} :
    g.getEdg u v = none ↔ ∀ e ∈ g.edges, e.getFrom = u → e.getTo ≠ v := by
  constructor
  · intro h e he hu hv
    rw [getEdg_eq_some.2 ⟨he, hu, hv⟩] at h
    exact absurd h (by simp)
  · intro h
    rw [Option.eq_none_iff_forall_ne_some]
    intro e he
    obtain ⟨hmem, hu, hv⟩ := getEdg_eq_some.1 he
    exact h e hmem hu hv

/-- `addEdg`: an edge between the same nodes is returned as it is. -/
def addEdg (g : DirGraph NP EP) (u v : ℕ) (p : EP) : Edge × DirGraph NP EP :=
  match hg : g.getEdg u v with
  | some e => (e, g)
  | none =>
    let e : Edge := ⟨g.nextEdge, u, v⟩
    (e, { g with
      edges := g.edges ++ [e]
      pl := Function.update g.pl e p
      nextEdge := g.nextEdge + 1
      fresh := by
        intro x hx
        cases List.mem_append.1 hx with
        | inl hx => exact Nat.lt_succ_of_lt (g.fresh x hx)
        | inr hx => rw [List.mem_singleton.1 hx]; exact Nat.lt_succ_self _
      simple := by
        have hnone := getEdg_eq_none.1 hg
        intro x hx y hy hu hv
        cases List.mem_append.1 hx with
        | inl hx =>
          cases List.mem_append.1 hy with
          | inl hy => exact g.simple x hx y hy hu hv
          | inr hy =>
            rw [List.mem_singleton.1 hy] at hu hv
            exact absurd hv (hnone x hx hu)
        | inr hx =>
          rw [List.mem_singleton.1 hx] at hu hv ⊢
          cases List.mem_append.1 hy with
          | inl hy => exact absurd hv.symm (hnone y hy hu.symm)
          | inr hy => exact (List.mem_singleton.1 hy).symm })

def delEdge (g : DirGraph NP EP) (e : Edge) : DirGraph NP EP :=
  { g with
    edges := g.edges.filter (· ≠ e)
    fresh := fun x hx => g.fresh x (List.mem_of_mem_filter hx)
    simple := fun x hx y hy => g.simple x (List.mem_of_mem_filter hx) y (List.mem_of_mem_filter hy) }

def delEdg (g : DirGraph NP EP) (u v : ℕ) : DirGraph NP EP :=
  match g.getEdg u v with
  | some e => g.delEdge e
  | none => g

def delNd (g : DirGraph NP EP) (n : ℕ) : DirGraph NP EP :=
  { g with
    nds := g.nds.filter (· ≠ n)
    edges := g.edges.filter fun e => e.getFrom ≠ n ∧ e.getTo ≠ n
    fresh := fun x hx => g.fresh x (List.mem_of_mem_filter hx)
    simple := fun x hx y hy => g.simple x (List.mem_of_mem_filter hx) y (List.mem_of_mem_filter hy) }

theorem addEdg_of_some {g : DirGraph NP EP} {u v : ℕ} {e : Edge} (h : g.getEdg u v = some e)
    (p : EP) : g.addEdg u v p = (e, g) := by
  unfold addEdg
  split
  · rename_i e' he'
    rw [h] at he'
    rw [Option.some.inj he']
  · rename_i hnone
    rw [h] at hnone
    simp at hnone

theorem addEdg_of_none {g : DirGraph NP EP} {u v : ℕ} (h : g.getEdg u v = none) (p : EP) :
    (g.addEdg u v p).1 = ⟨g.nextEdge, u, v⟩ ∧
    (g.addEdg u v p).2.edges = g.edges ++ [⟨g.nextEdge, u, v⟩] ∧
    (g.addEdg u v p).2.pl = Function.update g.pl ⟨g.nextEdge, u, v⟩ p := by
  unfold addEdg
  split
  · rename_i e' he'
    rw [h] at he'
    simp at he'
  · exact ⟨rfl, rfl, rfl⟩

@[simp] theorem addEdg_nds (g : DirGraph NP EP) (u v : ℕ) (p : EP) :
    (g.addEdg u v p).2.nds = g.nds := by
  unfold addEdg
  split <;> rfl

@[simp] theorem addEdg_nextNd (g : DirGraph NP EP) (u v : ℕ) (p : EP) :
    (g.addEdg u v p).2.nextNd = g.nextNd := by
  unfold addEdg
  split <;> rfl

theorem addEdg_ends (g : DirGraph NP EP) (u v : ℕ) (p : EP) :
    (g.addEdg u v p).1.getFrom = u ∧ (g.addEdg u v p).1.getTo = v ∧
      (g.addEdg u v p).1 ∈ (g.addEdg u v p).2.edges := by
  cases h : g.getEdg u v with
  | some e =>
    obtain ⟨hmem, hu, hv⟩ := getEdg_eq_some.1 h
    rw [addEdg_of_some h]
    exact ⟨hu, hv, hmem⟩
  | none =>
    obtain ⟨he, hedges, -⟩ := addEdg_of_none h p
    rw [he, hedges]
    exact ⟨rfl, rfl, by simp⟩

theorem mem_addEdg {g : DirGraph NP EP} {u v : ℕ} {p : EP} {x : Edge} :
    x ∈ (g.addEdg u v p).2.edges ↔ x ∈ g.edges ∨ x = (g.addEdg u v p).1 := by
  cases h : g.getEdg u v with
  | some e =>
    obtain ⟨hmem, -, -⟩ := getEdg_eq_some.1 h
    rw [addEdg_of_some h]
    constructor
    · exact Or.inl
    · intro hx
      cases hx with
      | inl hx => exact hx
      | inr hx => rw [hx]; exact hmem
  | none =>
    obtain ⟨he, hedges, -⟩ := addEdg_of_none h p
    rw [he, hedges, List.mem_append, List.mem_singleton]

theorem addEdg_pl {g : DirGraph NP EP} {u v : ℕ} {p : EP} {x : Edge} (hx : x ∈ g.edges) :
    (g.addEdg u v p).2.pl x = g.pl x := by
  cases h : g.getEdg u v with
  | some e => rw [addEdg_of_some h]
  | none =>
    obtain ⟨-, -, hpl⟩ := addEdg_of_none h p
    have hne : x ≠ ⟨g.nextEdge, u, v⟩ := by
      intro he
      have hlt := g.fresh x hx
      rw [he] at hlt
      exact Nat.lt_irrefl _ hlt
    rw [hpl, Function.update_of_ne hne]

theorem addEdg_pl_added (g : DirGraph NP EP) (u v : ℕ) (p : EP) :
    (g.addEdg u v p).2.pl (g.addEdg u v p).1 = p ∨
      ((g.addEdg u v p).1 ∈ g.edges ∧
        (g.addEdg u v p).2.pl (g.addEdg u v p).1 = g.pl (g.addEdg u v p).1) := by
  cases h : g.getEdg u v with
  | some e =>
    rw [addEdg_of_some h]
    exact Or.inr ⟨(getEdg_eq_some.1 h).1, rfl⟩
  | none =>
    obtain ⟨he, -, hpl⟩ := addEdg_of_none h p
    rw [hpl, he, Function.update_self]
    exact Or.inl rfl

section mapPl
variable {EP' : Type*}

def mapPl (φ : EP → EP') (g : DirGraph NP EP) : DirGraph NP EP' := { g with pl := φ ∘ g.pl }

theorem mapPl_setPl (φ : EP → EP') (g : DirGraph NP EP) (e : Edge) (p : EP) :
    (g.setPl e p).mapPl φ = (g.mapPl φ).setPl e (φ p) := by
  rw [mapPl, setPl, mapPl, setPl, Function.comp_update]

theorem mapPl_addEdg (φ : EP → EP') (g : DirGraph NP EP) (u v : ℕ) (p : EP) :
    (g.mapPl φ).addEdg u v (φ p) = ((g.addEdg u v p).1, (g.addEdg u v p).2.mapPl φ) := by
  cases h : g.getEdg u v with
  | some e =>
    have h' : (g.mapPl φ).getEdg u v = some e := h
    rw [addEdg_of_some h, addEdg_of_some h']
  | none =>
    unfold addEdg
    split
    · rename_i e he
      have he : g.getEdg u v = some e := he
      rw [h] at he
      cases he
    · split
      · rename_i e he
        rw [h] at he
        cases he
      · simp only [mapPl, Function.comp_update]

end mapPl

end DirGraph

end Pfaedle.DirGraphs

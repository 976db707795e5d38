import Pfaedle.LiveGraph

set_option autoImplicit false

/-!
# `util::graph::UndirGraph`

The adjacency list of a node holds every edge at it. An edge keeps the direction that it was added
in, and `addEdg` takes an edge in either direction for the one that is asked for.
-/
namespace Pfaedle.DirGraphs

def Edge.Joins (e : Edge) (u v : ℕ) : Prop :=
  e.getFrom = u ∧ e.getTo = v ∨ e.getFrom = v ∧ e.getTo = u

instance (e : Edge) (u v : ℕ) : Decidable (e.Joins u v) := inferInstanceAs (Decidable (_ ∨ _))

theorem Edge.Joins.hasEnd {e : Edge} {u v : ℕ} (h : e.Joins u v) : e.hasEnd u :=
  h.imp And.left And.right

theorem otherNd_joins {e : Edge} {u v : ℕ} (h : e.hasEnd u) :
    e.getOtherNd u = v ↔ e.Joins u v := by
  unfold Edge.getOtherNd Edge.Joins
  rcases h with hfrom | hto
  · by_cases hloop : e.getTo = u
    · rw [if_pos hloop, hfrom, hloop]
      tauto
    · rw [if_neg hloop]
      exact ⟨fun hv => Or.inl ⟨hfrom, hv⟩, fun h => h.elim And.right fun h => absurd h.2 hloop⟩
  · rw [if_pos hto]
    refine ⟨fun hv => Or.inr ⟨hv, hto⟩, ?_⟩
    rintro (⟨hfrom, hv⟩ | ⟨hv, -⟩)
    · exact hfrom.trans (hto.symm.trans hv)
    · exact hv

structure UndirGraph (NP EP : Type*) extends DirGraph NP EP where
  unopposed : ∀ e ∈ edges, ∀ e' ∈ edges, e.getFrom = e'.getTo → e.getTo = e'.getFrom → e = e'

namespace UndirGraph
variable {NP EP : Type*}

def empty (np : NP) (ep : EP) : UndirGraph NP EP where
  toDirGraph := DirGraph.empty np ep
  unopposed _ he := absurd he List.not_mem_nil

def getAdjList (g : UndirGraph NP EP) (n : ℕ) : List Edge := g.edges.filter (·.hasEnd n)

def getEdg (g : UndirGraph NP EP) (u v : ℕ) : Option Edge :=
  (g.getAdjList u).find? fun e => e.getOtherNd u = v

def addNd (g : UndirGraph NP EP) (p : NP) : ℕ × UndirGraph NP EP :=
  ((g.toDirGraph.addNd p).1,
    { toDirGraph := (g.toDirGraph.addNd p).2
      unopposed := g.unopposed })

theorem mem_getAdjList {g : UndirGraph NP EP} {n : ℕ} {e : Edge} :
    e ∈ g.getAdjList n ↔ e ∈ g.edges ∧ e.hasEnd n := by
  simp [getAdjList]

theorem joins_unique (g : UndirGraph NP EP) {e e' : Edge} (he : e ∈ g.edges) (he' : e' ∈ g.edges)
    {u v : ℕ} (h : e.Joins u v) (h' : e'.Joins u v) : e = e' := by
  rcases h with ⟨hu, hv⟩ | ⟨hv, hu⟩ <;> rcases h' with ⟨hu', hv'⟩ | ⟨hv', hu'⟩
  · exact g.simple e he e' he' (hu.trans hu'.symm) (hv.trans hv'.symm)
  · exact g.unopposed e he e' he' (hu.trans hu'.symm) (hv.trans hv'.symm)
  · exact g.unopposed e he e' he' (hv.trans hv'.symm) (hu.trans hu'.symm)
  · exact g.simple e he e' he' (hv.trans hv'.symm) (hu.trans hu'.symm)

theorem getEdg_eq_none {g : UndirGraph NP EP} {u v : ℕ} :
    g.getEdg u v = none ↔ ∀ e ∈ g.edges, ¬ e.Joins u v := by
  rw [getEdg, List.find?_eq_none]
  refine ⟨fun h e he hjoins => ?_, fun h e he => ?_⟩
  · have hend := hjoins.hasEnd
    exact h e (mem_getAdjList.2 ⟨he, hend⟩) (decide_eq_true ((otherNd_joins hend).2 hjoins))
  · obtain ⟨hmem, hend⟩ := mem_getAdjList.1 he
    rw [decide_eq_true_eq, otherNd_joins hend]
    exact h e hmem

theorem getEdg_eq_some {g : UndirGraph NP EP} {u v : ℕ} {e : Edge} :
    g.getEdg u v = some e ↔ e ∈ g.edges ∧ e.Joins u v := by
  have hfound : ∀ {x}, g.getEdg u v = some x → x ∈ g.edges ∧ x.Joins u v := by
    intro x hx
    obtain ⟨hmem, hend⟩ := mem_getAdjList.1 (List.mem_of_find?_eq_some hx)
    have hother : x.getOtherNd u = v := by simpa using List.find?_some hx
    exact ⟨hmem, (otherNd_joins hend).1 hother⟩
  refine ⟨hfound, fun ⟨he, hjoins⟩ => ?_⟩
  cases hget : g.getEdg u v with
  | none => exact absurd hjoins (getEdg_eq_none.1 hget e he)
  | some x =>
    obtain ⟨hx, hxjoins⟩ := hfound hget
    rw [g.joins_unique hx he hxjoins hjoins]

theorem getEdg_directed {g : UndirGraph NP EP} {u v : ℕ} (h : g.getEdg u v = none) :
    g.toDirGraph.getEdg u v = none :=
  DirGraph.getEdg_eq_none.2 fun e he hu hv => getEdg_eq_none.1 h e he (Or.inl ⟨hu, hv⟩)

/-- `addEdg`: an edge between the same nodes is returned as it is, whatever its direction. -/
def addEdg (g : UndirGraph NP EP) (u v : ℕ) (p : EP) : Edge × UndirGraph NP EP :=
  match hg : g.getEdg u v with
  | some e => (e, g)
  | none =>
    ((g.toDirGraph.addEdg u v p).1,
      { toDirGraph := (g.toDirGraph.addEdg u v p).2
        unopposed := by
          have hadd := DirGraph.addEdg_added (getEdg_directed hg) p
          have hnone := getEdg_eq_none.1 hg
          intro x hx y hy hu hv
          rcases (hadd.edges x).1 hx with hx | rfl
          · rcases (hadd.edges y).1 hy with hy | rfl
            · exact g.unopposed x hx y hy hu hv
            · exact absurd (Or.inr ⟨hu.trans hadd.ends.2, hv.trans hadd.ends.1⟩) (hnone x hx)
          · rcases (hadd.edges y).1 hy with hy | rfl
            · refine absurd (Or.inr ⟨?_, ?_⟩) (hnone y hy)
              · exact hv.symm.trans hadd.ends.2
              · exact hu.symm.trans hadd.ends.1
            · rfl })

theorem addEdg_of_some {g : UndirGraph NP EP} {u v : ℕ} {e : Edge} (h : g.getEdg u v = some e)
    (p : EP) : g.addEdg u v p = (e, g) := by
  unfold addEdg
  split
  · rename_i e' he'
    rw [Option.some.inj (he'.symm.trans h)]
  · rename_i hnone
    rw [h] at hnone
    cases hnone

theorem addEdg_of_none {g : UndirGraph NP EP} {u v : ℕ} (h : g.getEdg u v = none) (p : EP) :
    (g.addEdg u v p).1 = (g.toDirGraph.addEdg u v p).1 ∧
      (g.addEdg u v p).2.toDirGraph = (g.toDirGraph.addEdg u v p).2 := by
  unfold addEdg
  split
  · rename_i e' he'
    rw [h] at he'
    cases he'
  · exact ⟨rfl, rfl⟩

theorem addEdg_added {g : UndirGraph NP EP} {u v : ℕ} (h : g.getEdg u v = none) (p : EP) :
    DirGraph.Added g.toDirGraph u v p (g.addEdg u v p).1 (g.addEdg u v p).2.toDirGraph := by
  obtain ⟨hx, hg⟩ := addEdg_of_none h p
  rw [hx, hg]
  exact DirGraph.addEdg_added (getEdg_directed h) p

theorem addEdg_live {g : UndirGraph NP EP} {u v : ℕ} (hg : g.Live) (hu : u ∈ g.nds)
    (hv : v ∈ g.nds) (h : g.getEdg u v = none) (p : EP) : (g.addEdg u v p).2.Live := by
  rw [(addEdg_of_none h p).2]
  exact hg.addEdg hu hv p

end UndirGraph

end Pfaedle.DirGraphs

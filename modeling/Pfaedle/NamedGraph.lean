import Pfaedle.DirGraph
import Mathlib.Data.Set.Insert

set_option autoImplicit false

/-!
# A graph under construction, seen through names of its nodes

Nodes get a name when they are added. Under the names the graph is a set of names, a set of arcs
and a payload for every arc, and each operation on the graph adds or changes one of these.
-/
namespace Pfaedle.NamedGraph
open DirGraphs

variable {L NP EP : Type*}

def arcOf (ν : ℕ → L) (e : Edge) : L × L := (ν e.getFrom, ν e.getTo)

structure Drawn (ν : ℕ → L) (names : Set L) (arcs : Set (L × L)) (pay : L × L → EP)
    (g : DirGraph NP EP) : Prop where
  inj : ∀ n < g.nextNd, ∀ m < g.nextNd, ν n = ν m → n = m
  named : ∀ n < g.nextNd, ν n ∈ names
  node : ∀ l ∈ names, ∃ n < g.nextNd, ν n = l
  ends : ∀ e ∈ g.edges, e.getFrom < g.nextNd ∧ e.getTo < g.nextNd
  arc : ∀ e ∈ g.edges, arcOf ν e ∈ arcs
  edge : ∀ p ∈ arcs, ∃ e ∈ g.edges, arcOf ν e = p
  pay : ∀ e ∈ g.edges, g.pl e = pay (arcOf ν e)

/-- `ν'` gives the old nodes of `g` their old names. -/
def Extends (g : DirGraph NP EP) (ν ν' : ℕ → L) : Prop := ∀ n < g.nextNd, ν' n = ν n

variable {ν : ℕ → L} {names : Set L} {arcs : Set (L × L)} {pay : L × L → EP} {g : DirGraph NP EP}

theorem Drawn.arcOf_inj (h : Drawn ν names arcs pay g) {e e' : Edge} (he : e ∈ g.edges)
    (he' : e' ∈ g.edges) (harc : arcOf ν e = arcOf ν e') : e = e' := by
  obtain ⟨hfrom, hto⟩ := Prod.mk.inj harc
  have hfrom := h.inj _ (h.ends e he).1 _ (h.ends e' he').1 hfrom
  have hto := h.inj _ (h.ends e he).2 _ (h.ends e' he').2 hto
  exact g.simple e he e' he' hfrom hto

theorem extends_update (g : DirGraph NP EP) (ν : ℕ → L) (l : L) :
    Extends g ν (Function.update ν g.nextNd l) :=
  fun _ hn => Function.update_of_ne (Nat.ne_of_lt hn) _ _

theorem update_inj {k : ℕ} {l : L} (hinj : ∀ n < k, ∀ m < k, ν n = ν m → n = m)
    (hfresh : ∀ n < k, ν n ≠ l) : ∀ n < k + 1, ∀ m < k + 1,
      Function.update ν k l n = Function.update ν k l m → n = m := by
  have hold : ∀ n < k, Function.update ν k l n = ν n := fun n hn =>
    Function.update_of_ne (Nat.ne_of_lt hn) _ _
  have hnew : Function.update ν k l k = l := Function.update_self _ _ _
  intro n hn m hm hname
  cases Nat.lt_succ_iff_lt_or_eq.1 hn with
  | inl hn =>
    rw [hold n hn] at hname
    cases Nat.lt_succ_iff_lt_or_eq.1 hm with
    | inl hm =>
      rw [hold m hm] at hname
      exact hinj n hn m hm hname
    | inr hm =>
      rw [hm, hnew] at hname
      exact absurd hname (hfresh n hn)
  | inr hn =>
    rw [hn, hnew] at hname
    cases Nat.lt_succ_iff_lt_or_eq.1 hm with
    | inl hm =>
      rw [hold m hm] at hname
      exact absurd hname.symm (hfresh m hm)
    | inr hm => rw [hn, hm]

theorem Drawn.addNd (h : Drawn ν names arcs pay g) {l : L} (hl : l ∉ names) (p : NP) :
    Drawn (Function.update ν g.nextNd l) (insert l names) arcs pay (g.addNd p).2 := by
  have hold := extends_update g ν l
  have hnew : Function.update ν g.nextNd l g.nextNd = l := Function.update_self _ _ _
  have hsplit : ∀ n < g.nextNd + 1, n < g.nextNd ∨ n = g.nextNd :=
    fun n hn => Nat.lt_succ_iff_lt_or_eq.1 hn
  have harcOf : ∀ e ∈ g.edges, arcOf (Function.update ν g.nextNd l) e = arcOf ν e := by
    intro e he
    rw [arcOf, arcOf, hold _ (h.ends e he).1, hold _ (h.ends e he).2]
  constructor
  · exact update_inj h.inj fun n hn hname => hl (hname ▸ h.named n hn)
  · intro n hn
    cases hsplit n hn with
    | inl hn => rw [hold n hn]; exact Set.mem_insert_of_mem _ (h.named n hn)
    | inr hn => rw [hn, hnew]; exact Set.mem_insert _ _
  · intro x hx
    cases Set.mem_insert_iff.1 hx with
    | inl hx => exact ⟨g.nextNd, Nat.lt_succ_self _, by rw [hnew, hx]⟩
    | inr hx =>
      obtain ⟨n, hn, hname⟩ := h.node x hx
      exact ⟨n, Nat.lt_succ_of_lt hn, by rw [hold n hn, hname]⟩
  · intro e he
    exact ⟨Nat.lt_succ_of_lt (h.ends e he).1, Nat.lt_succ_of_lt (h.ends e he).2⟩
  · intro e he
    rw [harcOf e he]
    exact h.arc e he
  · intro p hp
    obtain ⟨e, he, harc⟩ := h.edge p hp
    exact ⟨e, he, by rw [harcOf e he, harc]⟩
  · intro e he
    rw [harcOf e he]
    exact h.pay e he

theorem Drawn.addEdg (h : Drawn ν names arcs pay g) {u v : ℕ} (hu : u < g.nextNd)
    (hv : v < g.nextNd) {q : EP} (hpay : (ν u, ν v) ∉ arcs → pay (ν u, ν v) = q) :
    Drawn ν names (insert (ν u, ν v) arcs) pay (g.addEdg u v q).2 ∧
      arcOf ν (g.addEdg u v q).1 = (ν u, ν v) := by
  obtain ⟨hfrom, hto, hmem⟩ := DirGraph.addEdg_ends g u v q
  have harcOf : arcOf ν (g.addEdg u v q).1 = (ν u, ν v) := by rw [arcOf, hfrom, hto]
  refine ⟨?_, harcOf⟩
  constructor
  · rw [DirGraph.addEdg_nextNd]
    exact h.inj
  · rw [DirGraph.addEdg_nextNd]
    exact h.named
  · rw [DirGraph.addEdg_nextNd]
    exact h.node
  · rw [DirGraph.addEdg_nextNd]
    intro e he
    cases DirGraph.mem_addEdg.1 he with
    | inl he => exact h.ends e he
    | inr he => rw [he, hfrom, hto]; exact ⟨hu, hv⟩
  · intro e he
    cases DirGraph.mem_addEdg.1 he with
    | inl he => exact Set.mem_insert_of_mem _ (h.arc e he)
    | inr he => rw [he, harcOf]; exact Set.mem_insert _ _
  · intro p hp
    cases Set.mem_insert_iff.1 hp with
    | inl hp => exact ⟨_, hmem, by rw [harcOf, hp]⟩
    | inr hp =>
      obtain ⟨e, he, harc⟩ := h.edge p hp
      exact ⟨e, DirGraph.mem_addEdg.2 (Or.inl he), harc⟩
  · intro e he
    by_cases hold : e ∈ g.edges
    · rw [DirGraph.addEdg_pl hold]
      exact h.pay e hold
    · have hnew := (DirGraph.mem_addEdg.1 he).resolve_left hold
      cases hget : g.getEdg u v with
      | some x =>
        rw [DirGraph.addEdg_of_some hget] at hnew
        exact absurd (hnew ▸ (DirGraph.getEdg_eq_some.1 hget).1) hold
      | none =>
        obtain ⟨hedge, -, hpl⟩ := DirGraph.addEdg_of_none hget q
        have hnarc : (ν u, ν v) ∉ arcs := by
          intro harc
          obtain ⟨x, hx, hxarc⟩ := h.edge _ harc
          obtain ⟨hxu, hxv⟩ := Prod.mk.inj hxarc
          have hxu := h.inj _ (h.ends x hx).1 u hu hxu
          have hxv := h.inj _ (h.ends x hx).2 v hv hxv
          exact DirGraph.getEdg_eq_none.1 hget x hx hxu hxv
        rw [hnew, harcOf, hpay hnarc, hpl, hedge, Function.update_self]

variable [DecidableEq L]

theorem Drawn.setPl (h : Drawn ν names arcs pay g) {e : Edge} (he : e ∈ g.edges) (q : EP) :
    Drawn ν names arcs (Function.update pay (arcOf ν e) q) (g.setPl e q) where
  inj := h.inj
  named := h.named
  node := h.node
  ends := h.ends
  arc := h.arc
  edge := h.edge
  pay x hx := by
    change Function.update g.pl e q x = _
    by_cases hxe : x = e
    · rw [hxe, Function.update_self, Function.update_self]
    · have hne : arcOf ν x ≠ arcOf ν e := fun harc => hxe (h.arcOf_inj hx he harc)
      rw [Function.update_of_ne hxe, Function.update_of_ne hne]
      exact h.pay x hx

end Pfaedle.NamedGraph

import Pfaedle.Components
import Pfaedle.ShapeLine

set_option autoImplicit false

/-!
# The symmetric graph of the router

`writeODirEdgs` gives every edge its counterpart, and `writeSelfEdgs` adds loops only.
-/
namespace Pfaedle.ODirEdges
open DirGraphs Restriction LoopRules

section mirror
variable {NP D : Type*} {g₀ : TrGraph NP D} {st : TrGraph NP D × Restrictor}

def Opposite (x y : Edge) : Prop := x.getFrom = y.getTo ∧ x.getTo = y.getFrom

/-- Edges have been added to `g₀` that are reversed copies of its own. -/
structure Mirrored (g₀ : TrGraph NP D) (st : TrGraph NP D × Restrictor) : Prop where
  nds : st.1.nds = g₀.nds
  npl : st.1.npl = g₀.npl
  old : ∀ x ∈ g₀.edges, x ∈ st.1.edges ∧ st.1.pl x = g₀.pl x
  new : ∀ x ∈ st.1.edges, x ∉ g₀.edges →
    ∃ y ∈ g₀.edges, Opposite x y ∧ st.1.pl x = (g₀.pl y).revCopy

theorem Mirrored.refl (g₀ : TrGraph NP D) (restor : Restrictor) : Mirrored g₀ (g₀, restor) where
  nds := rfl
  npl := rfl
  old _ hx := ⟨hx, rfl⟩
  new _ hx hnot := absurd hx hnot

theorem Mirrored.mem_of_getEdg (h : Mirrored g₀ st) {e : Edge} (he : e ∈ st.1.edges)
    (hget : st.1.getEdg e.getTo e.getFrom = none) : e ∈ g₀.edges := by
  by_contra hnot
  obtain ⟨y, hy, hopp, -⟩ := h.new e he hnot
  exact DirGraph.getEdg_eq_none.1 hget y (h.old y hy).1 hopp.2.symm hopp.1.symm

theorem Mirrored.writeODirEdg (h : Mirrored g₀ st) {e : Edge} (he : e ∈ st.1.edges) :
    Mirrored g₀ (writeODirEdg st e) := by
  obtain ⟨g, restor⟩ := st
  cases hget : g.getEdg e.getTo e.getFrom with
  | some z =>
    simp only [ODirEdges.writeODirEdg, hget]
    exact h
  | none =>
    have he₀ : e ∈ g₀.edges := h.mem_of_getEdg he hget
    have hadd := DirGraph.addEdg_added hget (g.pl e).revCopy
    simp only [ODirEdges.writeODirEdg, hget]
    constructor
    · exact hadd.nds.trans h.nds
    · exact hadd.npl.trans h.npl
    · intro x hx
      have hold := h.old x hx
      exact ⟨(hadd.edges x).2 (Or.inl hold.1), (DirGraph.addEdg_pl hold.1).trans hold.2⟩
    · intro x hx hnot
      cases (hadd.edges x).1 hx with
      | inl hmem =>
        obtain ⟨y, hy, hopp, hpl⟩ := h.new x hmem hnot
        exact ⟨y, hy, hopp, (DirGraph.addEdg_pl hmem).trans hpl⟩
      | inr heq =>
        refine ⟨e, he₀, ?_, ?_⟩
        · rw [heq]
          exact hadd.ends
        · rw [heq]
          change (g.addEdg e.getTo e.getFrom (g.pl e).revCopy).2.pl _ = _
          rw [hadd.pl, Function.update_self]
          exact congrArg EdgePayload.revCopy (h.old e he₀).2

theorem writeODirEdgs_mirrored (hends : ∀ e ∈ g₀.edges, e.getFrom ∈ g₀.nds) (restor : Restrictor) :
    Mirrored g₀ (writeODirEdgs g₀ restor) :=
  (writeODirEdgs_keeps (fun _ _ h he => h.writeODirEdg he) (Mirrored.refl g₀ restor) hends).1

theorem writeODirEdgs_opposite (hends : ∀ e ∈ g₀.edges, e.getFrom ∈ g₀.nds) (restor : Restrictor)
    {e : Edge} (he : e ∈ (writeODirEdgs g₀ restor).1.edges) :
    ∃ e' ∈ (writeODirEdgs g₀ restor).1.edges, Opposite e' e := by
  obtain ⟨hmirror, hall⟩ :=
    writeODirEdgs_keeps (fun _ _ h he => Mirrored.writeODirEdg h he) (Mirrored.refl g₀ restor) hends
  by_cases he₀ : e ∈ g₀.edges
  · obtain ⟨e', hget⟩ := Option.ne_none_iff_exists'.1 (hall e he₀)
    obtain ⟨hmem, hfrom, hto⟩ := DirGraph.getEdg_eq_some.1 hget
    exact ⟨e', hmem, hfrom, hto⟩
  · obtain ⟨y, hy, hopp, -⟩ := hmirror.new e he he₀
    exact ⟨y, (hmirror.old y hy).1, hopp.2.symm, hopp.1.symm⟩

end mirror

end Pfaedle.ODirEdges

namespace Pfaedle.Components
open DirGraphs ODirEdges Restriction LoopRules Trgraph

section loops
variable {P L G D : Type*} [Zero L] {g₀ g : Graph P L G D}

/-- Loops have been added to `g₀`, and the edges that it had are as they were. -/
structure Looped (g₀ g : Graph P L G D) : Prop where
  nds : g.nds = g₀.nds
  npl : g.npl = g₀.npl
  old : ∀ x ∈ g₀.edges, x ∈ g.edges ∧ g.pl x = g₀.pl x
  new : ∀ x ∈ g.edges, x ∉ g₀.edges → x.getFrom = x.getTo ∧ g.pl x = newEdge

theorem Looped.refl (g₀ : Graph P L G D) : Looped g₀ g₀ :=
  ⟨rfl, rfl, fun _ hx => ⟨hx, rfl⟩, fun _ hx hnot => absurd hx hnot⟩

theorem Looped.writeSelfEdg (h : Looped g₀ g) (n : ℕ) : Looped g₀ (writeSelfEdg g n) := by
  unfold Components.writeSelfEdg
  split
  · have hlinked := DirGraph.addEdg_linked g n n newEdge
    refine ⟨hlinked.nds.trans h.nds, hlinked.npl.trans h.npl, ?_, ?_⟩
    · intro x hx
      have hold := h.old x hx
      exact ⟨(hlinked.edges x).2 (Or.inl hold.1), (DirGraph.addEdg_pl hold.1).trans hold.2⟩
    · intro x hx hnot
      cases (hlinked.edges x).1 hx with
      | inl hmem =>
        have hnew := h.new x hmem hnot
        exact ⟨hnew.1, (DirGraph.addEdg_pl hmem).trans hnew.2⟩
      | inr heq =>
        rw [heq]
        refine ⟨hlinked.ends.1.trans hlinked.ends.2.symm, ?_⟩
        cases hlinked.kind with
        | inl hmem =>
          rw [heq] at hnot
          rw [hmem.2]
          exact (h.new _ hmem.1 hnot).2
        | inr hadd => rw [hadd.2.1, Function.update_self]
  · exact h

theorem writeSelfEdg_out (g : Graph P L G D) (n : ℕ) (hsi : (g.npl n).si.isSome) :
    ∃ e ∈ (writeSelfEdg g n).edges, e.getFrom = n := by
  unfold writeSelfEdg
  split
  · have hends := g.addEdg_ends n n newEdge
    exact ⟨_, hends.2.2, hends.1⟩
  · rename_i hne
    have hout : g.getAdjListOut n ≠ [] := fun hnil => hne ⟨hsi, by simp [hnil]⟩
    obtain ⟨e, he⟩ := List.exists_mem_of_ne_nil _ hout
    exact ⟨e, DirGraph.mem_getAdjListOut.1 he⟩

theorem writeSelfEdgs_looped (g : Graph P L G D) : Looped g (writeSelfEdgs g) :=
  foldl_inv writeSelfEdg (Looped g) g.nds (Looped.refl g) fun _ n _ h => h.writeSelfEdg n

theorem writeSelfEdgs_out {n : ℕ} (hn : n ∈ g.nds) (hsi : (g.npl n).si.isSome) :
    ∃ e ∈ (writeSelfEdgs g).edges, e.getFrom = n := by
  have hgot := foldl_each writeSelfEdg (Looped g)
    (fun n s => (s.npl n).si.isSome → ∃ e ∈ s.edges, e.getFrom = n) g.nds (Looped.refl g)
    (fun s n _ h => h.writeSelfEdg n) (fun s n _ h hsome => ?_) (fun s n _ m h hm hsome => ?_) n hn
  · refine hgot ?_
    change ((writeSelfEdgs g).npl n).si.isSome
    rw [(writeSelfEdgs_looped g).npl]
    exact hsi
  · rw [(h.writeSelfEdg n).npl, ← h.npl] at hsome
    exact writeSelfEdg_out s n hsome
  · rw [(h.writeSelfEdg n).npl, ← h.npl] at hsome
    obtain ⟨e, he, hfrom⟩ := hm hsome
    exact ⟨e, ((Looped.refl s).writeSelfEdg n).old e he |>.1, hfrom⟩

end loops

end Pfaedle.Components

namespace Pfaedle.ShapeBuilder
open DirGraphs ODirEdges Restriction LoopRules Trgraph Components Router

section model
variable {P L G D C T : Type}

section keys
variable [DecidableEq T]

/-- The key of an edge in `write_transit_graph`, which may be a null pointer. -/
def origEdge (g : Graph P L G D) (e : Edge) : Option Edge :=
  if (g.pl e).rev then g.getEdg e.getTo e.getFrom else some e

def insertTrips (cluster : List T) (edgs : Option Edge → Option (Finset T)) (e : Option Edge) :
    Option Edge → Option (Finset T) :=
  Function.update edgs e (some ((edgs e).getD ∅ ∪ cluster.toFinset))

def writeTransitGraph (g : Graph P L G D) (hops : List (EdgeListHop ℕ Edge C))
    (cluster : List T) (edgs : Option Edge → Option (Finset T)) :
    Option Edge → Option (Finset T) :=
  hops.foldl (fun edgs hop =>
    hop.edges.foldl (fun edgs e => insertTrips cluster edgs (origEdge g e)) edgs) edgs

theorem writeTransitGraph_none {g : Graph P L G D} {hops : List (EdgeListHop ℕ Edge C)}
    (h : ∀ hop ∈ hops, ∀ e ∈ hop.edges, origEdge g e ≠ none) (cluster : List T)
    (edgs : Option Edge → Option (Finset T)) :
    writeTransitGraph g hops cluster edgs none = edgs none := by
  refine foldl_inv _ (fun edgs' : Option Edge → Option (Finset T) => edgs' none = edgs none) hops
    rfl fun edgs' hop hhop hsame => ?_
  refine foldl_inv _ (fun edgs' : Option Edge → Option (Finset T) => edgs' none = edgs none) _
    hsame fun edgs'' e he hsame' => ?_
  unfold insertTrips
  rw [Function.update_of_ne (h hop hhop e he).symm]
  exact hsame'

end keys

theorem edgeRoute_ne_nil {g : Graph P L G D} (geom : P → C × C) (length : L → C) (group : G → ℕ)
    (w : WrittenComponents) {ncr : List (List (NodeCandidate ℕ C))}
    (hncr : ∀ nCands ∈ ncr, ∃ n ∈ nCands, ∃ e ∈ g.edges, e.getFrom = n.nd) :
    ∀ b ∈ edgeRoute (transitGraph geom length group g w) ncr, b ≠ [] := by
  intro b hb
  obtain ⟨nCands, hcands, rfl⟩ := List.mem_map.1 hb
  obtain ⟨n, hn, e, he, hfrom⟩ := hncr nCands hcands
  have hout : e ∈ (transitGraph geom length group g w).adjListOut n.nd :=
    DirGraph.mem_getAdjListOut.2 ⟨he, hfrom⟩
  exact List.ne_nil_of_mem (List.mem_flatMap.2 ⟨n, hn, List.mem_map_of_mem hout⟩)

end model

section symmetric
variable {P L G D C T : Type} [Zero L] [DecidableEq T] {g₀ : Graph P L G D}

def routingGraph (g₀ : Graph P L G D) (restor : Restrictor) : Graph P L G D :=
  writeSelfEdgs (writeODirEdgs g₀ restor).1

variable (restor : Restrictor)

theorem routingGraph_old (hlive : g₀.Live) {e : Edge} (he : e ∈ g₀.edges) :
    e ∈ (routingGraph g₀ restor).edges ∧ (routingGraph g₀ restor).pl e = g₀.pl e := by
  have hmirror := writeODirEdgs_mirrored (fun e he => (hlive.ends e he).1) restor
  have hold := hmirror.old e he
  have hlater := (writeSelfEdgs_looped (writeODirEdgs g₀ restor).1).old e hold.1
  exact ⟨hlater.1, hlater.2.trans hold.2⟩

/-- An edge between two nodes was there before the loops. -/
theorem routingGraph_between {e : Edge} (he : e ∈ (routingGraph g₀ restor).edges)
    (hne : e.getFrom ≠ e.getTo) : e ∈ (writeODirEdgs g₀ restor).1.edges := by
  by_contra hnot
  exact hne ((writeSelfEdgs_looped _).new e he hnot).1

theorem routingGraph_opposite (hlive : g₀.Live) {e : Edge} (he : e ∈ (routingGraph g₀ restor).edges)
    (hne : e.getFrom ≠ e.getTo) :
    ∃! e', e' ∈ (routingGraph g₀ restor).edges ∧ Opposite e' e := by
  obtain ⟨e', hmem, hopp⟩ := writeODirEdgs_opposite (fun e he => (hlive.ends e he).1) restor
    (routingGraph_between restor he hne)
  refine ⟨e', ⟨((writeSelfEdgs_looped _).old e' hmem).1, hopp⟩, ?_⟩
  rintro x ⟨hx, hxopp⟩
  exact (routingGraph g₀ restor).simple x hx e' ((writeSelfEdgs_looped _).old e' hmem).1
    (hxopp.1.trans hopp.1.symm) (hxopp.2.trans hopp.2.symm)

/-- An edge that is flagged is a copy of its counterpart. -/
theorem routingGraph_reversed (hlive : g₀.Live) (hrev : ∀ e ∈ g₀.edges, (g₀.pl e).rev = false)
    {e : Edge} (he : e ∈ (routingGraph g₀ restor).edges)
    (hflag : ((routingGraph g₀ restor).pl e).rev = true) :
    ∃ e' ∈ g₀.edges, (routingGraph g₀ restor).getEdg e.getTo e.getFrom = some e' ∧
      (routingGraph g₀ restor).pl e = (g₀.pl e').revCopy := by
  have hlooped := writeSelfEdgs_looped (writeODirEdgs g₀ restor).1
  have hmirror := writeODirEdgs_mirrored (fun e he => (hlive.ends e he).1) restor
  have hmem : e ∈ (writeODirEdgs g₀ restor).1.edges := by
    by_contra hnot
    have hplain := (hlooped.new e he hnot).2
    unfold routingGraph at hflag
    rw [hplain] at hflag
    cases hflag
  have hnew : e ∉ g₀.edges := by
    intro hold
    rw [(routingGraph_old restor hlive hold).2, hrev e hold] at hflag
    cases hflag
  obtain ⟨e', he', hopp, hpl⟩ := hmirror.new e hmem hnew
  refine ⟨e', he', ?_, (hlooped.old e hmem).2.trans hpl⟩
  exact DirGraph.getEdg_eq_some.2
    ⟨(routingGraph_old restor hlive he').1, hopp.2.symm, hopp.1.symm⟩

theorem origEdge_ne_none (hlive : g₀.Live) (hrev : ∀ e ∈ g₀.edges, (g₀.pl e).rev = false) {e : Edge}
    (he : e ∈ (routingGraph g₀ restor).edges) : origEdge (routingGraph g₀ restor) e ≠ none := by
  unfold origEdge
  split
  · rename_i hflag
    obtain ⟨e', -, hget, -⟩ := routingGraph_reversed restor hlive hrev he hflag
    simp [hget]
  · simp

/-- The graph of the router is symmetric, and every station node can be left. -/
theorem routingGraph_symmetric (hlive : g₀.Live) (hrev : ∀ e ∈ g₀.edges, (g₀.pl e).rev = false)
    (restor : Restrictor) :
    let g := routingGraph g₀ restor
    (∀ e ∈ g.edges, e.getFrom ≠ e.getTo →
      ∃! e', e' ∈ g.edges ∧ e'.getFrom = e.getTo ∧ e'.getTo = e.getFrom) ∧
    (∀ e ∈ g.edges, (g.pl e).rev = true →
      ∃ e', g.getEdg e.getTo e.getFrom = some e' ∧ (g.pl e').rev = false ∧
        (g.pl e').data = (g.pl e).data ∧ (g.pl e').oneWay = swapOneWay (g.pl e).oneWay) ∧
    (∀ e ∈ g₀.edges, e ∈ g.edges ∧ g.pl e = g₀.pl e) ∧
    (∀ n ∈ g.nds, (g.npl n).si.isSome → g.getAdjListOut n ≠ []) ∧
    (∀ (geom : P → C × C) (length : L → C) (group : G → ℕ) (w : WrittenComponents)
      (ncr : List (List (NodeCandidate ℕ C))),
      (∀ nCands ∈ ncr, nCands ≠ [] ∧ ∀ n ∈ nCands, n.nd ∈ g.nds ∧ (g.npl n.nd).si.isSome) →
      ∀ b ∈ edgeRoute (transitGraph geom length group g w) ncr, b ≠ []) ∧
    ∀ (hops : List (EdgeListHop ℕ Edge C)) (cluster : List T)
      (edgs : Option Edge → Option (Finset T)),
      (∀ hop ∈ hops, ∀ e ∈ hop.edges, e ∈ g.edges) →
      writeTransitGraph g hops cluster edgs none = edgs none := by
  have hlooped := writeSelfEdgs_looped (writeODirEdgs g₀ restor).1
  have hout : ∀ n ∈ (routingGraph g₀ restor).nds, ((routingGraph g₀ restor).npl n).si.isSome →
      ∃ e ∈ (routingGraph g₀ restor).edges, e.getFrom = n := by
    intro n hn hsi
    unfold routingGraph at hn hsi
    rw [hlooped.nds] at hn
    rw [hlooped.npl] at hsi
    exact writeSelfEdgs_out hn hsi
  refine ⟨fun e he hne => routingGraph_opposite restor hlive he hne, ?_,
    fun e he => routingGraph_old restor hlive he, ?_, ?_, ?_⟩
  · intro e he hflag
    obtain ⟨e', he', hget, hpl⟩ := routingGraph_reversed restor hlive hrev he hflag
    have hold := (routingGraph_old restor hlive he').2
    refine ⟨e', hget, ?_, ?_, ?_⟩
    · rw [hold]
      exact hrev e' he'
    · rw [hold, hpl, EdgePayload.revCopy_data]
    · rw [hold, hpl, EdgePayload.revCopy_oneWay, swapOneWay_swapOneWay]
  · intro n hn hsi
    obtain ⟨e, he, hfrom⟩ := hout n hn hsi
    exact List.ne_nil_of_mem (DirGraph.mem_getAdjListOut.2 ⟨he, hfrom⟩)
  · intro geom length group w ncr hncr
    apply edgeRoute_ne_nil
    intro nCands hcands
    obtain ⟨hne, hstation⟩ := hncr nCands hcands
    obtain ⟨n, hn⟩ := List.exists_mem_of_ne_nil _ hne
    exact ⟨n, hn, hout n.nd (hstation n hn).1 (hstation n hn).2⟩
  · intro hops cluster edgs hin
    exact writeTransitGraph_none
      (fun hop hhop e he => origEdge_ne_none restor hlive hrev (hin hop hhop e he)) cluster edgs

def oneWayStreet : Graph ℕ ℕ ℕ Unit :=
  let g := (DirGraph.empty ⟨0, none⟩ newEdge).addNd ⟨0, none⟩
  let g := g.2.addNd ⟨1, some ⟨some 0, ()⟩⟩
  let g := g.2.addNd ⟨5, some ⟨some 1, ()⟩⟩
  (g.2.addEdg 0 1 ⟨1, false, false, ⟨[0, 1], 1, 3, []⟩⟩).2

theorem routingGraph_symmetric_oneWay :
    (∃! e', e' ∈ (routingGraph oneWayStreet .empty).edges ∧ e'.getFrom = 1 ∧ e'.getTo = 0) ∧
    (∃ e', (routingGraph oneWayStreet .empty).getEdg 0 1 = some e' ∧
      ((routingGraph oneWayStreet .empty).pl e').oneWay = 1) ∧
    (routingGraph oneWayStreet .empty).getAdjListOut 2 ≠ [] := by
  have hlive : oneWayStreet.Live := ⟨by decide, by decide, by decide⟩
  obtain ⟨hopp, hcopy, -, hout, -⟩ :=
    routingGraph_symmetric (C := ℚ) (T := ℕ) hlive (by decide) .empty
  obtain ⟨e', hget, -, -, honeWay⟩ := hcopy ⟨1, 1, 0⟩ (by decide) (by decide)
  exact ⟨hopp ⟨0, 0, 1⟩ (by decide) (by decide), ⟨e', hget, honeWay⟩, hout 2 (by decide) (by decide)⟩

end symmetric

end Pfaedle.ShapeBuilder

import Mathlib.Data.Finset.Option
import Pfaedle.SymmetricGraph
import Pfaedle.UndirGraph

set_option autoImplicit false

/-!
# `shape_builder::build_transit_graph`

The tracks that shapes run over are collected while the clusters are matched, and copied into a
graph of their own. The keys of the collection come in any order, and of two tracks that lead
between the same nodes in opposite directions the one that comes first is copied.
-/
namespace Pfaedle.ShapeBuilder
open DirGraphs ODirEdges Restriction LoopRules Trgraph Components Router

section model
variable {P L G D C T : Type} [DecidableEq T]

structure NetEdge (P T : Type) where
  l : List P
  trips : Finset T
  routeShortNames : Finset String
  tripShortNames : Finset String

structure TripNames (T : Type) where
  routeShortName : T → Option String
  tripShortName : T → String

variable (names : TripNames T) (g : Graph P L G D)

def netEdge (l : List P) (trips : Finset T) : NetEdge P T where
  l := l
  trips := trips
  routeShortNames := (trips.image names.routeShortName).eraseNone
  tripShortNames := trips.image names.tripShortName

def matchedEdges (runs : List (List (EdgeListHop ℕ Edge C) × List T)) :
    Option Edge → Option (Finset T) :=
  runs.foldl (fun edgs run => writeTransitGraph g run.1 run.2 edgs) fun _ => none

structure NetState (P T : Type) where
  nodes : ℕ → Option ℕ
  ng : UndirGraph P (NetEdge P T)

def placeEnd (n : ℕ) (found : Option ℕ) (st : NetState P T) : ℕ × NetState P T :=
  match found with
  | some m => (m, st)
  | none =>
    let added := st.ng.addNd (g.npl n).geom
    (added.1, ⟨Function.update st.nodes n (some added.1), added.2⟩)

def addTrack (st : NetState P T) (e : Edge) (trips : Finset T) : NetState P T :=
  -- both ends are looked up before one of them is added
  let frm := st.nodes e.getFrom
  let to_ := st.nodes e.getTo
  let u := placeEnd g e.getFrom frm st
  let v := placeEnd g e.getTo to_ u.2
  { v.2 with ng := (v.2.ng.addEdg u.1 v.1 (netEdge names (g.pl e).data.geom trips)).2 }

/-- `none` is the program that follows a null pointer. -/
def buildTransitGraph (eps : List (Option Edge × Finset T)) (ng : UndirGraph P (NetEdge P T)) :
    Option (UndirGraph P (NetEdge P T)) :=
  let step (st : NetState P T) (ep : Option Edge × Finset T) : Option (NetState P T) :=
    ep.1.map fun e => addTrack names g st e ep.2
  (eps.foldlM step ⟨fun _ => none, ng⟩).map NetState.ng

/-- `eps` are the entries of the collection in some order. -/
structure Lists (edgs : Option Edge → Option (Finset T)) (eps : List (Option Edge × Finset T)) :
    Prop where
  nodup : (eps.map Prod.fst).Nodup
  mem : ∀ e trips, (e, trips) ∈ eps ↔ edgs e = some trips

/-- No track against `e` is listed before it. -/
def Leads (tracks : List Edge) (e : Edge) : Prop :=
  e ∈ tracks ∧ ∀ f ∈ tracks, Opposite f e → tracks.idxOf e ≤ tracks.idxOf f

/-- A hop uses the track of `e`, in its direction or against it. -/
def Uses (hops : List (EdgeListHop ℕ Edge C)) (e : Edge) : Prop :=
  ∃ hop ∈ hops, ∃ e' ∈ hop.edges,
    (g.pl e').rev = false ∧ e' = e ∨ (g.pl e').rev = true ∧ Opposite e e'

end model

section collecting
variable {P L G D C T : Type} [DecidableEq T] {g : Graph P L G D}

theorem foldl_insertTrips (cluster : List T) (keys : List (Option Edge))
    (edgs : Option Edge → Option (Finset T)) (k : Option Edge) :
    keys.foldl (insertTrips cluster) edgs k =
      if k ∈ keys then some ((edgs k).getD ∅ ∪ cluster.toFinset) else edgs k := by
  induction keys generalizing edgs with
  | nil => rfl
  | cons key keys ih =>
    rw [List.foldl_cons, ih]
    by_cases hkey : k = key
    · subst hkey
      rw [insertTrips, Function.update_self, if_pos List.mem_cons_self]
      split
      · rw [Option.getD_some, Finset.union_assoc, Finset.union_self]
      · rfl
    · have hother : insertTrips cluster edgs key k = edgs k := Function.update_of_ne hkey _ _
      rw [hother]
      exact if_congr (or_iff_right hkey |>.symm.trans List.mem_cons.symm) rfl rfl

def keys (g : Graph P L G D) (hops : List (EdgeListHop ℕ Edge C)) : List (Option Edge) :=
  hops.flatMap fun hop => hop.edges.map (origEdge g)

theorem writeTransitGraph_eq (hops : List (EdgeListHop ℕ Edge C)) (cluster : List T)
    (edgs : Option Edge → Option (Finset T)) (k : Option Edge) :
    writeTransitGraph g hops cluster edgs k =
      if k ∈ keys g hops then some ((edgs k).getD ∅ ∪ cluster.toFinset) else edgs k := by
  rw [← foldl_insertTrips, writeTransitGraph, keys, List.foldl_flatMap]
  refine congrFun (congrArg (fun f => hops.foldl f edgs) ?_) k
  funext edgs hop
  rw [List.foldl_map]

theorem origEdge_eq_some {e e' : Edge} (he : e ∈ g.edges) :
    origEdge g e' = some e ↔
      (g.pl e').rev = false ∧ e' = e ∨ (g.pl e').rev = true ∧ Opposite e e' := by
  unfold origEdge
  cases hrev : (g.pl e').rev with
  | false => simp
  | true =>
    rw [if_pos rfl, DirGraph.getEdg_eq_some]
    constructor
    · rintro ⟨-, hfrom, hto⟩
      exact Or.inr ⟨rfl, hfrom, hto⟩
    · rintro (⟨hfalse, -⟩ | ⟨-, hopp⟩)
      · cases hfalse
      · exact ⟨he, hopp.1, hopp.2⟩

theorem origEdge_mem {e e' : Edge} (he' : e' ∈ g.edges) (h : origEdge g e' = some e) :
    e ∈ g.edges := by
  rw [origEdge] at h
  split at h
  · exact (DirGraph.getEdg_eq_some.1 h).1
  · cases h
    exact he'

theorem mem_keys_iff {hops : List (EdgeListHop ℕ Edge C)} {e : Edge} (he : e ∈ g.edges) :
    some e ∈ keys g hops ↔ Uses g hops e := by
  rw [keys, List.mem_flatMap]
  constructor
  · rintro ⟨hop, hhop, hmem⟩
    obtain ⟨e', he', hkey⟩ := List.mem_map.1 hmem
    exact ⟨hop, hhop, e', he', (origEdge_eq_some he).1 hkey⟩
  · rintro ⟨hop, hhop, e', he', huse⟩
    exact ⟨hop, hhop, List.mem_map.2 ⟨e', he', (origEdge_eq_some he).2 huse⟩⟩

/-- What the runs so far leave at a key. -/
theorem foldl_writeTransitGraph (k : Option Edge)
    (runs : List (List (EdgeListHop ℕ Edge C) × List T)) (edgs : Option Edge → Option (Finset T)) :
    let edgs' := runs.foldl (fun edgs run => writeTransitGraph g run.1 run.2 edgs) edgs
    ((edgs' k).isSome ↔ (edgs k).isSome ∨ ∃ run ∈ runs, k ∈ keys g run.1) ∧
      ∀ t, t ∈ (edgs' k).getD ∅ ↔
        t ∈ (edgs k).getD ∅ ∨ ∃ run ∈ runs, k ∈ keys g run.1 ∧ t ∈ run.2 := by
  induction runs generalizing edgs with
  | nil => simp
  | cons run runs ih =>
    obtain ⟨hsome, hmem⟩ := ih (writeTransitGraph g run.1 run.2 edgs)
    have hrun := writeTransitGraph_eq (g := g) run.1 run.2 edgs k
    rw [List.foldl_cons]
    by_cases huse : k ∈ keys g run.1
    · rw [if_pos huse] at hrun
      refine ⟨hsome.trans ?_, fun t => (hmem t).trans ?_⟩
      · rw [hrun]
        exact iff_of_true (Or.inl rfl) (Or.inr ⟨run, List.mem_cons_self, huse⟩)
      · rw [hrun, Option.getD_some, Finset.mem_union, List.mem_toFinset]
        simp [huse, or_assoc]
    · rw [if_neg huse] at hrun
      refine ⟨hsome.trans ?_, fun t => (hmem t).trans ?_⟩
      · rw [hrun]
        simp [huse]
      · rw [hrun]
        simp [huse]

theorem matchedEdges_some {runs : List (List (EdgeListHop ℕ Edge C) × List T)} {k : Option Edge}
    {trips : Finset T} (h : matchedEdges g runs k = some trips) :
    (∃ run ∈ runs, k ∈ keys g run.1) ∧
      ∀ t, t ∈ trips ↔ ∃ run ∈ runs, k ∈ keys g run.1 ∧ t ∈ run.2 := by
  obtain ⟨hsome, hmem⟩ := foldl_writeTransitGraph (g := g) k runs fun _ => none
  rw [← matchedEdges, h] at hsome hmem
  refine ⟨(hsome.1 rfl).resolve_left Bool.false_ne_true, fun t => (hmem t).trans ?_⟩
  exact or_iff_right (Finset.notMem_empty t)

theorem exists_matchedEdges {runs : List (List (EdgeListHop ℕ Edge C) × List T)}
    {k : Option Edge} (h : ∃ run ∈ runs, k ∈ keys g run.1) :
    ∃ trips, matchedEdges g runs k = some trips :=
  Option.isSome_iff_exists.1
    ((foldl_writeTransitGraph (g := g) k runs fun _ => none).1.2 (Or.inr h))

end collecting

section building
variable {P L G D T : Type} {g : Graph P L G D} {names : TripNames T}

structure Housed (g : Graph P L G D) (st : NetState P T) (owner : ℕ → ℕ) : Prop where
  live : st.ng.Live
  mem : ∀ n m, st.nodes n = some m → m ∈ st.ng.nds ∧ owner m = n
  geom : ∀ m ∈ st.ng.nds, st.ng.npl m = (g.npl (owner m)).geom

structure HousedEnd (st st' : NetState P T) (owner owner' : ℕ → ℕ) (m : ℕ) : Prop where
  mem : m ∈ st'.ng.nds
  nds : ∀ k, k ∈ st'.ng.nds ↔ k ∈ st.ng.nds ∨ k = m
  keeps : ∀ k ∈ st.ng.nds, owner' k = owner k
  edges : st'.ng.edges = st.ng.edges
  pl : st'.ng.pl = st.ng.pl

def Single (st : NetState P T) (owner : ℕ → ℕ) : Prop :=
  ∀ m ∈ st.ng.nds, st.nodes (owner m) = some m

theorem Housed.withEnd {st : NetState P T} {owner : ℕ → ℕ} (h : Housed g st owner) (n : ℕ)
    {found : Option ℕ} (hfound : ∀ m, found = some m → m ∈ st.ng.nds ∧ owner m = n) :
    ∃ owner', Housed g (placeEnd g n found st).2 owner' ∧
      HousedEnd st (placeEnd g n found st).2 owner owner' (placeEnd g n found st).1 ∧
      owner' (placeEnd g n found st).1 = n ∧
      (found = st.nodes n → Single st owner → Single (placeEnd g n found st).2 owner') := by
  cases found with
  | some m =>
    obtain ⟨hm, howner⟩ := hfound m rfl
    refine ⟨owner, h, ⟨hm, fun k => ?_, fun _ _ => rfl, rfl, rfl⟩, howner,
      fun _ hsingle => hsingle⟩
    exact ⟨Or.inl, fun hk => hk.elim id fun hk => hk ▸ hm⟩
  | none =>
    have hold : ∀ m ∈ st.ng.nds, m ≠ st.ng.nextNd := fun m hm => Nat.ne_of_lt (h.live.handed m hm)
    have howner : ∀ m ∈ st.ng.nds, Function.update owner st.ng.nextNd n m = owner m :=
      fun m hm => Function.update_of_ne (hold m hm) _ _
    have hself : Function.update owner st.ng.nextNd n st.ng.nextNd = n := Function.update_self _ _ _
    have hmem : ∀ k, k ∈ st.ng.nds ++ [st.ng.nextNd] ↔ k ∈ st.ng.nds ∨ k = st.ng.nextNd := by
      intro k
      rw [List.mem_append, List.mem_singleton]
    refine ⟨Function.update owner st.ng.nextNd n, ⟨h.live.addNd _, ?_, ?_⟩,
      ⟨(hmem _).2 (Or.inr rfl), hmem, howner, rfl, rfl⟩, hself, ?_⟩
    · intro k m hk
      change Function.update st.nodes n (some st.ng.nextNd) k = some m at hk
      by_cases hkn : k = n
      · subst hkn
        rw [Function.update_self] at hk
        cases hk
        exact ⟨(hmem _).2 (Or.inr rfl), hself⟩
      · rw [Function.update_of_ne hkn] at hk
        obtain ⟨hm, hown⟩ := h.mem k m hk
        exact ⟨(hmem m).2 (Or.inl hm), (howner m hm).trans hown⟩
    · intro m hm
      change Function.update st.ng.npl st.ng.nextNd _ m = _
      obtain hm | rfl := (hmem m).1 hm
      · rw [Function.update_of_ne (hold m hm), howner m hm]
        exact h.geom m hm
      · rw [Function.update_self, hself]
    · intro hnone hsingle m hm
      change Function.update st.nodes n _ _ = _
      obtain hm | rfl := (hmem m).1 hm
      · have hne : owner m ≠ n := by
          intro hmn
          rw [← hmn, hsingle m hm] at hnone
          cases hnone
        rw [howner m hm, Function.update_of_ne hne]
        exact hsingle m hm
      · rw [hself, Function.update_self]
        rfl

structure HousedEnds (g : Graph P L G D) (st st' : NetState P T) (owner owner' : ℕ → ℕ)
    (e : Edge) (u v : ℕ) : Prop where
  placed : Housed g st' owner'
  ends : owner' u = e.getFrom ∧ owner' v = e.getTo
  nds : ∀ k, k ∈ st'.ng.nds ↔ k ∈ st.ng.nds ∨ k = u ∨ k = v
  keeps : ∀ m ∈ st.ng.nds, owner' m = owner m
  edges : st'.ng.edges = st.ng.edges
  pl : st'.ng.pl = st.ng.pl
  found : ∀ n m, st.nodes n = some m → st'.nodes n = some m
  here : e.getFrom ≠ e.getTo →
    st'.nodes e.getFrom = some u ∧ st'.nodes e.getTo = some v
  single : e.getFrom ≠ e.getTo → Single st owner → Single st' owner'

theorem placeEnd_nodes (g : Graph P L G D) (n : ℕ) (found : Option ℕ) (st : NetState P T) :
    (found = st.nodes n →
      (placeEnd g n found st).2.nodes n = some (placeEnd g n found st).1) ∧
      ∀ k, k ≠ n ∨ found ≠ none → (placeEnd g n found st).2.nodes k = st.nodes k := by
  cases found with
  | some m => exact ⟨fun h => h.symm, fun _ _ => rfl⟩
  | none =>
    refine ⟨fun _ => Function.update_self _ _ _, fun k hk => ?_⟩
    exact Function.update_of_ne (hk.resolve_right fun h => h rfl) _ _

theorem Housed.withEnds {st : NetState P T} {owner : ℕ → ℕ} (h : Housed g st owner) (e : Edge) :
    let u := placeEnd g e.getFrom (st.nodes e.getFrom) st
    let v := placeEnd g e.getTo (st.nodes e.getTo) u.2
    ∃ owner', HousedEnds g st v.2 owner owner' e u.1 v.1 := by
  intro u v
  have hto : ∀ m, st.nodes e.getTo = some m → m ∈ st.ng.nds ∧ owner m = e.getTo := h.mem _
  obtain ⟨owner₁, hplaced₁, hend₁, hu, hsingle₁⟩ := h.withEnd e.getFrom (h.mem _)
  obtain ⟨owner', hplaced, hend, hv, hsingle⟩ := hplaced₁.withEnd e.getTo fun m hm =>
    ⟨(hend₁.nds m).2 (Or.inl (hto m hm).1), (hend₁.keeps m (hto m hm).1).trans (hto m hm).2⟩
  obtain ⟨hself₁, hother₁⟩ := placeEnd_nodes g e.getFrom (st.nodes e.getFrom) st
  obtain ⟨hself, hother⟩ := placeEnd_nodes g e.getTo (st.nodes e.getTo) u.2
  refine ⟨owner', hplaced, ⟨(hend.keeps _ hend₁.mem).trans hu, hv⟩, ?_, ?_,
    hend.edges.trans hend₁.edges, hend.pl.trans hend₁.pl, ?_, ?_, ?_⟩
  · intro k
    rw [hend.nds, hend₁.nds, or_assoc]
  · intro m hm
    exact (hend.keeps m ((hend₁.nds m).2 (Or.inl hm))).trans (hend₁.keeps m hm)
  · intro n m hm
    have hold : ∀ k, n ≠ k ∨ st.nodes k ≠ none := by
      intro k
      by_cases hk : n = k
      · exact Or.inr (by rw [← hk, hm]; exact Option.some_ne_none m)
      · exact Or.inl hk
    exact (hother n (hold _)).trans ((hother₁ n (hold _)).trans hm)
  · intro hne
    exact ⟨(hother _ (Or.inl hne)).trans (hself₁ rfl), hself (hother₁ _ (Or.inl hne.symm)).symm⟩
  · intro hne hst
    exact hsingle (hother₁ _ (Or.inl hne.symm)).symm (hsingle₁ rfl hst)

def CopyOf (owner : ℕ → ℕ) (e x : Edge) : Prop :=
  owner x.getFrom = e.getFrom ∧ owner x.getTo = e.getTo

/-- The edge of the network between the ends of a track, in its direction or against it. -/
def StandsFor (owner : ℕ → ℕ) (e x : Edge) : Prop :=
  CopyOf owner e x ∨ owner x.getFrom = e.getTo ∧ owner x.getTo = e.getFrom

theorem CopyOf.opposite {owner : ℕ → ℕ} {e f x : Edge} (hf : CopyOf owner f x)
    (h : owner x.getFrom = e.getTo ∧ owner x.getTo = e.getFrom) : Opposite f e :=
  ⟨hf.1.symm.trans h.1, hf.2.symm.trans h.2⟩

theorem StandsFor.of_copy {owner : ℕ → ℕ} {e f x y : Edge} (hx : StandsFor owner f x)
    (hy : StandsFor owner f y) (hcopy : CopyOf owner e y) : StandsFor owner e x := by
  rcases hx with ⟨hfrom, hto⟩ | ⟨hfrom, hto⟩ <;> rcases hy with ⟨hfrom', hto'⟩ | ⟨hfrom', hto'⟩
  · exact Or.inl ⟨hfrom.trans (hfrom'.symm.trans hcopy.1), hto.trans (hto'.symm.trans hcopy.2)⟩
  · exact Or.inr ⟨hfrom.trans (hto'.symm.trans hcopy.2), hto.trans (hfrom'.symm.trans hcopy.1)⟩
  · exact Or.inr ⟨hfrom.trans (hto'.symm.trans hcopy.2), hto.trans (hfrom'.symm.trans hcopy.1)⟩
  · exact Or.inl ⟨hfrom.trans (hfrom'.symm.trans hcopy.1), hto.trans (hto'.symm.trans hcopy.2)⟩

theorem StandsFor.of_opposite {owner : ℕ → ℕ} {e f x : Edge} (h : StandsFor owner f x)
    (hopp : Opposite f e) : StandsFor owner e x := by
  rcases h with ⟨hfrom, hto⟩ | ⟨hfrom, hto⟩
  · exact Or.inr ⟨hfrom.trans hopp.1, hto.trans hopp.2⟩
  · exact Or.inl ⟨hfrom.trans hopp.2, hto.trans hopp.1⟩

theorem Leads.append {l : List Edge} {e : Edge} (h : Leads l e) (later : List Edge) :
    Leads (l ++ later) e := by
  refine ⟨List.mem_append_left _ h.1, fun f hf hopp => ?_⟩
  rw [List.idxOf_append_of_mem h.1]
  by_cases hmem : f ∈ l
  · rw [List.idxOf_append_of_mem hmem]
    exact h.2 f hmem hopp
  · rw [List.idxOf_append_of_notMem hmem]
    exact (List.idxOf_lt_length_of_mem h.1).le.trans (Nat.le_add_right _ _)

theorem leads_last {l : List Edge} {e : Edge} (h : ∀ f ∈ l, ¬ Opposite f e) :
    Leads (l ++ [e]) e := by
  refine ⟨List.mem_append_right _ (List.mem_singleton_self _), fun f hf hopp => ?_⟩
  rcases List.mem_append.1 hf with hf | hf
  · exact absurd hopp (h f hf)
  · rw [List.mem_singleton.1 hf]

theorem Leads.eq_of_opposite {l : List Edge} {e f : Edge} (he : Leads l e) (hf : Leads l f)
    (h : Opposite f e) : f = e := by
  have hsymm : Opposite e f := ⟨h.2.symm, h.1.symm⟩
  exact (List.idxOf_inj hf.1).1 (le_antisymm (hf.2 e he.1 hsymm) (he.2 f hf.1 h))

structure Copied (names : TripNames T) (g : Graph P L G D) (eps : List (Edge × Finset T))
    (st : NetState P T) (owner : ℕ → ℕ) : Prop where
  placed : Housed g st owner
  attached : ∀ m ∈ st.ng.nds, ∃ x ∈ st.ng.edges, x.hasEnd m
  edges : ∀ x ∈ st.ng.edges, ∃ ep ∈ eps, Leads (eps.map Prod.fst) ep.1 ∧ CopyOf owner ep.1 x ∧
    st.ng.pl x = netEdge names (g.pl ep.1).data.geom ep.2
  tracks : ∀ ep ∈ eps, ∃ x ∈ st.ng.edges, StandsFor owner ep.1 x
  unique : ∀ e, ∀ x ∈ st.ng.edges, ∀ y ∈ st.ng.edges, StandsFor owner e x → StandsFor owner e y →
    x = y
  -- the ends of a loop may be two nodes, of which one is looked up
  found : ∀ x ∈ st.ng.edges, owner x.getFrom ≠ owner x.getTo →
    st.nodes (owner x.getFrom) = some x.getFrom ∧ st.nodes (owner x.getTo) = some x.getTo
  single : (∀ ep ∈ eps, ep.1.getFrom ≠ ep.1.getTo) → Single st owner

theorem copied_empty (np : P) (ep : NetEdge P T) (owner : ℕ → ℕ) :
    Copied names g [] ⟨fun _ => none, UndirGraph.empty np ep⟩ owner where
  placed := by
    refine ⟨⟨?_, List.nodup_nil, ?_⟩, ?_, ?_⟩
    · exact fun _ hn => absurd hn List.not_mem_nil
    · exact fun _ he => absurd he List.not_mem_nil
    · exact fun _ _ hm => nomatch hm
    · exact fun _ hm => absurd hm List.not_mem_nil
  attached _ hm := absurd hm List.not_mem_nil
  edges _ hx := absurd hx List.not_mem_nil
  tracks _ hep := absurd hep List.not_mem_nil
  unique _ _ hx := absurd hx List.not_mem_nil
  found _ hx := absurd hx List.not_mem_nil
  single _ _ hm := absurd hm List.not_mem_nil

section step
variable {eps : List (Edge × Finset T)} {st st' : NetState P T} {owner owner' : ℕ → ℕ} {e : Edge}
  {u v : ℕ} {trips : Finset T}

theorem HousedEnds.owners (h : HousedEnds g st st' owner owner' e u v) (hlive : st.ng.Live)
    {x : Edge} (hx : x ∈ st.ng.edges) :
    owner' x.getFrom = owner x.getFrom ∧ owner' x.getTo = owner x.getTo :=
  ⟨h.keeps _ (hlive.ends x hx).1, h.keeps _ (hlive.ends x hx).2⟩

theorem Copied.withEnds (h : Copied names g eps st owner)
    (hends : HousedEnds g st st' owner owner' e u v) (trips : Finset T) :
    (∀ x ∈ st'.ng.edges, ∃ ep ∈ eps, Leads ((eps ++ [(e, trips)]).map Prod.fst) ep.1 ∧
      CopyOf owner' ep.1 x ∧ st'.ng.pl x = netEdge names (g.pl ep.1).data.geom ep.2) ∧
    (∀ ep ∈ eps, ∃ x ∈ st'.ng.edges, StandsFor owner' ep.1 x) ∧
    (∀ f, ∀ x ∈ st'.ng.edges, ∀ y ∈ st'.ng.edges, StandsFor owner' f x → StandsFor owner' f y →
      x = y) ∧
    ∀ x ∈ st'.ng.edges, owner' x.getFrom ≠ owner' x.getTo →
      st'.nodes (owner' x.getFrom) = some x.getFrom ∧ st'.nodes (owner' x.getTo) = some x.getTo := by
  have hlive := h.placed.live
  have hcopy : ∀ f : Edge, ∀ x ∈ st.ng.edges, CopyOf owner' f x ↔ CopyOf owner f x := by
    intro f x hx
    obtain ⟨hfrom, hto⟩ := hends.owners hlive hx
    rw [CopyOf, CopyOf, hfrom, hto]
  have hstands : ∀ f : Edge, ∀ x ∈ st.ng.edges, StandsFor owner' f x ↔ StandsFor owner f x := by
    intro f x hx
    obtain ⟨hfrom, hto⟩ := hends.owners hlive hx
    rw [StandsFor, StandsFor, hcopy f x hx, hfrom, hto]
  rw [hends.edges, hends.pl]
  refine ⟨fun x hx => ?_, fun ep hep => ?_, fun f x hx y hy hfx hfy => ?_, fun x hx hne => ?_⟩
  · obtain ⟨ep, hep, hleads, hcopied, hpl⟩ := h.edges x hx
    rw [List.map_append]
    exact ⟨ep, hep, hleads.append _, (hcopy _ x hx).2 hcopied, hpl⟩
  · obtain ⟨x, hx, hfor⟩ := h.tracks ep hep
    exact ⟨x, hx, (hstands _ x hx).2 hfor⟩
  · exact h.unique f x hx y hy ((hstands f x hx).1 hfx) ((hstands f y hy).1 hfy)
  · obtain ⟨hfrom, hto⟩ := hends.owners hlive hx
    rw [hfrom, hto] at hne ⊢
    obtain ⟨hu, hv⟩ := h.found x hx hne
    exact ⟨hends.found _ _ hu, hends.found _ _ hv⟩

/-- An edge that stands for the track is one between the nodes for its ends, unless the track is a
loop. -/
theorem HousedEnds.joins (hends : HousedEnds g st st' owner owner' e u v) {x : Edge}
    (hfound : owner' x.getFrom ≠ owner' x.getTo →
      st'.nodes (owner' x.getFrom) = some x.getFrom ∧ st'.nodes (owner' x.getTo) = some x.getTo)
    (h : StandsFor owner' e x) (hne : e.getFrom ≠ e.getTo) : x.Joins u v := by
  obtain ⟨hu, hv⟩ := hends.here hne
  rcases h with ⟨hfrom, hto⟩ | ⟨hfrom, hto⟩
  · rw [hfrom, hto] at hfound
    obtain ⟨hxu, hxv⟩ := hfound hne
    exact Or.inl ⟨Option.some.inj (hxu.symm.trans hu), Option.some.inj (hxv.symm.trans hv)⟩
  · rw [hfrom, hto] at hfound
    obtain ⟨hxv, hxu⟩ := hfound hne.symm
    exact Or.inr ⟨Option.some.inj (hxv.symm.trans hv), Option.some.inj (hxu.symm.trans hu)⟩

theorem HousedEnds.standsFor (hends : HousedEnds g st st' owner owner' e u v) {x : Edge}
    (h : x.Joins u v) : StandsFor owner' e x := by
  rcases h with ⟨hu, hv⟩ | ⟨hv, hu⟩
  · exact Or.inl ⟨hu ▸ hends.ends.1, hv ▸ hends.ends.2⟩
  · exact Or.inr ⟨hv ▸ hends.ends.2, hu ▸ hends.ends.1⟩

theorem Copied.keepEdg (h : Copied names g eps st owner)
    (hends : HousedEnds g st st' owner owner' e u v) {x : Edge} (hx : x ∈ st'.ng.edges)
    (hjoins : x.Joins u v) : Copied names g (eps ++ [(e, trips)]) st' owner' := by
  obtain ⟨hedges, htracks, hunique, hfound⟩ := h.withEnds hends trips
  refine ⟨hends.placed, fun m hm => ?_, fun y hy => ?_, fun ep hep => ?_, hunique, hfound, ?_⟩
  · rcases (hends.nds m).1 hm with hm | rfl | rfl
    · rw [hends.edges]
      exact h.attached m hm
    · exact ⟨x, hx, hjoins.hasEnd⟩
    · exact ⟨x, hx, hjoins.symm.imp And.left And.right⟩
  · obtain ⟨ep, hep, hcopied⟩ := hedges y hy
    exact ⟨ep, List.mem_append_left _ hep, hcopied⟩
  · rcases List.mem_append.1 hep with hep | hep
    · exact htracks ep hep
    · rw [List.mem_singleton.1 hep]
      exact ⟨x, hx, hends.standsFor hjoins⟩
  · intro hloops
    exact hends.single (hloops (e, trips) (List.mem_append_right _ (List.mem_singleton_self _)))
      (h.single fun ep hep => hloops ep (List.mem_append_left _ hep))

theorem Copied.not_standsFor (h : Copied names g eps st owner)
    (hends : HousedEnds g st st' owner owner' e u v) (hnone : st'.ng.getEdg u v = none)
    (hloop : ∀ ep ∈ eps, e.getFrom = e.getTo → ep.1.getFrom = e.getFrom →
      ep.1.getTo ≠ e.getTo) {x : Edge} (hx : x ∈ st'.ng.edges) : ¬ StandsFor owner' e x := by
  obtain ⟨hedges, -, -, hfound⟩ := h.withEnds hends ∅
  intro hfor
  by_cases hne : e.getFrom = e.getTo
  · obtain ⟨ep, hep, -, hcopied, -⟩ := hedges x hx
    rcases hfor with ⟨hfrom, hto⟩ | ⟨hfrom, hto⟩
    · exact hloop ep hep hne (hcopied.1.symm.trans hfrom) (hcopied.2.symm.trans hto)
    · exact hloop ep hep hne (hcopied.1.symm.trans (hfrom.trans hne.symm))
        (hcopied.2.symm.trans (hto.trans hne))
  · exact UndirGraph.getEdg_eq_none.1 hnone x hx (hends.joins (hfound x hx) hfor hne)

theorem Copied.addEdg (h : Copied names g eps st owner)
    (hends : HousedEnds g st st' owner owner' e u v) (hnone : st'.ng.getEdg u v = none)
    (hloop : ∀ ep ∈ eps, e.getFrom = e.getTo → ep.1.getFrom = e.getFrom →
      ep.1.getTo ≠ e.getTo) :
    Copied names g (eps ++ [(e, trips)])
      { st' with ng := (st'.ng.addEdg u v (netEdge names (g.pl e).data.geom trips)).2 } owner' := by
  obtain ⟨hedges, htracks, hunique, hfound⟩ := h.withEnds hends trips
  have hother : ∀ x ∈ st'.ng.edges, ¬ StandsFor owner' e x := fun x =>
    h.not_standsFor hends hnone hloop
  set p := netEdge names (g.pl e).data.geom trips
  have hadd := UndirGraph.addEdg_added hnone p
  have hlive := UndirGraph.addEdg_live hends.placed.live ((hends.nds u).2 (Or.inr (Or.inl rfl)))
    ((hends.nds v).2 (Or.inr (Or.inr rfl))) hnone p
  set x₀ := (st'.ng.addEdg u v p).1
  have hcopy₀ : CopyOf owner' e x₀ := ⟨hadd.ends.1 ▸ hends.ends.1, hadd.ends.2 ▸ hends.ends.2⟩
  have hlast : Leads ((eps ++ [(e, trips)]).map Prod.fst) e := by
    rw [List.map_append]
    refine leads_last fun f hf hopp => ?_
    obtain ⟨ep, hep, rfl⟩ := List.mem_map.1 hf
    obtain ⟨x, hx, hfor⟩ := htracks ep hep
    exact hother x hx (hfor.of_opposite hopp)
  refine ⟨⟨hlive, ?_, ?_⟩, ?_, ?_, ?_, ?_, ?_, ?_⟩
  · intro n m hm
    rw [hadd.nds]
    exact hends.placed.mem n m hm
  · intro m hm
    rw [hadd.nds] at hm
    exact (congrFun hadd.npl m).trans (hends.placed.geom m hm)
  · intro m hm
    rw [hadd.nds, hends.nds] at hm
    rcases hm with hm | rfl | rfl
    · obtain ⟨x, hx, hxm⟩ := h.attached m hm
      exact ⟨x, (hadd.edges x).2 (Or.inl (hends.edges ▸ hx)), hxm⟩
    · exact ⟨x₀, (hadd.edges x₀).2 (Or.inr rfl), Or.inl hadd.ends.1⟩
    · exact ⟨x₀, (hadd.edges x₀).2 (Or.inr rfl), Or.inr hadd.ends.2⟩
  · intro x hx
    rcases (hadd.edges x).1 hx with hx | rfl
    · obtain ⟨ep, hep, hleads, hcopied, hpl⟩ := hedges x hx
      refine ⟨ep, List.mem_append_left _ hep, hleads, hcopied, ?_⟩
      have hne : x ≠ x₀ := fun heq => hadd.fresh (heq ▸ hx)
      rw [hadd.pl, Function.update_of_ne hne, hpl]
    · refine ⟨(e, trips), List.mem_append_right _ (List.mem_singleton_self _), hlast, hcopy₀, ?_⟩
      exact (congrFun hadd.pl x₀).trans (Function.update_self _ _ _)
  · intro ep hep
    rcases List.mem_append.1 hep with hep | hep
    · obtain ⟨x, hx, hfor⟩ := htracks ep hep
      exact ⟨x, (hadd.edges x).2 (Or.inl hx), hfor⟩
    · rw [List.mem_singleton.1 hep]
      exact ⟨x₀, (hadd.edges x₀).2 (Or.inr rfl), Or.inl hcopy₀⟩
  · have hnew : ∀ f, ∀ x ∈ st'.ng.edges, StandsFor owner' f x → ¬ StandsFor owner' f x₀ :=
      fun f x hx hfx hf₀ => hother x hx (hfx.of_copy hf₀ hcopy₀)
    intro f x hx y hy hfx hfy
    rcases (hadd.edges x).1 hx with hx | rfl
    · rcases (hadd.edges y).1 hy with hy | rfl
      · exact hunique f x hx y hy hfx hfy
      · exact absurd hfy (hnew f x hx hfx)
    · rcases (hadd.edges y).1 hy with hy | rfl
      · exact absurd hfx (hnew f y hy hfy)
      · rfl
  · intro x hx hne
    rcases (hadd.edges x).1 hx with hx | rfl
    · exact hfound x hx hne
    · rw [hcopy₀.1, hcopy₀.2] at hne ⊢
      rw [hadd.ends.1, hadd.ends.2]
      exact hends.here hne
  · intro hloops m hm
    rw [hadd.nds] at hm
    have hne := hloops (e, trips) (List.mem_append_right _ (List.mem_singleton_self _))
    exact hends.single hne (h.single fun ep hep => hloops ep (List.mem_append_left _ hep)) m hm

theorem Copied.withTrack (h : Copied names g eps st owner)
    (hnew : ∀ ep ∈ eps, ep.1.getFrom = e.getFrom → ep.1.getTo ≠ e.getTo) :
    ∃ owner', Copied names g (eps ++ [(e, trips)]) (addTrack names g st e trips) owner' := by
  obtain ⟨owner', hends⟩ := h.placed.withEnds e
  refine ⟨owner', ?_⟩
  unfold addTrack
  dsimp only at hends ⊢
  cases hget : UndirGraph.getEdg _ _ _ with
  | some x =>
    obtain ⟨hx, hjoins⟩ := UndirGraph.getEdg_eq_some.1 hget
    rw [UndirGraph.addEdg_of_some hget]
    exact h.keepEdg hends hx hjoins
  | none => exact h.addEdg hends hget fun ep hep _ => hnew ep hep

end step

theorem Copied.withTracks {eps : List (Edge × Finset T)} {st : NetState P T} {owner : ℕ → ℕ}
    (h : Copied names g eps st owner) {later : List (Edge × Finset T)}
    (hmem : ∀ ep ∈ eps ++ later, ep.1 ∈ g.edges) (hnodup : ((eps ++ later).map Prod.fst).Nodup) :
    ∃ owner', Copied names g (eps ++ later)
      (later.foldl (fun st ep => addTrack names g st ep.1 ep.2) st) owner' := by
  induction later generalizing eps st owner with
  | nil =>
    rw [List.append_nil]
    exact ⟨owner, h⟩
  | cons ep later ih =>
    have hsplit : eps ++ ep :: later = (eps ++ [ep]) ++ later := by
      rw [List.append_assoc, List.singleton_append]
    have hep : ep.1 ∈ g.edges := hmem ep (List.mem_append_right _ List.mem_cons_self)
    -- two tracks from the same node to the same node are one track
    have hnew : ∀ ep' ∈ eps, ep'.1.getFrom = ep.1.getFrom → ep'.1.getTo ≠ ep.1.getTo := by
      intro ep' hep' hfrom hto
      have heq := g.simple _ (hmem ep' (List.mem_append_left _ hep')) _ hep hfrom hto
      rw [List.map_append] at hnodup
      exact List.disjoint_of_nodup_append hnodup (List.mem_map_of_mem hep')
        (heq ▸ List.mem_cons_self)
    obtain ⟨owner', hcopied⟩ := h.withTrack hnew
    rw [hsplit] at hmem hnodup ⊢
    exact ih hcopied hmem hnodup

theorem foldlM_addTrack (names : TripNames T) (g : Graph P L G D) (tracks : List (Edge × Finset T))
    (st : NetState P T) :
    (tracks.map fun tr => (some tr.1, tr.2)).foldlM
        (fun st ep => ep.1.map fun e => addTrack names g st e ep.2) st =
      some (tracks.foldl (fun st ep => addTrack names g st ep.1 ep.2) st) := by
  induction tracks generalizing st with
  | nil => rfl
  | cons tr tracks ih => exact ih _

end building

section network
variable {P L G D C T : Type} [Zero L] [DecidableEq T] {g₀ : Graph P L G D}
  (restor : Restrictor) (names : TripNames T)

/-- A track that is used lies in the direction it was read in. -/
theorem Uses.unflagged (hlive : g₀.Live) (hrev : ∀ e ∈ g₀.edges, (g₀.pl e).rev = false)
    {hops : List (EdgeListHop ℕ Edge C)}
    (hin : ∀ hop ∈ hops, ∀ e ∈ hop.edges, e ∈ (routingGraph g₀ restor).edges) {e : Edge}
    (he : e ∈ (routingGraph g₀ restor).edges) (h : Uses (routingGraph g₀ restor) hops e) :
    ((routingGraph g₀ restor).pl e).rev = false := by
  obtain ⟨hop, hhop, e', he', ⟨hplain, rfl⟩ | ⟨hflag, hopp⟩⟩ := h
  · exact hplain
  · obtain ⟨e'', he'', hget, -⟩ :=
      routingGraph_reversed restor hlive hrev (hin hop hhop e' he') hflag
    obtain ⟨hmem, hfrom, hto⟩ := DirGraph.getEdg_eq_some.1 hget
    have hsame : e = e'' :=
      DirGraph.simple _ e he e'' hmem (hopp.1.trans hfrom.symm) (hopp.2.trans hto.symm)
    rw [hsame, (routingGraph_old restor hlive he'').2]
    exact hrev e'' he''

/-- What the collection lists are the tracks that are used, each of them with its trips. -/
theorem Lists.tracks (hlive : g₀.Live) (hrev : ∀ e ∈ g₀.edges, (g₀.pl e).rev = false)
    {runs : List (List (EdgeListHop ℕ Edge C) × List T)}
    (hin : ∀ run ∈ runs, ∀ hop ∈ run.1, ∀ e ∈ hop.edges, e ∈ (routingGraph g₀ restor).edges)
    {eps : List (Option Edge × Finset T)}
    (heps : Lists (matchedEdges (routingGraph g₀ restor) runs) eps) :
    ∃ tracks : List (Edge × Finset T), eps = tracks.map (fun tr => (some tr.1, tr.2)) ∧
      (tracks.map Prod.fst).Nodup ∧
      (∀ tr ∈ tracks, tr.1 ∈ (routingGraph g₀ restor).edges ∧
        (∃ run ∈ runs, Uses (routingGraph g₀ restor) run.1 tr.1) ∧
        ∀ t, t ∈ tr.2 ↔ ∃ run ∈ runs, Uses (routingGraph g₀ restor) run.1 tr.1 ∧ t ∈ run.2) ∧
      ∀ e ∈ (routingGraph g₀ restor).edges,
        (∃ run ∈ runs, Uses (routingGraph g₀ restor) run.1 e) → ∃ tr ∈ tracks, tr.1 = e := by
  have hkey : ∀ run ∈ runs, ∀ k ∈ keys (routingGraph g₀ restor) run.1,
      ∃ e ∈ (routingGraph g₀ restor).edges, k = some e := by
    intro run hrun k hk
    obtain ⟨hop, hhop, hmem⟩ := List.mem_flatMap.1 hk
    obtain ⟨e', he', rfl⟩ := List.mem_map.1 hmem
    have he := hin run hrun hop hhop e' he'
    obtain ⟨e, horig⟩ := Option.ne_none_iff_exists'.1 (origEdge_ne_none restor hlive hrev he)
    exact ⟨e, origEdge_mem he horig, horig⟩
  have hsome : ∀ ep ∈ eps, ∃ e ∈ (routingGraph g₀ restor).edges, ep.1 = some e := by
    intro ep hep
    obtain ⟨run, hrun, hk⟩ := (matchedEdges_some ((heps.mem ep.1 ep.2).1 hep)).1
    exact hkey run hrun ep.1 hk
  obtain ⟨tracks, rfl⟩ : ∃ tracks : List (Edge × Finset T),
      eps = tracks.map fun tr => (some tr.1, tr.2) := by
    refine ⟨eps.filterMap fun ep => ep.1.map fun e => (e, ep.2), ?_⟩
    rw [List.map_filterMap]
    refine List.filterMap_some.symm.trans (List.filterMap_congr fun ep hep => ?_)
    obtain ⟨e, -, he⟩ := hsome ep hep
    simp [Prod.ext_iff, he]
  have hmem : ∀ tr ∈ tracks, tr.1 ∈ (routingGraph g₀ restor).edges := by
    intro tr htr
    obtain ⟨e, he, hsame⟩ := hsome _ (List.mem_map.2 ⟨tr, htr, rfl⟩)
    rw [Option.some.inj hsame]
    exact he
  refine ⟨tracks, rfl, ?_, fun tr htr => ?_, ?_⟩
  · have hkeys := heps.nodup
    rw [List.map_map] at hkeys
    apply List.Nodup.of_map some
    rwa [List.map_map]
  · have huse : ∀ run ∈ runs, some tr.1 ∈ keys (routingGraph g₀ restor) run.1 ↔
        Uses (routingGraph g₀ restor) run.1 tr.1 := fun _ _ => mem_keys_iff (hmem tr htr)
    obtain ⟨⟨run, hrun, hk⟩, htrips⟩ :=
      matchedEdges_some ((heps.mem _ _).1 (List.mem_map.2 ⟨tr, htr, rfl⟩))
    refine ⟨hmem tr htr, ⟨run, hrun, (huse run hrun).1 hk⟩, fun t => (htrips t).trans ?_⟩
    exact exists_congr fun run => and_congr_right fun hrun => and_congr_left' (huse run hrun)
  · rintro e he ⟨run, hrun, hused⟩
    obtain ⟨trips, htrips⟩ := exists_matchedEdges ⟨run, hrun, (mem_keys_iff he).2 hused⟩
    obtain ⟨tr, htr, hsame⟩ := List.mem_map.1 ((heps.mem _ _).2 htrips)
    exact ⟨tr, htr, Option.some.inj (congrArg Prod.fst hsame)⟩

/-- The network has one edge between two nodes that tracks of shapes lead between, however the
tracks are listed. It is made of the track that is listed first, with its line and the trips that
run over it in either direction. -/
theorem buildTransitGraph_copies (hlive : g₀.Live) (hrev : ∀ e ∈ g₀.edges, (g₀.pl e).rev = false)
    (np : P) (ep : NetEdge P T) (runs : List (List (EdgeListHop ℕ Edge C) × List T)) :
    let g := routingGraph g₀ restor
    (∀ run ∈ runs, ∀ hop ∈ run.1, ∀ e ∈ hop.edges, e ∈ g.edges) →
    ∀ eps, Lists (matchedEdges g runs) eps →
    ∃ ng owner, buildTransitGraph names g eps (UndirGraph.empty np ep) = some ng ∧ ng.Live ∧
      (∀ m ∈ ng.nds, ng.npl m = (g.npl (owner m)).geom ∧ ∃ x ∈ ng.edges, x.hasEnd m) ∧
      (∀ x ∈ ng.edges, ∃ e ∈ g.edges, (g.pl e).rev = false ∧ (∃ run ∈ runs, Uses g run.1 e) ∧
        Leads (eps.filterMap Prod.fst) e ∧ CopyOf owner e x ∧
        ∃ trips, (∀ t, t ∈ trips ↔ ∃ run ∈ runs, Uses g run.1 e ∧ t ∈ run.2) ∧
          ng.pl x = netEdge names (g.pl e).data.geom trips) ∧
      (∀ e ∈ g.edges, (∃ run ∈ runs, Uses g run.1 e) →
        ∃! x, x ∈ ng.edges ∧ StandsFor owner e x) ∧
      (∀ e, Leads (eps.filterMap Prod.fst) e →
        ∀ x ∈ ng.edges, StandsFor owner e x → CopyOf owner e x) ∧
      ((∀ run ∈ runs, ∀ hop ∈ run.1, ∀ e ∈ hop.edges, e.getFrom ≠ e.getTo) →
        Set.InjOn owner {m | m ∈ ng.nds}) := by
  intro g hin eps heps
  obtain ⟨tracks, rfl, hnodup, hused, hall⟩ := heps.tracks restor hlive hrev hin
  have hmem : ∀ tr ∈ tracks, tr.1 ∈ g.edges := fun tr htr => (hused tr htr).1
  have hstart : Copied names g [] ⟨fun _ => none, .empty np ep⟩ id := copied_empty np ep id
  obtain ⟨owner, hcopied⟩ := hstart.withTracks hmem hnodup
  rw [List.nil_append] at hcopied
  have hlisted : (tracks.map fun tr => (some tr.1, tr.2)).filterMap Prod.fst =
      tracks.map Prod.fst := by
    rw [List.filterMap_map, ← List.filterMap_eq_map]
    rfl
  rw [hlisted]
  refine ⟨_, owner, congrArg (Option.map NetState.ng) (foldlM_addTrack names g tracks _),
    hcopied.placed.live, fun m hm => ⟨hcopied.placed.geom m hm, hcopied.attached m hm⟩,
    ?_, ?_, ?_, ?_⟩
  · intro x hx
    obtain ⟨tr, htr, hleads, hcopy, hpl⟩ := hcopied.edges x hx
    obtain ⟨-, ⟨run, hrun, huse⟩, htrips⟩ := hused tr htr
    exact ⟨tr.1, hmem tr htr, huse.unflagged restor hlive hrev (hin run hrun) (hmem tr htr),
      ⟨run, hrun, huse⟩, hleads, hcopy, tr.2, htrips, hpl⟩
  · intro e he huse
    obtain ⟨tr, htr, rfl⟩ := hall e he huse
    obtain ⟨x, hx, hfor⟩ := hcopied.tracks tr htr
    exact ⟨x, ⟨hx, hfor⟩, fun y hy => hcopied.unique tr.1 y hy.1 x hx hy.2 hfor⟩
  · rintro e hleads x hx (hcopy | hagainst)
    · exact hcopy
    · obtain ⟨tr, -, hleads', hcopy, -⟩ := hcopied.edges x hx
      rw [← hleads.eq_of_opposite hleads' (hcopy.opposite hagainst)]
      exact hcopy
  · intro hloops m hm m' hm' hsame
    have hplain : ∀ tr ∈ tracks, tr.1.getFrom ≠ tr.1.getTo := by
      intro tr htr
      obtain ⟨-, ⟨run, hrun, hop, hhop, e, he, ⟨-, heq⟩ | ⟨-, hopp⟩⟩, -⟩ := hused tr htr
      · exact heq ▸ hloops run hrun hop hhop e he
      · rw [hopp.1, hopp.2]
        exact (hloops run hrun hop hhop e he).symm
    have hnodes := hcopied.single hplain m hm
    rw [hsame, hcopied.single hplain m' hm'] at hnodes
    exact (Option.some.inj hnodes).symm

def twoTracks : Graph ℕ ℕ ℕ Unit :=
  (oneWayStreet.addEdg 1 0 ⟨1, false, false, ⟨[1, 0], 1, 3, []⟩⟩).2

/-- The shape that runs over the second track leaves no edge and no trips. -/
theorem buildTransitGraph_copies_twoTracks : ∃ ng owner,
    buildTransitGraph (⟨fun _ => none, fun _ => ""⟩ : TripNames ℕ) (routingGraph twoTracks .empty)
      [(some ⟨0, 0, 1⟩, {4}), (some ⟨1, 1, 0⟩, {7})] (UndirGraph.empty 0 ⟨[], ∅, ∅, ∅⟩) = some ng ∧
    (∃! x, x ∈ ng.edges ∧ StandsFor owner ⟨1, 1, 0⟩ x) ∧
    (∀ x ∈ ng.edges, StandsFor owner ⟨0, 0, 1⟩ x → CopyOf owner ⟨0, 0, 1⟩ x) ∧
    Set.InjOn owner {m | m ∈ ng.nds} := by
  have hlive : twoTracks.Live := ⟨by decide, by decide, by decide⟩
  let along : EdgeListHop ℕ Edge ℚ := ⟨[⟨0, 0, 1⟩], 0, none, none⟩
  let back : EdgeListHop ℕ Edge ℚ := ⟨[⟨1, 1, 0⟩], 0, none, none⟩
  let runs : List (List (EdgeListHop ℕ Edge ℚ) × List ℕ) := [([along], [4]), ([back], [7])]
  have hcollected : matchedEdges (routingGraph twoTracks .empty) runs =
      Function.update (Function.update (fun _ => none) (some ⟨0, 0, 1⟩) (some {4}))
        (some ⟨1, 1, 0⟩) (some {7}) := by
    have halong : keys (routingGraph twoTracks .empty) [along] = [some ⟨0, 0, 1⟩] := by decide
    have hback : keys (routingGraph twoTracks .empty) [back] = [some ⟨1, 1, 0⟩] := by decide
    funext k
    change writeTransitGraph _ [back] [7] (writeTransitGraph _ [along] [4] _) k = _
    rw [writeTransitGraph_eq, hback, writeTransitGraph_eq, halong, Function.update_apply,
      Function.update_apply]
    simp only [List.mem_singleton]
    by_cases hk : k = some ⟨1, 1, 0⟩
    · subst hk
      rfl
    · rw [if_neg hk, if_neg hk]
      rfl
  have hlists : Lists (matchedEdges (routingGraph twoTracks .empty) runs)
      [(some ⟨0, 0, 1⟩, {4}), (some ⟨1, 1, 0⟩, {7})] := by
    refine ⟨by decide, fun e trips => ?_⟩
    rw [hcollected, Function.update_apply, Function.update_apply]
    simp only [List.mem_cons, List.not_mem_nil, or_false, Prod.mk.injEq]
    by_cases he : e = some ⟨1, 1, 0⟩
    · subst he
      simp [eq_comm]
    · by_cases he' : e = some ⟨0, 0, 1⟩
      · subst he'
        simp [eq_comm]
      · simp [he, he']
  obtain ⟨ng, owner, hbuild, -, -, -, hstands, hcopy, hinj⟩ :=
    buildTransitGraph_copies .empty ⟨fun _ => none, fun _ => ""⟩ hlive (by decide) 0 ⟨[], ∅, ∅, ∅⟩
      runs (by decide) _ hlists
  refine ⟨ng, owner, hbuild, hstands ⟨1, 1, 0⟩ (by decide) ?_, hcopy _ ?_, hinj (by decide)⟩
  · exact ⟨_, List.mem_cons_of_mem _ List.mem_cons_self, back, List.mem_singleton_self _, _,
      List.mem_singleton_self _, Or.inl (by decide)⟩
  · refine ⟨by decide, fun f hf hopp => ?_⟩
    rw [show List.idxOf (⟨0, 0, 1⟩ : Edge) _ = 0 from rfl]
    exact Nat.zero_le _

end network

end Pfaedle.ShapeBuilder

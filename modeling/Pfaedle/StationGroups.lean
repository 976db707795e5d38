import Pfaedle.LiveGraph
import Pfaedle.Trgraph
import Mathlib.Data.List.Sort

set_option autoImplicit false

/-!
# `trgraph::station_group`

Group pointers are numbers that are handed out once. Sets of pointers are kept in the order of
their addresses, which is any order.
-/
namespace Pfaedle.Trgraph
open DirGraphs

/-- The names, track and origin of a `trgraph::station_info`. -/
structure StationData where
  name : String
  altNames : List String
  track : String
  fromOsm : Bool

abbrev SInfo := StationInfo ℕ StationData

structure StationGroup where
  nodes : List ℕ
  stops : List ℕ

/-- `std::set::insert` for pointers with the addresses `addr`. -/
def setInsert (addr : ℕ → ℕ) (x : ℕ) (l : List ℕ) : List ℕ :=
  if x ∈ l then l else l.orderedInsert (fun a b => addr a ≤ addr b) x

def StationGroup.empty : StationGroup := ⟨[], []⟩

def StationGroup.add_stop (addr : ℕ → ℕ) (s : ℕ) (G : StationGroup) : StationGroup :=
  { G with stops := setInsert addr s G.stops }

def StationGroup.add_node (addr : ℕ → ℕ) (n : ℕ) (G : StationGroup) : StationGroup :=
  { G with nodes := setInsert addr n G.nodes }

structure Stations (P L : Type*) where
  g : Graph P L ℕ StationData
  groups : ℕ → StationGroup
  nextGroup : ℕ

section model
variable {P L : Type*}

def getSi (st : Stations P L) (n : ℕ) : Option SInfo := (st.g.npl n).si

def getGroup (st : Stations P L) (n : ℕ) : Option ℕ := (getSi st n).bind (·.group)

def setSi (n : ℕ) (si : SInfo) (st : Stations P L) : Stations P L :=
  { st with g := st.g.setNpl n { st.g.npl n with si := some si } }

/-- `get_si()->set_group`, where the station info is not null. -/
def setGroup (n G : ℕ) (st : Stations P L) : Stations P L :=
  match getSi st n with
  | some si => setSi n { si with group := some G } st
  | none => st

/-- Calls to setters of `get_si()` other than `set_group`. -/
def setData (n : ℕ) (f : StationData → StationData) (st : Stations P L) : Stations P L :=
  match getSi st n with
  | some si => setSi n { si with data := f si.data } st
  | none => st

def updateGroup (G : ℕ) (f : StationGroup → StationGroup) (st : Stations P L) : Stations P L :=
  { st with groups := Function.update st.groups G (f (st.groups G)) }

def addNode (addr : ℕ → ℕ) (G n : ℕ) (st : Stations P L) : Stations P L :=
  updateGroup G (StationGroup.add_node addr n) st

def addStop (addr : ℕ → ℕ) (G s : ℕ) (st : Stations P L) : Stations P L :=
  updateGroup G (StationGroup.add_stop addr s) st

/-- `this->merge(other)`; the sets of `other` are copied first. -/
def merge (addr : ℕ → ℕ) (this other : ℕ) (st : Stations P L) : Stations P L :=
  if other = this then st
  else
    let G := st.groups other
    let st := G.nodes.foldl (fun st n => addNode addr this n (setGroup n this st)) st
    G.stops.foldl (fun st s => addStop addr this s st) st

def newGroup (st : Stations P L) : ℕ × Stations P L :=
  (st.nextGroup, { st with groups := Function.update st.groups st.nextGroup .empty
                           nextGroup := st.nextGroup + 1 })

def groupNode (addr : ℕ → ℕ) (ret : ℕ) (st : Stations P L) (n : ℕ) : Stations P L :=
  match getSi st n with
  | none => st
  | some si =>
    match si.group with
    | some G => merge addr ret G st
    | none => setGroup n ret (addNode addr ret n st)

/-- `group_stats`; the group is null when no node has station info. -/
def groupStats (addr : ℕ → ℕ) (s : List ℕ) (st : Stations P L) : Option ℕ × Stations P L :=
  if s.isEmpty then (none, st)
  else
    let (ret, st) := newGroup st
    let st := s.foldl (groupNode addr ret) st
    if s.any fun n => (getSi st n).isSome then (some ret, st) else (none, st)

end model

section sets

theorem mem_setInsert {addr : ℕ → ℕ} {x y : ℕ} {l : List ℕ} :
    y ∈ setInsert addr x l ↔ y = x ∨ y ∈ l := by
  rw [setInsert]
  split
  · constructor
    · exact Or.inr
    · exact fun h => h.elim (fun h => h ▸ ‹x ∈ l›) id
  · rw [List.mem_orderedInsert]

end sets

section linked
variable {P L : Type*} {st : Stations P L}

/-- The node `n` of the graph has station info in the group `G`. -/
structure InGroup (st : Stations P L) (n G : ℕ) : Prop where
  mem : n ∈ st.g.nds
  group : getGroup st n = some G

/-- The nodes of a group and the group of a node point at each other. -/
structure Linked (st : Stations P L) : Prop where
  handed : ∀ {n G}, InGroup st n G → G < st.nextGroup
  listed : ∀ {n G}, InGroup st n G → n ∈ (st.groups G).nodes
  back : ∀ {n G}, InGroup st n G → ∀ m ∈ (st.groups G).nodes, InGroup st m G

/-- A node has this group. Other groups have been merged, or are not used yet. -/
def Current (st : Stations P L) (G : ℕ) : Prop := ∃ n, InGroup st n G

def FoundAt (st : Stations P L) (s v : ℕ) : Prop := ∃ G, InGroup st v G ∧ s ∈ (st.groups G).stops

structure SameStreets (g g' : Graph P L ℕ StationData) : Prop where
  nds : g'.nds = g.nds
  nextNd : g'.nextNd = g.nextNd
  nextEdge : g'.nextEdge = g.nextEdge
  edges : g'.edges = g.edges
  pl : g'.pl = g.pl
  geom : ∀ n, pos g' n = pos g n

theorem SameStreets.refl (g : Graph P L ℕ StationData) : SameStreets g g :=
  ⟨rfl, rfl, rfl, rfl, rfl, fun _ => rfl⟩

theorem SameStreets.trans {g g' g'' : Graph P L ℕ StationData} (h : SameStreets g g')
    (h' : SameStreets g' g'') : SameStreets g g'' :=
  ⟨h'.nds.trans h.nds, h'.nextNd.trans h.nextNd, h'.nextEdge.trans h.nextEdge,
    h'.edges.trans h.edges, h'.pl.trans h.pl,
    fun n => (h'.geom n).trans (h.geom n)⟩

theorem SameStreets.proper {g g' : Graph P L ℕ StationData} (h : SameStreets g g')
    (hproper : g.Proper) : g'.Proper := by
  refine ⟨⟨?_, ?_, ?_⟩, ?_⟩
  · rw [h.nds, h.nextNd]
    exact hproper.live.handed
  · rw [h.nds]
    exact hproper.live.nodup
  · rw [h.nds, h.edges]
    exact hproper.live.ends
  · rw [h.edges]
    exact hproper.nodup

theorem sameStreets_setSi (n : ℕ) (si : SInfo) (st : Stations P L) :
    SameStreets st.g (setSi n si st).g := by
  refine ⟨rfl, rfl, rfl, rfl, rfl, ?_⟩
  intro m
  change (Function.update st.g.npl n _ m).geom = (st.g.npl m).geom
  by_cases hm : m = n
  · rw [hm, Function.update_self]
  · rw [Function.update_of_ne hm]

theorem getSi_setSi (n : ℕ) (si : SInfo) (st : Stations P L) (m : ℕ) :
    getSi (setSi n si st) m = if m = n then some si else getSi st m := by
  change (Function.update st.g.npl n _ m).si = _
  by_cases hm : m = n
  · rw [hm, Function.update_self, if_pos rfl]
  · rw [Function.update_of_ne hm, if_neg hm]
    rfl

theorem getGroup_setSi (n : ℕ) (si : SInfo) (st : Stations P L) (m : ℕ) :
    getGroup (setSi n si st) m = if m = n then si.group else getGroup st m := by
  rw [getGroup, getSi_setSi]
  split
  · rfl
  · rfl

theorem setGroup_streets (n G : ℕ) (st : Stations P L) : SameStreets st.g (setGroup n G st).g := by
  rw [setGroup]
  split
  · exact sameStreets_setSi n _ st
  · exact SameStreets.refl _

theorem setGroup_groups (n G : ℕ) (st : Stations P L) :
    (setGroup n G st).groups = st.groups ∧ (setGroup n G st).nextGroup = st.nextGroup := by
  rw [setGroup]
  split
  · exact ⟨rfl, rfl⟩
  · exact ⟨rfl, rfl⟩

theorem getSi_setGroup_isSome (n G : ℕ) (st : Stations P L) (m : ℕ) :
    (getSi (setGroup n G st) m).isSome = (getSi st m).isSome := by
  cases hsi : getSi st n with
  | none => rw [setGroup, hsi]
  | some si =>
    rw [setGroup, hsi]
    dsimp only
    rw [getSi_setSi]
    split
    · rename_i hm
      rw [hm, hsi]
      rfl
    · rfl

theorem getGroup_setGroup (n G : ℕ) (st : Stations P L) (m : ℕ) :
    getGroup (setGroup n G st) m =
      if m = n ∧ (getSi st m).isSome then some G else getGroup st m := by
  by_cases hm : m = n
  · subst hm
    cases hsi : getSi st m with
    | none => rw [setGroup, hsi, if_neg fun h => by cases h.2]
    | some si =>
      rw [setGroup, hsi, if_pos ⟨rfl, rfl⟩]
      dsimp only
      rw [getGroup_setSi, if_pos rfl]
  · rw [if_neg fun h => hm h.1, setGroup]
    split
    · rw [getGroup_setSi, if_neg hm]
    · rfl

/-- The nodes `ns` and the stops `ss` have been taken into the group `this`. -/
structure Merged (st : Stations P L) (this : ℕ) (ns ss : List ℕ) (st' : Stations P L) : Prop where
  streets : SameStreets st.g st'.g
  si : ∀ m, (getSi st' m).isSome = (getSi st m).isSome
  group : ∀ m, getGroup st' m = if m ∈ ns ∧ (getSi st m).isSome then some this else getGroup st m
  other : ∀ H, H ≠ this → st'.groups H = st.groups H
  nodes : ∀ x, x ∈ (st'.groups this).nodes ↔ x ∈ ns ∨ x ∈ (st.groups this).nodes
  stops : ∀ x, x ∈ (st'.groups this).stops ↔ x ∈ ss ∨ x ∈ (st.groups this).stops
  nextGroup : st'.nextGroup = st.nextGroup

theorem Merged.refl (st : Stations P L) (this : ℕ) : Merged st this [] [] st := by
  refine ⟨SameStreets.refl _, fun _ => rfl, ?_, fun _ _ => rfl, ?_, ?_, rfl⟩
  · intro m
    rw [if_neg fun h => List.not_mem_nil h.1]
  · simp
  · simp

theorem Merged.trans {st' st'' : Stations P L} {this : ℕ} {ns ss ns' ss' : List ℕ}
    (h : Merged st this ns ss st') (h' : Merged st' this ns' ss' st'') :
    Merged st this (ns ++ ns') (ss ++ ss') st'' := by
  refine ⟨h.streets.trans h'.streets, fun m => (h'.si m).trans (h.si m), ?_,
    fun H hH => (h'.other H hH).trans (h.other H hH), ?_, ?_, h'.nextGroup.trans h.nextGroup⟩
  · intro m
    rw [h'.group, h.group, h.si]
    simp only [List.mem_append]
    by_cases hsi : (getSi st m).isSome
    · by_cases hm : m ∈ ns'
      · simp [hsi, hm]
      · simp [hsi, hm]
    · simp [hsi]
  · intro x
    rw [h'.nodes, h.nodes, List.mem_append, or_left_comm, or_assoc]
  · intro x
    rw [h'.stops, h.stops, List.mem_append, or_left_comm, or_assoc]

theorem updateGroup_self (G : ℕ) (f : StationGroup → StationGroup) (st : Stations P L) :
    (updateGroup G f st).groups G = f (st.groups G) := Function.update_self _ _ _

theorem updateGroup_ne {G H : ℕ} (f : StationGroup → StationGroup) (st : Stations P L)
    (h : H ≠ G) : (updateGroup G f st).groups H = st.groups H := Function.update_of_ne h _ _

theorem addStop_merged (addr : ℕ → ℕ) (this s : ℕ) (st : Stations P L) :
    Merged st this [] [s] (addStop addr this s st) := by
  refine ⟨SameStreets.refl _, fun _ => rfl, ?_, fun H hH => updateGroup_ne _ st hH, ?_, ?_, rfl⟩
  · intro m
    rw [if_neg fun h => List.not_mem_nil h.1]
    rfl
  · intro x
    rw [addStop, updateGroup_self]
    simp [StationGroup.add_stop]
  · intro x
    rw [addStop, updateGroup_self, List.mem_singleton]
    exact mem_setInsert

theorem addNode_merged (addr : ℕ → ℕ) (this n : ℕ) (st : Stations P L) :
    Merged st this [n] [] (addNode addr this n (setGroup n this st)) := by
  obtain ⟨hgroups, hnext⟩ := setGroup_groups n this st
  refine ⟨setGroup_streets n this st, getSi_setGroup_isSome n this st, ?_, ?_, ?_, ?_, hnext⟩
  · intro m
    simp only [List.mem_singleton]
    exact getGroup_setGroup n this st m
  · intro H hH
    rw [addNode, updateGroup_ne _ _ hH, hgroups]
  · intro x
    rw [addNode, updateGroup_self, hgroups, List.mem_singleton]
    exact mem_setInsert
  · intro x
    rw [addNode, updateGroup_self, hgroups]
    simp [StationGroup.add_node]

theorem merge_merged (addr : ℕ → ℕ) {this other : ℕ} (h : other ≠ this) (st : Stations P L) :
    Merged st this (st.groups other).nodes (st.groups other).stops (merge addr this other st) := by
  have hnodes : ∀ (ns : List ℕ) (st : Stations P L), Merged st this ns []
      (ns.foldl (fun st n => addNode addr this n (setGroup n this st)) st) := by
    intro ns
    induction ns with
    | nil => exact fun st => Merged.refl st this
    | cons n ns ih => exact fun st => (addNode_merged addr this n st).trans (ih _)
  have hstops : ∀ (ss : List ℕ) (st : Stations P L), Merged st this [] ss
      (ss.foldl (fun st s => addStop addr this s st) st) := by
    intro ss
    induction ss with
    | nil => exact fun st => Merged.refl st this
    | cons s ss ih => exact fun st => (addStop_merged addr this s st).trans (ih _)
  rw [merge, if_neg h]
  dsimp only
  have hboth := (hnodes (st.groups other).nodes st).trans (hstops (st.groups other).stops _)
  rw [List.append_nil, List.nil_append] at hboth
  exact hboth

/-- The nodes of `this` point at it, whether it has any or not. -/
structure Owned (st : Stations P L) (this : ℕ) : Prop where
  handed : this < st.nextGroup
  back : ∀ m ∈ (st.groups this).nodes, InGroup st m this

structure Takes (st : Stations P L) (this : ℕ) (ns ss : List ℕ) : Prop where
  node : ∀ n ∈ ns, n ∈ st.g.nds ∧ (getSi st n).isSome
  whole : ∀ n ∈ ns, ∀ G, InGroup st n G → G ≠ this →
    (st.groups G).nodes ⊆ ns ∧ (st.groups G).stops ⊆ ss

theorem Merged.inGroup {st' : Stations P L} {this : ℕ} {ns ss : List ℕ}
    (h : Merged st this ns ss st') (m H : ℕ) :
    InGroup st' m H ↔ if m ∈ ns ∧ (getSi st m).isSome then m ∈ st.g.nds ∧ H = this
      else InGroup st m H := by
  constructor
  · rintro ⟨hmem, hgroup⟩
    rw [h.streets.nds] at hmem
    rw [h.group] at hgroup
    split
    · rename_i hm
      rw [if_pos hm] at hgroup
      exact ⟨hmem, (Option.some.inj hgroup).symm⟩
    · rename_i hm
      rw [if_neg hm] at hgroup
      exact ⟨hmem, hgroup⟩
  · intro hif
    rw [← h.streets.nds] at hif
    by_cases hm : m ∈ ns ∧ (getSi st m).isSome
    · rw [if_pos hm] at hif
      refine ⟨hif.1, ?_⟩
      rw [h.group, if_pos hm, hif.2]
    · rw [if_neg hm] at hif
      refine ⟨h.streets.nds ▸ hif.mem, ?_⟩
      rw [h.group, if_neg hm, hif.group]

/-- Taking over whole groups keeps the nodes and the groups linked. -/
theorem Merged.linked {st' : Stations P L} {this : ℕ} {ns ss : List ℕ}
    (h : Merged st this ns ss st') (hlinked : Linked st) (howned : Owned st this)
    (htakes : Takes st this ns ss) :
    Linked st' ∧ Owned st' this ∧ (∀ n ∈ ns, InGroup st' n this) ∧
      ∀ s v, FoundAt st s v → FoundAt st' s v := by
  have hns : ∀ n ∈ ns, InGroup st' n this := by
    intro n hn
    rw [h.inGroup, if_pos ⟨hn, (htakes.node n hn).2⟩]
    exact ⟨(htakes.node n hn).1, rfl⟩
  have hkeep : ∀ m H, m ∉ ns → (InGroup st' m H ↔ InGroup st m H) := by
    intro m H hm
    rw [h.inGroup, if_neg fun h => hm h.1]
  have hback : ∀ m ∈ (st'.groups this).nodes, InGroup st' m this := by
    intro m hm
    by_cases hmem : m ∈ ns
    · exact hns m hmem
    · rw [hkeep m this hmem]
      exact howned.back m (((h.nodes m).1 hm).resolve_left hmem)
  have hthis : ∀ m H, m ∈ ns → InGroup st' m H → H = this := by
    intro m H hm hin
    exact Option.some.inj (hin.group.symm.trans (hns m hm).group)
  have howned' : Owned st' this := ⟨h.nextGroup ▸ howned.handed, hback⟩
  refine ⟨⟨?_, ?_, ?_⟩, howned', hns, ?_⟩
  · intro m H hin
    by_cases hm : m ∈ ns
    · rw [hthis m H hm hin]
      exact howned'.handed
    · rw [h.nextGroup]
      exact hlinked.handed ((hkeep m H hm).1 hin)
  · intro m H hin
    by_cases hm : m ∈ ns
    · rw [hthis m H hm hin]
      exact (h.nodes m).2 (Or.inl hm)
    · have hold := hlinked.listed ((hkeep m H hm).1 hin)
      by_cases hH : H = this
      · rw [hH] at hold ⊢
        exact (h.nodes m).2 (Or.inr hold)
      · rw [h.other H hH]
        exact hold
  · intro m H hin k hk
    by_cases hH : H = this
    · rw [hH] at hk ⊢
      exact hback k hk
    · have hm : m ∉ ns := fun hm => hH (hthis m H hm hin)
      rw [h.other H hH] at hk
      have hold := hlinked.back ((hkeep m H hm).1 hin) k hk
      rw [hkeep k H]
      · exact hold
      · intro hkns
        -- the group of a node that is taken over is taken over with it
        have hm' := (htakes.whole k hkns H hold hH).1 (hlinked.listed ((hkeep m H hm).1 hin))
        exact hm hm'
  · rintro s v ⟨G, hv, hs⟩
    by_cases hm : v ∈ ns
    · refine ⟨this, hns v hm, (h.stops s).2 ?_⟩
      by_cases hG : G = this
      · exact Or.inr (hG ▸ hs)
      · exact Or.inl ((htakes.whole v hm G hv hG).2 hs)
    · refine ⟨G, (hkeep v G hm).2 hv, ?_⟩
      by_cases hG : G = this
      · rw [hG] at hs ⊢
        exact (h.stops s).2 (Or.inr hs)
      · rw [h.other G hG]
        exact hs

theorem InGroup.si {n G : ℕ} (h : InGroup st n G) :
    ∃ si, getSi st n = some si ∧ si.group = some G := by
  have hgroup := h.group
  rw [getGroup] at hgroup
  cases hsi : getSi st n with
  | none =>
    rw [hsi] at hgroup
    cases hgroup
  | some si =>
    rw [hsi] at hgroup
    exact ⟨si, rfl, hgroup⟩

theorem takes_alone {n this : ℕ} (hn : n ∈ st.g.nds) (hsi : (getSi st n).isSome)
    (hnone : getGroup st n = none) : Takes st this [n] [] := by
  constructor
  · intro m hm
    rw [List.mem_singleton.1 hm]
    exact ⟨hn, hsi⟩
  · intro m hm G hin
    have hgroup := hin.group
    rw [List.mem_singleton.1 hm, hnone] at hgroup
    cases hgroup

theorem takes_group (hlinked : Linked st) {n G this : ℕ} (hin : InGroup st n G) :
    Takes st this (st.groups G).nodes (st.groups G).stops := by
  constructor
  · intro m hm
    have hm' := hlinked.back hin m hm
    obtain ⟨si, hsi, -⟩ := hm'.si
    exact ⟨hm'.mem, Option.isSome_iff_exists.2 ⟨si, hsi⟩⟩
  · intro m hm H hH _
    have hgroup := (hlinked.back hin m hm).group
    rw [hH.group] at hgroup
    rw [Option.some.inj hgroup]
    exact ⟨fun _ => id, fun _ => id⟩

theorem groupNode_merged (addr : ℕ → ℕ) {ret : ℕ} (hlinked : Linked st) (howned : Owned st ret)
    {n : ℕ} (hn : n ∈ st.g.nds) :
    ∃ ns ss, Merged st ret ns ss (groupNode addr ret st n) ∧ Takes st ret ns ss ∧
      ((getSi st n).isSome → InGroup (groupNode addr ret st n) n ret) := by
  rw [groupNode]
  cases hsi : getSi st n with
  | none => exact ⟨[], [], Merged.refl st ret, ⟨by simp, by simp⟩, fun h => by cases h⟩
  | some si =>
    have hgroup : getGroup st n = si.group := by rw [getGroup, hsi]; rfl
    dsimp only
    cases hG : si.group with
    | none =>
      dsimp only
      have hcomm : setGroup n ret (addNode addr ret n st) = addNode addr ret n (setGroup n ret st) := by
        have hsi' : getSi (addNode addr ret n st) n = some si := hsi
        rw [setGroup, hsi', setGroup, hsi]
        rfl
      rw [hcomm]
      have hmerged := addNode_merged addr ret n st
      have htakes : Takes st ret [n] [] :=
        takes_alone hn (by rw [hsi]; rfl) (hgroup.trans hG)
      refine ⟨[n], [], hmerged, htakes, fun _ => ?_⟩
      exact (hmerged.linked hlinked howned htakes).2.2.1 n List.mem_cons_self
    | some G =>
      dsimp only
      have hin : InGroup st n G := ⟨hn, hgroup.trans hG⟩
      by_cases hself : G = ret
      · have hmerge : merge addr ret G st = st := by rw [merge, if_pos hself]
        rw [hmerge]
        exact ⟨[], [], Merged.refl st ret, ⟨by simp, by simp⟩, fun _ => hself ▸ hin⟩
      · have hmerged := merge_merged addr hself st
        have htakes : Takes st ret (st.groups G).nodes (st.groups G).stops :=
          takes_group hlinked hin
        refine ⟨_, _, hmerged, htakes, fun _ => ?_⟩
        exact (hmerged.linked hlinked howned htakes).2.2.1 n (hlinked.listed hin)

/-- What the operations on groups leave: the streets, who has station info, and where the stops
    are found. -/
structure Regrouped (st st' : Stations P L) : Prop where
  streets : SameStreets st.g st'.g
  si : ∀ m, (getSi st' m).isSome = (getSi st m).isSome
  linked : Linked st'
  found : ∀ s v, FoundAt st s v → FoundAt st' s v

theorem newGroup_spec (hlinked : Linked st) :
    Regrouped st (newGroup st).2 ∧ Owned (newGroup st).2 (newGroup st).1 := by
  have hin : ∀ m H, InGroup (newGroup st).2 m H ↔ InGroup st m H := fun m H =>
    ⟨fun h => ⟨h.mem, h.group⟩, fun h => ⟨h.mem, h.group⟩⟩
  have hgroups : ∀ {m H}, InGroup st m H → (newGroup st).2.groups H = st.groups H := by
    intro m H h
    exact Function.update_of_ne (Nat.ne_of_lt (hlinked.handed h)) _ _
  refine ⟨⟨SameStreets.refl _, fun _ => rfl, ⟨?_, ?_, ?_⟩, ?_⟩, Nat.lt_succ_self _, ?_⟩
  · intro m H h
    exact Nat.lt_succ_of_lt (hlinked.handed ((hin m H).1 h))
  · intro m H h
    have hold := (hin m H).1 h
    rw [hgroups hold]
    exact hlinked.listed hold
  · intro m H h k hk
    have hold := (hin m H).1 h
    rw [hgroups hold] at hk
    exact (hin k H).2 (hlinked.back hold k hk)
  · rintro s v ⟨G, hv, hs⟩
    refine ⟨G, (hin v G).2 hv, ?_⟩
    rw [hgroups hv]
    exact hs
  · intro m hm
    have hnone : (newGroup st).2.groups st.nextGroup = .empty := Function.update_self _ _ _
    change m ∈ ((newGroup st).2.groups st.nextGroup).nodes at hm
    rw [hnone] at hm
    exact absurd hm List.not_mem_nil

theorem Regrouped.trans {st' st'' : Stations P L} (h : Regrouped st st') (h' : Regrouped st' st'') :
    Regrouped st st'' :=
  ⟨h.streets.trans h'.streets, fun m => (h'.si m).trans (h.si m), h'.linked,
    fun s v hs => h'.found s v (h.found s v hs)⟩

theorem foldl_groupNode (addr : ℕ → ℕ) {ret : ℕ} (s : List ℕ) (hlinked : Linked st)
    (howned : Owned st ret) (hs : ∀ n ∈ s, n ∈ st.g.nds) :
    Regrouped st (s.foldl (groupNode addr ret) st) ∧
      Owned (s.foldl (groupNode addr ret) st) ret ∧
      ∀ n, (n ∈ s ∧ (getSi st n).isSome) ∨ InGroup st n ret →
        InGroup (s.foldl (groupNode addr ret) st) n ret := by
  induction s generalizing st with
  | nil =>
    refine ⟨⟨SameStreets.refl _, fun _ => rfl, hlinked, fun _ _ => id⟩, howned, ?_⟩
    exact fun n hn => hn.resolve_left fun h => List.not_mem_nil h.1
  | cons n s ih =>
    obtain ⟨ns, ss, hmerged, htakes, hown⟩ :=
      groupNode_merged addr hlinked howned (hs n List.mem_cons_self)
    obtain ⟨hlinked', howned', hns, hfound⟩ := hmerged.linked hlinked howned htakes
    have hstep : Regrouped st (groupNode addr ret st n) :=
      ⟨hmerged.streets, hmerged.si, hlinked', hfound⟩
    have hs' : ∀ m ∈ s, m ∈ (groupNode addr ret st n).g.nds := by
      intro m hm
      rw [hmerged.streets.nds]
      exact hs m (List.mem_cons_of_mem _ hm)
    obtain ⟨hrest, howned'', hin⟩ := ih hlinked' howned' hs'
    refine ⟨hstep.trans hrest, howned'', ?_⟩
    intro m hm
    apply hin
    cases hm with
    | inl hm =>
      cases List.mem_cons.1 hm.1 with
      | inl heq => exact Or.inr (heq ▸ hown (heq ▸ hm.2))
      | inr hmem =>
        refine Or.inl ⟨hmem, ?_⟩
        rw [hmerged.si]
        exact hm.2
    | inr hm =>
      right
      by_cases hmem : m ∈ ns
      · exact hns m hmem
      · rw [hmerged.inGroup, if_neg fun h => hmem h.1]
        exact hm

/-- A group that `group_stats` returns belongs to its nodes, and takes all stops with it. -/
theorem groupStats_spec (addr : ℕ → ℕ) (s : List ℕ) (hlinked : Linked st)
    (hs : ∀ n ∈ s, n ∈ st.g.nds) :
    Regrouped st (groupStats addr s st).2 ∧
      ∀ G, (groupStats addr s st).1 = some G → Current (groupStats addr s st).2 G := by
  rw [groupStats]
  split
  · exact ⟨⟨SameStreets.refl _, fun _ => rfl, hlinked, fun _ _ => id⟩, fun G h => by cases h⟩
  · obtain ⟨hnew, howned⟩ := newGroup_spec hlinked
    obtain ⟨hgrouped, -, hin⟩ := foldl_groupNode addr s hnew.linked howned hs
    dsimp only
    split
    · rename_i hused
      refine ⟨hnew.trans hgrouped, ?_⟩
      intro G hG
      obtain ⟨n, hn, hsi⟩ := List.any_eq_true.1 hused
      rw [hgrouped.si] at hsi
      exact ⟨n, Option.some.inj hG ▸ hin n (Or.inl ⟨hn, hsi⟩)⟩
    · exact ⟨hnew.trans hgrouped, fun G h => by cases h⟩

theorem Regrouped.refl (hlinked : Linked st) : Regrouped st st :=
  ⟨SameStreets.refl _, fun _ => rfl, hlinked, fun _ _ => id⟩

theorem Linked.owned (h : Linked st) {G : ℕ} (hG : Current st G) : Owned st G := by
  obtain ⟨n, hn⟩ := hG
  exact ⟨h.handed hn, h.back hn⟩

theorem setData_regrouped (n : ℕ) (f : StationData → StationData) (hlinked : Linked st) :
    Regrouped st (setData n f st) ∧ ∀ m H, InGroup st m H → InGroup (setData n f st) m H := by
  rw [setData]
  cases hsi : getSi st n with
  | none => exact ⟨Regrouped.refl hlinked, fun _ _ => id⟩
  | some si =>
    dsimp only
    have hgroup : ∀ m, getGroup (setSi n { si with data := f si.data } st) m = getGroup st m := by
      intro m
      rw [getGroup_setSi]
      split
      · rename_i hm
        rw [hm, getGroup, hsi]
        rfl
      · rfl
    have hin : ∀ m H, InGroup (setSi n { si with data := f si.data } st) m H ↔ InGroup st m H :=
      fun m H => ⟨fun h => ⟨h.mem, (hgroup m).symm.trans h.group⟩,
        fun h => ⟨h.mem, (hgroup m).trans h.group⟩⟩
    refine ⟨⟨sameStreets_setSi n _ st, ?_, ⟨?_, ?_, ?_⟩, ?_⟩, fun m H => (hin m H).2⟩
    · intro m
      rw [getSi_setSi]
      split
      · rename_i hm
        rw [hm, hsi]
        rfl
      · rfl
    · exact fun h => hlinked.handed ((hin _ _).1 h)
    · exact fun h => hlinked.listed ((hin _ _).1 h)
    · exact fun h k hk => (hin _ _).2 (hlinked.back ((hin _ _).1 h) k hk)
    · rintro s v ⟨G, hv, hs⟩
      exact ⟨G, (hin v G).2 hv, hs⟩

theorem addStop_spec (addr : ℕ → ℕ) {G s : ℕ} (hlinked : Linked st) (hG : Owned st G) :
    Regrouped st (addStop addr G s st) ∧ Owned (addStop addr G s st) G ∧
      ∀ v, InGroup st v G → FoundAt (addStop addr G s st) s v := by
  have hmerged := addStop_merged addr G s st
  have htakes : Takes st G [] [s] := ⟨by simp, by simp⟩
  obtain ⟨hlinked', howned, -, hfound⟩ := hmerged.linked hlinked hG htakes
  refine ⟨⟨hmerged.streets, hmerged.si, hlinked', hfound⟩, howned, ?_⟩
  intro v hv
  refine ⟨G, ⟨hv.mem, hv.group⟩, (hmerged.stops s).2 (Or.inl (List.mem_singleton_self s))⟩

/-- `n` has got the group `G`, which has taken it in. -/
structure Joins (addr : ℕ → ℕ) (st : Stations P L) (n : ℕ) (G : Option ℕ) (st' : Stations P L) :
    Prop where
  nds : ∀ m, m ∈ st'.g.nds ↔ m ∈ st.g.nds ∨ m = n
  group : ∀ m, getGroup st' m = if m = n then G else getGroup st m
  taken : ∀ H, G = some H → st'.groups H = (st.groups H).add_node addr n
  other : ∀ H, G ≠ some H → st'.groups H = st.groups H
  nextGroup : st'.nextGroup = st.nextGroup

theorem Joins.linked {addr : ℕ → ℕ} {st' : Stations P L} {n : ℕ} {G : Option ℕ}
    (h : Joins addr st n G st') (hlinked : Linked st) (hn : ∀ H, ¬ InGroup st n H)
    (hG : ∀ H, G = some H → Owned st H) :
    Linked st' ∧ (∀ m H, InGroup st m H → InGroup st' m H) ∧ (∀ H, G = some H → InGroup st' n H) ∧
      ∀ s v, FoundAt st s v → FoundAt st' s v := by
  have hkeep : ∀ m H, InGroup st m H → InGroup st' m H := by
    intro m H hm
    have hne : m ≠ n := by
      rintro rfl
      exact hn H hm
    refine ⟨(h.nds m).2 (Or.inl hm.mem), ?_⟩
    rw [h.group, if_neg hne]
    exact hm.group
  have hnew : ∀ H, G = some H → InGroup st' n H := by
    intro H hH
    refine ⟨(h.nds n).2 (Or.inr rfl), ?_⟩
    rw [h.group, if_pos rfl, hH]
  have hcases : ∀ m H, InGroup st' m H → (m = n ∧ G = some H) ∨ InGroup st m H := by
    intro m H hm
    by_cases hne : m = n
    · have hgroup := hm.group
      rw [h.group, if_pos hne] at hgroup
      exact Or.inl ⟨hne, hgroup⟩
    · have hgroup := hm.group
      rw [h.group, if_neg hne] at hgroup
      exact Or.inr ⟨((h.nds m).1 hm.mem).resolve_right hne, hgroup⟩
  refine ⟨⟨?_, ?_, ?_⟩, hkeep, hnew, ?_⟩
  · intro m H hm
    rw [h.nextGroup]
    cases hcases m H hm with
    | inl hm => exact (hG H hm.2).handed
    | inr hm => exact hlinked.handed hm
  · intro m H hm
    by_cases hH : G = some H
    · rw [h.taken H hH, StationGroup.add_node, mem_setInsert]
      exact (hcases m H hm).imp (fun hm => hm.1) fun hm => hlinked.listed hm
    · rw [h.other H hH]
      exact hlinked.listed ((hcases m H hm).resolve_left fun hm => hH hm.2)
  · intro m H hm k hk
    by_cases hH : G = some H
    · rw [h.taken H hH, StationGroup.add_node, mem_setInsert] at hk
      cases hk with
      | inl hk => exact hk ▸ hnew H hH
      | inr hk => exact hkeep k H ((hG H hH).back k hk)
    · rw [h.other H hH] at hk
      have hold := (hcases m H hm).resolve_left fun hm => hH hm.2
      exact hkeep k H (hlinked.back hold k hk)
  · rintro s v ⟨H, hv, hs⟩
    refine ⟨H, hkeep v H hv, ?_⟩
    by_cases hH : G = some H
    · rw [h.taken H hH]
      exact hs
    · rw [h.other H hH]
      exact hs

end linked

end Pfaedle.Trgraph

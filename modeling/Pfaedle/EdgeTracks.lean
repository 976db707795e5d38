import Pfaedle.StationGroups
import Mathlib.Data.List.Perm.Basic

set_option autoImplicit false

/-!
# `osm_builder::write_edge_tracks`

A station gets the track of the first edge at it. The map of tracks is a list with one entry for
every edge, in the order that it is iterated in.
-/
namespace Pfaedle.Trgraph
open DirGraphs

section model
variable {P L : Type*}

abbrev EdgeTracks := List (Edge × String)

/-- `set_track` at a node whose station has no track yet. -/
def setTrack (track : String) (n : ℕ) (st : Stations P L) : Stations P L :=
  if (getSi st n).any fun si => si.data.track = "" then
    setData n (fun data => { data with track }) st
  else st

def writeEdgeTrack (st : Stations P L) (tr : Edge × String) : Stations P L :=
  setTrack tr.2 tr.1.getFrom (setTrack tr.2 tr.1.getTo st)

def writeEdgeTracks (tracks : EdgeTracks) (st : Stations P L) : Stations P L :=
  tracks.foldl writeEdgeTrack st

def getTrack (st : Stations P L) (n : ℕ) : Option String := (getSi st n).map (·.data.track)

/-- The tracks of the edges at a station without a track are equal. -/
def OneTrack (st : Stations P L) (tracks : EdgeTracks) : Prop :=
  ∀ n, getTrack st n = some "" → ∀ tr ∈ tracks, ∀ tr' ∈ tracks, tr.1.hasEnd n → tr'.1.hasEnd n →
    tr.2 ≠ "" → tr'.2 ≠ "" → tr.2 = tr'.2

end model

section tracks
variable {P L : Type*}

theorem getTrack_setTrack (track : String) (n : ℕ) (st : Stations P L) (m : ℕ) :
    getTrack (setTrack track n st) m =
      (getTrack st m).map fun t => if n = m ∧ t = "" then track else t := by
  unfold setTrack
  cases hsi : getSi st n with
  | none =>
    rw [Option.any_none, if_neg Bool.false_ne_true]
    by_cases hm : n = m
    · rw [getTrack, ← hm, hsi]
      rfl
    · simp only [hm, false_and, if_false, Option.map_id_fun', id]
  | some si =>
    rw [Option.any_some]
    by_cases htrack : si.data.track = ""
    · rw [decide_eq_true htrack, if_pos rfl, setData, hsi, getTrack, getSi_setSi]
      by_cases hm : m = n
      · rw [if_pos hm, getTrack, hm, hsi]
        simp [htrack]
      · rw [if_neg hm, ← getTrack]
        simp only [Ne.symm hm, false_and, if_false, Option.map_id_fun', id]
    · rw [decide_eq_false htrack, if_neg Bool.false_ne_true]
      by_cases hm : n = m
      · rw [getTrack, ← hm, hsi]
        simp [htrack]
      · simp only [hm, false_and, if_false, Option.map_id_fun', id]

theorem getTrack_writeEdgeTrack (st : Stations P L) (tr : Edge × String) (m : ℕ) :
    getTrack (writeEdgeTrack st tr) m =
      (getTrack st m).map fun t => if tr.1.hasEnd m ∧ t = "" then tr.2 else t := by
  rw [writeEdgeTrack, getTrack_setTrack, getTrack_setTrack, Option.map_map]
  congr 1
  funext t
  unfold Edge.hasEnd
  by_cases ht : t = ""
  · by_cases hto : tr.1.getTo = m
    · simp [ht, hto]
    · simp [ht, hto]
  · simp [ht]

def firstTrack (tracks : EdgeTracks) (n : ℕ) : String :=
  ((tracks.find? fun tr => tr.1.hasEnd n ∧ tr.2 ≠ "").map Prod.snd).getD ""

theorem getTrack_writeEdgeTracks (tracks : EdgeTracks) (st : Stations P L) (n : ℕ) :
    getTrack (writeEdgeTracks tracks st) n =
      (getTrack st n).map fun t => if t = "" then firstTrack tracks n else t := by
  unfold writeEdgeTracks
  induction tracks generalizing st with
  | nil =>
    have hsame : (fun t : String => if t = "" then firstTrack [] n else t) = id := by
      funext t
      by_cases ht : t = ""
      · rw [if_pos ht, ht]
        rfl
      · rw [if_neg ht]
        rfl
    rw [hsame, Option.map_id]
    rfl
  | cons tr tracks ih =>
    rw [List.foldl_cons, ih, getTrack_writeEdgeTrack, Option.map_map]
    congr 1
    funext t
    unfold firstTrack
    rw [List.find?_cons]
    by_cases ht : t = ""
    · by_cases hend : tr.1.hasEnd n
      · by_cases htrack : tr.2 = ""
        · simp [ht, hend, htrack]
        · simp [ht, hend, htrack]
      · simp [ht, hend]
    · simp [ht]

theorem firstTrack_cons {tr : Edge × String} {n : ℕ} (hend : tr.1.hasEnd n) (htrack : tr.2 ≠ "")
    (rest : EdgeTracks) : firstTrack (tr :: rest) n = tr.2 := by
  rw [firstTrack, List.find?_cons, decide_eq_true ⟨hend, htrack⟩]
  rfl

theorem firstTrack_cases (tracks : EdgeTracks) (n : ℕ) :
    (∃ tr ∈ tracks, tr.1.hasEnd n ∧ tr.2 ≠ "" ∧ firstTrack tracks n = tr.2) ∨
      (∀ tr ∈ tracks, tr.1.hasEnd n → tr.2 = "") ∧ firstTrack tracks n = "" := by
  unfold firstTrack
  cases hfind : tracks.find? fun tr => tr.1.hasEnd n ∧ tr.2 ≠ "" with
  | none =>
    refine Or.inr ⟨fun tr htr hend => ?_, rfl⟩
    by_contra htrack
    exact List.find?_eq_none.1 hfind tr htr (decide_eq_true ⟨hend, htrack⟩)
  | some tr =>
    have hmeets := @List.find?_some _ _ tr _ hfind
    rw [decide_eq_true_eq] at hmeets
    exact Or.inl ⟨tr, List.mem_of_find?_eq_some hfind, hmeets.1, hmeets.2, rfl⟩

theorem firstTrack_perm {tracks l l' : EdgeTracks} {n : ℕ} (hl : l.Perm tracks)
    (hl' : l'.Perm tracks)
    (h : ∀ tr ∈ tracks, ∀ tr' ∈ tracks, tr.1.hasEnd n → tr'.1.hasEnd n → tr.2 ≠ "" →
      tr'.2 ≠ "" → tr.2 = tr'.2) : firstTrack l n = firstTrack l' n := by
  rcases firstTrack_cases l n with ⟨tr, htr, hend, hne, hfirst⟩ | ⟨hnone, hempty⟩
  · rcases firstTrack_cases l' n with ⟨tr', htr', hend', hne', hfirst'⟩ | ⟨hnone', -⟩
    · rw [hfirst, hfirst']
      exact h tr (hl.mem_iff.1 htr) tr' (hl'.mem_iff.1 htr') hend hend' hne hne'
    · exact absurd (hnone' tr (hl'.mem_iff.2 (hl.mem_iff.1 htr)) hend) hne
  · rcases firstTrack_cases l' n with ⟨tr', htr', hend', hne', -⟩ | ⟨-, hempty'⟩
    · exact absurd (hnone tr' (hl.mem_iff.2 (hl'.mem_iff.1 htr')) hend') hne'
    · rw [hempty, hempty']

/-- The stations have the same tracks after every order of the map. -/
theorem writeEdgeTracks_order_iff (st : Stations P L) (tracks : EdgeTracks) :
    (∀ l l' : EdgeTracks, l.Perm tracks → l'.Perm tracks →
        ∀ n, getTrack (writeEdgeTracks l st) n = getTrack (writeEdgeTracks l' st) n) ↔
      OneTrack st tracks := by
  constructor
  · intro h n hn tr htr tr' htr' hend hend' hne hne'
    have hfirst := h _ _ (List.perm_cons_erase htr).symm (List.perm_cons_erase htr').symm n
    rw [getTrack_writeEdgeTracks, getTrack_writeEdgeTracks, hn, Option.map_some, Option.map_some,
      if_pos rfl, if_pos rfl, firstTrack_cons hend hne, firstTrack_cons hend' hne'] at hfirst
    exact Option.some.inj hfirst
  · intro h l l' hl hl' n
    rw [getTrack_writeEdgeTracks, getTrack_writeEdgeTracks]
    cases hn : getTrack st n with
    | none => rfl
    | some t =>
      rw [Option.map_some, Option.map_some]
      by_cases ht : t = ""
      · rw [if_pos ht, if_pos ht, firstTrack_perm hl hl' (h n (ht ▸ hn))]
      · rw [if_neg ht, if_neg ht]

def betweenTracks : Stations ℕ ℕ where
  g :=
    { nds := [0, 1, 2]
      npl n := ⟨n, if n = 1 then some ⟨none, ⟨"", [], "", true⟩⟩ else none⟩
      edges := [⟨0, 0, 1⟩, ⟨1, 2, 1⟩]
      pl _ := ⟨0, false, false, ⟨[], 1, 0, []⟩⟩
      nextNd := 3
      nextEdge := 2
      fresh := by decide
      simple := by decide }
  groups _ := .empty
  nextGroup := 0

theorem writeEdgeTracks_order_between :
    let tracks : EdgeTracks := [(⟨0, 0, 1⟩, "1"), (⟨1, 2, 1⟩, "2")]
    (∀ tr ∈ tracks, tr.1 ∈ betweenTracks.g.edges) ∧
      getTrack (writeEdgeTracks tracks betweenTracks) 1 = some "1" ∧
      getTrack (writeEdgeTracks tracks.reverse betweenTracks) 1 = some "2" := by
  decide

end tracks

end Pfaedle.Trgraph

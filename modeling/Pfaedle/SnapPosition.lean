import Pfaedle.LoopRules
import Pfaedle.Snapping

set_option autoImplicit false

/-!
# The position that a station is snapped from

`snap_station` reads the position of its payload for every candidate, and moves the payload where it
splits an edge.
-/
namespace Pfaedle.Trgraph
open DirGraphs Restriction ODirEdges LoopRules

section candidate
variable {P L : Type*} [AddCommMonoid L] [LinearOrder L] (S : Snapper P L) (maxD : L)
  (orphSnap : Bool)

def projection (r : SnapRun P L) (e : Edge) : P :=
  S.geo.projectOn (pos r.s.st.g e.getFrom) r.pl.geom (pos r.s.st.g e.getTo)

def EndsTaken (r : SnapRun P L) (e : Edge) (n : ℕ) : Prop :=
  ¬ ((getSi r.s.st n).isNone ∧
    S.geo.webMercMeterDist (projection S r e) (pos r.s.st.g n) < S.opts.near)

structure OnEdge (r : SnapRun P L) (e : Edge) : Prop where
  alone : eqStatReach S r.s e r.pl.si (projection S r e) (maxD + maxD) orphSnap = none
  level : (r.s.st.g.pl e).data.level ≤ S.opts.maxSnapLevel
  free : is_blocked S r.s e r.pl.si (projection S r e) = false
  frm : EndsTaken S r e e.getFrom
  to_ : EndsTaken S r e e.getTo

/-- If the candidate is split, then at the position of the station. -/
def StaysPut (r : SnapRun P L) (e : Edge) : Prop :=
  OnEdge S maxD orphSnap r e → projection S r e = r.pl.geom

theorem snapEdge_onEdge {r : SnapRun P L} {e : Edge} (h : OnEdge S maxD orphSnap r e) :
    (snapEdge S maxD orphSnap r e).pl.geom = projection S r e := by
  have halone := h.alone
  have hfree := h.free
  have hfrm := h.frm
  have hto := h.to_
  unfold EndsTaken at hfrm hto
  unfold projection at halone hfree hfrm hto ⊢
  unfold snapEdge
  dsimp only
  rw [halone]
  dsimp only
  rw [if_neg (not_lt_of_ge h.level), hfree, if_neg Bool.false_ne_true, if_neg hfrm, if_neg hto]
  rfl

theorem snapEdge_not_onEdge {r : SnapRun P L} {e : Edge} (h : ¬ OnEdge S maxD orphSnap r e) :
    (snapEdge S maxD orphSnap r e).pl.geom = r.pl.geom := by
  unfold snapEdge
  dsimp only
  split
  · rfl
  · rename_i halone
    split_ifs with hlevel hblocked hfrm hto
    · rfl
    · rfl
    · rfl
    · rfl
    · exact absurd ⟨halone, not_lt.1 hlevel, (Bool.not_eq_true _).mp hblocked, hfrm, hto⟩ h

theorem snapEdge_geom_iff (r : SnapRun P L) (e : Edge) :
    (snapEdge S maxD orphSnap r e).pl.geom = r.pl.geom ↔ StaysPut S maxD orphSnap r e := by
  by_cases h : OnEdge S maxD orphSnap r e
  · rw [snapEdge_onEdge S maxD orphSnap h]
    exact ⟨fun heq _ => heq, fun hstays => hstays h⟩
  · rw [snapEdge_not_onEdge S maxD orphSnap h]
    exact ⟨fun _ hon => absurd hon h, fun _ => rfl⟩

end candidate

section attempts
variable {P L : Type*} [AddCommMonoid L] [LinearOrder L] (S : Snapper P L) (orphSnap : Bool)

def importInfo (s : SnapState P L) (pl : StationPayload P) : StationPayload P × P :=
  match importFrom S s pl with
  | some (best, si) => ({ pl with si := si }, pos s.st.g best)
  | none => (pl, pl.geom)

def candidateQueue (maxD : L) (surHeur : Bool) (s : SnapState P L) (pl : StationPayload P) :
    List Edge :=
  let pq := get_edge_candidates S s (importInfo S s pl).2 maxD
  if pq.isEmpty && surHeur then
    match get_matching_node S s (importInfo S s pl).1 with
    | some best => get_edge_candidates S s (pos s.st.g best) maxD
    | none =>
      get_edge_candidates S s (importInfo S s pl).1.geom S.opts.maxSnapFallbackHeurDistance
  else pq

theorem snap_station_eq (maxD : L) (surHeur : Bool) (s : SnapState P L) (pl : StationPayload P) :
    snap_station S maxD surHeur orphSnap s pl =
      (candidateQueue S maxD surHeur s pl).foldl (snapEdge S maxD orphSnap)
        ⟨s, (importInfo S s pl).1, []⟩ := by
  unfold snap_station candidateQueue importInfo
  cases importFrom S s pl with
  | none => rfl
  | some best => rfl

omit [AddCommMonoid L] in
theorem importInfo_geom (s : SnapState P L) (pl : StationPayload P) :
    (importInfo S s pl).1.geom = pl.geom := by
  unfold importInfo
  split <;> rfl

/-- The candidates of one attempt of `snap_stations`, and the state that they start from. -/
def attemptQueue (r : StopRun P L) (d : L × ℕ) : List Edge :=
  candidateQueue S d.1 (d.2 + 1 = S.opts.maxSnapDistances.length) r.s r.pl

def attemptStart (r : StopRun P L) : SnapRun P L := ⟨r.s, (importInfo S r.s r.pl).1, []⟩

/-- Every candidate of an attempt is judged from `own`, and so is the choice of the candidates. -/
def JudgedFrom (own : P) (r : StopRun P L) (d : L × ℕ) : Prop :=
  r.pl.geom = own ∧ FoldMeets (snapEdge S d.1 orphSnap) (fun run _ => run.pl.geom = own)
    (attemptStart S r) (attemptQueue S r d)

/-- No candidate but the very last one moves the station. -/
def AttemptsStay (stop : ℕ) : StopRun P L → List (L × ℕ) → Prop
  | _, [] => True
  | r, [d] => FoldMeets (snapEdge S d.1 orphSnap) (StaysPut S d.1 orphSnap) (attemptStart S r)
      (attemptQueue S r d).dropLast
  | r, d :: d' :: ds => FoldMeets (snapEdge S d.1 orphSnap) (StaysPut S d.1 orphSnap)
      (attemptStart S r) (attemptQueue S r d) ∧
      AttemptsStay stop (snapStopAt S orphSnap stop r d) (d' :: ds)

theorem snapStopAt_geom (stop : ℕ) (r : StopRun P L) (d : L × ℕ) :
    (snapStopAt S orphSnap stop r d).pl.geom =
      ((attemptQueue S r d).foldl (snapEdge S d.1 orphSnap) (attemptStart S r)).pl.geom := by
  rw [attemptQueue, attemptStart, ← snap_station_eq]
  unfold snapStopAt snapGroup
  dsimp only
  split
  · rfl
  · rfl

theorem attempt_iff {own : P} {r : StopRun P L} (hr : r.pl.geom = own) (d : L × ℕ) :
    JudgedFrom S orphSnap own r d ↔
      FoldMeets (snapEdge S d.1 orphSnap) (StaysPut S d.1 orphSnap) (attemptStart S r)
        (attemptQueue S r d).dropLast := by
  have hstart : (attemptStart S r).pl.geom = own := (importInfo_geom S r.s r.pl).trans hr
  rw [JudgedFrom, and_iff_right hr]
  exact foldMeets_view_iff (fun run e => snapEdge_geom_iff S d.1 orphSnap run e) _ hstart

theorem attempt_end_iff (stop : ℕ) {own : P} {r : StopRun P L} (hr : r.pl.geom = own)
    (d : L × ℕ) :
    JudgedFrom S orphSnap own r d ∧ (snapStopAt S orphSnap stop r d).pl.geom = own ↔
      FoldMeets (snapEdge S d.1 orphSnap) (StaysPut S d.1 orphSnap) (attemptStart S r)
        (attemptQueue S r d) := by
  have hstart : (attemptStart S r).pl.geom = own := (importInfo_geom S r.s r.pl).trans hr
  rw [JudgedFrom, and_iff_right hr, snapStopAt_geom]
  exact foldMeets_view_end_iff (fun run e => snapEdge_geom_iff S d.1 orphSnap run e)
    (attemptQueue S r d) hstart

/-- The attempts for a stop are all made from the position `own`. -/
theorem judgedFrom_iff (stop : ℕ) (ds : List (L × ℕ)) {own : P} {r : StopRun P L}
    (hr : r.pl.geom = own) :
    FoldMeets (snapStopAt S orphSnap stop) (JudgedFrom S orphSnap own) r ds ↔
      AttemptsStay S orphSnap stop r ds := by
  induction ds generalizing r with
  | nil => exact Iff.rfl
  | cons d ds ih =>
    cases ds with
    | nil =>
      rw [AttemptsStay, ← attempt_iff S orphSnap hr d]
      exact ⟨fun h => h.1, fun h => ⟨h, trivial⟩⟩
    | cons d' ds =>
      rw [AttemptsStay, ← attempt_end_iff S orphSnap stop hr d]
      constructor
      · rintro ⟨hfirst, hrest⟩
        have hnext : (snapStopAt S orphSnap stop r d).pl.geom = own := hrest.1.1
        exact ⟨⟨hfirst, hnext⟩, (ih hnext).1 hrest⟩
      · rintro ⟨⟨hfirst, hnext⟩, hrest⟩
        exact ⟨hfirst, (ih hnext).2 hrest⟩

/-- A candidate is judged from the position that the stop has, and every attempt starts from it, if
no candidate before is split at another position. -/
theorem snap_ownPosition_iff :
    (∀ (maxD : L) (s : SnapState P L) (pl : StationPayload P) (pq : List Edge),
      FoldMeets (snapEdge S maxD orphSnap) (fun run _ => run.pl.geom = pl.geom) ⟨s, pl, []⟩ pq ↔
        FoldMeets (snapEdge S maxD orphSnap) (StaysPut S maxD orphSnap) ⟨s, pl, []⟩ pq.dropLast) ∧
      ∀ (stops : ℕ → GtfsStop P) (s : SnapState P L) (fs : ℕ → Option ℕ) (stop : ℕ),
        FoldMeets (snapStopAt S orphSnap stop) (JudgedFrom S orphSnap (stops stop).geom)
            ⟨s, fs, payload_from_gtfs S (stops stop), false⟩ S.opts.maxSnapDistances.zipIdx ↔
          AttemptsStay S orphSnap stop ⟨s, fs, payload_from_gtfs S (stops stop), false⟩
            S.opts.maxSnapDistances.zipIdx := by
  constructor
  · intro maxD s pl pq
    exact foldMeets_view_iff (fun run e => snapEdge_geom_iff S maxD orphSnap run e) pq rfl
  · intro stops s fs stop
    exact judgedFrom_iff S orphSnap stop _ rfl

end attempts

section sample

def gridDist (p q : ℤ × ℤ) : ℕ := (p.1 - q.1).natAbs + (p.2 - q.2).natAbs

def gridSnapper : Snapper (ℤ × ℤ) ℕ where
  geo :=
    { webMercMeterDist := gridDist
      toFloat := id
      gap := fun _ => 0
      angSmaller := fun _ _ _ => false
      distToSegment := fun p q x => gridDist x (if p.2 = q.2 then (x.1, p.2) else (p.1, x.2))
      projectOn := fun p x q => if p.2 = q.2 then (x.1, p.2) else (p.1, x.2)
      fullTurn := fun _ _ _ => false
      edgeDist := fun p q x => gridDist x (if p.2 = q.2 then (x.1, p.2) else (p.1, x.2))
      inGrid := fun _ => true
      edgeInGrid := fun _ => true }
  opts := ⟨[9], 20, 3, 1, 7, 2⟩
  statSimi a b := a = b
  statNormzer := id
  trackNormzer := id
  nodeQueue := PriorityQueue.leastFirst NodeCand.dist _ fun _ _ h => h
  edgeQueue := PriorityQueue.leastFirst Prod.fst _ fun _ _ h => h
  addr := id
  import_osm_stations := false

def crossStreets : SnapState (ℤ × ℤ) ℕ where
  st :=
    { g :=
        { nds := [0, 1, 2, 3]
          npl := fun n => ⟨[(-90, 0), (90, 0), (10, 40), (10, 140)].getD n (0, 0), none⟩
          edges := [⟨0, 0, 1⟩, ⟨1, 3, 2⟩]
          pl := fun _ => ⟨0, false, false, ⟨[], 100, 0, []⟩⟩
          nextNd := 4
          nextEdge := 2
          fresh := by decide
          simple := by decide }
      groups := fun _ => .empty
      nextGroup := 0 }
  restor := .empty
  blockers := []
  sng := []
  eg := [⟨0, 0, 1⟩, ⟨1, 3, 2⟩]

/-- The stop at 80 over the first street moves to the street across, and the first street is judged
from there. -/
theorem snap_movedPosition :
    let pl : StationPayload (ℤ × ℤ) := ⟨(5, 80), none, ⟨"Oper", [], "", true⟩⟩
    let run := snapEdge gridSnapper 100 false ⟨crossStreets, pl, []⟩ ⟨1, 3, 2⟩
    candidateQueue gridSnapper 100 false crossStreets pl = [⟨1, 3, 2⟩, ⟨0, 0, 1⟩] ∧
      run.pl.geom = (10, 80) ∧ projection gridSnapper run ⟨0, 0, 1⟩ = (10, 0) ∧
      projection gridSnapper ⟨crossStreets, pl, []⟩ ⟨0, 0, 1⟩ = (5, 0) := by
  decide +kernel

end sample

end Pfaedle.Trgraph

import Pfaedle.GapFixing
import Mathlib.Algebra.Order.Ring.Nat

set_option autoImplicit false

/-!
# Gap fixing and geometry

`write_geometries` appends to what `fix_gaps` has written to the edges that it moved.
-/
namespace Pfaedle.Trgraph
open DirGraphs Restriction ODirEdges LoopRules

section geometry
variable {P L G D : Type*}

/-- What `write_geometries` does to the payload of an edge. -/
def writtenGeometry (geo : Geo P L) (g : Graph P L G D) (e : Edge) (p : Payload P L) : Payload P L :=
  addPoint (setLength geo (addPoint p (pos g e.getFrom))
    (geo.webMercMeterDist (pos g e.getFrom) (pos g e.getTo))) (pos g e.getTo)

theorem writeGeometries_spec (geo : Geo P L) {g : Graph P L G D} (h : g.Proper) :
    ∃ q, writeGeometries geo g = g.withPl q ∧
      ∀ e ∈ g.edges, q e = writtenGeometry geo g e (g.pl e) := by
  apply h.foldl_visit_nds
  intro q e
  rfl

theorem writtenGeometry_geom (geo : Geo P L) (g : Graph P L G D) (e : Edge) (p : Payload P L) :
    (writtenGeometry geo g e p).data.geom = p.data.geom ++ [pos g e.getFrom, pos g e.getTo] := by
  change p.data.geom ++ [pos g e.getFrom] ++ [pos g e.getTo] = _
  rw [List.append_assoc]
  rfl

def NoGeometry (g : Graph P L G D) : Prop := ∀ e ∈ g.edges, (g.pl e).data.geom = []

def FloatDist (geo : Geo P L) (p q : P) : Prop :=
  geo.toFloat (geo.webMercMeterDist p q) = geo.webMercMeterDist p q

def FloatEdges (geo : Geo P L) (g : Graph P L G D) : Prop :=
  ∀ e ∈ g.edges, FloatDist geo (pos g e.getFrom) (pos g e.getTo)

variable [AddCommMonoid L]

def lineLength (geo : Geo P L) : List P → L
  | p :: q :: l => geo.webMercMeterDist p q + lineLength geo (q :: l)
  | _ => 0

/-- Every edge has a straight line between its ends, with its length. -/
structure StraightLines (geo : Geo P L) (g : Graph P L G D) : Prop where
  line : ∀ e ∈ g.edges, (g.pl e).data.geom = [pos g e.getFrom, pos g e.getTo]
  length : ∀ e ∈ g.edges, (g.pl e).data.length = lineLength geo (g.pl e).data.geom

theorem straightLines_iff (geo : Geo P L) {g : Graph P L G D} (h : g.Proper) :
    StraightLines geo (writeGeometries geo g) ↔ NoGeometry g ∧ FloatEdges geo g := by
  obtain ⟨q, hg, hq⟩ := writeGeometries_spec geo h
  rw [hg]
  have hlength : ∀ p q, lineLength geo [p, q] = geo.webMercMeterDist p q := by
    intro p q
    rw [lineLength, lineLength, add_zero]
    rintro _ _ _ h
    cases h
  constructor
  · intro hstraight
    have hline : ∀ e ∈ g.edges, (q e).data.geom = [pos g e.getFrom, pos g e.getTo] :=
      hstraight.line
    refine ⟨fun e he => ?_, fun e he => ?_⟩
    · have hwritten := hline e he
      rw [hq e he, writtenGeometry_geom] at hwritten
      exact List.append_left_eq_self.1 hwritten
    · have hlen : (q e).data.length = lineLength geo (q e).data.geom := hstraight.length e he
      rw [hline e he, hq e he, hlength] at hlen
      exact hlen
  · rintro ⟨hempty, hfloat⟩
    have hline : ∀ e ∈ g.edges, (q e).data.geom = [pos g e.getFrom, pos g e.getTo] := by
      intro e he
      rw [hq e he, writtenGeometry_geom, hempty e he]
      rfl
    refine ⟨hline, fun e he => ?_⟩
    change (q e).data.length = lineLength geo (q e).data.geom
    rw [hline e he, hq e he, hlength]
    exact hfloat e he

end geometry

section gaps
variable {P L G D : Type*} {geo : Geo P L} {st : GapState P L G D} {n nb : ℕ} {old : Edge}

theorem DeadEnd.nodes {g : Graph P L G D} (h : DeadEnd g nb old) (hlive : g.Live) :
    old.getOtherNd nb ∈ g.nds ∧ nb ∈ g.nds := by
  obtain ⟨hfrom, hto⟩ := hlive.ends old h.mem
  constructor
  · rw [Edge.getOtherNd]
    split
    · exact hfrom
    · exact hto
  · exact h.hasEnd.elim (fun h => h ▸ hfrom) fun h => h ▸ hto

structure At (n : ℕ) (st : GapState P L G D) : Prop where
  proper : st.g.Proper
  mem : n ∈ st.g.nds

theorem At.moveEnd (h : At n st) (hdead : DeadEnd st.g nb old) (hne : nb ≠ n) :
    At n (moveEnd st n nb old) := by
  have hother := (hdead.nodes h.proper.live).1
  constructor
  · exact ((h.proper.addEdg hother h.mem (st.g.pl old)).setPl _ _).delNd nb
  · refine List.mem_filter.2 ⟨?_, decide_eq_true hne.symm⟩
    change n ∈ (st.g.addEdg _ _ _).2.nds
    rw [DirGraph.addEdg_nds]
    exact h.mem

theorem At.bridge (h : At n st) (hdead : DeadEnd st.g nb old) : At n (bridge st n nb old) := by
  constructor
  · exact h.proper.addEdg h.mem (hdead.nodes h.proper.live).2 (st.g.pl old)
  · change n ∈ (st.g.addEdg _ _ _).2.nds
    rw [DirGraph.addEdg_nds]
    exact h.mem

variable [LinearOrder L]

theorem At.fixGap (h : At n st) (geo : Geo P L) (nb : ℕ) : At n (fixGap geo n st nb) := by
  cases fixGap_cases geo st n nb with
  | inl hround =>
    obtain ⟨hmerge, old, -, hdead, heq⟩ := hround
    rw [heq]
    exact h.moveEnd hdead hmerge.1.1
  | inr hround =>
    cases hround.2 with
    | inl hbridge =>
      obtain ⟨old, hdead, heq⟩ := hbridge
      rw [heq]
      exact h.bridge hdead
    | inr heq =>
      rw [heq]
      exact h

theorem fixGapsAt_proper (geo : Geo P L) (cells : ℕ → List ℕ) (st : GapState P L G D) (n : ℕ)
    (h : st.g.Proper) : (fixGapsAt geo cells st n).g.Proper := by
  rw [fixGapsAt]
  split
  · rename_i hn
    exact (foldl_inv (fixGap geo n) (At n) _ ⟨h, hn.1⟩ fun s nb _ hs => hs.fixGap geo nb).proper
  · exact h

/-- A round moves no end point, and it bridges no distance that is rounded when it is stored. -/
def StraightRound (geo : Geo P L) (st : GapState P L G D) (n nb : ℕ) : Prop :=
  isGap geo st.g n nb → ¬ bothPlain st.g n nb ∧ FloatDist geo (pos st.g n) (pos st.g nb)

def StraightVisit (geo : Geo P L) (cells : ℕ → List ℕ) (st : GapState P L G D) (n : ℕ) : Prop :=
  n ∈ st.g.nds ∧ deg st.g n = 1 →
    FoldMeets (fixGap geo n) (fun st => StraightRound geo st n) st (gridGet cells st n)

def StraightRounds (geo : Geo P L) (cells : ℕ → List ℕ) (g : Graph P L G D) : Prop :=
  FoldMeets (fixGapsAt geo cells) (StraightVisit geo cells) ⟨g, []⟩ g.nds

instance (geo : Geo P L) (p q : P) : Decidable (FloatDist geo p q) :=
  inferInstanceAs (Decidable (_ = _))

instance (geo : Geo P L) (g : Graph P L G D) : Decidable (FloatEdges geo g) :=
  inferInstanceAs (Decidable (∀ e ∈ g.edges, _))

instance (geo : Geo P L) (st : GapState P L G D) (n nb : ℕ) : Decidable (StraightRound geo st n nb) :=
  inferInstanceAs (Decidable (_ → _))

instance (geo : Geo P L) (cells : ℕ → List ℕ) (st : GapState P L G D) (n : ℕ) :
    Decidable (StraightVisit geo cells st n) := inferInstanceAs (Decidable (_ → _))

instance (geo : Geo P L) (cells : ℕ → List ℕ) (g : Graph P L G D) :
    Decidable (StraightRounds geo cells g) := inferInstanceAs (Decidable (FoldMeets _ _ _ _))

/-- `write_geometries` leaves straight lines of their lengths. -/
def Writable (geo : Geo P L) (g : Graph P L G D) : Prop := NoGeometry g ∧ FloatEdges geo g

section
omit [LinearOrder L]

theorem bridge_noGeometry_iff (hdead : DeadEnd st.g nb old) :
    NoGeometry (bridge st n nb old).g ↔ NoGeometry st.g := by
  have hlink := DirGraph.addEdg_linked st.g n nb (st.g.pl old)
  unfold bridge
  dsimp only
  generalize st.g.addEdg n nb (st.g.pl old) = added at hlink ⊢
  obtain ⟨x, g'⟩ := added
  dsimp only at hlink ⊢
  constructor
  · intro h e he
    have hnone := h e ((hlink.edges e).2 (Or.inl he))
    cases hlink.kind with
    | inl hold =>
      rw [hold.2] at hnone
      exact hnone
    | inr hnew =>
      have hx : e ≠ x := fun hx => hnew.1 (hx ▸ he)
      rw [hnew.2.1, Function.update_of_ne hx] at hnone
      exact hnone
  · intro h e he
    cases hlink.kind with
    | inl hold =>
      rw [hold.2]
      exact h e (((hlink.edges e).1 he).elim id fun he => he ▸ hold.1)
    | inr hnew =>
      rw [hnew.2.1]
      by_cases hx : e = x
      · rw [hx, Function.update_self]
        exact h old hdead.mem
      · rw [Function.update_of_ne hx]
        exact h e (((hlink.edges e).1 he).resolve_right hx)

theorem bridge_floatEdges_iff (st : GapState P L G D) (n nb : ℕ) (old : Edge) :
    FloatEdges geo (bridge st n nb old).g ↔
      FloatDist geo (pos st.g n) (pos st.g nb) ∧ FloatEdges geo st.g := by
  have hlink := DirGraph.addEdg_linked st.g n nb (st.g.pl old)
  have hpos : ∀ m, pos (bridge st n nb old).g m = pos st.g m := fun m => by
    rw [pos, pos]
    exact congrArg (fun npl => (npl m).geom) hlink.npl
  simp only [FloatEdges, hpos]
  constructor
  · intro h
    refine ⟨?_, fun e he => h e ((hlink.edges e).2 (Or.inl he))⟩
    have hnew := h _ ((hlink.edges _).2 (Or.inr rfl))
    rwa [hlink.ends.1, hlink.ends.2] at hnew
  · rintro ⟨hnew, h⟩ e he
    rcases (hlink.edges e).1 he with he | rfl
    · exact h e he
    · rwa [hlink.ends.1, hlink.ends.2]

theorem moveEnd_geometry (hdead : DeadEnd st.g nb old) (hne : nb ≠ n) :
    ¬ NoGeometry (moveEnd st n nb old).g := by
  obtain ⟨x, p, hmoved⟩ := moveEnd_spec hdead hne
  intro h
  have hnone := h x ((hmoved.edges x).2 (Or.inr rfl))
  rw [hmoved.pl, Function.update_self] at hnone
  cases hnone

end

theorem fixGap_writable_iff (geo : Geo P L) (n : ℕ) (st : GapState P L G D) (nb : ℕ) :
    Writable geo (fixGap geo n st nb).g ↔ StraightRound geo st n nb ∧ Writable geo st.g := by
  by_cases hgap : isGap geo st.g n nb
  · by_cases hplain : bothPlain st.g n nb
    · obtain ⟨old, hold, hdead⟩ := deadEdge_spec hgap.2.1
      have hmove : fixGap geo n st nb = moveEnd st n nb old := by
        rw [fixGap, if_pos hgap, hold]
        exact if_pos hplain
      rw [hmove]
      exact ⟨fun h => absurd h.1 (moveEnd_geometry hdead hgap.1), fun h => absurd hplain (h.1 hgap).1⟩
    · obtain ⟨old, hdead, hbridge⟩ := fixGap_bridges hgap hplain
      have hround : StraightRound geo st n nb ↔ FloatDist geo (pos st.g n) (pos st.g nb) :=
        ⟨fun h => (h hgap).2, fun h _ => ⟨hplain, h⟩⟩
      rw [hbridge, hround, Writable, Writable, bridge_noGeometry_iff hdead, bridge_floatEdges_iff,
        and_left_comm]
  · have hround : StraightRound geo st n nb := fun h => absurd h hgap
    rw [fixGap, if_neg hgap, and_iff_right hround]

theorem fixGapsAt_writable_iff (geo : Geo P L) (cells : ℕ → List ℕ) (st : GapState P L G D) (n : ℕ) :
    Writable geo (fixGapsAt geo cells st n).g ↔ StraightVisit geo cells st n ∧ Writable geo st.g := by
  rw [StraightVisit, fixGapsAt]
  split
  · rename_i hn
    have hrounds := foldl_good_iff (fun st : GapState P L G D => Writable geo st.g)
      (fixGap_writable_iff geo n) (gridGet cells st n) st
    exact hrounds.trans (and_congr_left' ⟨fun h _ => h, fun h => h hn⟩)
  · rename_i hn
    rw [and_iff_right fun h => absurd h hn]

theorem fixGaps_proper (geo : Geo P L) (cells : ℕ → List ℕ) {g : Graph P L G D} (h : g.Proper) :
    (fixGaps geo cells g).Proper :=
  foldl_inv (fixGapsAt geo cells) (fun st => st.g.Proper) g.nds h fun st n _ =>
    fixGapsAt_proper geo cells st n

theorem fixGaps_writable_iff (geo : Geo P L) (cells : ℕ → List ℕ) (g : Graph P L G D) :
    Writable geo (fixGaps geo cells g) ↔ StraightRounds geo cells g ∧ Writable geo g :=
  foldl_good_iff (fun st : GapState P L G D => Writable geo st.g) (fixGapsAt_writable_iff geo cells)
    g.nds ⟨g, []⟩

end gaps

section passes
variable {P L G D : Type*} [AddCommMonoid L] [LinearOrder L]

/-- After both passes the edges are straight and have their lengths if and only if no end point has
    been moved, and no distance of an edge or of a bridge is rounded. -/
theorem fixGaps_straightLines_iff (geo : Geo P L) (cells : ℕ → List ℕ) {g : Graph P L G D}
    (hproper : g.Proper) (hempty : NoGeometry g) :
    StraightLines geo (writeGeometries geo (fixGaps geo cells g)) ↔
      StraightRounds geo cells g ∧ FloatEdges geo g := by
  have hwritable : Writable geo (fixGaps geo cells g) ↔ StraightRounds geo cells g ∧ Writable geo g :=
    fixGaps_writable_iff geo cells g
  rw [straightLines_iff geo (fixGaps_proper geo cells hproper)]
  rw [Writable, Writable, and_iff_right hempty] at hwritable
  exact hwritable

/-- Two streets `0 → 1` and `2 → 3` of length 8, whose dead ends `1` and `2` are `d` apart. -/
def gap (d : ℕ) : Graph ℕ ℕ ℕ Unit where
  nds := [0, 1, 2, 3]
  npl n := ⟨if n = 0 then 0 else if n = 1 then 8 else if n = 2 then 8 + d else 16 + d, none⟩
  edges := [⟨0, 0, 1⟩, ⟨1, 2, 3⟩]
  pl _ := ⟨0, false, false, ⟨[], 0, 0, []⟩⟩
  nextNd := 4
  nextEdge := 2
  fresh := by decide
  simple := by decide

def gapCells (n : ℕ) : List ℕ := if n = 1 ∨ n = 2 then [1, 2] else []

theorem fixGaps_straightLines_wide :
    StraightLines lineGeo (writeGeometries lineGeo (fixGaps lineGeo gapCells (gap 2))) := by
  have hproper : (gap 2).Proper := ⟨⟨by decide, by decide, by decide⟩, by decide⟩
  have hempty : NoGeometry (gap 2) := fun _ _ => rfl
  exact (fixGaps_straightLines_iff lineGeo gapCells hproper hempty).2 ⟨by decide, by decide⟩

/-- A moved edge gets its line twice. -/
theorem fixGaps_not_straightLines : ¬ ∀ (g : Graph ℕ ℕ ℕ Unit) cells, g.Proper → NoGeometry g →
    StraightLines lineGeo (writeGeometries lineGeo (fixGaps lineGeo cells g)) := by
  intro h
  have hproper : (gap 1).Proper := ⟨⟨by decide, by decide, by decide⟩, by decide⟩
  have hstraight := h (gap 1) gapCells hproper fun _ _ => rfl
  have hline := hstraight.line ⟨2, 3, 1⟩ (by decide)
  exact absurd hline (by decide)

end passes

end Pfaedle.Trgraph

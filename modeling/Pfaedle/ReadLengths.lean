import Mathlib.Tactic.Ring
import Pfaedle.BuiltGraph
import Pfaedle.EdgePoints
import Pfaedle.FilterSufficient
import Pfaedle.HeuristicCosts

set_option autoImplicit false

/-!
# The lengths and levels that `read` leaves

From `write_geometries` on, the length of an edge is that of a line between its ends, whatever is
split, contracted or copied. Under a distance that is a metric this is what makes the heuristic of
the router admissible.
-/
namespace Pfaedle.Trgraph
open DirGraphs Restriction ODirEdges LoopRules

section lines
variable {P L : Type*} [AddCommMonoid L] {geo : Geo P L} {p q s : P} {len len' : L}

/-- A line of this length leads from `p` to `q`, where the length of a segment and the sum of two
lengths are rounded as they are stored. -/
inductive Spanned (geo : Geo P L) : P → P → L → Prop
  | segment (p q : P) : Spanned geo p q (geo.toFloat (geo.webMercMeterDist p q))
  | join {p q s : P} {len len' : L} (h : Spanned geo p q len) (h' : Spanned geo q s len') :
      Spanned geo p s (geo.toFloat (len + len'))

theorem Spanned.symm (hsymm : ∀ p q, geo.webMercMeterDist p q = geo.webMercMeterDist q p)
    (h : Spanned geo p q len) : Spanned geo q p len := by
  induction h with
  | segment p q =>
    rw [hsymm]
    exact Spanned.segment q p
  | join _ _ ih ih' =>
    rw [add_comm]
    exact Spanned.join ih' ih

/-- Where nothing is rounded down, no line is shorter than the distance of its ends. -/
theorem Spanned.dist_le [PartialOrder L] [IsOrderedAddMonoid L] (hup : ∀ x, x ≤ geo.toFloat x)
    (htriangle : ∀ p q s, geo.webMercMeterDist p s ≤
      geo.webMercMeterDist p q + geo.webMercMeterDist q s)
    (h : Spanned geo p q len) : geo.webMercMeterDist p q ≤ len := by
  induction h with
  | segment p q => exact hup _
  | @join p q s len len' _ _ ih ih' =>
    calc geo.webMercMeterDist p s
        ≤ geo.webMercMeterDist p q + geo.webMercMeterDist q s := htriangle p q s
      _ ≤ len + len' := add_le_add ih ih'
      _ ≤ geo.toFloat (len + len') := hup _

theorem lineLength_append {l l' : List P} (hlast : (p :: l).getLast? = some q) :
    lineLength geo (p :: (l ++ l')) = lineLength geo (p :: l) + lineLength geo (q :: l') := by
  induction l generalizing p with
  | nil =>
    rw [List.getLast?_singleton] at hlast
    rw [Option.some.inj hlast]
    simp [lineLength]
  | cons x l ih =>
    rw [List.getLast?_cons_cons] at hlast
    rw [List.cons_append, lineLength, ih hlast, lineLength, add_assoc]

end lines

section rounded
variable {P L : Type*} [Field L] [LinearOrder L] {geo : Geo P L} {u len : L} {p q : P}

/-- What is stored of a length is off by a factor between `1 - u` and `1 + u`. -/
def Rounds (geo : Geo P L) (u : L) : Prop :=
  ∀ x, 0 ≤ x → (1 - u) * x ≤ geo.toFloat x ∧ geo.toFloat x ≤ (1 + u) * x

/-- The length of a line with these inner and last points, up to one such factor a segment. -/
structure Near (geo : Geo P L) (u : L) (p q : P) (l : List P) (len : L) : Prop where
  last : (p :: l).getLast? = some q
  lower : (1 - u) ^ l.length * lineLength geo (p :: l) ≤ len
  upper : len ≤ (1 + u) ^ l.length * lineLength geo (p :: l)

variable [IsStrictOrderedRing L]

theorem lineLength_nonneg (hnonneg : ∀ p q, 0 ≤ geo.webMercMeterDist p q) (p : P) (l : List P) :
    0 ≤ lineLength geo (p :: l) := by
  induction l generalizing p with
  | nil => simp [lineLength]
  | cons x l ih =>
    rw [lineLength]
    exact add_nonneg (hnonneg p x) (ih x)

/-- A factor below 1 is lost once for each sum. -/
theorem pow_add_mul_le {x a b : L} {m n : ℕ} (hx : 0 ≤ x) (hx1 : x ≤ 1) (ha : 0 ≤ a) (hb : 0 ≤ b)
    (hm : 0 < m) (hn : 0 < n) : x ^ (m + n) * (a + b) ≤ x * (x ^ m * a + x ^ n * b) := by
  calc x ^ (m + n) * (a + b)
      = x ^ (m + n) * a + x ^ (m + n) * b := mul_add _ _ _
    _ ≤ x ^ (m + 1) * a + x ^ (n + 1) * b :=
      add_le_add (mul_le_mul_of_nonneg_right (pow_le_pow_of_le_one hx hx1 (by omega)) ha)
        (mul_le_mul_of_nonneg_right (pow_le_pow_of_le_one hx hx1 (by omega)) hb)
    _ = x * (x ^ m * a + x ^ n * b) := by ring

theorem le_pow_add_mul {x a b : L} {m n : ℕ} (hx : 1 ≤ x) (ha : 0 ≤ a) (hb : 0 ≤ b)
    (hm : 0 < m) (hn : 0 < n) : x * (x ^ m * a + x ^ n * b) ≤ x ^ (m + n) * (a + b) := by
  calc x * (x ^ m * a + x ^ n * b)
      = x ^ (m + 1) * a + x ^ (n + 1) * b := by ring
    _ ≤ x ^ (m + n) * a + x ^ (m + n) * b :=
      add_le_add (mul_le_mul_of_nonneg_right (pow_le_pow_right₀ hx (by omega)) ha)
        (mul_le_mul_of_nonneg_right (pow_le_pow_right₀ hx (by omega)) hb)
    _ = x ^ (m + n) * (a + b) := (mul_add _ _ _).symm

theorem Spanned.near (hlow : 0 ≤ u) (hhigh : u ≤ 1) (hround : Rounds geo u)
    (hnonneg : ∀ p q, 0 ≤ geo.webMercMeterDist p q) (h : Spanned geo p q len) :
    ∃ l, l ≠ [] ∧ Near geo u p q l len := by
  have hbelow : 0 ≤ 1 - u := sub_nonneg.2 hhigh
  have habove : 1 ≤ 1 + u := le_add_of_nonneg_right hlow
  induction h with
  | segment p q =>
    have hrounded := hround _ (hnonneg p q)
    refine ⟨[q], List.cons_ne_nil _ _, rfl, ?_, ?_⟩
    · simpa [lineLength] using hrounded.1
    · simpa [lineLength] using hrounded.2
  | @join p q s len len' _ _ ih ih' =>
    obtain ⟨l, hl, hnear⟩ := ih
    obtain ⟨l', hl', hnear'⟩ := ih'
    have hpos : 0 < l.length := List.length_pos_of_ne_nil hl
    have hpos' : 0 < l'.length := List.length_pos_of_ne_nil hl'
    have hline := lineLength_nonneg hnonneg p l
    have hline' := lineLength_nonneg hnonneg q l'
    -- the sum is rounded once more, and the other part has a segment to count it
    have hsum : 0 ≤ len + len' :=
      add_nonneg ((mul_nonneg (pow_nonneg hbelow _) hline).trans hnear.lower)
        ((mul_nonneg (pow_nonneg hbelow _) hline').trans hnear'.lower)
    have hrounded := hround _ hsum
    refine ⟨l ++ l', List.append_ne_nil_of_left_ne_nil hl l', ?_, ?_, ?_⟩
    · rw [← List.cons_append, List.getLast?_append, List.getLast?_eq_some_getLast hl']
      have hlast := hnear'.last
      rw [List.getLast?_cons, List.getLast?_eq_some_getLast hl'] at hlast
      simpa using hlast
    · rw [lineLength_append hnear.last, List.length_append]
      refine le_trans ?_ hrounded.1
      calc (1 - u) ^ (l.length + l'.length) * (lineLength geo (p :: l) + lineLength geo (q :: l'))
          ≤ (1 - u) * ((1 - u) ^ l.length * lineLength geo (p :: l) +
            (1 - u) ^ l'.length * lineLength geo (q :: l')) :=
          pow_add_mul_le hbelow (sub_le_self 1 hlow) hline hline' hpos hpos'
        _ ≤ (1 - u) * (len + len') :=
          mul_le_mul_of_nonneg_left (add_le_add hnear.lower hnear'.lower) hbelow
    · rw [lineLength_append hnear.last, List.length_append]
      refine hrounded.2.trans ?_
      calc (1 + u) * (len + len')
          ≤ (1 + u) * ((1 + u) ^ l.length * lineLength geo (p :: l) +
            (1 + u) ^ l'.length * lineLength geo (q :: l')) :=
          mul_le_mul_of_nonneg_left (add_le_add hnear.upper hnear'.upper)
            (zero_le_one.trans habove)
        _ ≤ (1 + u) ^ (l.length + l'.length) *
            (lineLength geo (p :: l) + lineLength geo (q :: l')) :=
          le_pow_add_mul habove hline hline' hpos hpos'

end rounded

section passes
variable {P L G D : Type*} [AddCommMonoid L] {geo : Geo P L} {g g' : Graph P L G D}

def LevelsBelow (g : Graph P L G D) : Prop := ∀ e ∈ g.edges, (g.pl e).data.level < 8

/-- The length is that of a line between the ends, and the level has a punishment. -/
structure Surveyed (geo : Geo P L) (g : Graph P L G D) : Prop where
  length : ∀ e ∈ g.edges, Spanned geo (pos g e.getFrom) (pos g e.getTo) (g.pl e).data.length
  level_lt : LevelsBelow g

section gaps
variable [LinearOrder L] {st : GapState P L G D} {n : ℕ}

omit [AddCommMonoid L] in
theorem fixGap_levels (geo : Geo P L) (nb : ℕ) (h : LevelsBelow st.g) :
    LevelsBelow (fixGap geo n st nb).g := by
  cases fixGap_cases geo st n nb with
  | inl hround =>
    obtain ⟨hmerge, old, -, hdead, heq⟩ := hround
    obtain ⟨x, p, hmoved⟩ := moveEnd_spec hdead hmerge.1.1
    rw [heq]
    intro e he
    rw [hmoved.pl]
    by_cases hx : e = x
    · rw [hx, Function.update_self]
      change p.data.level < 8
      cases hmoved.kind with
      | inl hold => exact hold.2 ▸ h x hold.1
      | inr hnew => exact hnew.2.1 ▸ h old hdead.mem
    · rw [Function.update_of_ne hx]
      exact h e (((hmoved.edges e).1 he).resolve_right hx).1
  | inr hround =>
    cases hround.2 with
    | inl hbridge =>
      obtain ⟨old, hdead, heq⟩ := hbridge
      have hlink := DirGraph.addEdg_linked st.g n nb (st.g.pl old)
      rw [heq]
      intro e he
      change ((st.g.addEdg n nb (st.g.pl old)).2.pl e).data.level < 8
      cases hlink.kind with
      | inl hold =>
        rw [hold.2]
        exact h e (((hlink.edges e).1 he).elim id fun hx => hx ▸ hold.1)
      | inr hnew =>
        rw [hnew.2.1]
        by_cases hx : e = (st.g.addEdg n nb (st.g.pl old)).1
        · rw [hx, Function.update_self]
          exact h old hdead.mem
        · rw [Function.update_of_ne hx]
          exact h e (((hlink.edges e).1 he).resolve_right hx)
    | inr heq =>
      rw [heq]
      exact h

omit [AddCommMonoid L] in
theorem fixGaps_levels (geo : Geo P L) (cells : ℕ → List ℕ) (h : LevelsBelow g) :
    LevelsBelow (fixGaps geo cells g) := by
  refine foldl_inv (fixGapsAt geo cells) (fun st => LevelsBelow st.g) g.nds h fun st n _ hst => ?_
  unfold fixGapsAt
  split
  · exact foldl_inv (fixGap geo n) (fun st => LevelsBelow st.g) _ hst fun st nb _ hst =>
      fixGap_levels geo nb hst
  · exact hst

end gaps

theorem writeGeometries_surveyed (geo : Geo P L) (hproper : g.Proper) (h : LevelsBelow g) :
    Surveyed geo (writeGeometries geo g) := by
  obtain ⟨q, hg, hq⟩ := writeGeometries_spec geo hproper
  rw [hg]
  constructor
  · intro e he
    change Spanned geo (pos g e.getFrom) (pos g e.getTo) (q e).data.length
    rw [hq e he]
    exact Spanned.segment _ _
  · intro e he
    change (q e).data.level < 8
    rw [hq e he]
    exact h e he

theorem Shrunk.surveyed (h : Shrunk g g') (hs : Surveyed geo g) : Surveyed geo g' := by
  constructor
  · intro e he
    rw [pos, pos, h.npl, h.pl]
    exact hs.length e (h.edges e he)
  · intro e he
    rw [h.pl]
    exact hs.level_lt e (h.edges e he)

theorem simplifyGeometries_surveyed [LinearOrder L] (d : L) (hproper : g.Proper)
    (h : Surveyed geo g) : Surveyed geo (simplifyGeometries geo d g) := by
  obtain ⟨q, hg, hq⟩ := simplifyGeometries_spec geo d hproper
  rw [hg]
  constructor
  · intro e he
    change Spanned geo (pos g e.getFrom) (pos g e.getTo) (q e).data.length
    rw [hq e he]
    exact h.length e he
  · intro e he
    change (q e).data.level < 8
    rw [hq e he]
    exact h.level_lt e he

section symmetric
variable (hsymm : ∀ p q, geo.webMercMeterDist p q = geo.webMercMeterDist q p)
include hsymm

theorem Surveyed.toNode (h : Surveyed geo g) {e : Edge} (he : e ∈ g.edges) {n : ℕ}
    (hend : e.hasEnd n) : Spanned geo (pos g (e.getOtherNd n)) (pos g n) (g.pl e).data.length := by
  have hspan := h.length e he
  cases ends_cases hend with
  | inl hout =>
    rw [hout.1, hout.2] at hspan
    exact hspan.symm hsymm
  | inr hin =>
    rw [hin.1, hin.2] at hspan
    exact hspan

theorem collapseAt_surveyed (hproper : g.Proper) (h : Surveyed geo g) (n : ℕ) :
    Surveyed geo (collapseAt geo g n) := by
  cases collapseAt_cases geo g n with
  | inr heq =>
    rw [heq]
    exact h
  | inl hround =>
    obtain ⟨ea, eb, hcon, heq⟩ := hround
    obtain ⟨a, b, f, hjoined⟩ := contract_spec geo hcon hproper.nodup
    have htwo := hjoined.onlyTwo (hcon.onlyTwo hproper.nodup)
    have hgraph := hjoined.graph
    have ha := h.toNode hsymm htwo.mem.1 htwo.ends.1
    have hb := h.toNode hsymm htwo.mem.2 htwo.ends.2
    rw [heq]
    constructor
    · intro e he
      rw [pos, pos, hgraph.npl, hgraph.pl]
      by_cases hf : e = f
      · rw [hf, Function.update_self, hgraph.ends.1, hgraph.ends.2]
        exact ha.join (hb.symm hsymm)
      · rw [Function.update_of_ne hf]
        exact h.length e (((hgraph.edges e).1 he).resolve_right hf).1
    · intro e he
      rw [hgraph.pl]
      by_cases hf : e = f
      · rw [hf, Function.update_self]
        exact h.level_lt a htwo.mem.1
      · rw [Function.update_of_ne hf]
        exact h.level_lt e (((hgraph.edges e).1 he).resolve_right hf).1

theorem collapseEdges_surveyed (hproper : g.Proper) (h : Surveyed geo g) :
    Surveyed geo (collapseEdges geo g) := by
  have hrun := foldl_inv (collapseAt geo) (fun g : Graph P L G D => g.Proper ∧ Surveyed geo g) g.nds
    ⟨hproper, h⟩ fun s m _ hs => ⟨collapseAt_proper geo s m hs.1, collapseAt_surveyed hsymm hs.1 hs.2 m⟩
  exact hrun.2

theorem mirrored_surveyed {st : Graph P L G D × Restrictor}
    (h : Mirrored g st) (hs : Surveyed geo g) : Surveyed geo st.1 := by
  have hcopy : ∀ e ∈ st.1.edges, e ∉ g.edges → ∃ y ∈ g.edges, Opposite e y ∧
      (st.1.pl e).data = (g.pl y).data := by
    intro e he hnot
    obtain ⟨y, hy, hopp, hpl⟩ := h.new e he hnot
    exact ⟨y, hy, hopp, by rw [hpl, EdgePayload.revCopy_data]⟩
  constructor
  · intro e he
    rw [pos, pos, h.npl]
    by_cases hold : e ∈ g.edges
    · rw [(h.old e hold).2]
      exact hs.length e hold
    · obtain ⟨y, hy, hopp, hdata⟩ := hcopy e he hold
      rw [hdata, hopp.1, hopp.2]
      exact (hs.length y hy).symm hsymm
  · intro e he
    by_cases hold : e ∈ g.edges
    · rw [(h.old e hold).2]
      exact hs.level_lt e hold
    · obtain ⟨y, hy, -, hdata⟩ := hcopy e he hold
      rw [hdata]
      exact hs.level_lt y hy

end symmetric

end passes

section snapping
variable {P L : Type*} [AddCommMonoid L] {geo : Geo P L}
  {st st' : Graph P L ℕ StationData × Restrictor}
  (hsymm : ∀ p q, geo.webMercMeterDist p q = geo.webMercMeterDist q p)
include hsymm

theorem SnapStep.surveyed (hstep : SnapStep geo st st') (hproper : st.1.Proper)
    (h : Surveyed geo st.1) : Surveyed geo st'.1 := by
  cases hstep with
  | info restor hsame =>
    constructor
    · intro e he
      rw [hsame.geom, hsame.geom, hsame.pl]
      exact h.length e (hsame.edges ▸ he)
    · intro e he
      rw [hsame.pl]
      exact h.level_lt e (hsame.edges ▸ he)
  | node g restor p =>
    have hpos : ∀ m ∈ g.nds, pos (g.addNd p).2 m = pos g m := fun m hm => by
      rw [pos, pos]
      change (Function.update g.npl g.nextNd p m).geom = _
      rw [Function.update_of_ne (Nat.ne_of_lt (hproper.live.handed m hm))]
    refine ⟨fun e he => ?_, h.level_lt⟩
    have hends := hproper.live.ends e he
    change Spanned geo (pos (g.addNd p).2 e.getFrom) (pos (g.addNd p).2 e.getTo) (g.pl e).data.length
    rw [hpos _ hends.1, hpos _ hends.2]
    exact h.length e he
  | @split st e he s =>
    obtain ⟨ne, nf, hhalves, hgraph, -⟩ := splitEdge_spec geo st.2 s hproper.live he
    have hpos : ∀ m ∈ st.1.nds, pos (splitEdge geo st e s).1 m = pos st.1 m := fun m hm => by
      rw [pos, pos, hgraph.npl, Function.update_of_ne (Nat.ne_of_lt (hproper.live.handed m hm))]
    have hmid : pos (splitEdge geo st e s).1 st.1.nextNd = s.geom := by
      rw [pos, hgraph.npl, Function.update_self]
    have hends := hproper.live.ends e he
    constructor
    · intro x hx
      by_cases hne : x = ne
      · rw [hne, hgraph.first, hhalves.first.1, hhalves.first.2, hmid, hpos _ hends.1]
        exact (Spanned.segment s.geom (pos st.1 e.getFrom)).symm hsymm
      · by_cases hnf : x = nf
        · rw [hnf, hgraph.second, hhalves.second.1, hhalves.second.2, hmid, hpos _ hends.2]
          exact Spanned.segment _ _
        · have hold := ((hgraph.edges x).1 hx).resolve_right fun h => h.elim hne hnf
          have hx := hproper.live.ends x hold.1
          rw [hgraph.other x hne hnf, hpos _ hx.1, hpos _ hx.2]
          exact h.length x hold.1
    · intro x hx
      by_cases hne : x = ne
      · rw [hne, hgraph.first]
        exact h.level_lt e he
      · by_cases hnf : x = nf
        · rw [hnf, hgraph.second]
          exact h.level_lt e he
        · have hold := ((hgraph.edges x).1 hx).resolve_right fun h => h.elim hne hnf
          rw [hgraph.other x hne hnf]
          exact h.level_lt x hold.1

theorem snapSteps_surveyed (hsteps : SnapSteps geo st st') (hproper : st.1.Proper)
    (h : Surveyed geo st.1) : Surveyed geo st'.1 := by
  have hrun : st'.1.Proper ∧ Surveyed geo st'.1 := by
    induction hsteps with
    | refl => exact ⟨hproper, h⟩
    | tail _ hstep ih => exact ⟨hstep.proper ih.1, hstep.surveyed hsymm ih.1 ih.2⟩
  exact hrun.2

end snapping

section run
variable {P L : Type*} [AddCommMonoid L] [LinearOrder L] (C : CleanUp P L) {st : Stations P L}
  (hsymm : ∀ p q, C.geo.webMercMeterDist p q = C.geo.webMercMeterDist q p)
include hsymm

theorem CleanUp.snapStations_surveyed (restor : Restrictor) (hproper : st.g.Proper)
    (h : LevelsBelow st.g) : Surveyed C.geo (C.snapStations st restor).st.g :=
  snapSteps_surveyed hsymm (C.snapStations_steps restor hproper).2 (C.fixGaps_proper hproper)
    (writeGeometries_surveyed C.geo (Trgraph.fixGaps_proper C.geo C.cells hproper)
      (fixGaps_levels C.geo C.cells h))

variable {G D : Type*} {g : Graph P L G D}

theorem CleanUp.simplify_surveyed (hproper : g.Proper) (h : Surveyed C.geo g) :
    Surveyed C.geo (C.simplify g) := by
  have hcollapsed := collapseEdges_surveyed hsymm ((C.deleteOrphans_shrunk g).proper hproper)
    ((C.deleteOrphans_shrunk g).surveyed h)
  exact simplifyGeometries_surveyed C.tolerance
    ((C.deleteOrphans_shrunk _).proper (C.collapse_proper g hproper))
    ((C.deleteOrphans_shrunk _).surveyed hcollapsed)

theorem CleanUp.run_surveyed (restor : Restrictor) (hproper : st.g.Proper)
    (h : LevelsBelow st.g) : Surveyed C.geo (C.run st restor).1 := by
  have hsnap := (C.snapStations_steps restor hproper).1
  have hsurveyed := C.simplify_surveyed hsymm hsnap (C.snapStations_surveyed hsymm restor hproper h)
  exact mirrored_surveyed hsymm (writeODirEdgs_mirrored
    (fun e he => ((C.simplify_proper hsnap).live.ends e he).1) _) hsurveyed

end run

end Pfaedle.Trgraph

namespace Pfaedle.Components
open DirGraphs ODirEdges Restriction LoopRules Trgraph

section levels
variable {P L G D : Type*} {g : Graph P L G D} {w : WrittenComponents}

/-- The components depend on the edges and their levels only. -/
theorem Classified.withPl (h : Classified g w) {q : Edge → Payload P L}
    (hq : ∀ e ∈ g.edges, (q e).data.level = (g.pl e).data.level) : Classified (g.withPl q) w := by
  have hlevels : ∀ n, levels (g.withPl q) n = levels g n := by
    intro n
    unfold levels
    congr 1
    ext l
    constructor
    · intro hl
      obtain ⟨e, he, hjoined, hlevel⟩ := hl
      exact ⟨e, he, hjoined, (hq e he).symm.trans hlevel⟩
    · intro hl
      obtain ⟨e, he, hjoined, hlevel⟩ := hl
      exact ⟨e, he, hjoined, (hq e he).trans hlevel⟩
  exact ⟨h.bound, h.joined, h.used, fun n hn c hc => hlevels n ▸ h.least n hn c hc⟩

variable [Zero L]

/-- An edge of the routing graph stays in a component, and none but loops is below its least
    level. -/
theorem Classified.routing (hlive : g.Live) (h : Classified g w)
    (hall : ∀ n ∈ g.nds, ∃ c, w.component n = some c) (restor : Restrictor) {e : Edge}
    (he : e ∈ (writeSelfEdgs (writeODirEdgs g restor).1).edges) :
    ∃ c, w.component e.getFrom = some c ∧ w.component e.getTo = some c ∧
      (e.getFrom ≠ e.getTo →
        w.minEdgeLvl c ≤ ((writeSelfEdgs (writeODirEdgs g restor).1).pl e).data.level) := by
  have hedge := (writeSelfEdgs_within (writeODirEdgs_within hlive restor)).edges e he
  obtain ⟨c, hc⟩ := hall _ hedge.1
  refine ⟨c, hc, (h.component_eq hlive hall hedge.1 hedge.2).trans hc, fun hne => ?_⟩
  have hlooped := writeSelfEdgs_looped (writeODirEdgs g restor).1
  have hmirror := writeODirEdgs_mirrored (fun x hx => (hlive.ends x hx).1) restor
  by_cases hdirs : e ∈ (writeODirEdgs g restor).1.edges
  · rw [(hlooped.old e hdirs).2]
    by_cases hold : e ∈ g.edges
    · rw [(hmirror.old e hold).2]
      exact (h.least _ hedge.1 c hc).2 (Or.inr ⟨e, hold, Relation.ReflTransGen.refl, rfl⟩)
    · obtain ⟨y, hy, hopp, hpl⟩ := hmirror.new e hdirs hold
      rw [hpl, EdgePayload.revCopy_data]
      refine (h.least _ hedge.1 c hc).2 (Or.inr ⟨y, hy, ?_, rfl⟩)
      rw [hopp.1]
      exact Relation.ReflTransGen.single (adjacent_of_edge hy).symm
  · exact absurd (hlooped.new e he hdirs).1 hne

/-- The components are written before the lines are simplified. -/
theorem run_components {P L : Type*} [AddCommMonoid L] [LinearOrder L] (C : CleanUp P L)
    {st : Stations P L} (restor : Restrictor) (hproper : st.g.Proper) :
    let w := writeComponents (C.deleteOrphans (C.collapse (C.snapStations st restor).st.g))
      fun _ => none
    let g := writeSelfEdgs (C.run st restor).1
    ∀ e ∈ g.edges, ∃ c, w.component e.getFrom = some c ∧ w.component e.getTo = some c ∧
      (e.getFrom ≠ e.getTo → w.minEdgeLvl c ≤ (g.pl e).data.level) := by
  have hsnap := (C.snapStations_steps restor hproper).1
  unfold CleanUp.run
  generalize C.snapStations st restor = s at hsnap ⊢
  have hcut := (C.deleteOrphans_shrunk _).proper (C.collapse_proper _ hsnap)
  unfold CleanUp.simplify
  dsimp only
  generalize C.deleteOrphans (C.collapse s.st.g) = cut at hcut ⊢
  obtain ⟨q, hq, hdata⟩ := simplifyGeometries_spec C.geo C.tolerance hcut
  obtain ⟨hclass, hall⟩ := writeComponents_classified hcut.live
    (show ∀ n ∈ cut.nds, (fun _ => none : ℕ → Option ℕ) n = none from fun _ _ => rfl)
  have hlevels := hclass.withPl (q := q) fun e he => by
    rw [hdata e he]
    rfl
  rw [hq]
  exact fun e he => hlevels.routing (hcut.withPl q).live hall _ he

end levels

section loops
variable {P L G D : Type*} [AddCommMonoid L] {geo : Geo P L} {g : Graph P L G D}

theorem writeSelfEdgs_surveyed (h : Surveyed geo g) :
    (∀ e ∈ (writeSelfEdgs g).edges, let len := ((writeSelfEdgs g).pl e).data.length
      e.getFrom = e.getTo ∧ len = 0 ∨
        Spanned geo (pos (writeSelfEdgs g) e.getFrom) (pos (writeSelfEdgs g) e.getTo) len) ∧
      LevelsBelow (writeSelfEdgs g) := by
  have hlooped := writeSelfEdgs_looped g
  constructor
  · intro e he
    rw [pos, pos, hlooped.npl]
    by_cases hold : e ∈ g.edges
    · rw [(hlooped.old e hold).2]
      exact Or.inr (h.length e hold)
    · have hnew := hlooped.new e he hold
      rw [hnew.2]
      exact Or.inl ⟨hnew.1, rfl⟩
  · intro e he
    by_cases hold : e ∈ g.edges
    · rw [(hlooped.old e hold).2]
      exact h.level_lt e hold
    · rw [(hlooped.new e he hold).2]
      exact Nat.zero_lt_succ 7

end loops

end Pfaedle.Components

namespace Pfaedle.OsmBuilder
open DirGraphs Osm Restriction ODirEdges ReadEdges BoundingBoxes Trgraph Components Router

section graded
variable {C : Type} [Field C] [LinearOrder C] (r : ReadSetup C) (doc : List (XmlElement C))

/-- The edges of a graph that `read` has built. -/
structure Routable (geo : Geo (C × C) C) (out : ReadGraph C) : Prop where
  length : ∀ e ∈ out.g.edges, e.getFrom = e.getTo ∧ (out.g.pl e).data.length = 0 ∨
    Spanned geo (pos out.g e.getFrom) (pos out.g e.getTo) (out.g.pl e).data.length
  level_lt : LevelsBelow out.g
  component : ∀ e ∈ out.g.edges, ∃ c, out.comps.component e.getFrom = some c ∧
    out.comps.component e.getTo = some c ∧
    (e.getFrom ≠ e.getTo → out.comps.minEdgeLvl c ≤ (out.g.pl e).data.level)

omit [LinearOrder C] in
theorem routable_empty (geo : Geo (C × C) C) : Routable geo .empty where
  length _ he := absurd he List.not_mem_nil
  level_lt _ he := absurd he List.not_mem_nil
  component _ he := absurd he List.not_mem_nil

theorem ReadSetup.readDoc_routable (hsymm : ∀ p q,
      r.snapper.geo.webMercMeterDist p q = r.snapper.geo.webMercMeterDist q p) :
    Routable r.snapper.geo.toGeo (r.readDoc doc) := by
  have hstart := r.stations_proper doc
  have hrun := (r.cleanUp doc).run_surveyed hsymm (r.built doc).restor hstart.1 hstart.2
  have hcomps := run_components (r.cleanUp doc) (r.built doc).restor hstart.1
  have hself := writeSelfEdgs_surveyed hrun
  rw [show (r.cleanUp doc).geo = r.snapper.geo.toGeo from rfl] at hself
  unfold ReadSetup.readDoc
  dsimp only at hcomps ⊢
  generalize (r.cleanUp doc).run (r.stations doc) (r.built doc).restor = dirs at hself hcomps ⊢
  generalize writeComponents _ _ = w at hcomps ⊢
  exact ⟨hself.1, hself.2, hcomps⟩

theorem ReadSetup.read_routable (hsymm : ∀ p q,
      r.snapper.geo.webMercMeterDist p q = r.snapper.geo.webMercMeterDist q p) :
    Routable r.snapper.geo.toGeo (r.read doc) := by
  unfold ReadSetup.read
  split
  · exact routable_empty _
  · exact r.readDoc_routable doc hsymm

variable {r doc}

/-- Under a metric, and where no length is below the distance of its ends, the heuristic is
admissible on a graph that has been read. -/
theorem Routable.graded {geo : Geo (C × C) C} {out : ReadGraph C} (h : Routable geo out)
    {S : Setting ℕ Edge C} (hg : S.g = transitGraph id id id out.g out.comps)
    (hdist : S.webMercMeterDist = geo.webMercMeterDist) (hopts : NonnegOptions S.rOpts)
    (hpunish : ∀ l l', l ≤ l' → l' < 8 → S.rOpts.levelPunish l ≤ S.rOpts.levelPunish l')
    (hnonneg : ∀ p q, 0 ≤ geo.webMercMeterDist p q)
    (htriangle : ∀ p q s, geo.webMercMeterDist p s ≤
      geo.webMercMeterDist p q + geo.webMercMeterDist q s)
    (hlength : ∀ e ∈ out.g.edges, geo.webMercMeterDist (pos out.g e.getFrom) (pos out.g e.getTo) ≤
      (out.g.pl e).data.length) : Graded S := by
  constructor
  · exact hopts
  · exact hpunish
  · rw [hdist]
    exact hnonneg
  · rw [hdist]
    exact htriangle
  · rw [hg, hdist]
    exact hlength
  · rw [hg]
    exact h.level_lt
  · rw [hg]
    intro e he hne
    obtain ⟨c, hfrom, -, hlevel⟩ := h.component e he
    change out.comps.minEdgeLvl ((out.comps.component e.getFrom).getD 0) ≤ _
    rw [hfrom]
    exact hlevel hne
  · rw [hg]
    intro e he
    obtain ⟨c, hfrom, hto, -⟩ := h.component e he
    change (out.comps.component e.getTo).getD 0 = (out.comps.component e.getFrom).getD 0
    rw [hfrom, hto]

theorem Routable.near [IsStrictOrderedRing C] {geo : Geo (C × C) C} {out : ReadGraph C}
    (h : Routable geo out) {u : C} (hlow : 0 ≤ u) (hhigh : u ≤ 1) (hround : Rounds geo u)
    (hnonneg : ∀ p q, 0 ≤ geo.webMercMeterDist p q) {e : Edge} (he : e ∈ out.g.edges) :
    ∃ l, Near geo u (pos out.g e.getFrom) (pos out.g e.getTo) l (out.g.pl e).data.length := by
  cases h.length e he with
  | inl hloop =>
    rw [hloop.1, hloop.2]
    exact ⟨[], rfl, by simp [lineLength], by simp [lineLength]⟩
  | inr hspan =>
    obtain ⟨l, -, hnear⟩ := hspan.near hlow hhigh hround hnonneg
    exact ⟨l, hnear⟩

/-- Whatever the document, an edge is as long as a line between its ends, up to one rounding a
segment of it, has a level with a punishment, and leads to a node of its component, whose least
level it does not fall below. -/
theorem ReadSetup.read_graded [IsStrictOrderedRing C] (r : ReadSetup C) (doc : List (XmlElement C))
    (hsymm : ∀ p q,
      r.snapper.geo.webMercMeterDist p q = r.snapper.geo.webMercMeterDist q p) :
    let out := r.read doc
    let geo := r.snapper.geo.toGeo
    (∀ e ∈ out.g.edges,
      (e.getFrom = e.getTo ∧ (out.g.pl e).data.length = 0 ∨
        Spanned geo (pos out.g e.getFrom) (pos out.g e.getTo) (out.g.pl e).data.length) ∧
      (out.g.pl e).data.level < 8 ∧
      ∃ c, out.comps.component e.getFrom = some c ∧ out.comps.component e.getTo = some c ∧
        (e.getFrom ≠ e.getTo → out.comps.minEdgeLvl c ≤ (out.g.pl e).data.level)) ∧
    (∀ u, 0 ≤ u → u ≤ 1 → Rounds geo u → (∀ p q, 0 ≤ geo.webMercMeterDist p q) →
      ∀ e ∈ out.g.edges, ∃ l,
        Near geo u (pos out.g e.getFrom) (pos out.g e.getTo) l (out.g.pl e).data.length) ∧
    ∀ S : Setting ℕ Edge C, S.g = transitGraph id id id out.g out.comps →
      S.webMercMeterDist = geo.webMercMeterDist → NonnegOptions S.rOpts →
      (∀ l l', l ≤ l' → l' < 8 → S.rOpts.levelPunish l ≤ S.rOpts.levelPunish l') →
      (∀ p q, 0 ≤ geo.webMercMeterDist p q) →
      (∀ p q s, geo.webMercMeterDist p s ≤ geo.webMercMeterDist p q + geo.webMercMeterDist q s) →
      (∀ e ∈ out.g.edges, geo.webMercMeterDist (pos out.g e.getFrom) (pos out.g e.getTo) ≤
        (out.g.pl e).data.length) →
      Graded S := by
  have h := r.read_routable doc hsymm
  exact ⟨fun e he => ⟨h.length e he, h.level_lt e he, h.component e he⟩,
    fun u hlow hhigh hround hnonneg e he => h.near hlow hhigh hround hnonneg he,
    fun S hg hdist hopts hpunish hnonneg htriangle hlength =>
      h.graded hg hdist hopts hpunish hnonneg htriangle hlength⟩

end graded

section samples

def blockDist (p q : ℚ × ℚ) : ℚ := |p.1 - q.1| + |p.2 - q.2|

def clamp (p q x : ℚ) : ℚ := max (min p q) (min x (max p q))

def onStreet (p x q : ℚ × ℚ) : ℚ × ℚ := (clamp p.1 q.1 x.1, clamp p.2 q.2 x.2)

def blockSnapper : Snapper (ℚ × ℚ) ℚ where
  geo :=
    { webMercMeterDist := blockDist
      toFloat := id
      gap := fun _ => 1 / 1000
      angSmaller := fun _ _ _ => false
      distToSegment := fun p q x => blockDist x (onStreet p x q)
      projectOn := onStreet
      fullTurn := fun _ _ _ => false
      edgeDist := fun p q x => blockDist x (onStreet p x q)
      inGrid := fun p => 0 ≤ p.1 ∧ p.1 ≤ 1 ∧ 0 ≤ p.2 ∧ p.2 ≤ 1
      edgeInGrid := fun _ => true }
  opts := ⟨[1 / 2], 1, 1, 1, 7, 1 / 1000⟩
  statSimi a b := a = b
  statNormzer := id
  trackNormzer := id
  nodeQueue := PriorityQueue.leastFirst NodeCand.dist _ fun _ _ h => h
  edgeQueue := PriorityQueue.leastFirst Prod.fst _ fun _ _ h => h
  addr := id
  import_osm_stations := false

def railSetup : ReadSetup ℚ where
  norm := fun _ s => s
  iter := id
  latLngToWebMerc lat lng := (lng, lat)
  snapper := blockSnapper
  bbox := unitBox
  opts := railOptions
  uninit _ := 0
  line _ := 0
  trackOrder := id
  cells _ _ := []
  stops _ := ⟨(1 / 2, 1 / 4), "Oper", "", none⟩
  keys := [7]
  tolerance := 0

def ringTrack : List (XmlElement ℚ) :=
  trackNodes ++ [⟨"node", 4, 1, 0, [], [], []⟩, track 5 "rail" [1, 2, 3, 4, 1]]

def ringSetting : Setting ℕ Edge ℚ where
  g := transitGraph id id id (railSetup.read ringTrack).g (railSetup.read ringTrack).comps
  rOpts := ⟨0, 1, 0, 0, 0, 0, 0, 0, fun l => l + 1, true, false⟩
  may _ _ _ := true
  simi _ _ := 0
  webMercMeterDist := blockDist
  innerProd _ _ _ := 0
  caching := false
  pq := EDijkstra.routeQueue
  edgeSet := .dedup
  candPq := EDijkstra.routeQueue
  candSet := .dedup

theorem blockDist_symm (p q : ℚ × ℚ) : blockDist p q = blockDist q p := by
  unfold blockDist
  rw [abs_sub_comm p.1, abs_sub_comm p.2]

theorem blockDist_triangle (p q s : ℚ × ℚ) : blockDist p s ≤ blockDist p q + blockDist q s := by
  have hfst := abs_sub_le p.1 q.1 s.1
  have hsnd := abs_sub_le p.2 q.2 s.2
  unfold blockDist
  linarith

theorem ringSetting_graded : Graded ringSetting := by
  have hlengths := railSetup.read_graded ringTrack blockDist_symm
  refine hlengths.2.2 ringSetting rfl rfl ?_ ?_ ?_ blockDist_triangle ?_
  · exact ⟨by decide, by decide, by decide, by decide, by decide, by decide, by decide,
      fun l => by simp only [ringSetting]; positivity⟩
  · intro l l' hl _
    simp only [ringSetting]
    gcongr
  · intro p q
    exact add_nonneg (abs_nonneg _) (abs_nonneg _)
  · intro e he
    cases (hlengths.1 e he).1 with
    | inl hloop =>
      rw [hloop.1, hloop.2]
      change blockDist _ _ ≤ 0
      simp [blockDist]
    | inr hspan => exact hspan.dist_le (fun _ => le_rfl) blockDist_triangle

end samples

end Pfaedle.OsmBuilder

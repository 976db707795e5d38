import Pfaedle.SnapInvariant
import Mathlib.Algebra.Order.Ring.Nat

set_option autoImplicit false

/-!
# Every stop is found after snapping

A stop carries the group of the station whose info it has imported from one snap distance to the
next. Where it is imported again each time, that is the group of some node when the stop is placed,
and it is imported again where the grid covers the streets.
-/
namespace Pfaedle.Trgraph
open DirGraphs Restriction ODirEdges LoopRules

section rounds
variable {P L : Type*} [AddCommMonoid L] [LinearOrder L] {S : Snapper P L} {covered : Prop}
  {s s' : SnapState P L}

/-- The stop carries no group, or one that has a node, where no station is in reach of the place to
which it has been moved. -/
def Reimported (S : Snapper P L) (s : SnapState P L) (pl : StationPayload P) : Prop :=
  S.import_osm_stations = true →
    (∀ n ∈ s.sng,
      S.opts.maxSnapFallbackHeurDistance ≤ S.geo.webMercMeterDist (pos s.st.g n) pl.geom) →
    GroupCurrent s.st pl.si

theorem Reimported.current {pl : StationPayload P} (h : Reimported S s pl)
    (hinv : SnapInv S covered s)
    (himports : ∀ G, pl.si.group = some G → S.import_osm_stations = true) :
    GroupCurrent s.st (imported S s pl).si ∧
      ∀ G, (imported S s pl).si.group = some G → S.import_osm_stations = true := by
  obtain ⟨hsome, hnone⟩ := importFrom_spec (S := S) (s := s) pl
  unfold Trgraph.imported
  cases himport : importFrom S s pl with
  | none =>
    refine ⟨fun G hG => ?_, himports⟩
    have hmode := himports G hG
    exact h hmode (fun n hn => hnone himport hmode n hn (hinv.sng n hn).2) G hG
  | some found =>
    obtain ⟨best, si⟩ := found
    obtain ⟨hmode, hbest, hsi, -⟩ := hsome best si himport
    exact ⟨groupCurrent_of_getSi (hinv.sng best hbest).1 hsi, fun _ _ => hmode⟩

/-- A payload with a group has got it from a station, and there is one in reach. -/
def Anchored (S : Snapper P L) (s : SnapState P L) (pl : StationPayload P) : Prop :=
  ∀ G, pl.si.group = some G → S.import_osm_stations = true ∧ ∃ b ∈ s.sng,
    S.geo.webMercMeterDist (pos s.st.g b) pl.geom < S.opts.maxSnapFallbackHeurDistance

theorem Anchored.mono {pl : StationPayload P} (h : Anchored S s pl) (hinv : SnapInv S covered s)
    (hgrows : SnapGrows S s s') : Anchored S s' pl := by
  intro G hG
  obtain ⟨himport, b, hb, hlt⟩ := h G hG
  refine ⟨himport, b, hgrows.sng b hb, ?_⟩
  rw [(hgrows.nds b (hinv.sng b hb).1).2]
  exact hlt

omit [AddCommMonoid L] in
theorem Anchored.imported {pl : StationPayload P} (h : Anchored S s pl) :
    Anchored S s (imported S s pl) := by
  obtain ⟨hsome, -⟩ := importFrom_spec (S := S) (s := s) pl
  unfold Trgraph.imported
  cases himport : importFrom S s pl with
  | none => exact h
  | some found =>
    obtain ⟨best, si⟩ := found
    obtain ⟨hmode, hbest, -, hlt⟩ := hsome best si himport
    exact fun G _ => ⟨hmode, best, hbest, hlt⟩

omit [AddCommMonoid L] in
/-- An anchored payload is imported again. -/
theorem Anchored.reimported {pl : StationPayload P} (h : Anchored S s pl) : Reimported S s pl := by
  intro _ hfar G hG
  obtain ⟨-, b, hb, hlt⟩ := h G hG
  exact absurd hlt (not_lt.2 (hfar b hb))

theorem splitAt_anchored {r : SnapRun P L} (hinv : SnapInv S covered r.s) (h : Anchored S r.s r.pl)
    (hcov : covered) {e : Edge} (he : e ∈ r.s.st.g.edges) {geom : P}
    (hgeom : S.geo.inGrid geom) :
    Anchored S (splitAt S r e geom).s (splitAt S r e geom).pl := by
  intro G hG
  obtain ⟨hmode, b, hb, hlt⟩ := h G hG
  refine ⟨hmode, r.s.st.g.nextNd, ?_, ?_⟩
  · change _ ∈ (if S.geo.inGrid geom then setInsert S.addr r.s.st.g.nextNd r.s.sng else r.s.sng)
    rw [if_pos hgeom]
    exact mem_setInsert.2 (Or.inl rfl)
  · obtain ⟨ne, nf, -, hgraph, -⟩ :=
      splitEdge_spec S.geo.toGeo r.s.restor ⟨geom, some r.pl.si⟩ hinv.proper.live he
    rw [splitAt_g, hgraph.pos, if_pos rfl]
    change S.geo.webMercMeterDist geom geom < _
    rw [(hinv.grid hcov).self]
    exact lt_of_le_of_lt (hinv.nonneg hcov _ _) hlt

theorem snapEdge_anchored {r : SnapRun P L} (hinv : SnapInv S covered r.s)
    (hcov : covered) (hcur : GroupCurrent r.s.st r.pl.si) (h : Anchored S r.s r.pl) {e : Edge}
    (he : e ∈ r.s.st.g.edges) (maxD : L) (orphSnap : Bool) :
    Anchored S (snapEdge S maxD orphSnap r e).s (snapEdge S maxD orphSnap r e).pl := by
  have hstart : RunInv S covered r.s ⟨r.s, r.pl, []⟩ :=
    ⟨hinv, SnapGrows.refl S r.s, hcur, fun n hn => absurd hn List.not_mem_nil⟩
  obtain ⟨hfrom, hto⟩ := hinv.proper.live.ends e he
  have hplace : ∀ n ∈ r.s.st.g.nds, (getSi r.s.st n).isNone →
      Anchored S (placeAt S r n).s r.pl := by
    intro n hn hnone
    have hrun : RunInv S covered r.s (placeAt S ⟨r.s, r.pl, []⟩ n) :=
      placeAt_inv hstart hn (Option.isNone_iff_eq_none.1 hnone)
    exact h.mono hinv hrun.grows
  unfold snapEdge
  dsimp only
  split
  · rename_i eq heq
    have hmem : eq ∈ r.s.st.g.nds := depth_search_mem hinv.proper.live he heq
    have hrun : RunInv S covered r.s (takeEq S ⟨r.s, r.pl, []⟩ eq) := takeEq_inv hstart hmem
    exact h.mono hinv hrun.grows
  · split
    · exact h
    · split
      · exact h
      · split
        · rename_i hplain
          exact hplace _ hfrom hplain.1
        · split
          · rename_i hplain
            exact hplace _ hto hplain.1
          · have hgrid := hinv.grid hcov
            exact splitAt_anchored hinv h hcov he
              (hgrid.convex _ _ _ (hgrid.inside e he).1 (hgrid.inside e he).2)

theorem snapEdge_si (S : Snapper P L) (maxD : L) (orphSnap : Bool) (r : SnapRun P L) (e : Edge) :
    (snapEdge S maxD orphSnap r e).pl.si = r.pl.si := by
  unfold snapEdge
  dsimp only
  split
  · rfl
  · split_ifs
    all_goals rfl

theorem snapGroup_spec (hinv : SnapInv S covered s) (pl : StationPayload P) (maxD : L)
    (surHeur orphSnap : Bool) (hcur : GroupCurrent s.st (imported S s pl).si) :
    SnapInv S covered (snapGroup S maxD surHeur orphSnap s pl).2.s ∧
      SnapGrows S s (snapGroup S maxD surHeur orphSnap s pl).2.s ∧
      (∀ G, (snapGroup S maxD surHeur orphSnap s pl).1 = some G →
        Current (snapGroup S maxD surHeur orphSnap s pl).2.s.st G) ∧
      (snapGroup S maxD surHeur orphSnap s pl).2.pl.si = (imported S s pl).si ∧
      (covered → Anchored S s (imported S s pl) →
        Anchored S (snapGroup S maxD surHeur orphSnap s pl).2.s
          (snapGroup S maxD surHeur orphSnap s pl).2.pl) := by
  obtain ⟨hrun, hsi, hanchor⟩ := snap_station_inv hinv pl maxD surHeur orphSnap hcur
    (fun r => r.pl.si = (imported S s pl).si ∧
      (covered → Anchored S s (imported S s pl) → Anchored S r.s r.pl))
    ⟨rfl, fun _ h => h⟩
    fun r e hr he hQ => ⟨(snapEdge_si S maxD orphSnap r e).trans hQ.1, fun hcov hstart =>
      snapEdge_anchored hr.inv hcov hr.group (hQ.2 hcov hstart) he maxD orphSnap⟩
  unfold snapGroup
  dsimp only
  obtain ⟨hre, hG⟩ := groupStats_spec S.addr (snap_station S maxD surHeur orphSnap s pl).ret
    hrun.inv.linked hrun.ret
  obtain ⟨hinv', hgrows⟩ := hrun.inv.regroup hre
  exact ⟨hinv', hrun.grows.trans hgrows, hG, hsi,
    fun hcov h => (hanchor hcov h).mono hrun.inv hgrows⟩

omit [AddCommMonoid L] [LinearOrder L] in
theorem foldl_setData {st : Stations P L} (hlinked : Linked st) (ns : List ℕ)
    (f : ℕ → StationData → StationData) (test : Graph P L ℕ StationData → ℕ → Bool) :
    Regrouped st (ns.foldl (fun st n => if test st.g n then setData n (f n) st else st) st) ∧
      ∀ m H, InGroup st m H →
        InGroup (ns.foldl (fun st n => if test st.g n then setData n (f n) st else st) st) m H := by
  induction ns generalizing st with
  | nil => exact ⟨Regrouped.refl hlinked, fun _ _ => id⟩
  | cons n ns ih =>
    have hstep : Regrouped st (if test st.g n then setData n (f n) st else st) ∧
        ∀ m H, InGroup st m H → InGroup (if test st.g n then setData n (f n) st else st) m H := by
      split
      · exact setData_regrouped n (f n) hlinked
      · exact ⟨Regrouped.refl hlinked, fun _ _ => id⟩
    obtain ⟨hrest, hin⟩ := ih hstep.1.linked
    exact ⟨hstep.1.trans hrest, fun m H h => hin m H (hstep.2 m H h)⟩

theorem snapOrphan_spec (hinv : SnapInv S covered s) {o : ℕ} (ho : o ∈ s.st.g.nds) (d : L) :
    SnapInv S covered (snapOrphan S d s o) ∧ SnapGrows S s (snapOrphan S d s o) := by
  unfold snapOrphan
  cases hsi : getSi s.st o with
  | none => exact ⟨hinv, SnapGrows.refl S s⟩
  | some si =>
    dsimp only
    generalize hpl : (⟨pos s.st.g o, { si with data := setFromOsm false si.data }⟩ :
      StationPayload P) = pl
    have hcur : GroupCurrent s.st (imported S s pl).si := by
      unfold imported
      cases himport : importFrom S s pl with
      | none =>
        have hown : GroupCurrent s.st si := groupCurrent_of_getSi ho hsi
        rw [← hpl]
        exact hown
      | some found =>
        obtain ⟨best, si'⟩ := found
        obtain ⟨-, hbest, hsi', -⟩ := (importFrom_spec pl).1 best si' himport
        exact groupCurrent_of_getSi (hinv.sng best hbest).1 hsi'
    obtain ⟨hinv', hgrows, -, -, -⟩ := snapGroup_spec hinv pl d false false hcur
    generalize snapGroup S d false false s pl = run at hinv' hgrows
    have hdata := (foldl_setData hinv'.linked run.2.ret (fun _ => setFromOsm true) fun g n =>
      S.geo.webMercMeterDist (pos s.st.g o) (pos g n) < S.opts.maxOsmStationDistance).1
    simp only [decide_eq_true_eq] at hdata
    obtain ⟨hinv'', hgrows'⟩ := hinv'.regroup hdata
    exact ⟨hinv'', hgrows.trans hgrows'⟩

structure StopInv (S : Snapper P L) (covered : Prop) (s₀ : SnapState P L) (fs₀ : ℕ → Option ℕ)
    (stop : ℕ) (r : StopRun P L) : Prop where
  inv : SnapInv S covered r.s
  grows : SnapGrows S s₀ r.s
  imports : ∀ G, r.pl.si.group = some G → S.import_osm_stations = true
  anchored : covered → Anchored S r.s r.pl
  others : ∀ t, t ≠ stop → r.fs t = fs₀ t
  found : r.snapped = true → ∃ v, r.fs stop = some v ∧ FoundAt r.s.st stop v

theorem joinGroup_spec {s₀ : SnapState P L} {fs₀ : ℕ → Option ℕ} {stop : ℕ} {r : StopRun P L}
    (hinv : SnapInv S covered r.s) (hgrows : SnapGrows S s₀ r.s)
    (himports : ∀ G, r.pl.si.group = some G → S.import_osm_stations = true)
    (hanchor : covered → Anchored S r.s r.pl) (hothers : ∀ t, t ≠ stop → r.fs t = fs₀ t) {G : ℕ} (hG : Current r.s.st G) (orphSnap : Bool) :
    StopInv S covered s₀ fs₀ stop (joinGroup S orphSnap stop G r) := by
  obtain ⟨hre, howned, hfound⟩ :=
    addStop_spec S.addr (s := stop) hinv.linked (hinv.linked.owned hG)
  obtain ⟨n, hn⟩ := hG
  obtain ⟨G', hn', -⟩ := hfound n hn
  have hnG : InGroup (addStop S.addr G stop r.s.st) n G := ⟨hn.mem, hn.group⟩
  have hlist := hre.linked.listed hnG
  have hdata : Regrouped r.s.st (joinGroup S orphSnap stop G r).s.st ∧ ∀ v,
      InGroup r.s.st v G → FoundAt (joinGroup S orphSnap stop G r).s.st stop v := by
    unfold joinGroup
    dsimp only
    split
    · have hfold := (foldl_setData hre.linked ((addStop S.addr G stop r.s.st).groups G).nodes
        (fun _ data => { data with altNames := data.altNames ++ [r.pl.si.data.name] })
        fun _ _ => true).1
      simp only [if_true] at hfold
      exact ⟨hre.trans hfold, fun v hv => hfold.found stop v (hfound v hv)⟩
    · exact ⟨hre, hfound⟩
  obtain ⟨hinv', hgrows'⟩ := hinv.regroup hdata.1
  refine ⟨hinv', hgrows.trans hgrows', himports, fun hcov => (hanchor hcov).mono hinv hgrows', ?_, ?_⟩
  · intro t ht
    exact (Function.update_of_ne ht _ _).trans (hothers t ht)
  · intro _
    cases hnodes : ((addStop S.addr G stop r.s.st).groups G).nodes with
    | nil =>
      rw [hnodes] at hlist
      exact absurd hlist List.not_mem_nil
    | cons v vs =>
      have hv : InGroup (addStop S.addr G stop r.s.st) v G :=
        howned.back v (by rw [hnodes]; exact List.mem_cons_self)
      refine ⟨v, ?_, hdata.2 v ⟨hv.mem, hv.group⟩⟩
      change Function.update r.fs stop _ stop = some v
      rw [Function.update_self, hnodes]
      rfl

theorem snapStopAt_inv {s₀ : SnapState P L} {fs₀ : ℕ → Option ℕ} {stop : ℕ} {r : StopRun P L}
    (h : StopInv S covered s₀ fs₀ stop r) (hre : Reimported S r.s r.pl) (orphSnap : Bool)
    (d : L × ℕ) : StopInv S covered s₀ fs₀ stop (snapStopAt S orphSnap stop r d) := by
  obtain ⟨hcur, himports⟩ := hre.current h.inv h.imports
  obtain ⟨hinv, hgrows, hG, hsi, hanchor⟩ := snapGroup_spec h.inv r.pl d.1
    (d.2 + 1 = S.opts.maxSnapDistances.length) orphSnap hcur
  unfold snapStopAt
  generalize snapGroup S d.1 (d.2 + 1 = S.opts.maxSnapDistances.length) orphSnap r.s r.pl = run
    at hinv hgrows hG hsi hanchor
  obtain ⟨group, run⟩ := run
  dsimp only at hinv hgrows hG hsi hanchor ⊢
  rw [← hsi] at himports
  have hgrown := h.grows.trans hgrows
  have hanchored := fun hcov => hanchor hcov (h.anchored hcov).imported
  cases group with
  | some G =>
    exact joinGroup_spec (r := { r with s := run.s, pl := run.pl }) hinv hgrown himports hanchored
      h.others (hG G rfl) orphSnap
  | none =>
    refine ⟨hinv, hgrown, himports, hanchored, h.others, ?_⟩
    intro hsnapped
    obtain ⟨v, hv, hfound⟩ := h.found hsnapped
    exact ⟨v, hv, hgrows.found stop v hfound⟩

/-- The stop is imported again at every snap distance, or the group that it carries is current. -/
def StopReimports (S : Snapper P L) (orphSnap : Bool) (stops : ℕ → GtfsStop P) (s : SnapState P L)
    (fs : ℕ → Option ℕ) (stop : ℕ) : Prop :=
  FoldMeets (snapStopAt S orphSnap stop) (fun r _ => Reimported S r.s r.pl)
    ⟨s, fs, payload_from_gtfs S (stops stop), false⟩ S.opts.maxSnapDistances.zipIdx

theorem StopInv.start (hinv : SnapInv S covered s) (stops : ℕ → GtfsStop P) (fs : ℕ → Option ℕ)
    (stop : ℕ) :
    StopInv S covered s fs stop ⟨s, fs, payload_from_gtfs S (stops stop), false⟩ := by
  refine ⟨hinv, SnapGrows.refl S s, ?_, ?_, fun _ _ => rfl, fun h => by cases h⟩
  · intro G hG
    cases hG
  · intro _ G hG
    cases hG

theorem snapStop_inv (hinv : SnapInv S covered s) {orphSnap : Bool} {stops : ℕ → GtfsStop P}
    {fs : ℕ → Option ℕ} {stop : ℕ} (hmeets : StopReimports S orphSnap stops s fs stop) :
    StopInv S covered s fs stop (snapStop S orphSnap stops s fs stop) :=
  FoldMeets.foldl_inv (StopInv S covered s fs stop) hmeets (StopInv.start hinv stops fs stop)
    fun _ d _ hre h => snapStopAt_inv h hre orphSnap d

/-- On a covering grid a stop is always imported again. -/
theorem snapStop_reimports (hinv : SnapInv S covered s)
    (hcov : S.import_osm_stations = true → covered) (orphSnap : Bool) (stops : ℕ → GtfsStop P)
    (fs : ℕ → Option ℕ) (stop : ℕ) : StopReimports S orphSnap stops s fs stop := by
  have hmeets := foldl_meets (snapStopAt S orphSnap stop) (fun r _ => Reimported S r.s r.pl)
    (StopInv S covered s fs stop) S.opts.maxSnapDistances.zipIdx
    (StopInv.start hinv stops fs stop) fun r d _ h => by
      have hre : Reimported S r.s r.pl := fun himport =>
        (h.anchored (hcov himport)).reimported himport
      exact ⟨snapStopAt_inv h hre orphSnap d, hre⟩
  exact hmeets.2

theorem SnapInv.joinNew (h : SnapInv S covered s) (p : NodePayload P ℕ StationData) {si : SInfo} {G : ℕ}
    (hG : si.group = some G) (howned : Owned s.st G) {st : Stations P L}
    (hst : st = addToGroup S si s.st.g.nextNd
      (setSi s.st.g.nextNd si { s.st with g := (s.st.g.addNd p).2 })) :
    SnapInv S covered { s with st := st } ∧ SnapGrows S s { s with st := st } ∧
      InGroup st s.st.g.nextNd G := by
  have hfresh : ∀ m ∈ s.st.g.nds, m ≠ s.st.g.nextNd := fun m hm =>
    Nat.ne_of_lt (h.proper.live.handed m hm)
  let st₁ : Stations P L := setSi s.st.g.nextNd si { s.st with g := (s.st.g.addNd p).2 }
  have hg : st.g = st₁.g := by rw [hst, addToGroup_g]
  have hpos : ∀ m ∈ s.st.g.nds, pos st₁.g m = pos s.st.g m := by
    intro m hm
    rw [(sameStreets_setSi s.st.g.nextNd si _).geom]
    change (Function.update s.st.g.npl s.st.g.nextNd _ m).geom = _
    rw [Function.update_of_ne (hfresh m hm)]
    rfl
  have hnds : ∀ m, m ∈ st₁.g.nds ↔ m ∈ s.st.g.nds ∨ m = s.st.g.nextNd := by
    intro m
    change m ∈ s.st.g.nds ++ [s.st.g.nextNd] ↔ _
    rw [List.mem_append, List.mem_singleton]
  have hsi : ∀ m, getSi st₁ m = if m = s.st.g.nextNd then some si else getSi s.st m := by
    intro m
    rw [getSi_setSi]
    split
    · rfl
    · rename_i hm
      change (Function.update s.st.g.npl s.st.g.nextNd _ m).si = _
      rw [Function.update_of_ne hm]
      rfl
  have hjoins : Joins S.addr s.st s.st.g.nextNd (some G) st := by
    rw [hst, ← hG]
    exact addToGroup_joins hnds hsi rfl rfl
  obtain ⟨hlinked, -, hin, hfound⟩ := hjoins.linked h.linked (fun H hin => hfresh _ hin.mem rfl)
    fun H hH => Option.some.inj hH ▸ howned
  refine ⟨⟨?_, hlinked, ?_, ⟨h.eg.1, ?_⟩, ?_, h.nonneg⟩, ⟨?_, ?_, fun _ hn => hn, hfound⟩,
    hin G rfl⟩
  · rw [hg]
    exact (h.proper.addNd _).setNpl _ _
  · intro m hm
    obtain ⟨hmem, hsome⟩ := h.sng m hm
    refine ⟨(hjoins.nds m).2 (Or.inl hmem), ?_⟩
    rw [getSi, hg]
    change (getSi st₁ m).isSome
    rw [hsi, if_neg (hfresh m hmem)]
    exact hsome
  · rw [hg]
    exact h.eg.2
  · intro hmode
    have hgrid := h.grid hmode
    rw [hg]
    refine ⟨hgrid.self, fun e he => ?_, hgrid.convex⟩
    obtain ⟨hfrom, hto⟩ := h.proper.live.ends e he
    rw [hpos _ hfrom, hpos _ hto]
    exact hgrid.inside e he
  · rw [hg]
    have hsame : SameStreets (s.st.g.addNd p).2 st₁.g :=
      sameStreets_setSi s.st.g.nextNd si { s.st with g := (s.st.g.addNd p).2 }
    exact (Relation.ReflTransGen.single (SnapStep.node _ _ _)).tail (SnapStep.info _ hsame)
  · intro m hm
    refine ⟨(hjoins.nds m).2 (Or.inl hm), ?_⟩
    rw [hg]
    exact hpos m hm

theorem giveUp_spec {r : StopRun P L} (hinv : SnapInv S covered r.s) (stop : ℕ) :
    SnapInv S covered (giveUp S stop r).s ∧ SnapGrows S r.s (giveUp S stop r).s ∧
      (∃ v, (giveUp S stop r).fs stop = some v ∧ FoundAt (giveUp S stop r).s.st stop v) ∧
      ∀ t, t ≠ stop → (giveUp S stop r).fs t = r.fs t := by
  obtain ⟨hnew, howned⟩ := newGroup_spec hinv.linked
  obtain ⟨hinv₁, hgrows₁⟩ := hinv.regroup hnew
  let n := r.s.st.g.nextNd
  let p : NodePayload P ℕ StationData := ⟨r.pl.geom, some r.pl.si⟩
  let si : SInfo := { r.pl.si with group := some (newGroup r.s.st).1 }
  let st₁ : Stations P L := { (newGroup r.s.st).2 with g := ((newGroup r.s.st).2.g.addNd p).2 }
  have hset : setGroup n (newGroup r.s.st).1 st₁ = setSi n si st₁ := by
    have hsi : getSi st₁ n = some r.pl.si := by
      change (Function.update (newGroup r.s.st).2.g.npl n p n).si = _
      rw [Function.update_self]
    rw [setGroup, hsi]
  have hstate : (giveUp S stop r).s = { r.s with
      st := addStop S.addr (newGroup r.s.st).1 stop (addToGroup S si n (setSi n si st₁)) } := by
    unfold giveUp
    dsimp only
    rw [← hset]
    rfl
  have hfs : (giveUp S stop r).fs = Function.update r.fs stop (some n) := rfl
  rw [hstate, hfs]
  have hgroup : si.group = some (newGroup r.s.st).1 := rfl
  obtain ⟨hinv₂, hgrows₂, hin⟩ := hinv₁.joinNew p hgroup howned rfl
  obtain ⟨hre, -, hstop⟩ := addStop_spec S.addr (s := stop) hinv₂.linked
    (hinv₂.linked.owned ⟨n, hin⟩)
  obtain ⟨hinv₃, hgrows₃⟩ := hinv₂.regroup hre
  refine ⟨hinv₃, (hgrows₁.trans hgrows₂).trans hgrows₃,
    ⟨n, Function.update_self _ _ _, hstop n hin⟩, ?_⟩
  exact fun t ht => Function.update_of_ne ht _ _

end rounds

section runs
variable {P L : Type*} [AddCommMonoid L] [LinearOrder L] {S : Snapper P L} {covered : Prop}
  {s : SnapState P L}

/-- The stops `done` have been found or put aside. -/
structure StopsInv (S : Snapper P L) (covered : Prop) (s₀ : SnapState P L) (done aside : List ℕ)
    (r : StopsRun P L) : Prop where
  inv : SnapInv S covered r.s
  grows : SnapGrows S s₀ r.s
  found : ∀ t ∈ done, t ∈ aside ∨ ∃ v, r.fs t = some v ∧ FoundAt r.s.st t v

theorem snapNormal_inv (stops : ℕ → GtfsStop P) {s₀ : SnapState P L} {done : List ℕ}
    {r : StopsRun P L} (h : StopsInv S covered s₀ done r.not_snapped r) {stop : ℕ}
    (hmeets : StopReimports S false stops r.s r.fs stop) :
    StopsInv S covered s₀ (stop :: done) (snapNormal S stops r stop).not_snapped
      (snapNormal S stops r stop) := by
  have hrun := snapStop_inv h.inv hmeets
  unfold snapNormal
  generalize snapStop S false stops r.s r.fs stop = run at hrun
  dsimp only
  refine ⟨hrun.inv, h.grows.trans hrun.grows, ?_⟩
  intro t ht
  by_cases heq : t = stop
  · split
    · rename_i hsnapped
      rw [heq]
      exact Or.inr (hrun.found hsnapped)
    · exact Or.inl (List.mem_append_right _ (List.mem_singleton.2 heq))
  · have hold := h.found t ((List.mem_cons.1 ht).resolve_left heq)
    cases hold with
    | inl haside =>
      left
      split
      · exact haside
      · exact List.mem_append_left _ haside
    | inr hfound =>
      obtain ⟨v, hv, hfound⟩ := hfound
      exact Or.inr ⟨v, (hrun.others t heq).trans hv, hrun.grows.found t v hfound⟩

theorem snapAgain_inv (stops : ℕ → GtfsStop P) {s₀ : SnapState P L} {done aside : List ℕ}
    {r : StopsRun P L} {stop : ℕ} (h : StopsInv S covered s₀ done (stop :: aside) r)
    (hmeets : StopReimports S true stops r.s r.fs stop) :
    StopsInv S covered s₀ done aside (snapAgain S stops r stop) := by
  have hrun := snapStop_inv h.inv hmeets
  unfold snapAgain
  generalize snapStop S true stops r.s r.fs stop = run at hrun
  dsimp only
  have hend : SnapInv S covered (if run.snapped then run else giveUp S stop run).s ∧
      SnapGrows S r.s (if run.snapped then run else giveUp S stop run).s ∧
      (∃ v, (if run.snapped then run else giveUp S stop run).fs stop = some v ∧
        FoundAt (if run.snapped then run else giveUp S stop run).s.st stop v) ∧
      ∀ t, t ≠ stop → (if run.snapped then run else giveUp S stop run).fs t = r.fs t := by
    split
    · rename_i hsnapped
      exact ⟨hrun.inv, hrun.grows, hrun.found hsnapped, hrun.others⟩
    · obtain ⟨hinv, hgrows, hfound, hothers⟩ := giveUp_spec hrun.inv stop
      exact ⟨hinv, hrun.grows.trans hgrows, hfound, fun t ht => (hothers t ht).trans (hrun.others t ht)⟩
  generalize (if run.snapped then run else giveUp S stop run) = run' at hend
  obtain ⟨hinv, hgrows, hfound, hothers⟩ := hend
  refine ⟨hinv, h.grows.trans hgrows, ?_⟩
  intro t ht
  by_cases heq : t = stop
  · rw [heq]
    exact Or.inr hfound
  · cases h.found t ht with
    | inl haside => exact Or.inl ((List.mem_cons.1 haside).resolve_left heq)
    | inr hold =>
      obtain ⟨v, hv, hold⟩ := hold
      exact Or.inr ⟨v, (hothers t heq).trans hv, hgrows.found t v hold⟩

theorem foldl_snapNormal (stops : ℕ → GtfsStop P) {s₀ : SnapState P L} (keys : List ℕ)
    {done : List ℕ} {r : StopsRun P L} (h : StopsInv S covered s₀ done r.not_snapped r)
    (hmeets : FoldMeets (snapNormal S stops)
      (fun r stop => StopReimports S false stops r.s r.fs stop) r keys) :
    StopsInv S covered s₀ (keys.reverse ++ done) (keys.foldl (snapNormal S stops) r).not_snapped
      (keys.foldl (snapNormal S stops) r) := by
  induction keys generalizing done r with
  | nil => exact h
  | cons stop keys ih =>
    rw [List.reverse_cons, List.append_assoc]
    exact ih (snapNormal_inv stops h hmeets.1) hmeets.2

theorem foldl_snapAgain (stops : ℕ → GtfsStop P) {s₀ : SnapState P L} {done : List ℕ}
    (aside : List ℕ) {r : StopsRun P L} (h : StopsInv S covered s₀ done aside r)
    (hmeets : FoldMeets (snapAgain S stops)
      (fun r stop => StopReimports S true stops r.s r.fs stop) r aside) :
    StopsInv S covered s₀ done [] (aside.foldl (snapAgain S stops) r) := by
  induction aside generalizing r with
  | nil => exact h
  | cons stop aside ih => exact ih (snapAgain_inv stops h hmeets.1) hmeets.2

theorem foldl_snapNormal_reimports (hcov : S.import_osm_stations = true → covered)
    (stops : ℕ → GtfsStop P) {s₀ : SnapState P L} (keys : List ℕ) {done : List ℕ}
    {r : StopsRun P L} (h : StopsInv S covered s₀ done r.not_snapped r) :
    FoldMeets (snapNormal S stops)
      (fun r stop => StopReimports S false stops r.s r.fs stop) r keys := by
  induction keys generalizing done r with
  | nil => trivial
  | cons stop keys ih =>
    have hmeets := snapStop_reimports h.inv hcov false stops r.fs stop
    exact ⟨hmeets, ih (snapNormal_inv stops h hmeets)⟩

theorem foldl_snapAgain_reimports (hcov : S.import_osm_stations = true → covered)
    (stops : ℕ → GtfsStop P) {s₀ : SnapState P L} {done : List ℕ} (aside : List ℕ)
    {r : StopsRun P L} (h : StopsInv S covered s₀ done aside r) :
    FoldMeets (snapAgain S stops)
      (fun r stop => StopReimports S true stops r.s r.fs stop) r aside := by
  induction aside generalizing r with
  | nil => trivial
  | cons stop aside ih =>
    have hmeets := snapStop_reimports h.inv hcov true stops r.fs stop
    exact ⟨hmeets, ih (snapAgain_inv stops h hmeets)⟩

theorem buildGrids_inv {st : Stations P L} (hproper : st.g.Proper) (hlinked : Linked st)
    (restor : Restrictor) (blockers : List ℕ)
    (hgrid : covered → GridCovers S st.g)
    (hnonneg : covered → ∀ p q, 0 ≤ S.geo.webMercMeterDist p q) :
    SnapInv S covered (buildGrids S st restor blockers) := by
  have hsets : ∀ (ns l : List ℕ), ∀ n ∈ ns.foldl (fun l n => setInsert S.addr n l) l,
      n ∈ ns ∨ n ∈ l := by
    intro ns
    induction ns with
    | nil => exact fun l n hn => Or.inr hn
    | cons m ns ih =>
      intro l n hn
      cases ih _ n hn with
      | inl hmem => exact Or.inl (List.mem_cons_of_mem _ hmem)
      | inr hset =>
        cases mem_setInsert.1 hset with
        | inl heq => exact Or.inl (heq ▸ List.mem_cons_self)
        | inr hl => exact Or.inr hl
  refine ⟨hproper, hlinked, ?_, ⟨hproper.nodup.filter _, fun e he => List.mem_of_mem_filter he⟩,
    hgrid, hnonneg⟩
  intro n hn
  have hmem := (hsets _ _ n hn).resolve_right List.not_mem_nil
  rw [List.mem_filter, decide_eq_true_eq] at hmem
  exact ⟨hmem.1, hmem.2.1⟩

def orphansSnapped (S : Snapper P L) (orphanStations : List ℕ) (st : Stations P L)
    (restor : Restrictor) (blockers : List ℕ) : SnapState P L :=
  S.opts.maxSnapDistances.foldl (fun s d => orphanStations.foldl (snapOrphan S d) s)
    (buildGrids S st restor blockers)

theorem orphansSnapped_inv {st : Stations P L} (hproper : st.g.Proper) (hlinked : Linked st)
    {orphanStations : List ℕ} (horphans : ∀ o ∈ orphanStations, o ∈ st.g.nds)
    (restor : Restrictor) (blockers : List ℕ) (hgrid : covered → GridCovers S st.g)
    (hnonneg : covered → ∀ p q, 0 ≤ S.geo.webMercMeterDist p q) :
    SnapInv S covered (orphansSnapped S orphanStations st restor blockers) ∧
      SnapGrows S (buildGrids S st restor blockers)
        (orphansSnapped S orphanStations st restor blockers) := by
  have hstart := buildGrids_inv hproper hlinked restor blockers hgrid hnonneg
  have hrounds : ∀ (d : L) (os : List ℕ) (s : SnapState P L),
      SnapInv S covered s ∧ SnapGrows S (buildGrids S st restor blockers) s →
      (∀ o ∈ os, o ∈ st.g.nds) →
      SnapInv S covered (os.foldl (snapOrphan S d) s) ∧
        SnapGrows S (buildGrids S st restor blockers) (os.foldl (snapOrphan S d) s) := by
    intro d os s h hos
    refine foldl_inv (snapOrphan S d)
      (fun s => SnapInv S covered s ∧ SnapGrows S (buildGrids S st restor blockers) s) os h ?_
    intro s o ho h
    obtain ⟨hinv, hgrows⟩ := snapOrphan_spec h.1 (h.2.nds o (hos o ho)).1 d
    exact ⟨hinv, h.2.trans hgrows⟩
  exact foldl_inv (fun s d => orphanStations.foldl (snapOrphan S d) s)
    (fun s => SnapInv S covered s ∧ SnapGrows S (buildGrids S st restor blockers) s)
    S.opts.maxSnapDistances ⟨hstart, SnapGrows.refl S _⟩ fun s d _ h =>
      hrounds d orphanStations s h horphans

def StopsRun.start (s : SnapState P L) : StopsRun P L := ⟨s, fun _ => none, []⟩

/-- In both runs over the stops each stop is imported again at every snap distance, or the group
that it carries is current. -/
def StopsReimport (S : Snapper P L) (stops : ℕ → GtfsStop P) (keys orphanStations : List ℕ)
    (st : Stations P L) (restor : Restrictor) (blockers : List ℕ) : Prop :=
  let start := StopsRun.start (orphansSnapped S orphanStations st restor blockers)
  let normal := keys.foldl (snapNormal S stops) start
  FoldMeets (snapNormal S stops) (fun r stop => StopReimports S false stops r.s r.fs stop) start
      keys ∧
    FoldMeets (snapAgain S stops) (fun r stop => StopReimports S true stops r.s r.fs stop) normal
      normal.not_snapped

theorem StopsInv.start (hinv : SnapInv S covered s) :
    StopsInv S covered s [] (StopsRun.start s).not_snapped (StopsRun.start s) :=
  ⟨hinv, SnapGrows.refl S s, fun _ ht => absurd ht List.not_mem_nil⟩

/-- On a covering grid all stops are imported again. -/
theorem stopsReimport_of_covers (stops : ℕ → GtfsStop P) (keys : List ℕ)
    {orphanStations : List ℕ} {st : Stations P L} (restor : Restrictor) (blockers : List ℕ)
    (hproper : st.g.Proper) (hlinked : Linked st) (horphans : ∀ o ∈ orphanStations, o ∈ st.g.nds)
    (hgrid : S.import_osm_stations = true → GridCovers S st.g)
    (hnonneg : S.import_osm_stations = true → ∀ p q, 0 ≤ S.geo.webMercMeterDist p q) :
    StopsReimport S stops keys orphanStations st restor blockers := by
  have hstart := StopsInv.start
    (orphansSnapped_inv hproper hlinked horphans restor blockers hgrid hnonneg).1
  have hnormal := foldl_snapNormal_reimports id stops keys hstart
  exact ⟨hnormal, foldl_snapAgain_reimports id stops _ (foldl_snapNormal stops keys hstart hnormal)⟩

/-- The invariant and the growth of the graph over the whole of `snap_stations`. -/
theorem snap_stations_run (stops : ℕ → GtfsStop P) (keys : List ℕ) {orphanStations : List ℕ}
    {st : Stations P L} (restor : Restrictor) (blockers : List ℕ) (hproper : st.g.Proper)
    (hlinked : Linked st) (horphans : ∀ o ∈ orphanStations, o ∈ st.g.nds)
    (hgrid : covered → GridCovers S st.g)
    (hnonneg : covered → ∀ p q, 0 ≤ S.geo.webMercMeterDist p q)
    (hmeets : StopsReimport S stops keys orphanStations st restor blockers) :
    SnapInv S covered (snap_stations S stops keys orphanStations st restor blockers).1 ∧
      SnapSteps S.geo.toGeo (st.g, restor)
        ((snap_stations S stops keys orphanStations st restor blockers).1.st.g,
          (snap_stations S stops keys orphanStations st restor blockers).1.restor) ∧
      ∀ t ∈ keys, ∃ v, (snap_stations S stops keys orphanStations st restor blockers).2 t = some v ∧
        FoundAt (snap_stations S stops keys orphanStations st restor blockers).1.st t v := by
  have horphaned := orphansSnapped_inv hproper hlinked horphans restor blockers hgrid hnonneg
  have hnormal := foldl_snapNormal stops keys (StopsInv.start horphaned.1) hmeets.1
  have hagain := foldl_snapAgain stops _ hnormal hmeets.2
  refine ⟨hagain.inv, (horphaned.2.trans hagain.grows).steps, ?_⟩
  intro t ht
  have hdone : t ∈ keys.reverse ++ [] := List.mem_append_left _ (List.mem_reverse.2 ht)
  exact (hagain.found t hdone).resolve_left List.not_mem_nil

theorem snap_stations_kept (S : Snapper P L) (stops : ℕ → GtfsStop P) (keys orphanStations : List ℕ)
    {st : Stations P L} (restor : Restrictor) (blockers : List ℕ) (hproper : st.g.Proper)
    (hlinked : Linked st) (horphans : ∀ o ∈ orphanStations, o ∈ st.g.nds)
    (hgrid : S.import_osm_stations = true → GridCovers S st.g)
    (hnonneg : S.import_osm_stations = true → ∀ p q, 0 ≤ S.geo.webMercMeterDist p q) :
    SnapInv S (S.import_osm_stations = true)
        (snap_stations S stops keys orphanStations st restor blockers).1 ∧
      SnapSteps S.geo.toGeo (st.g, restor)
        ((snap_stations S stops keys orphanStations st restor blockers).1.st.g,
          (snap_stations S stops keys orphanStations st restor blockers).1.restor) ∧
      ∀ t ∈ keys, ∃ v, (snap_stations S stops keys orphanStations st restor blockers).2 t = some v ∧
        FoundAt (snap_stations S stops keys orphanStations st restor blockers).1.st t v :=
  snap_stations_run stops keys restor blockers hproper hlinked horphans hgrid hnonneg
    (stopsReimport_of_covers stops keys restor blockers hproper hlinked horphans hgrid hnonneg)

/-- The stop `t` is assigned to `v`, and the group of `v` is complete. -/
def Findable (st : Stations P L) (t v : ℕ) : Prop :=
  ∃ si G, getSi st v = some si ∧ si.group = some G ∧ t ∈ (st.groups G).stops ∧
    (st.groups G).nodes ≠ [] ∧
    ∀ m ∈ (st.groups G).nodes, ∃ si', getSi st m = some si' ∧ si'.group = some G

omit [AddCommMonoid L] [LinearOrder L] in
theorem FoundAt.findable {st : Stations P L} (hlinked : Linked st) {t v : ℕ} (h : FoundAt st t v) :
    Findable st t v := by
  obtain ⟨G, hv, ht⟩ := h
  obtain ⟨si, hsi, hgroup⟩ := hv.si
  refine ⟨si, G, hsi, hgroup, ht, ?_, fun m hm => (hlinked.back hv m hm).si⟩
  intro hnil
  have hlist := hlinked.listed hv
  rw [hnil] at hlist
  exact List.not_mem_nil hlist

/-- In a run in which no stop carries a group without nodes, every stop is found afterwards. -/
theorem snap_stations_findable (S : Snapper P L) (stops : ℕ → GtfsStop P)
    (keys orphanStations : List ℕ) {st : Stations P L} (restor : Restrictor) (blockers : List ℕ)
    (hproper : st.g.Proper) (hlinked : Linked st) (horphans : ∀ o ∈ orphanStations, o ∈ st.g.nds)
    (hmeets : StopsReimport S stops keys orphanStations st restor blockers) :
    ∀ t ∈ keys, ∃ v, (snap_stations S stops keys orphanStations st restor blockers).2 t = some v ∧
      Findable (snap_stations S stops keys orphanStations st restor blockers).1.st t v := by
  obtain ⟨hinv, -, hfound⟩ := snap_stations_run stops keys restor blockers hproper hlinked horphans
    False.elim False.elim hmeets
  intro t ht
  obtain ⟨v, hv, hat⟩ := hfound t ht
  exact ⟨v, hv, hat.findable hinv.linked⟩

def lineSnapper (import_osm_stations : Bool) : Snapper ℕ ℕ where
  geo :=
    { lineGeo with
      projectOn := fun p x q => max (min p q) (min x (max p q))
      fullTurn := fun _ _ _ => false
      edgeDist := lineGeo.distToSegment
      inGrid := fun p => p ≤ 100
      edgeInGrid := fun l => l.any (· ≤ 100) }
  opts := ⟨[2, 5], 20, 3, 10, 7, 2⟩
  statSimi a b := a = b
  statNormzer := id
  trackNormzer := id
  nodeQueue := PriorityQueue.leastFirst NodeCand.dist _ fun _ _ h => h
  edgeQueue := PriorityQueue.leastFirst Prod.fst _ fun _ _ h => h
  addr := id
  import_osm_stations := import_osm_stations

def besideStreet : Stations ℕ ℕ where
  g :=
    { nds := [0, 1, 2]
      npl := fun n =>
        if n = 2 then ⟨4, some ⟨none, ⟨"Oper", [], "", true⟩⟩⟩ else ⟨10 * n, none⟩
      edges := [⟨0, 0, 1⟩]
      pl := fun _ => ⟨0, false, false, ⟨[0, 10], 10, 0, []⟩⟩
      nextNd := 3
      nextEdge := 1
      fresh := by decide
      simple := by decide }
  groups _ := .empty
  nextGroup := 0

theorem snap_stations_findable_line :
    let run := snap_stations (lineSnapper true) (fun _ => ⟨5, "Oper", "", none⟩) [7] [2] besideStreet
      .empty []
    ∃ v, run.2 7 = some v ∧ Findable run.1.st 7 v := by
  have hproper : besideStreet.g.Proper := ⟨⟨by decide, by decide, by decide⟩, by decide⟩
  have hnone : ∀ n G, ¬ InGroup besideStreet n G := by
    intro n G h
    obtain ⟨si, hsi, hgroup⟩ := h.si
    have hmem : n ∈ [0, 1, 2] := h.mem
    have hfree : ∀ n ∈ [0, 1, 2], getGroup besideStreet n = none := by decide
    have hgroup' := h.group
    rw [hfree n hmem] at hgroup'
    cases hgroup'
  have hlinked : Linked besideStreet :=
    ⟨fun h => absurd h (hnone _ _), fun h => absurd h (hnone _ _), fun h => absurd h (hnone _ _)⟩
  have hgrid : GridCovers (lineSnapper true) besideStreet.g := by
    refine ⟨?_, by decide, ?_⟩
    · intro p
      change (p - p) + (p - p) = 0
      omega
    · intro p q x hp hq
      have hp : p ≤ 100 := by simpa [lineSnapper] using hp
      have hq : q ≤ 100 := by simpa [lineSnapper] using hq
      have hmid : max (min p q) (min x (max p q)) ≤ 100 := by omega
      simpa [lineSnapper] using hmid
  exact snap_stations_findable (lineSnapper true) _ [7] [2] .empty [] hproper hlinked (by decide)
    (stopsReimport_of_covers _ [7] .empty [] hproper hlinked (by decide) (fun _ => hgrid)
      fun _ _ _ => Nat.zero_le _) 7 (by decide)

def boxDist (p q : ℤ × ℤ) : ℕ := max (p.1 - q.1).natAbs (p.2 - q.2).natAbs

def nearestOn (p x q : ℤ × ℤ) : ℤ × ℤ :=
  let num := (x.1 - p.1) * (q.1 - p.1) + (x.2 - p.2) * (q.2 - p.2)
  let den := (q.1 - p.1) * (q.1 - p.1) + (q.2 - p.2) * (q.2 - p.2)
  if num ≤ 0 then p
  else if den ≤ num then q
  else (p.1 + (q.1 - p.1) * num / den, p.2 + (q.2 - p.2) * num / den)

def borderSnapper : Snapper (ℤ × ℤ) ℕ where
  geo :=
    { webMercMeterDist := boxDist
      toFloat := id
      gap := fun _ => 0
      angSmaller := fun _ _ _ => false
      distToSegment := fun p q x => boxDist x (nearestOn p x q)
      projectOn := nearestOn
      fullTurn := fun _ _ _ => false
      edgeDist := fun p q x => boxDist x (nearestOn p x q)
      inGrid := fun p => p.1 ≤ 70000
      edgeInGrid := fun l => l.any (·.1 ≤ 70000) }
  opts := ⟨[30000, 50000], 10000, 3000, 8000, 7, 2000⟩
  statSimi a b := a = b
  statNormzer := id
  trackNormzer := id
  nodeQueue := PriorityQueue.leastFirst NodeCand.dist _ fun _ _ h => h
  edgeQueue := PriorityQueue.leastFirst Prod.fst _ fun _ _ h => h
  addr := id
  import_osm_stations := true

/-- From the station 0 streets lead to the stations 1 and 3, and to the node 2 behind the border;
the street from 4 to 5 is on its own. The station 1 has a group. -/
def borderStreets : Stations (ℤ × ℤ) ℕ where
  g :=
    { nds := [0, 1, 2, 3, 4, 5]
      npl := fun n =>
        ⟨[(69000, 0), (46000, 75000), (71000, 80000), (19000, 126000), (66000, 30000),
            (66000, 38000)].getD n (0, 0),
          if n = 0 ∨ n = 3 then some ⟨none, ⟨"Oper", [], "", true⟩⟩
          else if n = 1 then some ⟨some 0, ⟨"Oper", [], "", true⟩⟩
          else none⟩
      edges := [⟨0, 0, 1⟩, ⟨1, 0, 2⟩, ⟨2, 0, 3⟩, ⟨3, 4, 5⟩]
      pl := fun e => ⟨0, false, false,
        ⟨[[(69000, 0), (46000, 75000)], [(69000, 0), (71000, 80000)], [(69000, 0), (19000, 126000)],
            [(66000, 30000), (66000, 38000)]].getD e.id [],
          [75000, 80000, 126000, 8000].getD e.id 0, 0, []⟩⟩
      nextNd := 6
      nextEdge := 4
      fresh := by decide
      simple := by decide }
  groups G := if G = 0 then ⟨[1], []⟩ else .empty
  nextGroup := 1

/-- One stop at the station 3, and one from which the station 1 is in reach. -/
def borderStops (stop : ℕ) : GtfsStop (ℤ × ℤ) :=
  if stop = 0 then ⟨(19000, 127000), "Oper", "", none⟩ else ⟨(50875, 75500), "Oper", "", none⟩

theorem borderStreets_linked : Linked borderStreets := by
  have hgroup : ∀ {n G}, InGroup borderStreets n G → n = 1 ∧ G = 0 := by
    intro n G h
    have hmem : n ∈ [0, 1, 2, 3, 4, 5] := h.mem
    have hone : ∀ n ∈ [0, 1, 2, 3, 4, 5], ∀ G ∈ getGroup borderStreets n, n = 1 ∧ G = 0 := by
      decide
    exact hone n hmem G h.group
  constructor
  · intro n G h
    rw [(hgroup h).2]
    exact Nat.zero_lt_one
  · intro n G h
    rw [(hgroup h).1, (hgroup h).2]
    exact List.mem_singleton_self 1
  · intro n G h m hm
    rw [(hgroup h).2] at hm ⊢
    rw [List.mem_singleton.1 hm]
    exact ⟨by decide, by decide⟩

/-- The second stop takes the group of the station 1 along to a place where no station is in reach,
and so takes that station out of the group of the first stop. -/
theorem snap_stations_not_findable :
    ¬ ∀ (S : Snapper (ℤ × ℤ) ℕ) (stops : ℕ → GtfsStop (ℤ × ℤ)) (keys orphanStations : List ℕ)
      (st : Stations (ℤ × ℤ) ℕ) (restor : Restrictor) (blockers : List ℕ), st.g.Proper →
      Linked st → (∀ o ∈ orphanStations, o ∈ st.g.nds) →
      ∀ t ∈ keys, ∃ v,
        (snap_stations S stops keys orphanStations st restor blockers).2 t = some v ∧
          Findable (snap_stations S stops keys orphanStations st restor blockers).1.st t v := by
  intro h
  have hproper : borderStreets.g.Proper := ⟨⟨by decide, by decide, by decide⟩, by decide⟩
  have hfirst := h borderSnapper borderStops [0, 1] [] borderStreets .empty [] hproper
    borderStreets_linked (by decide) 0 (by decide)
  have hrun : let run := snap_stations borderSnapper borderStops [0, 1] [] borderStreets .empty []
      run.2 0 = some 3 ∧ getGroup run.1.st 3 = some 3 ∧ 1 ∈ (run.1.st.groups 3).nodes ∧
        getGroup run.1.st 1 = some 4 := by
    decide +kernel
  dsimp only at hrun
  generalize snap_stations borderSnapper borderStops [0, 1] [] borderStreets .empty [] = run
    at hfirst hrun
  obtain ⟨v, hv, si, G, hsi, hgroup, -, -, hback⟩ := hfirst
  obtain ⟨hfound, hthree, hlisted, hone⟩ := hrun
  obtain rfl : 3 = v := Option.some.inj (hfound.symm.trans hv)
  have hG : getGroup run.1.st 3 = some G := by
    rw [getGroup, hsi]
    exact hgroup
  obtain rfl : 3 = G := Option.some.inj (hthree.symm.trans hG)
  obtain ⟨si', hsi', hgroup'⟩ := hback 1 hlisted
  rw [getGroup, hsi'] at hone
  exact absurd (hgroup'.symm.trans hone) (by decide)

end runs

end Pfaedle.Trgraph

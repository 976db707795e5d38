import Pfaedle.SnapInvariant

set_option autoImplicit false

/-!
# What `snap_stations` does to the streets

Whatever groups the stations are in, the graph goes through edge splits and new nodes only.
-/
namespace Pfaedle.Trgraph
open DirGraphs Restriction ODirEdges LoopRules

section groups
variable {P L : Type*}

theorem setData_streets (n : ℕ) (f : StationData → StationData) (st : Stations P L) :
    SameStreets st.g (setData n f st).g := by
  rw [setData]
  split
  · exact sameStreets_setSi n _ st
  · exact SameStreets.refl _

theorem foldl_streets {α : Type*} (f : Stations P L → α → Stations P L)
    (hstep : ∀ st x, SameStreets st.g (f st x).g) (xs : List α) (st : Stations P L) :
    SameStreets st.g (xs.foldl f st).g :=
  foldl_inv f (fun st' => SameStreets st.g st'.g) xs (SameStreets.refl _)
    fun st' x _ h => h.trans (hstep st' x)

theorem groupNode_streets (addr : ℕ → ℕ) (ret : ℕ) (st : Stations P L) (n : ℕ) :
    SameStreets st.g (groupNode addr ret st n).g := by
  rw [groupNode]
  split
  · exact SameStreets.refl _
  · split
    · rename_i G _
      by_cases hG : G = ret
      · rw [merge, if_pos hG]
        exact SameStreets.refl _
      · exact (merge_merged addr hG st).streets
    · exact setGroup_streets n ret (addNode addr ret n st)

theorem groupStats_streets (addr : ℕ → ℕ) (s : List ℕ) (st : Stations P L) :
    SameStreets st.g (groupStats addr s st).2.g := by
  rw [groupStats]
  split
  · exact SameStreets.refl _
  · have hfold := foldl_streets (groupNode addr (newGroup st).1) (groupNode_streets addr _) s
      (newGroup st).2
    dsimp only
    split
    · exact hfold
    · exact hfold

end groups

section steps
variable {P L : Type*} {geo : Geo P L} {st st' : Graph P L ℕ StationData × Restrictor}

theorem SnapStep.proper (hstep : SnapStep geo st st') (h : st.1.Proper) : st'.1.Proper := by
  cases hstep with
  | info restor hsame => exact hsame.proper h
  | split he s => exact splitEdge_proper geo _ s h he
  | node g restor p => exact h.addNd p

end steps

section streets
variable {P L : Type*} [LinearOrder L] {S : Snapper P L}

/-- The streets of `s` have become those of `s'`, and the edge grid is up to date. -/
structure Onward (S : Snapper P L) (s s' : SnapState P L) : Prop where
  proper : s'.st.g.Proper
  eg : s'.eg.Nodup ∧ ∀ e ∈ s'.eg, e ∈ s'.st.g.edges
  steps : SnapSteps S.geo.toGeo (s.st.g, s.restor) (s'.st.g, s'.restor)

variable {s s' : SnapState P L}

theorem Onward.restation (h : Onward S s s') {s'' : SnapState P L}
    (hsame : SameStreets s'.st.g s''.st.g) (hrestor : s''.restor = s'.restor)
    (heg : s''.eg = s'.eg) : Onward S s s'' := by
  refine ⟨hsame.proper h.proper, ?_, ?_⟩
  · rw [heg, hsame.edges]
    exact h.eg
  · rw [hrestor]
    exact h.steps.tail (SnapStep.info _ hsame)

theorem placeAt_onward {r : SnapRun P L} (h : Onward S s r.s) (n : ℕ) :
    Onward S s (placeAt S r n).s := by
  refine h.restation ?_ rfl rfl
  change SameStreets r.s.st.g (addToGroup S r.pl.si n (setSi n r.pl.si r.s.st)).g
  rw [addToGroup_g]
  exact sameStreets_setSi n r.pl.si r.s.st

theorem takeEq_onward {r : SnapRun P L} (h : Onward S s r.s) (n : ℕ) :
    Onward S s (takeEq S r n).s := by
  refine h.restation ?_ rfl rfl
  unfold takeEq
  dsimp only
  split
  · exact setData_streets n _ r.s.st
  · exact SameStreets.refl _

theorem splitAt_onward {r : SnapRun P L} (h : Onward S s r.s) {e : Edge}
    (he : e ∈ r.s.st.g.edges) (geom : P) :
    Onward S s (splitAt S r e geom).s ∧
      ∀ x ∈ r.s.st.g.edges, x ≠ e → x ∈ (splitAt S r e geom).s.st.g.edges := by
  obtain ⟨ne, nf, hhalves, hgraph, -⟩ :=
    splitEdge_spec S.geo.toGeo r.s.restor ⟨geom, some r.pl.si⟩ h.proper.live he
  constructor
  · refine ⟨?_, ?_, ?_⟩
    · rw [splitAt_g]
      exact splitEdge_proper S.geo.toGeo r.s.restor _ h.proper he
    · rw [splitAt_g]
      exact splitAt_eg_live h.eg hhalves hgraph
    · rw [splitAt_g]
      exact h.steps.tail (SnapStep.split he _)
  · intro x hx hxe
    rw [splitAt_g, hgraph.edges]
    exact Or.inl ⟨hx, hxe⟩

variable [AddCommMonoid L]

theorem snapEdge_onward {r : SnapRun P L} (h : Onward S s r.s) {e : Edge}
    (he : e ∈ r.s.st.g.edges) (maxD : L) (orphSnap : Bool) :
    Onward S s (snapEdge S maxD orphSnap r e).s ∧
      ∀ x ∈ r.s.st.g.edges, x ≠ e → x ∈ (snapEdge S maxD orphSnap r e).s.st.g.edges := by
  have hplace : ∀ n, Onward S s (placeAt S r n).s ∧
      ∀ x ∈ r.s.st.g.edges, x ≠ e → x ∈ (placeAt S r n).s.st.g.edges := by
    intro n
    refine ⟨placeAt_onward h n, fun x hx _ => ?_⟩
    change x ∈ (addToGroup S r.pl.si n (setSi n r.pl.si r.s.st)).g.edges
    rw [addToGroup_g]
    exact hx
  unfold snapEdge
  dsimp only
  split
  · rename_i eq _
    refine ⟨takeEq_onward h eq, fun x hx _ => ?_⟩
    unfold takeEq
    dsimp only
    split
    · rw [(setData_streets eq _ r.s.st).edges]
      exact hx
    · exact hx
  · split
    · exact ⟨h, fun x hx _ => hx⟩
    · split
      · exact ⟨h, fun x hx _ => hx⟩
      · split
        · exact hplace _
        · split
          · exact hplace _
          · exact splitAt_onward h he _

theorem foldl_snapEdge_onward {r : SnapRun P L} (h : Onward S s r.s) (es : List Edge)
    (hnodup : es.Nodup) (hes : ∀ e ∈ es, e ∈ r.s.st.g.edges) (maxD : L) (orphSnap : Bool) :
    Onward S s (es.foldl (snapEdge S maxD orphSnap) r).s := by
  induction es generalizing r with
  | nil => exact h
  | cons e es ih =>
    obtain ⟨hnot, hnodup⟩ := List.nodup_cons.1 hnodup
    obtain ⟨hround, hkeep⟩ := snapEdge_onward h (hes e List.mem_cons_self) maxD orphSnap
    refine ih hround hnodup ?_
    intro x hx
    refine hkeep x (hes x (List.mem_cons_of_mem _ hx)) ?_
    rintro rfl
    exact hnot hx

theorem snapGroup_onward (h : Onward S s s') (maxD : L) (surHeur orphSnap : Bool)
    (pl : StationPayload P) : Onward S s (snapGroup S maxD surHeur orphSnap s' pl).2.s := by
  obtain ⟨pq, hnodup, hes, hloop⟩ := snap_station_candidates h.eg pl maxD surHeur orphSnap
  have hrun : Onward S s (snap_station S maxD surHeur orphSnap s' pl).s := by
    rw [hloop]
    have hstart : Onward S s (⟨s', imported S s' pl, []⟩ : SnapRun P L).s := h
    exact foldl_snapEdge_onward hstart pq hnodup hes maxD orphSnap
  exact hrun.restation (groupStats_streets S.addr _ _) rfl rfl

theorem snapOrphan_onward (h : Onward S s s') (d : L) (o : ℕ) :
    Onward S s (snapOrphan S d s' o) := by
  unfold snapOrphan
  split
  · exact h
  · dsimp only
    refine (snapGroup_onward h d false false _).restation ?_ rfl rfl
    apply foldl_streets
    intro st n
    split
    · exact setData_streets n _ st
    · exact SameStreets.refl _

omit [AddCommMonoid L] in
theorem joinGroup_onward {r : StopRun P L} (h : Onward S s r.s) (orphSnap : Bool) (stop G : ℕ) :
    Onward S s (joinGroup S orphSnap stop G r).s := by
  have hstop : SameStreets r.s.st.g (addStop S.addr G stop r.s.st).g := SameStreets.refl _
  refine h.restation ?_ rfl rfl
  unfold joinGroup
  dsimp only
  split
  · exact hstop.trans (foldl_streets _ (fun st n => setData_streets n _ st) _ _)
  · exact hstop

theorem snapStopAt_onward {r : StopRun P L} (h : Onward S s r.s) (orphSnap : Bool) (stop : ℕ)
    (d : L × ℕ) : Onward S s (snapStopAt S orphSnap stop r d).s := by
  have hgroup := snapGroup_onward h d.1 (d.2 + 1 = S.opts.maxSnapDistances.length) orphSnap r.pl
  unfold snapStopAt
  dsimp only
  split
  · rename_i G _
    exact joinGroup_onward hgroup orphSnap stop _
  · exact hgroup

theorem snapStop_onward (h : Onward S s s') (orphSnap : Bool) (stops : ℕ → GtfsStop P)
    (fs : ℕ → Option ℕ) (stop : ℕ) : Onward S s (snapStop S orphSnap stops s' fs stop).s :=
  foldl_inv (snapStopAt S orphSnap stop) (fun r => Onward S s r.s) _ h
    fun _ d _ hr => snapStopAt_onward hr orphSnap stop d

omit [AddCommMonoid L] in
theorem giveUp_onward {r : StopRun P L} (h : Onward S s r.s) (stop : ℕ) :
    Onward S s (giveUp S stop r).s := by
  let node : NodePayload P ℕ StationData := ⟨r.pl.geom, some r.pl.si⟩
  have hadd : Onward S s { r.s with st := { r.s.st with g := (r.s.st.g.addNd node).2 } } :=
    ⟨h.proper.addNd node, h.eg, h.steps.tail (SnapStep.node _ _ node)⟩
  refine hadd.restation ?_ rfl rfl
  exact setGroup_streets r.s.st.g.nextNd (newGroup r.s.st).1
    { (newGroup r.s.st).2 with g := (r.s.st.g.addNd node).2 }

theorem snapAgain_onward {r : StopsRun P L} (h : Onward S s r.s) (stops : ℕ → GtfsStop P)
    (stop : ℕ) : Onward S s (snapAgain S stops r stop).s := by
  have hrun := snapStop_onward h true stops r.fs stop
  unfold snapAgain
  dsimp only
  split
  · exact hrun
  · exact giveUp_onward hrun stop

theorem snap_stations_steps (S : Snapper P L) (stops : ℕ → GtfsStop P)
    (keys orphanStations : List ℕ) {st : Stations P L} (restor : Restrictor) (blockers : List ℕ)
    (hproper : st.g.Proper) :
    let run := snap_stations S stops keys orphanStations st restor blockers
    run.1.st.g.Proper ∧ SnapSteps S.geo.toGeo (st.g, restor) (run.1.st.g, run.1.restor) := by
  let s := buildGrids S st restor blockers
  have hstart : Onward S s s :=
    ⟨hproper, ⟨hproper.nodup.filter _, fun e he => List.mem_of_mem_filter he⟩,
      Relation.ReflTransGen.refl⟩
  have horphans := foldl_inv (fun s d => orphanStations.foldl (snapOrphan S d) s)
    (Onward S s) S.opts.maxSnapDistances hstart fun s' d _ h =>
      foldl_inv (snapOrphan S d) (Onward S s) orphanStations h
        fun s'' o _ h => snapOrphan_onward h d o
  let r : StopsRun P L :=
    ⟨S.opts.maxSnapDistances.foldl (fun s d => orphanStations.foldl (snapOrphan S d) s) s,
      fun _ => none, []⟩
  have hr : Onward S s r.s := horphans
  have hnormal := foldl_inv (snapNormal S stops) (fun r => Onward S s r.s) keys hr
    fun r stop _ h => snapStop_onward h false stops r.fs stop
  have hagain := foldl_inv (snapAgain S stops) (fun r => Onward S s r.s)
    (keys.foldl (snapNormal S stops) r).not_snapped hnormal fun r stop _ h => snapAgain_onward h stops stop
  exact ⟨hagain.proper, hagain.steps⟩

end streets

end Pfaedle.Trgraph

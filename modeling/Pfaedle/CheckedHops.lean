import Pfaedle.EdgePoints
import Pfaedle.HopPaths
import Mathlib.Data.List.ReduceOption

set_option autoImplicit false

/-!
# Runs that read hops

The functions that reach `backHop` and `frontHop`, once more, with `none` for a point that is not
there.
-/
namespace Pfaedle.Checked
open LoopRules

section fullTurns
open DirGraphs Trgraph
variable {P L G D : Type} (geo : Geo P L)

def keepFullTurn (g : Graph P L G D) (n : ℕ) : Option Bool :=
  if deg g n ≠ 1 then some false
  else do
    let e ← deadEdge g n
    let other := e.getOtherNd n
    if deg g other = 3 then
      match (g.getAdjListIn other ++ g.getAdjListOut other).filter (· ≠ e) with
      | a :: b :: _ => do
        let ap ← backHop (g.pl a)
        let bp ← backHop (g.pl b)
        let ap ← if a.getTo ≠ other then frontHop (g.pl a) else some ap
        let bp ← if b.getTo ≠ other then frontHop (g.pl b) else some bp
        some (geo.angSmaller ap (pos g other) bp)
      | _ => none
    else some false

def deleteOrphanEdge (g : Graph P L G D) (n : ℕ) : Option (Graph P L G D) :=
  if deg g n ≠ 1 ∨ (g.npl n).si.isSome then some g
  else do
    let keep ← keepFullTurn geo g n
    some (if keep then g else g.delNd n)

def deleteOrphanRound (g : Graph P L G D) : Option (Graph P L G D) :=
  g.nds.foldlM (deleteOrphanEdge geo) g

def deleteOrphanEdges (g : Graph P L G D) : Option (Graph P L G D) := do
  let g ← deleteOrphanRound geo g
  let g ← deleteOrphanRound geo g
  deleteOrphanRound geo g

variable {geo} {g : Graph P L G D} {n : ℕ}

theorem others_length {e : Edge} (hdead : DeadEnd g n e) (hnodup : g.edges.Nodup)
    (hdeg : deg g (e.getOtherNd n) = 3) :
    ((g.getAdjListIn (e.getOtherNd n) ++ g.getAdjListOut (e.getOtherNd n)).filter
      (· ≠ e)).length = 2 := by
  have haway := hdead.away
  have hends := ends_cases hdead.hasEnd
  generalize e.getOtherNd n = other at hdeg haway hends ⊢
  have hlen : (g.getAdjListIn other).length + (g.getAdjListOut other).length = 3 := hdeg
  have hkept : ∀ {l : List Edge}, e ∉ l → l.filter (· ≠ e) = l := by
    intro l hl
    refine List.filter_eq_self.2 fun x hx => decide_eq_true ?_
    rintro rfl
    exact hl hx
  have hgone : ∀ {l : List Edge}, l.Nodup → e ∈ l → (l.filter (· ≠ e)).length + 1 = l.length := by
    intro l hl he
    have herase : l.erase e = l.filter (· ≠ e) := by simp [hl.erase_eq_filter, bne, beq_eq_decide]
    rw [← herase, List.length_erase_of_mem he]
    exact Nat.sub_add_cancel (List.length_pos_of_mem he)
  rw [List.filter_append, List.length_append]
  cases hends with
  | inl hfrom =>
    have hin : e ∈ g.getAdjListIn other := DirGraph.mem_getAdjListIn.2 ⟨hdead.mem, hfrom.2⟩
    have hout : e ∉ g.getAdjListOut other := fun h =>
      haway ((DirGraph.mem_getAdjListOut.1 h).2.symm.trans hfrom.1)
    have hnodupIn : (g.getAdjListIn other).Nodup := hnodup.filter _
    have hcount := hgone hnodupIn hin
    rw [hkept hout]
    omega
  | inr hto =>
    have hout : e ∈ g.getAdjListOut other := DirGraph.mem_getAdjListOut.2 ⟨hdead.mem, hto.1⟩
    have hin : e ∉ g.getAdjListIn other := fun h =>
      haway ((DirGraph.mem_getAdjListIn.1 h).2.symm.trans hto.2)
    have hnodupOut : (g.getAdjListOut other).Nodup := hnodup.filter _
    have hcount := hgone hnodupOut hout
    rw [hkept hin]
    omega

theorem keepFullTurn_some (hnodup : g.edges.Nodup) (htwo : TwoPoints g) (n : ℕ) :
    keepFullTurn geo g n = some (Trgraph.keepFullTurn geo g n) := by
  unfold keepFullTurn Trgraph.keepFullTurn
  split
  · rfl
  · rename_i hdeg
    obtain ⟨e, he, hdead⟩ := deadEdge_spec (not_not.1 hdeg)
    rw [he, Option.bind_eq_bind, Option.bind_some]
    dsimp only
    split
    · rename_i hthree
      have hlen := others_length hdead hnodup hthree
      have hmem : ∀ x ∈ (g.getAdjListIn (e.getOtherNd n) ++ g.getAdjListOut (e.getOtherNd n)).filter
          (· ≠ e), x ∈ g.edges := by
        intro x hx
        rcases List.mem_append.1 (List.mem_of_mem_filter hx) with hx | hx
        · exact (DirGraph.mem_getAdjListIn.1 hx).1
        · exact (DirGraph.mem_getAdjListOut.1 hx).1
      generalize (g.getAdjListIn (e.getOtherNd n) ++ g.getAdjListOut (e.getOtherNd n)).filter
        (· ≠ e) = others at hlen hmem ⊢
      match others, hlen with
      | [a, b], _ =>
        have ha := htwo a (hmem a (by simp))
        have hb := htwo b (hmem b (by simp))
        obtain ⟨aback, haback⟩ := backHop_some ha
        obtain ⟨bback, hbback⟩ := backHop_some hb
        obtain ⟨afront, hafront⟩ := frontHop_some ha
        obtain ⟨bfront, hbfront⟩ := frontHop_some hb
        simp only [hopAt, haback, hbback, hafront, hbfront]
        split_ifs <;> rfl
    · rfl

theorem deleteOrphanRound_some (hproper : g.Proper) (htwo : TwoPoints g) :
    deleteOrphanRound geo g = some (Trgraph.deleteOrphanRound geo g) := by
  refine foldlM_some _ (Trgraph.deleteOrphanEdge geo)
    (fun s : Graph P L G D => s.Proper ∧ TwoPoints s) g.nds ⟨hproper, htwo⟩ fun s n _ hs => ?_
  unfold deleteOrphanEdge Trgraph.deleteOrphanEdge
  split
  · exact ⟨rfl, hs⟩
  · rw [keepFullTurn_some hs.1.nodup hs.2 n]
    refine ⟨rfl, ?_⟩
    split
    · exact hs
    · exact ⟨hs.1.delNd n, (delNd_shrunk s n).twoPoints hs.2⟩

/-- Every round reads only hops that are there. -/
theorem deleteOrphanEdges_some (hproper : g.Proper) (htwo : TwoPoints g) :
    deleteOrphanEdges geo g = some (Trgraph.deleteOrphanEdges geo g) := by
  have hround : ∀ {s : Graph P L G D}, s.Proper ∧ TwoPoints s →
      (Trgraph.deleteOrphanRound geo s).Proper ∧ TwoPoints (Trgraph.deleteOrphanRound geo s) :=
    fun h => ⟨(deleteOrphanRound_shrunk geo _).proper h.1,
      (deleteOrphanRound_shrunk geo _).twoPoints h.2⟩
  have hfirst := hround ⟨hproper, htwo⟩
  have hsecond := hround hfirst
  unfold deleteOrphanEdges
  rw [deleteOrphanRound_some hproper htwo]
  change (deleteOrphanRound geo _).bind _ = _
  rw [deleteOrphanRound_some hfirst.1 hfirst.2]
  change deleteOrphanRound geo _ = _
  rw [deleteOrphanRound_some hsecond.1 hsecond.2]
  rfl

end fullTurns

section search
open EDijkstra
variable {N E C : Type} [DecidableEq N] [DecidableEq E] [AddCommGroup C] [LinearOrder C]

structure CostFunc (N E C : Type) where
  start : E → C
  cost : E → N → E → Option C
  inf : WithTop C

def relaxEdge (costFunc : CostFunc N E C) (heurFunc : HeurFunc E C) (tos : List E)
    (cur : RouteEdge N E C) (n : N) (edge : E) : Option (Option (RouteEdge N E C)) :=
  if edge = cur.e then some none
  else do
    let c ← costFunc.cost cur.e n edge
    let newC := cur.d + c
    some (if costFunc.inf ≤ (newC : WithTop C) then none
      else some ⟨edge, some cur.e, some n, newC, newC + heurFunc edge tos⟩)

def relaxAt (g : DirGraph N E) (costFunc : CostFunc N E C) (heurFunc : HeurFunc E C)
    (tos : List E) (cur : RouteEdge N E C) (n : N) : Option (List (RouteEdge N E C)) := do
  let pushed ← (g.adjListOut n).mapM (relaxEdge costFunc heurFunc tos cur n)
  some pushed.reduceOption

def relax (g : DirGraph N E) (costFunc : CostFunc N E C) (heurFunc : HeurFunc E C)
    (tos : List E) (cur : RouteEdge N E C) : Option (List (RouteEdge N E C)) := do
  let back ←
    if g.getTo cur.e = g.getFrom cur.e then relaxAt g costFunc heurFunc tos cur (g.getFrom cur.e)
    else some []
  let ahead ← relaxAt g costFunc heurFunc tos cur (g.getTo cur.e)
  some (back ++ ahead)

section
variable (pq : PriorityQueue (RouteEdge N E C) RouteEdge.less) (g : DirGraph N E)
  (costFunc : CostFunc N E C) (heurFunc : HeurFunc E C) (tos : List E)

def searchSet : ℕ → Settled N E C → List (RouteEdge N E C) →
    Option (Option (RouteEdge N E C × Settled N E C))
  | 0, _, _ => some none
  | k + 1, settled, queue =>
    match pq.pop queue with
    | none => some none
    | some (cur, queue) =>
      if (settled.find cur.e).isSome then searchSet k settled queue
      else if cur.e ∈ tos then some (some (cur, cur :: settled))
      else do
        let pushed ← relax g costFunc heurFunc tos cur
        searchSet k (cur :: settled) (queue ++ pushed)

def initial (e : E) : RouteEdge N E C :=
  ⟨e, none, none, costFunc.start e, costFunc.start e + heurFunc e tos⟩

def shortestPathSet (froms : List E) : Option (WithTop C × List E) :=
  if froms = [] ∨ tos = [] then some (costFunc.inf, [])
  else do
    let found ← searchSet pq g costFunc heurFunc tos (rounds g froms.length) []
      (froms.map (initial costFunc heurFunc tos))
    match found with
    | none => some (costFunc.inf, [])
    | some (cur, settled) => some (cur.d, buildPath settled settled.length cur.e)

def searchAll : ℕ → Settled N E C → List (RouteEdge N E C) → Results E C → Option (Results E C)
  | 0, _, _, res => some res
  | k + 1, settled, queue, res =>
    match pq.pop queue with
    | none => some res
    | some (cur, queue) =>
      if (settled.find cur.e).isSome then searchAll k settled queue res
      else
        let res := if cur.e ∈ tos then res.hit cur (cur :: settled) else res
        if res.found = tos.length then some res
        else do
          let pushed ← relax g costFunc heurFunc tos cur
          searchAll k (cur :: settled) (queue ++ pushed) res

def shortestPathAll (fromE : E) : Option (Results E C) :=
  if tos = [] then some ⟨0, fun _ => costFunc.inf, fun _ => []⟩
  else searchAll pq g costFunc heurFunc tos (rounds g 1) [] [initial costFunc heurFunc tos fromE]
    ⟨0, fun _ => costFunc.inf, fun _ => []⟩

end

variable {pq : PriorityQueue (RouteEdge N E C) RouteEdge.less} {g : DirGraph N E}
  {checked : CostFunc N E C} {costFunc : EDijkstra.CostFunc N E C} {heurFunc : HeurFunc E C}
  {tos : List E} {cur : RouteEdge N E C}

/-- The checked cost function is the plain one wherever one edge follows the other. -/
structure Evaluates (g : DirGraph N E) (checked : CostFunc N E C)
    (costFunc : EDijkstra.CostFunc N E C) : Prop where
  start : checked.start = costFunc.start
  inf : checked.inf = costFunc.inf
  cost : ∀ e ∈ g.edges, ∀ e' ∈ g.adjListOut (g.getTo e),
    checked.cost e (g.getTo e) e' = some (costFunc.cost e (g.getTo e) e')

omit [DecidableEq N] in
theorem Evaluates.relaxAt (h : Evaluates g checked costFunc) (hin : cur.e ∈ g.edges) :
    relaxAt g checked heurFunc tos cur (g.getTo cur.e) =
      some ((g.adjListOut (g.getTo cur.e)).filterMap
        (EDijkstra.relaxEdge costFunc heurFunc tos cur (g.getTo cur.e))) := by
  have hedge : ∀ edge ∈ g.adjListOut (g.getTo cur.e),
      relaxEdge checked heurFunc tos cur (g.getTo cur.e) edge =
        some (EDijkstra.relaxEdge costFunc heurFunc tos cur (g.getTo cur.e) edge) := by
    intro edge hout
    unfold relaxEdge EDijkstra.relaxEdge
    split
    · rfl
    · rw [h.cost cur.e hin edge hout, h.inf]
      rfl
  unfold Checked.relaxAt
  rw [mapM_some hedge]
  simp [List.reduceOption]

theorem Evaluates.relax (h : Evaluates g checked costFunc) (hin : cur.e ∈ g.edges) :
    relax g checked heurFunc tos cur = some (EDijkstra.relax g costFunc heurFunc tos cur) := by
  unfold Checked.relax EDijkstra.relax
  rw [h.relaxAt hin]
  split
  · rename_i hself
    rw [← hself, h.relaxAt hin]
    rfl
  · rfl

theorem relax_inside {r : RouteEdge N E C} (h : r ∈ EDijkstra.relax g costFunc heurFunc tos cur) :
    r.e ∈ g.edges := by
  have hpushed : ∀ n, r ∈ (g.adjListOut n).filterMap
      (EDijkstra.relaxEdge costFunc heurFunc tos cur n) → r.e ∈ g.edges := by
    intro n hr
    obtain ⟨edge, hedge, he⟩ := List.mem_filterMap.1 hr
    unfold EDijkstra.relaxEdge at he
    split at he
    · cases he
    · dsimp only at he
      split at he
      · cases he
      · cases he
        exact (g.mem_adjListOut.1 hedge).1
  unfold EDijkstra.relax at h
  cases List.mem_append.1 h with
  | inr h => exact hpushed _ h
  | inl h =>
    split at h
    · exact hpushed _ h
    · cases h

def Inside (g : DirGraph N E) (queue : List (RouteEdge N E C)) : Prop := ∀ r ∈ queue, r.e ∈ g.edges

omit [DecidableEq N] [DecidableEq E] [AddCommGroup C] in
theorem Inside.pop {queue rest : List (RouteEdge N E C)} (h : Inside g queue)
    (hpop : pq.pop queue = some (cur, rest)) : cur.e ∈ g.edges ∧ Inside g rest :=
  ⟨h cur ((pq.mem_iff hpop cur).2 (Or.inl rfl)),
    fun r hr => h r ((pq.mem_iff hpop r).2 (Or.inr hr))⟩

theorem Inside.pushed {rest : List (RouteEdge N E C)} (h : Inside g rest) :
    Inside g (rest ++ EDijkstra.relax g costFunc heurFunc tos cur) := by
  intro r hr
  cases List.mem_append.1 hr with
  | inl hr => exact h r hr
  | inr hr => exact relax_inside hr

theorem Evaluates.searchSet (h : Evaluates g checked costFunc) (k : ℕ) {settled : Settled N E C}
    {queue : List (RouteEdge N E C)} (hin : Inside g queue) :
    searchSet pq g checked heurFunc tos k settled queue =
      some (EDijkstra.searchSet pq g costFunc heurFunc tos k settled queue) := by
  induction k generalizing settled queue with
  | zero => rfl
  | succ k ih =>
    rw [Checked.searchSet, EDijkstra.searchSet]
    cases hpop : pq.pop queue with
    | none => rfl
    | some popped =>
      obtain ⟨cur, rest⟩ := popped
      obtain ⟨hcur, hrest⟩ := hin.pop hpop
      dsimp only
      split
      · exact ih hrest
      · split
        · rfl
        · rw [h.relax hcur]
          exact ih hrest.pushed

omit [DecidableEq N] [DecidableEq E] [LinearOrder C] in
theorem Evaluates.initial (h : Evaluates g checked costFunc) :
    initial checked heurFunc tos = EDijkstra.initial costFunc heurFunc tos := by
  unfold Checked.initial EDijkstra.initial
  rw [h.start]

omit [DecidableEq N] [DecidableEq E] [LinearOrder C] in
theorem inside_initial {froms : List E} (hin : ∀ e ∈ froms, e ∈ g.edges) :
    Inside g (froms.map (EDijkstra.initial costFunc heurFunc tos)) := by
  intro r hr
  obtain ⟨e, he, rfl⟩ := List.mem_map.1 hr
  exact hin e he

theorem Evaluates.shortestPathSet (h : Evaluates g checked costFunc) {froms : List E}
    (hin : ∀ e ∈ froms, e ∈ g.edges) :
    shortestPathSet pq g checked heurFunc tos froms =
      some (EDijkstra.shortestPathSet pq g costFunc heurFunc tos froms) := by
  unfold Checked.shortestPathSet EDijkstra.shortestPathSet
  rw [h.inf, h.initial, h.searchSet _ (inside_initial hin)]
  split
  · rfl
  · generalize EDijkstra.searchSet pq g costFunc heurFunc tos _ _ _ = found
    cases found with
    | none => rfl
    | some found => rfl

theorem Evaluates.searchAll (h : Evaluates g checked costFunc) (k : ℕ) {settled : Settled N E C}
    {queue : List (RouteEdge N E C)} (hin : Inside g queue) (res : Results E C) :
    searchAll pq g checked heurFunc tos k settled queue res =
      some (EDijkstra.searchAll pq g costFunc heurFunc tos k settled queue res) := by
  induction k generalizing settled queue res with
  | zero => rfl
  | succ k ih =>
    rw [Checked.searchAll, EDijkstra.searchAll]
    cases hpop : pq.pop queue with
    | none => rfl
    | some popped =>
      obtain ⟨cur, rest⟩ := popped
      obtain ⟨hcur, hrest⟩ := hin.pop hpop
      dsimp only
      split
      · exact ih hrest res
      · generalize (if cur.e ∈ tos then res.hit cur (cur :: settled) else res) = res'
        split
        · rfl
        · rw [h.relax hcur]
          exact ih hrest.pushed res'

theorem Evaluates.shortestPathAll (h : Evaluates g checked costFunc) {fromE : E}
    (hin : fromE ∈ g.edges) :
    shortestPathAll pq g checked heurFunc tos fromE =
      some (EDijkstra.shortestPathAll pq g costFunc heurFunc tos fromE) := by
  have hstart : Inside g [EDijkstra.initial costFunc heurFunc tos fromE] := by
    intro r hr
    rw [List.mem_singleton.1 hr]
    exact hin
  unfold Checked.shortestPathAll EDijkstra.shortestPathAll
  rw [h.inf, h.initial, h.searchAll _ hstart]
  split <;> rfl

end search

section router
open Router
variable {N E C : Type} [DecidableEq N] [DecidableEq E] [Field C] [LinearOrder C]

/-- `angle` takes the place of `innerProd`, which has a value for all edges. -/
def withAngle (S : Setting N E C) (angle : E → N → E → C) : Setting N E C :=
  { S with innerProd := angle }

variable (S : Setting N E C) (angle : E → N → E → Option C) (thread : ℕ)
  (rAttrs : RoutingAttributes)

/-- The branch of `CostFunc::operator()` that reads the hops. -/
def readsHops (frm : E) (n : N) (to_ : E) : Bool :=
  ¬ (S.g.getFrom frm = S.g.getTo to_ ∧ S.g.getTo frm = S.g.getFrom to_) ∧
    2 < (S.g.adjListOut n).length

def edgePairCost (tgGrp : Option ℕ) (frm : E) (n : N) (to_ : E) : Option C :=
  if readsHops S frm n to_ then do
    let x ← angle frm n to_
    some (Router.edgePairCost (withAngle S fun _ _ _ => x) rAttrs tgGrp frm n to_)
  else some (Router.edgePairCost S rAttrs tgGrp frm n to_)

def costFunc (tgGrp : Option ℕ) (max : C) : CostFunc N E C where
  start _ := 0
  cost := edgePairCost S angle rAttrs tgGrp
  inf := max

def nestedCacheStep (front : E) (froms : List E) (cost : CostFunc N E C) (st : NestedState E C)
    (e : E) : Option (NestedState E C) := do
  let curCost ←
    match st.curEdges.getLast? with
    | some back => do
      let c ← cost.cost e (S.g.getTo e) back
      some (st.curCost + c)
    | none => some st.curCost
  let curEdges := st.curEdges ++ [e]
  some
    { curEdges, curCost
      caches :=
        if e ∈ froms then cache S thread rAttrs st.caches e front (cost.start e + curCost) curEdges
        else st.caches }

def nestedCache (el froms : List E) (cost : CostFunc N E C) (caches : Caches E C) :
    Option (Caches E C) :=
  if ¬ S.caching then some caches
  else
    match el with
    | [] => some caches
    | front :: _ => do
      let st ← el.foldlM (nestedCacheStep S thread rAttrs front froms cost) ⟨[], 0, caches⟩
      some st.caches

def pilotRun (a b : EdgeCandidateGroup E C) : Option (C × List E) :=
  let cost := costFunc S angle rAttrs (targetGroup S b) (pendingDistance S a b * (50 : ℕ))
  let frm := S.edgeSet.toList (a.map EdgeCandidate.e)
  let tos := S.edgeSet.toList (b.map EdgeCandidate.e)
  if compConned S a b then do
    let ret ← shortestPathSet S.pq S.g.toDirGraph cost (distHeur S 0 tos) tos frm
    some (getValue ret.1, ret.2)
  else some (pendingDistance S a b * (50 : ℕ), [])

def getHopBand (a b : EdgeCandidateGroup E C) (caches : Caches E C) :
    Option (HopBand E C × Caches E C) := do
  let pend := pendingDistance S a b
  let frm := S.edgeSet.toList (a.map EdgeCandidate.e)
  let tos := S.edgeSet.toList (b.map EdgeCandidate.e)
  let (ret, el) ← pilotRun S angle rAttrs a b
  if el.length < 2 ∧ pend * (50 : ℕ) ≤ ret then some (⟨0, 1, none, 0⟩, caches)
  else do
    let caches ← nestedCache S thread rAttrs el frm
      (costFunc S angle rAttrs (targetGroup S b) (pend * (50 : ℕ))) caches
    let maxStrD := maxFrom (tos.map fun e => el.head?.elim 0 fun front =>
      S.webMercMeterDist (S.g.geom (S.g.getFrom front)) (S.g.geom (S.g.getTo e)))
    let maxD := max ret (pend * S.rOpts.levelPunish 2) * (3 : ℕ) +
      S.rOpts.fullTurnPunishFac + S.rOpts.platformUnmatchedPen
    some (⟨ret, maxD, el.head?, maxStrD⟩, caches)

def hopSearch (frm : E) (rem : List E) (tgGrp : Option ℕ) (maxD : C) : Option (EDijkstra.Results E C) :=
  shortestPathAll S.pq S.g.toDirGraph (costFunc S angle rAttrs tgGrp maxD)
    (distHeur S (S.g.minEdgeLvl (S.g.component (S.g.getFrom frm))) rem) rem frm

def hops (frm : E) (froms tos : List E) (tgGrp : Option ℕ) (maxD : C) (caches : Caches E C) :
    Option (HopResults E C × Caches E C) := do
  let rem := hopTargets S thread rAttrs frm tos caches
  let ret ← hopSearch S angle rAttrs frm rem tgGrp maxD
  let caches' ← rem.foldlM (fun caches t => nestedCache S thread rAttrs (ret.resEdges t) froms
    (costFunc S angle rAttrs tgGrp maxD) caches) caches
  some
    ({ costs := fun t =>
        if t ∉ tos then 0
        else
          match cachedHop S thread rAttrs caches frm t with
          | some cv => cv.1
          | none => if isShortcut S frm t then maxD else getValue (ret.costs t)
       edges := fun t =>
        if t ∉ tos then []
        else
          match cachedHop S thread rAttrs caches frm t with
          | some cv => cv.2
          | none => if isShortcut S frm t then [] else ret.resEdges t },
      caches')

variable {S angle rAttrs} {tgGrp : Option ℕ} {maxD : C}

def AnglesThere (S : Setting N E C) (angle : E → N → E → Option C) : Prop :=
  ∀ e ∈ S.g.edges, ∀ e' ∈ S.g.adjListOut (S.g.getTo e),
    2 < (S.g.adjListOut (S.g.getTo e)).length → ∃ x, angle e (S.g.getTo e) e' = some x

def total (S : Setting N E C) (angle : E → N → E → Option C) : Setting N E C :=
  withAngle S fun e n e' => (angle e n e').getD 0

/-- `fullTurns` of `CostFunc::operator()` for a given angle. -/
def fullTurns (S : Setting N E C) (x : C) (frm : E) (n : N) (to_ : E) : ℕ :=
  if S.g.getFrom frm = S.g.getTo to_ ∧ S.g.getTo frm = S.g.getFrom to_ then 1
  else if 2 < (S.g.adjListOut n).length then (if x < S.rOpts.fullTurnAngle then 1 else 0)
  else 0

omit [DecidableEq E] [Field C] in
theorem fullTurns_congr {x x' : C} {frm to_ : E} {n : N}
    (h : readsHops S frm n to_ = true → x = x') :
    fullTurns S x frm n to_ = fullTurns S x' frm n to_ := by
  unfold fullTurns
  split
  · rfl
  · rename_i hturn
    split
    · rename_i hdeg
      rw [h (decide_eq_true ⟨hturn, hdeg⟩)]
    · rfl

omit [DecidableEq E] in
theorem edgePairCost_congr {f f' : E → N → E → C} {frm to_ : E} {n : N}
    (h : readsHops S frm n to_ = true → f frm n to_ = f' frm n to_) :
    Router.edgePairCost (withAngle S f) rAttrs tgGrp frm n to_ =
      Router.edgePairCost (withAngle S f') rAttrs tgGrp frm n to_ := by
  change edgeCost S.rOpts _ (fullTurns S (f frm n to_) frm n to_) _ _ _ _ _ _ =
    edgeCost S.rOpts _ (fullTurns S (f' frm n to_) frm n to_) _ _ _ _ _ _
  rw [fullTurns_congr h]
  rfl

omit [DecidableEq E] in
theorem AnglesThere.evaluates (h : AnglesThere S angle) :
    Evaluates S.g.toDirGraph (costFunc S angle rAttrs tgGrp maxD)
      (Router.costFunc (total S angle) rAttrs tgGrp maxD) where
  start := rfl
  inf := rfl
  cost e he e' he' := by
    change edgePairCost S angle rAttrs tgGrp e (S.g.getTo e) e' =
      some (Router.edgePairCost (total S angle) rAttrs tgGrp e (S.g.getTo e) e')
    unfold edgePairCost
    split
    · rename_i hreads
      obtain ⟨x, hx⟩ := h e he e' he' (of_decide_eq_true hreads).2
      rw [hx]
      refine congrArg some (edgePairCost_congr fun _ => ?_)
      rw [hx]
      rfl
    · rename_i hreads
      exact congrArg some (edgePairCost_congr (f := S.innerProd) fun hpos => absurd hpos hreads)

section nested
variable {thread : ℕ} {checked : CostFunc N E C} {cost : EDijkstra.CostFunc N E C}

omit [DecidableEq N] in
/-- `nestedCache` asks for the costs between edges of a way only. -/
theorem Evaluates.nestedFold (h : Evaluates S.g.toDirGraph checked cost) (front : E)
    (froms todo : List E) (st : NestedState E C)
    (hchain : (st.curEdges ++ todo).IsChain (Follows S.g.toDirGraph)) :
    todo.foldlM (nestedCacheStep S thread rAttrs front froms checked) st =
      some (todo.foldl (Router.nestedCacheStep S thread rAttrs front froms cost) st) := by
  induction todo generalizing st with
  | nil => rfl
  | cons e todo ih =>
    have hround : nestedCacheStep S thread rAttrs front froms checked st e =
        some (Router.nestedCacheStep S thread rAttrs front froms cost st e) := by
      unfold nestedCacheStep Router.nestedCacheStep
      rw [h.start]
      cases hlast : st.curEdges.getLast? with
      | none => rfl
      | some back =>
        have hfollows := (List.isChain_append.1 hchain).2.2 back hlast e rfl
        dsimp only
        rw [h.cost e hfollows.1 back hfollows.2]
        rfl
    rw [List.foldlM_cons, hround, List.foldl_cons]
    refine ih _ ?_
    change (st.curEdges ++ [e] ++ todo).IsChain _
    rw [List.append_assoc]
    exact hchain

omit [DecidableEq N] in
theorem Evaluates.nestedCache (h : Evaluates S.g.toDirGraph checked cost) {el : List E}
    (hel : el.IsChain (Follows S.g.toDirGraph)) (froms : List E) (caches : Caches E C) :
    nestedCache S thread rAttrs el froms checked caches =
      some (Router.nestedCache S thread rAttrs el froms cost caches) := by
  unfold Checked.nestedCache Router.nestedCache
  split
  · rfl
  · cases el with
    | nil => rfl
    | cons front el =>
      dsimp only
      rw [h.nestedFold front froms (front :: el) ⟨[], 0, caches⟩ hel]
      rfl

end nested

section hops
theorem AnglesThere.pilotRun (h : AnglesThere S angle) {a : EdgeCandidateGroup E C}
    (b : EdgeCandidateGroup E C) (hin : ∀ c ∈ a, c.e ∈ S.g.edges) :
    pilotRun S angle rAttrs a b = some (Router.pilotRun (total S angle) rAttrs a b) := by
  have hfrm : ∀ e ∈ S.edgeSet.toList (a.map EdgeCandidate.e), e ∈ S.g.edges :=
    S.forall_edgeSet hin
  unfold Checked.pilotRun Router.pilotRun
  rw [Nat.cast_ofNat]
  dsimp only
  rw [h.evaluates.shortestPathSet hfrm]
  split
  · rename_i hconn
    exact (if_pos hconn).symm ▸ rfl
  · rename_i hconn
    exact (if_neg hconn).symm ▸ rfl

theorem AnglesThere.getHopBand (h : AnglesThere S angle) {a : EdgeCandidateGroup E C}
    (b : EdgeCandidateGroup E C) (hin : ∀ c ∈ a, c.e ∈ S.g.edges) (caches : Caches E C) :
    getHopBand S angle thread rAttrs a b caches =
      some (Router.getHopBand (total S angle) thread rAttrs a b caches) := by
  have hchain : (Router.pilotRun (total S angle) rAttrs a b).2.IsChain (Follows S.g.toDirGraph) := by
    have hway : (Router.pilotRun (total S angle) rAttrs a b).2 = [] ∨
        ∃ f t, Way (total S angle).g.toDirGraph f t (Router.pilotRun (total S angle) rAttrs a b).2 :=
      pilotRun_way (S := total S angle) hin
    rcases hway with hnil | ⟨f, t, hway⟩
    · rw [hnil]
      exact List.isChain_nil
    · exact hway.chain
  unfold Checked.getHopBand Router.getHopBand
  simp only [Nat.cast_ofNat]
  rw [h.pilotRun b hin]
  generalize Router.pilotRun (total S angle) rAttrs a b = pilot at hchain ⊢
  obtain ⟨ret, el⟩ := pilot
  by_cases hshort : el.length < 2 ∧ pendingDistance S a b * 50 ≤ ret
  · exact (if_pos hshort).trans (congrArg some (if_pos hshort).symm)
  · refine (if_neg hshort).trans (Eq.trans ?_ (congrArg some (if_neg hshort).symm))
    rw [h.evaluates.nestedCache hchain]
    rfl

theorem AnglesThere.hops (h : AnglesThere S angle) {frm : E} (hfrm : frm ∈ S.g.edges)
    (froms tos : List E) (tgGrp : Option ℕ) (maxD : C) (caches : Caches E C) :
    hops S angle thread rAttrs frm froms tos tgGrp maxD caches =
      some (Router.hops (total S angle) thread rAttrs frm froms tos tgGrp maxD caches) := by
  have hsearch : ∀ rem, hopSearch S angle rAttrs frm rem tgGrp maxD =
      some (Router.hopSearch (total S angle) rAttrs frm rem tgGrp maxD) := fun rem =>
    h.evaluates.shortestPathAll hfrm
  have hchain : ∀ rem t,
      ((Router.hopSearch (total S angle) rAttrs frm rem tgGrp maxD).resEdges t).IsChain
        (Follows S.g.toDirGraph) := by
    intro rem t
    have hway : (Router.hopSearch (total S angle) rAttrs frm rem tgGrp maxD).resEdges t = [] ∨
        Way (total S angle).g.toDirGraph frm t
          ((Router.hopSearch (total S angle) rAttrs frm rem tgGrp maxD).resEdges t) :=
      hopSearch_way (S := total S angle) hfrm rem t
    rcases hway with hnil | hway
    · rw [hnil]
      exact List.isChain_nil
    · exact hway.chain
  unfold Checked.hops
  dsimp only
  rw [hsearch]
  rw [Option.bind_eq_bind, Option.bind_some]
  rw [foldlM_some _ (fun caches t => Router.nestedCache S thread rAttrs _ froms
    (Router.costFunc (total S angle) rAttrs tgGrp maxD) caches) (fun _ => True) _ trivial
    fun caches' t _ _ => ⟨h.evaluates.nestedCache (hchain _ t) froms caches', trivial⟩]
  rfl

end hops

end router

section read
open DirGraphs ODirEdges Restriction Trgraph Components Router
variable {P L G D : Type} [Zero L] {K : Type} {g₀ : Graph P L G D}

/-- The angle that `CostFunc::operator()` compares, where `innerProd` takes the node first. -/
def hopAngle (innerProd : P → P → P → K) (g : Graph P L G D) (frm : Edge) (n : ℕ) (to_ : Edge) :
    Option K := do
  let back ← backHop (g.pl frm)
  let front ← frontHop (g.pl to_)
  some (innerProd (pos g n) back front)

theorem writeSelfEdgs_nodup {g : Graph P L G D} (h : g.edges.Nodup) :
    (writeSelfEdgs g).edges.Nodup := by
  refine foldl_inv writeSelfEdg (fun s : Graph P L G D => s.edges.Nodup) g.nds h fun s n _ hs => ?_
  unfold writeSelfEdg
  split
  · exact DirGraph.addEdg_nodup hs
  · exact hs

/-- Three edges do not leave the node of a loop that has been added. -/
theorem old_of_hasEnd {g : Graph P L G D} (hg : Hopped g) {n : ℕ}
    (hdeg : 2 < ((writeSelfEdgs g).getAdjListOut n).length) {x : Edge}
    (hx : x ∈ (writeSelfEdgs g).edges) (hend : x.hasEnd n) : x ∈ g.edges := by
  by_contra hnot
  obtain ⟨hloop, honly⟩ := writeSelfEdgs_only hg.opposite hx hnot
  have hfrom : x.getFrom = n := hend.elim id fun hto => hloop.trans hto
  have hsub : (writeSelfEdgs g).getAdjListOut n ⊆ [x] := by
    intro y hy
    obtain ⟨hmem, hout⟩ := DirGraph.mem_getAdjListOut.1 hy
    exact List.mem_singleton.2 (honly y hmem (Or.inl (hout.trans hfrom.symm)))
  have hout : ((writeSelfEdgs g).getAdjListOut n).Nodup := (writeSelfEdgs_nodup hg.nodup).filter _
  have hle := (List.subperm_of_subset hout hsub).length_le
  rw [List.length_singleton] at hle
  omega

/-- Only loops that have been added lack a hop, and at their nodes no angle is asked for. -/
theorem writeSelfEdgs_angles {C : Type} [Field C] [LinearOrder C] {g : Graph P L G D}
    (hg : Hopped g) (innerProd : P → P → P → C)
    {S : Setting ℕ Edge C} {geom : P → C × C} {length : L → C} {group : G → ℕ}
    {w : WrittenComponents} (hS : S.g = transitGraph geom length group (writeSelfEdgs g) w) :
    AnglesThere S (hopAngle innerProd (writeSelfEdgs g)) := by
  unfold AnglesThere
  rw [hS]
  intro e he e' hout hdeg
  change e ∈ (writeSelfEdgs g).edges at he
  change e' ∈ (writeSelfEdgs g).getAdjListOut e.getTo at hout
  change 2 < ((writeSelfEdgs g).getAdjListOut e.getTo).length at hdeg
  obtain ⟨he', hfrom⟩ := DirGraph.mem_getAdjListOut.1 hout
  have hold := old_of_hasEnd hg hdeg he (Or.inr rfl)
  have hold' := old_of_hasEnd hg hdeg he' (Or.inl hfrom)
  have hlooped := writeSelfEdgs_looped g
  obtain ⟨back, hback⟩ := backHop_some (hg.twoPoints e hold)
  obtain ⟨front, hfront⟩ := frontHop_some (hg.twoPoints e' hold')
  refine ⟨innerProd (pos (writeSelfEdgs g) e.getTo) back front, ?_⟩
  unfold hopAngle
  rw [(hlooped.old e hold).2, (hlooped.old e' hold').2, hback, hfront]
  rfl

theorem writeSelfEdgs_twoPoints {g : Graph P L G D} (hg : Hopped g) {e : Edge}
    (he : e ∈ g.edges) : 2 ≤ ((writeSelfEdgs g).pl e).data.geom.length := by
  rw [((writeSelfEdgs_looped g).old e he).2]
  exact hg.twoPoints e he

/-- The router reads no hop of a loop that has been added. -/
theorem router_hops_there {C : Type} [Field C] [LinearOrder C] [IsStrictOrderedRing C]
    {g : Graph P L G D} (hg : Hopped g) (innerProd : P → P → P → C) {S : Setting ℕ Edge C}
    {geom : P → C × C} {length : L → C} {group : G → ℕ} {w : WrittenComponents}
    (hS : S.g = transitGraph geom length group (writeSelfEdgs g) w) (thread : ℕ)
    (rAttrs : RoutingAttributes) (caches : Caches Edge C) :
    (∀ a b : EdgeCandidateGroup Edge C, (∀ c ∈ a, c.e ∈ (writeSelfEdgs g).edges) →
      getHopBand S (hopAngle innerProd (writeSelfEdgs g)) thread rAttrs a b caches =
        some (Router.getHopBand (total S (hopAngle innerProd (writeSelfEdgs g))) thread rAttrs a b
          caches)) ∧
    ∀ frm ∈ (writeSelfEdgs g).edges, ∀ (froms tos : List Edge) (tgGrp : Option ℕ) (maxD : C),
      hops S (hopAngle innerProd (writeSelfEdgs g)) thread rAttrs frm froms tos tgGrp maxD caches =
        some (Router.hops (total S (hopAngle innerProd (writeSelfEdgs g))) thread rAttrs frm froms tos
          tgGrp maxD caches) := by
  have hangles := writeSelfEdgs_angles hg innerProd hS
  have hedges : S.g.edges = (writeSelfEdgs g).edges := by
    rw [hS]
    rfl
  refine ⟨fun a b hin => ?_, fun frm hfrm froms tos tgGrp maxD => ?_⟩
  · exact hangles.getHopBand thread b (fun c hc => hedges ▸ hin c hc) caches
  · exact hangles.hops thread (hedges ▸ hfrm) froms tos tgGrp maxD caches

end read

section run
open DirGraphs ODirEdges Restriction Trgraph Components Router
variable {P L : Type} [LinearOrder L] (C : CleanUp P L)

theorem deleteOrphans_some {G D : Type} {g : Graph P L G D} (hproper : g.Proper)
    (htwo : TwoPoints g) :
    deleteOrphanEdges C.geo (deleteOrphanNodes g) = some (C.deleteOrphans g) := by
  have hnodes := deleteOrphanNodes_shrunk g
  exact deleteOrphanEdges_some (hnodes.proper hproper) (hnodes.twoPoints htwo)

variable [AddCommMonoid L]

/-- Every angle that the clean-up or the router computes lies between two hops that are there. -/
theorem read_hops_there {st : Stations P L} (h : st.g.Proper)
    (restor : Restrictor) :
    let snapped := (C.snapStations st restor).st.g
    let dirs := (C.run st restor).1
    let g := writeSelfEdgs dirs
    (∀ e ∈ g.edges, e ∈ dirs.edges → 2 ≤ (g.pl e).data.geom.length) ∧
    (∀ e ∈ g.edges, e ∉ dirs.edges →
      e.getFrom = e.getTo ∧ ∀ x ∈ g.edges, x.hasEnd e.getFrom → x = e) ∧
    deleteOrphanEdges C.geo (deleteOrphanNodes snapped) = some (C.deleteOrphans snapped) ∧
    deleteOrphanEdges C.geo (deleteOrphanNodes (C.collapse snapped)) =
      some (C.deleteOrphans (C.collapse snapped)) ∧
    ∀ {K : Type} [Field K] [LinearOrder K] [IsStrictOrderedRing K] (S : Setting ℕ Edge K)
      (geom : P → K × K) (length : L → K) (group : ℕ → ℕ) (w : WrittenComponents)
      (innerProd : P → P → P → K), S.g = transitGraph geom length group g w →
      ∀ (thread : ℕ) (rAttrs : RoutingAttributes) (caches : Caches Edge K),
        (∀ a b : EdgeCandidateGroup Edge K, (∀ c ∈ a, c.e ∈ g.edges) →
          getHopBand S (hopAngle innerProd g) thread rAttrs a b caches =
            some (Router.getHopBand (total S (hopAngle innerProd g)) thread rAttrs a b caches)) ∧
        ∀ frm ∈ g.edges, ∀ (froms tos : List Edge) (tgGrp : Option ℕ) (maxD : K),
          hops S (hopAngle innerProd g) thread rAttrs frm froms tos tgGrp maxD caches =
            some (Router.hops (total S (hopAngle innerProd g)) thread rAttrs frm froms tos tgGrp maxD
              caches) := by
  have hsnap := (C.snapStations_steps restor h).1
  have htwo := C.snapStations_twoPoints restor h
  have hg := C.run_hopped restor h
  dsimp only
  generalize (C.run st restor).1 = dirs at hg ⊢
  generalize (C.snapStations st restor).st.g = snapped at hsnap htwo ⊢
  refine ⟨fun e _ hold => writeSelfEdgs_twoPoints hg hold,
    fun e he hnot => writeSelfEdgs_only hg.opposite he hnot, deleteOrphans_some C hsnap htwo,
    deleteOrphans_some C (C.collapse_proper snapped hsnap) (C.collapse_twoPoints hsnap htwo), ?_⟩
  intro K _ _ _ S geom length group w innerProd hS thread rAttrs caches
  exact router_hops_there hg innerProd hS thread rAttrs caches

end run

section samples
open DirGraphs ODirEdges Restriction Trgraph Components Router

def roundTripGraph : Graph ℕ ℕ ℕ StationData :=
  writeSelfEdgs (lineCleanUp.run roundTrip .empty).1

def roundTripSetting : Setting ℕ Edge ℚ :=
  { islandSetting with
    g := transitGraph (fun p : ℕ => ((p : ℚ), 0)) (fun l : ℕ => (l : ℚ)) id roundTripGraph
      (writeComponents roundTripGraph fun _ => none) }

theorem read_hops_there_roundTrip :
    2 ≤ (roundTripGraph.pl ⟨13, 5, 4⟩).data.geom.length ∧
    (∀ b : EdgeCandidateGroup Edge ℚ, (getHopBand roundTripSetting
      (hopAngle (fun m f t : ℕ => (f : ℚ) + t - 2 * m) roundTripGraph) 0 ⟨"", "", ""⟩
      [⟨⟨13, 5, 4⟩, 0⟩] b fun _ _ _ _ => none).isSome) := by
  have hproper : roundTrip.g.Proper := ⟨⟨by decide, by decide, by decide⟩, by decide⟩
  obtain ⟨htwo, -, -, -, hrouter⟩ := read_hops_there lineCleanUp hproper .empty
  have hmem : (⟨13, 5, 4⟩ : Edge) ∈ roundTripGraph.edges := by decide
  have hband := (hrouter roundTripSetting (fun p : ℕ => ((p : ℚ), 0)) (fun l : ℕ => (l : ℚ)) id
    (writeComponents roundTripGraph fun _ => none) (fun m f t : ℕ => (f : ℚ) + t - 2 * m) rfl 0
    ⟨"", "", ""⟩ fun _ _ _ _ => none).1
  refine ⟨htwo ⟨13, 5, 4⟩ hmem (by decide), fun b => ?_⟩
  refine Option.isSome_iff_exists.2 ⟨_, hband _ b fun c hc => ?_⟩
  rw [List.mem_singleton.1 hc]
  exact hmem

end samples

end Pfaedle.Checked

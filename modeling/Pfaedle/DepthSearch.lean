import Mathlib.Algebra.Order.Group.Nat
import Pfaedle.ClosingSearch
import Pfaedle.Snapping

set_option autoImplicit false

/-!
# What `depth_search` finds

A node is expanded for the first edge that it is entered by, and the turns out of it are tested
against that edge. So what is found depends on the candidate that each node is closed with, one that
no other way to the node that starts at a closed node is shorter than.
-/
namespace Pfaedle.Trgraph
open DirGraphs ClosingSearch

section walks
variable {P L : Type*} [AddCommMonoid L] [LinearOrder L] (geo : SnapGeo P L)
  (g : Graph P L ℕ StationData) (e : Edge) (p : P)

/-- The turn from the edge that a node is entered by to the node `m`. -/
def SharpTurn (c : NodeCand L) (m : ℕ) : Prop :=
  2 < deg g c.node ∧
    geo.fullTurn (pos g c.node) (pos g (c.fromEdge.getOtherNd c.node)) (pos g m)

instance (c : NodeCand L) (m : ℕ) : Decidable (SharpTurn geo g c m) :=
  inferInstanceAs (Decidable (_ ∧ _))

def candFrom : NodeCand L := ⟨geo.webMercMeterDist (pos g e.getFrom) p, e.getFrom, e⟩

def candTo : NodeCand L := ⟨geo.webMercMeterDist (pos g e.getTo) p, e.getTo, e⟩

def NodeCand.along (c : NodeCand L) (x : ℕ × Edge) : NodeCand L :=
  ⟨c.dist + (g.pl x.2).data.length, x.1, x.2⟩

/-- The walks that start at an end of the edge, and make no sharp turn. -/
inductive ReachWalk : NodeCand L → Prop
  | frm : ReachWalk (candFrom geo g e p)
  | to_ : ReachWalk (candTo geo g e p)
  | step {c : NodeCand L} {x : ℕ × Edge} : ReachWalk c → x ∈ neighbours g c.node →
      x.1 ≠ c.node → ¬ SharpTurn geo g c x.1 → ReachWalk (c.along g x)

/-- The walks of which every turn may also be made by the other walks to its node that are not
longer. -/
inductive OpenWalk : NodeCand L → Prop
  | frm : OpenWalk (candFrom geo g e p)
  | to_ : OpenWalk (candTo geo g e p)
  | step {c : NodeCand L} {x : ℕ × Edge} : OpenWalk c → x ∈ neighbours g c.node →
      x.1 ≠ c.node → ¬ SharpTurn geo g c x.1 →
      (∀ c', ReachWalk geo g e p c' → c'.node = c.node → c'.dist ≤ c.dist →
        ¬ SharpTurn geo g c' x.1) → OpenWalk (c.along g x)

def NearEnd (maxD : L) (n : ℕ) : Prop :=
  n = e.getFrom ∧ (candFrom geo g e p).dist ≤ maxD ∨ n = e.getTo ∧ (candTo geo g e p).dist ≤ maxD

end walks

section space
variable {P L : Type*} [AddCommMonoid L] [LinearOrder L] (geo : SnapGeo P L)
  (g : Graph P L ℕ StationData) (maxD : L)

def follow (c : NodeCand L) (x : ℕ × Edge) : Option (NodeCand L) :=
  if x.1 = c.node then none
  else if ¬ SharpTurn geo g c x.1 ∧ (c.along g x).dist < maxD then some (c.along g x)
  else none

/-- The candidates of `depth_search` as the entries of a search. -/
abbrev candSpace : Space (NodeCand L) ℕ L where
  place := NodeCand.node
  cost := NodeCand.dist
  next c := (neighbours g c.node).filterMap (follow geo g maxD c)

variable {geo g maxD}

theorem mem_next {c b : NodeCand L} : b ∈ (candSpace geo g maxD).next c ↔
    ∃ x ∈ neighbours g c.node, x.1 ≠ c.node ∧ ¬ SharpTurn geo g c x.1 ∧
      (c.along g x).dist < maxD ∧ c.along g x = b := by
  change b ∈ List.filterMap _ _ ↔ _
  rw [List.mem_filterMap]
  refine exists_congr fun x => and_congr_right fun _ => ?_
  rw [follow]
  split_ifs with hself hallowed
  · exact ⟨fun h => (nomatch h), fun h => absurd hself h.1⟩
  · exact ⟨fun h => ⟨hself, hallowed.1, hallowed.2, Option.some.inj h⟩,
      fun h => congrArg some h.2.2.2⟩
  · exact ⟨fun h => (nomatch h), fun h => absurd ⟨h.2.1, h.2.2.1⟩ hallowed⟩

theorem expandNode_eq (S : Snapper P L) (sfunc : ℕ → Bool) (closed : List ℕ) (c : NodeCand L)
    (l : List (ℕ × Edge)) : expandNode S g sfunc maxD closed c l =
      expand (candSpace S.geo g maxD) sfunc closed (l.filterMap (follow S.geo g maxD c)) := by
  induction l with
  | nil => rfl
  | cons x l ih =>
    rw [expandNode, List.filterMap_cons]
    by_cases hself : x.1 = c.node
    · rw [if_pos hself, follow, if_pos hself]
      exact ih
    · rw [if_neg hself, follow, if_neg hself]
      dsimp only
      by_cases hallowed : ¬ SharpTurn S.geo g c x.1 ∧ (c.along g x).dist < maxD
      · rw [if_pos hallowed]
        dsimp only
        rw [expand]
        by_cases hclosed : x.1 ∈ closed
        · rw [if_neg fun h => h.2.2 hclosed]
          exact ih.trans (if_pos hclosed).symm
        · rw [if_pos ⟨hallowed.1, hallowed.2, hclosed⟩, ih]
          exact (if_neg hclosed).symm
      · rw [if_neg hallowed, if_neg fun h => hallowed ⟨h.1, h.2.1⟩]
        exact ih

theorem searchLoop_eq (S : Snapper P L) (sfunc : ℕ → Bool) (k : ℕ) (closed : List ℕ)
    (q : List (NodeCand L)) :
    searchLoop S g sfunc maxD k closed q =
      loop (candSpace S.geo g maxD) sfunc S.nodeQueue k closed q := by
  induction k generalizing closed q with
  | zero => rfl
  | succ k ih =>
    rw [searchLoop, loop]
    cases S.nodeQueue.pop q with
    | none => rfl
    | some popped =>
      simp only [expandNode_eq, ih]
      by_cases hclosed : popped.1.node ∈ closed
      · rw [if_pos hclosed, if_pos hclosed]
      · rw [if_neg hclosed, if_neg hclosed]
        generalize expand (candSpace S.geo g maxD) sfunc _ _ = out
        rcases out with ⟨_ | n, new⟩
        · rfl
        · rfl

/-- The ends of edges at open nodes, which bound the candidates that are still pushed. -/
def room (edges : List Edge) (closed : List ℕ) : ℕ :=
  edges.countP (fun x => x.getTo ∉ closed) + edges.countP fun x => x.getFrom ∉ closed

theorem countP_closed (f : Edge → ℕ) (edges : List Edge) {n : ℕ} {closed : List ℕ}
    (h : n ∉ closed) :
    edges.countP (fun x => f x ∉ n :: closed) + (edges.filter fun x => f x = n).length =
      edges.countP fun x => f x ∉ closed := by
  induction edges with
  | nil => rfl
  | cons x edges ih =>
    by_cases hx : f x = n
    · simp [hx, h] at ih ⊢
      omega
    · by_cases hclosed : f x ∈ closed
      · simp [hx, hclosed] at ih ⊢
        omega
      · simp [hx, hclosed] at ih ⊢
        omega

theorem room_cons (c : NodeCand L) {closed : List ℕ} (h : c.node ∉ closed) :
    room g.edges (c.node :: closed) + ((candSpace geo g maxD).next c).length ≤
      room g.edges closed := by
  have hnext : ((candSpace geo g maxD).next c).length ≤ (neighbours g c.node).length :=
    List.length_filterMap_le _ _
  have hin := countP_closed Edge.getTo g.edges h
  have hout := countP_closed Edge.getFrom g.edges h
  rw [neighbours, List.length_append, List.length_map, List.length_map, DirGraph.getAdjListIn,
    DirGraph.getAdjListOut] at hnext
  unfold room
  omega

theorem room_nil (edges : List Edge) : room edges [] = 2 * edges.length := by
  simp [room, two_mul]

end space

section found
variable {P L : Type*} [AddCommMonoid L] [LinearOrder L] {S : Snapper P L} {geo : SnapGeo P L}
  {g : Graph P L ℕ StationData} {maxD : L} {e : Edge} {p : P}

variable (geo g e p) in
def startCands : List (NodeCand L) :=
  candFrom geo g e p :: if e.getFrom ≠ e.getTo then [candTo geo g e p] else []

section
omit [AddCommMonoid L] [LinearOrder L]

theorem candTo_mem : candTo geo g e p ∈ startCands geo g e p := by
  rw [startCands]
  split_ifs with hne
  · exact List.mem_cons_of_mem _ (List.mem_singleton_self _)
  · rw [candTo, ← not_not.1 hne]
    exact List.mem_cons_self

theorem mem_startCands {c : NodeCand L} (h : c ∈ startCands geo g e p) :
    c = candFrom geo g e p ∨ c = candTo geo g e p := by
  rw [startCands] at h
  split_ifs at h
  · simpa using h
  · exact Or.inl (List.mem_singleton.1 h)

theorem mem_neighbours {n : ℕ} {x : ℕ × Edge} (h : x ∈ neighbours g n) : x.2 ∈ g.edges := by
  rcases List.mem_append.1 h with h | h
  · obtain ⟨f, hf, rfl⟩ := List.mem_map.1 h
    exact (DirGraph.mem_getAdjListIn.1 hf).1
  · obtain ⟨f, hf, rfl⟩ := List.mem_map.1 h
    exact (DirGraph.mem_getAdjListOut.1 hf).1

end

theorem reached_walk {c : NodeCand L}
    (h : Reached (candSpace geo g maxD) (startCands geo g e p) c) : ReachWalk geo g e p c := by
  obtain ⟨s, hs, hsteps⟩ := h
  induction hsteps with
  | refl =>
    rcases mem_startCands hs with rfl | rfl
    · exact .frm
    · exact .to_
  | tail _ hnext ih =>
    obtain ⟨x, hx, hself, hturn, -, rfl⟩ := mem_next.1 hnext
    exact ih.step hx hself hturn

def Lengths (g : Graph P L ℕ StationData) : Prop := ∀ x ∈ g.edges, 0 ≤ (g.pl x).data.length

theorem Lengths.along [IsOrderedAddMonoid L] (h : Lengths g) (c : NodeCand L) {x : ℕ × Edge}
    (hx : x ∈ neighbours g c.node) : c.dist ≤ (c.along g x).dist :=
  le_add_of_nonneg_right (h x.2 (mem_neighbours hx))

theorem Lengths.next [IsOrderedAddMonoid L] (h : Lengths g) (c : NodeCand L) :
    ∀ b ∈ (candSpace geo g maxD).next c, c.dist ≤ b.dist := by
  intro b hb
  obtain ⟨x, hx, -, -, -, rfl⟩ := mem_next.1 hb
  exact h.along c hx

theorem next_le (c : NodeCand L) : ∀ b ∈ (candSpace geo g maxD).next c, b.dist ≤ maxD := by
  intro b hb
  obtain ⟨x, -, -, -, hdist, rfl⟩ := mem_next.1 hb
  exact hdist.le

theorem OpenWalk.clear [IsOrderedAddMonoid L] (hlen : Lengths g) {c : NodeCand L}
    (h : OpenWalk geo g e p c)
    (hdist : c.dist < maxD) : Clear (candSpace geo g maxD) (startCands geo g e p) c := by
  induction h with
  | frm => exact ⟨_, List.mem_cons_self, .refl⟩
  | to_ => exact ⟨_, candTo_mem, .refl⟩
  | @step c x _ hx hself hturn hothers ih =>
    obtain ⟨s, hs, hsteps⟩ := ih (lt_of_le_of_lt (hlen.along c hx) hdist)
    refine ⟨s, hs, hsteps.tail ⟨mem_next.2 ⟨x, hx, hself, hturn, hdist, rfl⟩, ?_⟩⟩
    intro c' hc' hnode hle
    have hcost : (c'.along g x).dist ≤ (c.along g x).dist := add_le_add_left hle _
    have hturn' : ¬ SharpTurn geo g c' x.1 := hothers c' (reached_walk hc') hnode hle
    have hx' : x ∈ neighbours g c'.node := by
      rw [show c'.node = c.node from hnode]
      exact hx
    have hself' : x.1 ≠ c'.node := by
      rw [show c'.node = c.node from hnode]
      exact hself
    exact ⟨c'.along g x,
      mem_next.2 ⟨x, hx', hself', hturn', lt_of_le_of_lt hcost hdist, rfl⟩, rfl, hcost⟩

theorem depth_search_eq (e : Edge) (p : P) (maxD : L) (sfunc : ℕ → Bool) :
    depth_search S g e p maxD sfunc =
      if maxD < (candFrom S.geo g e p).dist ∧ maxD < (candTo S.geo g e p).dist then none
      else if (candFrom S.geo g e p).dist ≤ maxD ∧ sfunc e.getFrom then some e.getFrom
      else if (candTo S.geo g e p).dist ≤ maxD ∧ sfunc e.getTo then some e.getTo
      else loop (candSpace S.geo g maxD) sfunc S.nodeQueue (2 * g.edges.length + 3) []
        (startCands S.geo g e p) := by
  rw [← searchLoop_eq]
  rfl

omit [AddCommMonoid L] [LinearOrder L] in
theorem startCands_length : (startCands geo g e p).length ≤ 2 := by
  rw [startCands]
  split_ifs
  · exact le_rfl
  · exact Nat.le_succ 1

theorem ReachWalk.start_le [IsOrderedAddMonoid L] (hlen : Lengths g) {c : NodeCand L}
    (h : ReachWalk geo g e p c) :
    (candFrom geo g e p).dist ≤ c.dist ∨ (candTo geo g e p).dist ≤ c.dist := by
  induction h with
  | frm => exact Or.inl le_rfl
  | to_ => exact Or.inr le_rfl
  | @step c x _ hx _ _ ih =>
    exact ih.imp (fun hle => hle.trans (hlen.along c hx)) fun hle => hle.trans (hlen.along c hx)

theorem depth_search_found {sfunc : ℕ → Bool} {n : ℕ}
    (h : depth_search S g e p maxD sfunc = some n) : sfunc n ∧
      (NearEnd S.geo g e p maxD n ∨ ∃ c, ReachWalk S.geo g e p c ∧ c.node = n ∧ c.dist < maxD) := by
  rw [depth_search_eq] at h
  split_ifs at h with hfar hfrm hto
  · cases h
    exact ⟨hfrm.2, Or.inl (Or.inl ⟨rfl, hfrm.1⟩)⟩
  · cases h
    exact ⟨hto.2, Or.inl (Or.inr ⟨rfl, hto.1⟩)⟩
  · obtain ⟨hgoal, a, b, ha, hb, hnode⟩ := loop_found (fun s hs => ⟨s, hs, .refl⟩) h
    obtain ⟨x, -, -, -, hdist, rfl⟩ := mem_next.1 hb
    exact ⟨hgoal, Or.inr ⟨_, reached_walk (ha.next hb), hnode, hdist⟩⟩

/-- The ends of the edge and of walks without a sharp turn that the search is to find. -/
def ToFind (geo : SnapGeo P L) (g : Graph P L ℕ StationData) (e : Edge) (p : P) (maxD : L)
    (sfunc : ℕ → Bool) : Prop :=
  (∃ n, NearEnd geo g e p maxD n ∧ sfunc n) ∨
    ∃ c, ReachWalk geo g e p c ∧ c.dist < maxD ∧ sfunc c.node

/-- Only such an end is found, and one is found if there is any. -/
def Reaches (S : Snapper P L) (g : Graph P L ℕ StationData) (e : Edge) (p : P) (maxD : L)
    (sfunc : ℕ → Bool) : Prop :=
  (∀ n, depth_search S g e p maxD sfunc = some n → sfunc n ∧
    (NearEnd S.geo g e p maxD n ∨ ∃ c, ReachWalk S.geo g e p c ∧ c.node = n ∧ c.dist < maxD)) ∧
    (ToFind S.geo g e p maxD sfunc → (depth_search S g e p maxD sfunc).isSome)

/-- An end that is not too far is the end of a walk that can be closed with. -/
theorem ToFind.near [IsOrderedAddMonoid L] (hlen : Lengths g) {sfunc : ℕ → Bool}
    (h : ToFind geo g e p maxD sfunc) :
    ¬ (maxD < (candFrom geo g e p).dist ∧ maxD < (candTo geo g e p).dist) := by
  rintro ⟨hfrm, hto⟩
  rcases h with ⟨n, ⟨-, hle⟩ | ⟨-, hle⟩, -⟩ | ⟨c, hc, hdist, -⟩
  · exact absurd hle (not_le_of_gt hfrm)
  · exact absurd hle (not_le_of_gt hto)
  · rcases hc.start_le hlen with hle | hle
    · exact absurd (hle.trans_lt hdist) (not_lt_of_gt hfrm)
    · exact absurd (hle.trans_lt hdist) (not_lt_of_gt hto)

theorem depth_search_near {sfunc : ℕ → Bool}
    (hend : ∃ n, NearEnd S.geo g e p maxD n ∧ sfunc n) :
    (depth_search S g e p maxD sfunc).isSome := by
  obtain ⟨n, hnear, hgoal⟩ := hend
  rw [depth_search_eq]
  rcases hnear with ⟨rfl, hle⟩ | ⟨rfl, hle⟩
  · rw [if_neg fun h => not_lt_of_ge hle h.1, if_pos ⟨hle, hgoal⟩]
    rfl
  · rw [if_neg fun h => not_lt_of_ge hle h.2]
    split_ifs with hfrm hto
    · rfl
    · rfl
    · exact absurd ⟨hle, hgoal⟩ hto

theorem depth_search_loop {sfunc : ℕ → Bool}
    (hnear : ¬ (maxD < (candFrom S.geo g e p).dist ∧ maxD < (candTo S.geo g e p).dist))
    (hend : ¬ ∃ n, NearEnd S.geo g e p maxD n ∧ sfunc n) :
    depth_search S g e p maxD sfunc =
      loop (candSpace S.geo g maxD) sfunc S.nodeQueue (2 * g.edges.length + 3) []
        (startCands S.geo g e p) := by
  rw [depth_search_eq, if_neg hnear,
    if_neg fun h => hend ⟨e.getFrom, Or.inl ⟨rfl, h.1⟩, h.2⟩,
    if_neg fun h => hend ⟨e.getTo, Or.inr ⟨rfl, h.1⟩, h.2⟩]

omit [AddCommMonoid L] in
theorem startCands_far {sfunc : ℕ → Bool}
    (hend : ¬ ∃ n, NearEnd geo g e p maxD n ∧ sfunc n) :
    ∀ s ∈ startCands geo g e p, sfunc s.node → maxD < s.dist := by
  intro s hs hgoal
  by_contra hle
  rcases mem_startCands hs with rfl | rfl
  · exact hend ⟨e.getFrom, Or.inl ⟨rfl, not_lt.1 hle⟩, hgoal⟩
  · exact hend ⟨e.getTo, Or.inr ⟨rfl, not_lt.1 hle⟩, hgoal⟩

variable {kept : Set (NodeCand L)}

theorem closing_near (h : Closing (candSpace geo g maxD) (startCands geo g e p) kept)
    {sfunc : ℕ → Bool} (hend : ∃ n, NearEnd geo g e p maxD n ∧ sfunc n) :
    ∃ c ∈ kept, c.dist ≤ maxD ∧ sfunc c.node := by
  have hstart : ∀ s ∈ startCands geo g e p, s.dist ≤ maxD → sfunc s.node →
      ∃ c ∈ kept, c.dist ≤ maxD ∧ sfunc c.node := by
    intro s hs hle hgoal
    obtain ⟨c, hc, hnode, hdist⟩ := h.starts s hs
    exact ⟨c, hc, hdist.trans hle, (congrArg sfunc hnode).trans hgoal⟩
  obtain ⟨n, ⟨rfl, hle⟩ | ⟨rfl, hle⟩, hgoal⟩ := hend
  · exact hstart _ List.mem_cons_self hle hgoal
  · exact hstart _ candTo_mem hle hgoal

theorem OpenWalk.closed_with [IsOrderedAddMonoid L] (hlen : Lengths g) {c : NodeCand L}
    (h : OpenWalk geo g e p c)
    (hdist : c.dist < maxD)
    (hkept : Closing (candSpace geo g maxD) (startCands geo g e p) kept) :
    ∃ d ∈ kept, d.node = c.node ∧ d.dist ≤ c.dist :=
  hkept.clear (h.clear hlen hdist)

/-- In whichever order candidates that are equally far are popped, the search finds what it is to
find if and only if no closing of the nodes leaves it out. -/
theorem depth_search_reaches_iff [IsOrderedAddMonoid L] (hlen : Lengths g) (e : Edge) (p : P)
    (maxD : L)
    (sfunc : ℕ → Bool) :
    (∀ queue, Reaches { S with nodeQueue := queue } g e p maxD sfunc) ↔
      (ToFind S.geo g e p maxD sfunc →
        ∀ kept, Closing (candSpace S.geo g maxD) (startCands S.geo g e p) kept →
          ∃ c ∈ kept, c.dist ≤ maxD ∧ sfunc c.node) := by
  have hloop : (∀ queue, Reaches { S with nodeQueue := queue } g e p maxD sfunc) ↔
      (ToFind S.geo g e p maxD sfunc → ∀ queue,
        (depth_search { S with nodeQueue := queue } g e p maxD sfunc).isSome) :=
    ⟨fun h hfind queue => (h queue).2 hfind, fun h queue =>
      ⟨fun n => depth_search_found, fun hfind => h hfind queue⟩⟩
  rw [hloop]
  refine imp_congr_right fun hfind => ?_
  have hnear := hfind.near hlen
  by_cases hend : ∃ n, NearEnd S.geo g e p maxD n ∧ sfunc n
  · exact iff_of_true (fun queue => depth_search_near hend) fun kept hkept => closing_near hkept hend
  · have hlength : (startCands S.geo g e p).length ≤ 2 := startCands_length
    have hroom := room_nil g.edges
    rw [← loop_isSome_iff hlen.next next_le (fun a closed => room_cons a) (startCands_far hend)
      (show _ < 2 * g.edges.length + 3 by omega)]
    refine forall_congr' fun queue => ?_
    have hrun := depth_search_loop (S := { S with nodeQueue := queue }) hnear hend
    rw [hrun]

end found

section sample

def cornerSnapper : Snapper (ℤ × ℤ) ℕ where
  geo :=
    { webMercMeterDist := fun a b => (a.1 - b.1).natAbs + (a.2 - b.2).natAbs
      toFloat := id
      gap := fun _ => 0
      angSmaller := fun _ _ _ => false
      distToSegment := fun _ _ _ => 0
      projectOn := fun a _ _ => a
      fullTurn := fun n a b => 0 < (a.1 - n.1) * (b.1 - n.1) + (a.2 - n.2) * (b.2 - n.2)
      edgeDist := fun _ _ _ => 0
      inGrid := fun _ => true
      edgeInGrid := fun _ => true }
  opts := ⟨[], 0, 0, 0, 0, 0⟩
  statSimi a b := a = b
  statNormzer := id
  trackNormzer := id
  nodeQueue := PriorityQueue.leastFirst NodeCand.dist _ fun _ _ h => h
  edgeQueue := PriorityQueue.leastFirst Prod.fst _ fun _ _ h => h
  addr := id
  import_osm_stations := false

/-- From the node 1 a straight street and one around a corner lead to the node 2, where the way to
the node 4 can be taken from the corner only. -/
def cornerStreets : Graph (ℤ × ℤ) ℕ ℕ StationData where
  nds := [0, 1, 2, 3, 4]
  npl := fun n => ⟨[(3, 1), (1, 1), (0, 0), (1, -1), (0, 2)].getD n (0, 0), none⟩
  edges := [⟨0, 0, 1⟩, ⟨1, 1, 2⟩, ⟨2, 1, 3⟩, ⟨3, 3, 2⟩, ⟨4, 2, 4⟩]
  pl := fun _ => ⟨0, false, false, ⟨[], 2, 0, []⟩⟩
  nextNd := 5
  nextEdge := 5
  fresh := by decide
  simple := by decide

theorem depth_search_reaches_corner :
    Reaches cornerSnapper cornerStreets ⟨0, 0, 1⟩ (1, 1) 100 (· == 2) := by
  have hlen : Lengths cornerStreets := fun _ _ => Nat.zero_le _
  have hopen : OpenWalk cornerSnapper.geo cornerStreets ⟨0, 0, 1⟩ (1, 1) ⟨2, 2, ⟨1, 1, 2⟩⟩ := by
    refine OpenWalk.to_.step (x := (2, ⟨1, 1, 2⟩)) (by decide) (by decide) (by decide) ?_
    intro c hc hnode hdist
    cases hc with
    | frm => exact absurd hnode (by decide)
    | to_ => decide
    | step _ _ _ _ =>
      exact absurd hdist (by simp [NodeCand.along, candTo, cornerStreets, cornerSnapper, pos])
  refine (depth_search_reaches_iff (S := cornerSnapper) hlen ⟨0, 0, 1⟩ (1, 1) 100 (· == 2)).2
    (fun _ kept hkept => ?_) cornerSnapper.nodeQueue
  obtain ⟨c, hc, hnode, hdist⟩ := hopen.closed_with hlen (show _ < 100 by decide) hkept
  exact ⟨c, hc, hdist.trans (by decide), by simp [hnode]⟩

/-- The node 2 is closed from the straight street, and the way around the corner is not followed
on. -/
theorem depth_search_hidden : Lengths cornerStreets ∧
    ¬ Reaches cornerSnapper cornerStreets ⟨0, 0, 1⟩ (1, 1) 100 (· == 4) := by
  refine ⟨fun _ _ => Nat.zero_le _, fun hreaches => ?_⟩
  have hcorner : ReachWalk cornerSnapper.geo cornerStreets ⟨0, 0, 1⟩ (1, 1) ⟨2, 3, ⟨2, 1, 3⟩⟩ :=
    ReachWalk.to_.step (x := (3, ⟨2, 1, 3⟩)) (by decide) (by decide) (by decide)
  have hnode : ReachWalk cornerSnapper.geo cornerStreets ⟨0, 0, 1⟩ (1, 1) ⟨4, 2, ⟨3, 3, 2⟩⟩ :=
    hcorner.step (x := (2, ⟨3, 3, 2⟩)) (by decide) (by decide) (by decide)
  have htarget : ReachWalk cornerSnapper.geo cornerStreets ⟨0, 0, 1⟩ (1, 1) ⟨6, 4, ⟨4, 2, 4⟩⟩ :=
    hnode.step (x := (4, ⟨4, 2, 4⟩)) (by decide) (by decide) (by decide)
  have hsome := hreaches.2 (Or.inr ⟨_, htarget, by decide, rfl⟩)
  have hnone : depth_search cornerSnapper cornerStreets ⟨0, 0, 1⟩ (1, 1) 100 (· == 4) = none := by
    decide +kernel
  rw [hnone] at hsome
  exact absurd hsome Bool.false_ne_true

end sample

end Pfaedle.Trgraph

import Pfaedle.Contraction
import Pfaedle.LoopRules
import Pfaedle.MinLength
import Mathlib.Algebra.Order.Ring.Nat

set_option autoImplicit false

/-!
# Contraction and travel

An edge may be used as its one-way flag says. When both edges at a contracted node carry the same
flag and the sum of their lengths is not rounded, what can be driven between the other nodes stays
the same.
-/
namespace Pfaedle.Trgraph
open DirGraphs Restriction ODirEdges MinLengths LoopRules

section travel
variable {P L G D : Type*}

/-- An edge with the flag `k` may be used from `u` to `v`. -/
def MayUse (k : ℕ) (e : Edge) (u v : ℕ) : Prop :=
  ((k = 0 ∨ k = 1) ∧ e.getFrom = u ∧ e.getTo = v) ∨
    ((k = 0 ∨ k = 2) ∧ e.getFrom = v ∧ e.getTo = u)

instance (k : ℕ) (e : Edge) (u v : ℕ) : Decidable (MayUse k e u v) :=
  inferInstanceAs (Decidable (_ ∨ _))

def LegalStep (g : Graph P L G D) (u : ℕ) (c : L) (v : ℕ) : Prop :=
  ∃ e ∈ g.edges, MayUse (g.pl e).oneWay e u v ∧ (g.pl e).data.length = c

/-- `n` has an edge or station info. -/
def Kept (g : Graph P L G D) (n : ℕ) : Prop := (∃ e ∈ g.edges, e.hasEnd n) ∨ (g.npl n).si ≠ none

theorem MayUse.hasEnd {k : ℕ} {e : Edge} {u v : ℕ} (h : MayUse k e u v) :
    e.hasEnd u ∧ e.hasEnd v := by
  cases h with
  | inl h => exact ⟨Or.inl h.2.1, Or.inr h.2.2⟩
  | inr h => exact ⟨Or.inr h.2.2, Or.inl h.2.1⟩

theorem MayUse.other {k : ℕ} {e : Edge} {u n : ℕ} (h : MayUse k e u n ∨ MayUse k e n u)
    (hu : u ≠ n) : u = e.getOtherNd n := by
  rw [Edge.getOtherNd]
  unfold MayUse at h
  split
  · omega
  · omega

theorem mayUse_twoWay {e : Edge} {x y u v : ℕ} (hfrom : e.getFrom = x) (hto : e.getTo = y) :
    MayUse 0 e u v ↔ (x = u ∧ y = v) ∨ (x = v ∧ y = u) := by
  rw [MayUse, hfrom, hto]
  simp

theorem mayUse_oneWay {k : ℕ} {e : Edge} {x y u v : ℕ} (hk : k ≠ 0) (hfrom : e.getFrom = x)
    (hto : e.getTo = y) :
    MayUse k e u v ↔ (k = 1 ∧ x = u ∧ y = v) ∨ (k = 2 ∧ x = v ∧ y = u) := by
  rw [MayUse, hfrom, hto]
  simp [hk]

end travel

section step
variable {P L G D : Type*} {geo : Geo P L} {g g' : Graph P L G D} {n : ℕ} {ea eb a b f : Edge}

section add
variable [Add L]

/-- The edges of a pair carry the same flag when they are contracted, and the sum of their lengths
    keeps its value when it is stored. -/
def ExactPair (geo : Geo P L) (g : Graph P L G D) (n : ℕ) : Prop :=
  ∀ ea eb, Contractible g n ea eb → (g.pl ea).oneWay = (g.pl eb).oneWay ∧
    geo.toFloat ((g.pl ea).data.length + (g.pl eb).data.length) =
      (g.pl ea).data.length + (g.pl eb).data.length

theorem Joined.flags (h : Joined geo g n ea eb a b f g')
    (hsame : (g.pl ea).oneWay = (g.pl eb).oneWay) :
    (g.pl a).oneWay = (g.pl b).oneWay ∧ (g.pl ea).oneWay = (g.pl a).oneWay := by
  cases h.order with
  | inl h =>
    obtain ⟨-, rfl, rfl⟩ := h
    exact ⟨hsame.symm, hsame⟩
  | inr h =>
    obtain ⟨-, rfl, rfl⟩ := h
    exact ⟨hsame, rfl⟩

theorem Joined.pair (h : Joined geo g n ea eb a b f g') : a = ea ∧ b = eb ∨ a = eb ∧ b = ea :=
  h.order.elim (fun h => Or.inr h.2) fun h => Or.inl h.2

/-- The new edge may be used where both old ones could be used one after the other. -/
theorem Joined.through_iff (h : Joined geo g n ea eb a b f g') (htwo : OnlyTwo g n ea eb)
    (hsimilar : areEdgesSimilar g ea eb = true)
    (hsame : (g.pl ea).oneWay = (g.pl eb).oneWay) {k u v : ℕ} (hk : k = (g.pl a).oneWay)
    (hu : u ≠ n) (hv : v ≠ n) :
    MayUse k f u v ↔
      (MayUse k a u n ∧ MayUse k b n v) ∨ (MayUse k b u n ∧ MayUse k a n v) := by
  obtain ⟨hawayA, hawayB⟩ := (h.onlyTwo htwo).away
  obtain ⟨hendA, hendB⟩ := (h.onlyTwo htwo).ends
  obtain ⟨hfrom, hto⟩ := h.graph.ends
  by_cases hzero : k = 0
  · subst hzero
    have hboth : ∀ {e : Edge} {w : ℕ}, e.hasEnd n → w ≠ n →
        (MayUse 0 e w n ↔ e.getOtherNd n = w) ∧ (MayUse 0 e n w ↔ e.getOtherNd n = w) := by
      intro e w hend hw
      cases ends_cases hend with
      | inl h =>
        rw [mayUse_twoWay h.1 h.2, mayUse_twoWay h.1 h.2]
        simp [hw.symm]
      | inr h =>
        rw [mayUse_twoWay h.1 h.2, mayUse_twoWay h.1 h.2]
        simp [hw.symm]
    rw [mayUse_twoWay hfrom hto, (hboth hendA hu).1, (hboth hendB hv).2, (hboth hendB hu).1,
      (hboth hendA hv).2, and_comm (a := b.getOtherNd n = u)]
  · obtain ⟨hflags, hea⟩ := h.flags hsame
    obtain ⟨⟨ha, ha'⟩, hb, hb'⟩ := h.headToTail htwo hsimilar (by omega) (by omega)
    rw [mayUse_oneWay hzero hfrom hto, mayUse_oneWay hzero ha ha', mayUse_oneWay hzero hb hb',
      mayUse_oneWay hzero hb hb', mayUse_oneWay hzero ha ha']
    simp only [hawayA, hawayB, hu.symm, hv.symm, and_false, or_false, false_or, and_true, true_and]
    constructor
    · rintro (⟨h, hu, hv⟩ | ⟨h, hv, hu⟩)
      · exact Or.inl ⟨⟨h, hu⟩, h, hv⟩
      · exact Or.inr ⟨⟨h, hu⟩, h, hv⟩
    · rintro (⟨⟨h, hu⟩, -, hv⟩ | ⟨⟨h, hu⟩, -, hv⟩)
      · exact Or.inl ⟨h, hu, hv⟩
      · exact Or.inr ⟨h, hv, hu⟩

theorem ContractedGraph.pl_old (h : ContractedGraph geo g n a b f g') {e : Edge} (he : e ∈ g.edges) :
    g'.pl e = g.pl e := by
  rw [h.pl, Function.update_of_ne]
  rintro rfl
  exact h.fresh he

theorem ContractedGraph.pl_new (h : ContractedGraph geo g n a b f g') :
    (g'.pl f).oneWay = (g.pl a).oneWay ∧
      (g'.pl f).data.length =
        geo.toFloat ((g.pl a).data.length + (g.pl b).data.length) := by
  rw [h.pl, Function.update_self]
  exact ⟨rfl, rfl⟩

omit [Add L] in
/-- No step stays at a node that is contracted. -/
theorem OnlyTwo.not_legalStep (h : OnlyTwo g n a b) (c : L) : ¬ LegalStep g n c n := by
  rintro ⟨e, he, huse, -⟩
  have hown : e.getOtherNd n ≠ n := by
    cases h.only e he huse.hasEnd.1 with
    | inl heq => exact heq ▸ h.away.1
    | inr heq => exact heq ▸ h.away.2
  unfold MayUse at huse
  rw [Edge.getOtherNd] at hown
  split at hown
  · omega
  · omega

theorem ContractedGraph.legalStep_past (h : ContractedGraph geo g n a b f g') (hpair : OnlyTwo g n a b)
    {u v : ℕ} {c : L} (hu : u ≠ n) (hv : v ≠ n) (hstep : LegalStep g u c v) :
    LegalStep g' u c v := by
  obtain ⟨e, he, huse, hc⟩ := hstep
  have hends : ¬ e.hasEnd n := by
    unfold MayUse at huse
    unfold Edge.hasEnd
    omega
  have hea : e ≠ a := fun heq => hends (heq ▸ hpair.ends.1)
  have heb : e ≠ b := fun heq => hends (heq ▸ hpair.ends.2)
  refine ⟨e, (h.edges e).2 (Or.inl ⟨he, hea, heb⟩), ?_, ?_⟩
  · rw [h.pl_old he]
    exact huse
  · rw [h.pl_old he]
    exact hc

end add

variable [AddCommMonoid L] [LinearOrder L] [CanonicallyOrderedAdd L]

omit [LinearOrder L] [CanonicallyOrderedAdd L] in
theorem Joined.toFloat_length (h : Joined geo g n ea eb a b f g')
    (hsum : geo.toFloat ((g.pl ea).data.length + (g.pl eb).data.length) =
      (g.pl ea).data.length + (g.pl eb).data.length) :
    geo.toFloat ((g.pl a).data.length + (g.pl b).data.length) =
      (g.pl a).data.length + (g.pl b).data.length := by
  rcases h.pair with ⟨rfl, rfl⟩ | ⟨rfl, rfl⟩
  · exact hsum
  · rwa [add_comm]

omit [LinearOrder L] [CanonicallyOrderedAdd L] in
/-- Two steps through `n` lead back, or they use both of its edges. -/
theorem OnlyTwo.legalStep_through (h : OnlyTwo g n a b)
    (hflags : (g.pl a).oneWay = (g.pl b).oneWay) {u v : ℕ} {c d : L} (hu : u ≠ n) (hv : v ≠ n)
    (hin : LegalStep g u c n) (hout : LegalStep g n d v) :
    u = v ∨ c + d = (g.pl a).data.length + (g.pl b).data.length ∧
      ((MayUse (g.pl a).oneWay a u n ∧ MayUse (g.pl a).oneWay b n v) ∨
        (MayUse (g.pl a).oneWay b u n ∧ MayUse (g.pl a).oneWay a n v)) := by
  obtain ⟨e, he, huse, rfl⟩ := hin
  obtain ⟨e', he', huse', rfl⟩ := hout
  have hback : e = e' → u = v := by
    rintro rfl
    rw [MayUse.other (Or.inl huse) hu, MayUse.other (Or.inr huse') hv]
  cases h.only e he huse.hasEnd.2 with
  | inl ha =>
    cases h.only e' he' huse'.hasEnd.1 with
    | inl ha' => exact Or.inl (hback (ha.trans ha'.symm))
    | inr hb =>
      subst ha hb
      rw [← hflags] at huse'
      exact Or.inr ⟨rfl, Or.inl ⟨huse, huse'⟩⟩
  | inr hb =>
    cases h.only e' he' huse'.hasEnd.1 with
    | inl ha =>
      subst ha hb
      rw [← hflags] at huse
      exact Or.inr ⟨add_comm _ _, Or.inr ⟨huse, huse'⟩⟩
    | inr hb' => exact Or.inl (hback (hb.trans hb'.symm))

omit [LinearOrder L] [CanonicallyOrderedAdd L] in
/-- Where both edges at `n` may be used one after the other, there is a walk as long as both. -/
theorem OnlyTwo.walk_through (h : OnlyTwo g n a b) (hflags : (g.pl a).oneWay = (g.pl b).oneWay)
    {u v : ℕ} (huse : (MayUse (g.pl a).oneWay a u n ∧ MayUse (g.pl a).oneWay b n v) ∨
      (MayUse (g.pl a).oneWay b u n ∧ MayUse (g.pl a).oneWay a n v)) :
    Walk (LegalStep g) u v ((g.pl a).data.length + (g.pl b).data.length) := by
  rcases huse with ⟨hin, hout⟩ | ⟨hin, hout⟩
  · rw [hflags] at hout
    exact (Walk.single ⟨a, h.mem.1, hin, rfl⟩).append (Walk.single ⟨b, h.mem.2, hout, rfl⟩)
  · rw [hflags] at hin
    rw [add_comm]
    exact (Walk.single ⟨b, h.mem.2, hin, rfl⟩).append (Walk.single ⟨a, h.mem.1, hout, rfl⟩)

/-- The contraction of `n` for the steps that may be taken. -/
theorem contracted_legalStep (geo : Geo P L) (h : Contractible g n ea eb) (hnodup : g.edges.Nodup)
    (hexact : ExactPair geo g n) :
    Contracted (LegalStep g) n (LegalStep (contract geo g n ea eb)) := by
  obtain ⟨hsame, hsum⟩ := hexact ea eb h
  obtain ⟨a, b, f, hjoined⟩ := contract_spec geo h hnodup
  have htwo := h.onlyTwo hnodup
  have hpair := hjoined.onlyTwo htwo
  have hgraph := hjoined.graph
  generalize contract geo g n ea eb = g' at hjoined hgraph
  obtain ⟨hflags, -⟩ := hjoined.flags hsame
  obtain ⟨hflag, hlen⟩ := hgraph.pl_new
  rw [hjoined.toFloat_length hsum] at hlen
  have hthrough : ∀ {u v : ℕ}, u ≠ n → v ≠ n → (MayUse (g'.pl f).oneWay f u v ↔
      (MayUse (g.pl a).oneWay a u n ∧ MayUse (g.pl a).oneWay b n v) ∨
        (MayUse (g.pl a).oneWay b u n ∧ MayUse (g.pl a).oneWay a n v)) := by
    intro u v hu hv
    rw [hflag]
    exact hjoined.through_iff htwo h.similar hsame rfl hu hv
  constructor
  · exact hpair.not_legalStep
  · intro u c v hu hv hstep
    exact ⟨c, le_refl _, Walk.single (hgraph.legalStep_past hpair hu hv hstep)⟩
  · intro u c d v hu hv hin hout
    rcases hpair.legalStep_through hflags hu hv hin hout with rfl | ⟨hsum, huse⟩
    · exact ⟨0, zero_le, Walk.nil _⟩
    · have hf : f ∈ g'.edges := (hgraph.edges f).2 (Or.inr rfl)
      exact ⟨c + d, le_refl _, Walk.single ⟨f, hf, (hthrough hu hv).2 huse, hlen.trans hsum.symm⟩⟩
  · rintro u c v ⟨e, he, huse, rfl⟩
    cases (hgraph.edges e).1 he with
    | inl hold =>
      rw [hgraph.pl_old hold.1] at huse ⊢
      exact ⟨_, le_refl _, Walk.single ⟨e, hold.1, huse, rfl⟩⟩
    | inr hnew =>
      subst hnew
      obtain ⟨hfrom, hto⟩ := hgraph.ends
      have haway := hpair.away
      have hends : u ≠ n ∧ v ≠ n := by
        unfold MayUse at huse
        omega
      rw [hlen]
      exact ⟨_, le_refl _, hpair.walk_through hflags ((hthrough hends.1 hends.2).1 huse)⟩

omit [LinearOrder L] [CanonicallyOrderedAdd L] in
theorem ContractedGraph.kept (h : ContractedGraph geo g n a b f g') (hpair : OnlyTwo g n a b)
    (hsi : (g.npl n).si = none) {p : ℕ} (hp : Kept g' p) : Kept g p ∧ p ≠ n := by
  cases hp with
  | inl hp =>
    obtain ⟨e, he, hend⟩ := hp
    cases (h.edges e).1 he with
    | inl hold =>
      refine ⟨Or.inl ⟨e, hold.1, hend⟩, ?_⟩
      rintro rfl
      exact (hpair.only e hold.1 hend).elim hold.2.1 hold.2.2
    | inr hnew =>
      rw [hnew, Edge.hasEnd, h.ends.1, h.ends.2] at hend
      have hother : ∀ e : Edge, e.getOtherNd n = p → e.hasEnd n → e.hasEnd p := by
        rintro e rfl he
        exact (ends_cases he).elim (fun h => Or.inr h.2) fun h => Or.inl h.1
      cases hend with
      | inl hend =>
        exact ⟨Or.inl ⟨a, hpair.mem.1, hother a hend hpair.ends.1⟩, hend ▸ hpair.away.1⟩
      | inr hend =>
        exact ⟨Or.inl ⟨b, hpair.mem.2, hother b hend hpair.ends.2⟩, hend ▸ hpair.away.2⟩
  | inr hp =>
    rw [h.npl] at hp
    refine ⟨Or.inr hp, ?_⟩
    rintro rfl
    exact hp hsi

variable [IsOrderedAddMonoid L]

theorem collapseAt_within (hnodup : g.edges.Nodup) (hexact : ExactPair geo g n) :
    (collapseAt geo g n).edges.Nodup ∧ (∀ p, Kept (collapseAt geo g n) p → Kept g p) ∧
      ∀ p q, Kept (collapseAt geo g n) p → Kept (collapseAt geo g n) q → ∀ c,
        Within (LegalStep g) p q c ↔ Within (LegalStep (collapseAt geo g n)) p q c := by
  cases collapseAt_cases geo g n with
  | inl h =>
    obtain ⟨ea, eb, h, heq⟩ := h
    obtain ⟨a, b, f, hjoined⟩ := contract_spec geo h hnodup
    have hkept : ∀ p, Kept (contract geo g n ea eb) p → Kept g p ∧ p ≠ n := fun p hp =>
      hjoined.graph.kept (hjoined.onlyTwo (h.onlyTwo hnodup)) h.si hp
    rw [heq]
    refine ⟨hjoined.graph.nodup, fun p hp => (hkept p hp).1, ?_⟩
    intro p q hp hq
    exact (contracted_legalStep geo h hnodup hexact).within_iff (hkept p hp).2 (hkept q hq).2
  | inr heq =>
    rw [heq]
    exact ⟨hnodup, fun p hp => hp, fun p q _ _ c => Iff.rfl⟩

theorem foldl_collapseAt_within (ns : List ℕ) (hnodup : g.edges.Nodup)
    (hexact : FoldMeets (collapseAt geo) (ExactPair geo) g ns) :
    (∀ p, Kept (ns.foldl (collapseAt geo) g) p → Kept g p) ∧
      ∀ p q, Kept (ns.foldl (collapseAt geo) g) p → Kept (ns.foldl (collapseAt geo) g) q → ∀ c,
        Within (LegalStep g) p q c ↔ Within (LegalStep (ns.foldl (collapseAt geo) g)) p q c := by
  induction ns generalizing g with
  | nil => exact ⟨fun p hp => hp, fun p q _ _ c => Iff.rfl⟩
  | cons n ns ih =>
    obtain ⟨hnodup', hkept, hstep⟩ := collapseAt_within hnodup hexact.1
    obtain ⟨hkept', hrun⟩ := ih hnodup' hexact.2
    refine ⟨fun p hp => hkept p (hkept' p hp), ?_⟩
    intro p q hp hq c
    exact (hstep p q (hkept' p hp) (hkept' q hq) c).trans (hrun p q hp hq c)

/-- Between the nodes that stay in use the minimal lengths of what may be driven are the same
    before and after `collapse_edges`, when no pair with different flags is contracted and no sum of
    two lengths is rounded. -/
theorem collapseEdges_isMinLength (geo : Geo P L) (hnodup : g.edges.Nodup)
    (hexact : FoldMeets (collapseAt geo) (ExactPair geo) g g.nds) {p q : ℕ}
    (hp : Kept (collapseEdges geo g) p) (hq : Kept (collapseEdges geo g) q) (d : WithTop L) :
    IsMinLength (LegalStep g) p q d ↔ IsMinLength (LegalStep (collapseEdges geo g)) p q d :=
  isMinLength_congr ((foldl_collapseAt_within g.nds hnodup hexact).2 p q hp hq) d

end step

section examples

/-- Two streets of length 1 in a row, with the flags `j` and `k`. -/
def twoStreets (j k : ℕ) : Graph ℕ ℕ ℕ Unit where
  nds := [0, 1, 2]
  npl n := ⟨n, none⟩
  edges := [⟨0, 0, 1⟩, ⟨1, 1, 2⟩]
  pl e := ⟨if e.id = 0 then j else k, false, false, ⟨[], 1, 0, []⟩⟩
  nextNd := 3
  nextEdge := 2
  fresh := by decide
  simple := by decide

theorem collapseEdges_isMinLength_oneWay :
    IsMinLength (LegalStep (twoStreets 1 1)) 0 2 2 ↔
      IsMinLength (LegalStep (collapseEdges lineGeo (twoStreets 1 1))) 0 2 2 := by
  have hpair : ExactPair lineGeo (collapseAt lineGeo (twoStreets 1 1) 0) 1 := by
    intro ea eb h
    have hpair := h.pair
    have hedges : edgePair (collapseAt lineGeo (twoStreets 1 1) 0) 1 =
        some (⟨1, 1, 2⟩, ⟨0, 0, 1⟩) := by
      decide
    rw [hedges] at hpair
    cases hpair
    decide
  have hexact : FoldMeets (collapseAt lineGeo) (ExactPair lineGeo) (twoStreets 1 1) [0, 1, 2] :=
    ⟨fun ea eb h => absurd h.deg (by decide), hpair, fun ea eb h => absurd h.deg (by decide),
      trivial⟩
  exact collapseEdges_isMinLength lineGeo (by decide) hexact (Or.inl ⟨⟨2, 0, 2⟩, by decide⟩)
    (Or.inl ⟨⟨2, 0, 2⟩, by decide⟩) 2

/-- Streets that both lead to the node between them become a way through it. -/
theorem collapseEdges_not_isMinLength : ¬ ∀ (g : Graph ℕ ℕ ℕ Unit), g.edges.Nodup → ∀ p q,
    Kept (collapseEdges lineGeo g) p → Kept (collapseEdges lineGeo g) q → ∀ d,
      (IsMinLength (LegalStep g) p q d ↔
        IsMinLength (LegalStep (collapseEdges lineGeo g)) p q d) := by
  intro h
  have hiff := h (twoStreets 1 2) (by decide) 0 2 (Or.inl ⟨⟨2, 0, 2⟩, by decide⟩)
    (Or.inl ⟨⟨2, 0, 2⟩, by decide⟩) ⊤
  have hstep : ∀ u c v, LegalStep (twoStreets 1 2) u c v → u ≠ 2 → v ≠ 2 := by
    rintro u c v ⟨e, he, huse, -⟩ hu
    have he : e ∈ [(⟨0, 0, 1⟩ : Edge), ⟨1, 1, 2⟩] := he
    rw [List.mem_cons, List.mem_singleton] at he
    cases he with
    | inl he =>
      subst he
      unfold MayUse at huse
      simp [twoStreets] at huse
      omega
    | inr he =>
      subst he
      unfold MayUse at huse
      simp [twoStreets] at huse
      omega
  have hwalk : ∀ u v c, Walk (LegalStep (twoStreets 1 2)) u v c → u ≠ 2 → v ≠ 2 := by
    intro u v c hwalk
    induction hwalk with
    | nil => exact id
    | cons hs _ ih => exact fun hu => ih (hstep _ _ _ hs hu)
  have hbefore : IsMinLength (LegalStep (twoStreets 1 2)) 0 2 ⊤ := by
    rw [isMinLength_iff]
    refine ⟨fun c hc => absurd hc.symm WithTop.coe_ne_top, ?_⟩
    rintro c ⟨c', -, hc'⟩
    exact absurd rfl (hwalk 0 2 c' hc' (by decide))
  have hafter := (isMinLength_iff.1 (hiff.1 hbefore)).2 2
    ⟨2, le_refl _, Walk.single ⟨⟨2, 0, 2⟩, by decide, by decide, by decide⟩⟩
  exact WithTop.coe_ne_top (top_le_iff.1 hafter)

end examples

end Pfaedle.Trgraph

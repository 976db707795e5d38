import Pfaedle.OsmRelations
import Pfaedle.RestrictionNames

set_option autoImplicit false

/-!
# Which 'no' restrictions are enforced

A rule names one edge of its to way. Where that way runs through the via node, a turn into its
other edge stays open unless another rule bars it.
-/
namespace Pfaedle.ReadEdges
open DirGraphs Osm OsmRelations Restriction ODirEdges

/-- Every turn from the one way into the other at `via` is barred by the rules of the document. -/
def Enforced {V E : Type*} [DecidableEq V] [DecidableEq E] (rawRests : Restrictions)
    (xs : List (Visit V E)) (via : Osmid) (kv : Restriction) : Prop :=
  ∀ x ∈ xs, ∀ y ∈ xs, x.nid = via → x.wid = kv.eFrom → y.nid = via → y.wid = kv.eTo →
    x.n = y.n → barred (readOps rawRests xs) x.e y.e x.n

def keyed (ways : List OsmWay) : List (ℕ × OsmWay) := ways.zipIdx.map Prod.swap

theorem keyed_ways (ways : List OsmWay) : (keyed ways).map Prod.snd = ways := by
  rw [keyed, List.map_map]
  exact List.zipIdx_map_fst 0 ways

theorem keyed_nodup (ways : List OsmWay) : ((keyed ways).map Prod.fst).Nodup := by
  have hsnd : (keyed ways).map Prod.fst = ways.zipIdx.map Prod.snd := by
    rw [keyed, List.map_map]
    rfl
  rw [hsnd, List.zipIdx_map_snd]
  exact List.nodup_range'

section enforced
variable {NP D : Type*}

theorem Named.enforced_iff {K : Type*} [DecidableEq K] {bBoxNodes : Osmid → Bool}
    {used : Set (K × ℕ)} {ν : ℕ → Name K} {xs : List (Visit (Name K) (EdgeName K))}
    {st : ReadState NP D} (h : Named bBoxNodes used ν xs st) (rawRests : Restrictions)
    (via : Osmid) (kv : Restriction) :
    Enforced rawRests xs via kv ↔ Enforced rawRests st.visits via kv := by
  have hbarred : ∀ x ∈ st.visits, ∀ y ∈ st.visits,
      (barred (ReadEdges.readOps rawRests xs) (edgeName ν x.e) (edgeName ν y.e) (ν x.n) ↔
        barred (ReadEdges.readOps rawRests st.visits) x.e y.e x.n) := fun x hx y hy =>
    h.barred_iff (h.visited x hx).1 (h.visited y hy).1 (h.visited_lt hx)
  rw [Enforced, Enforced]
  constructor
  · intro hxs x hx y hy hxvia hxw hyvia hyw hn
    rw [← hbarred x hx y hy]
    have hmem : ∀ z ∈ st.visits, Visit.map ν (edgeName ν) z ∈ xs := by
      intro z hz
      rw [← h.visits]
      exact List.mem_map_of_mem hz
    exact hxs _ (hmem x hx) _ (hmem y hy) hxvia hxw hyvia hyw (congrArg ν hn)
  · intro hst x hx y hy hxvia hxw hyvia hyw hn
    rw [← h.visits] at hx hy
    obtain ⟨x, hx', rfl⟩ := List.mem_map.1 hx
    obtain ⟨y, hy', rfl⟩ := List.mem_map.1 hy
    have hxlt := h.visited_lt hx'
    have hylt := h.visited_lt hy'
    have hn : x.n = y.n := h.inj _ hxlt _ hylt hn
    exact (hbarred x hx' y hy').2 (hst x hx' y hy' hxvia hxw hyvia hyw hn)

theorem may_false_iff_enforced {rawRests : Restrictions} {st : ReadState NP D}
    (h : Traced rawRests st) (via : Osmid) (kv : Restriction) :
    (∀ a b v, ⟨via, kv.eFrom, a, v⟩ ∈ st.visits → ⟨via, kv.eTo, b, v⟩ ∈ st.visits →
      st.restor.may a b v = false) ↔ Enforced rawRests st.visits via kv := by
  rw [h, Enforced]
  simp only [may_eq_false_iff]
  constructor
  · intro hmay x hx y hy hxvia hxw hyvia hyw hn
    apply hmay
    · rw [← hxvia, ← hxw]
      exact hx
    · rw [← hyvia, ← hyw, hn]
      exact hy
  · intro henf a b v ha hb
    exact henf _ ha _ hb rfl rfl rfl rfl rfl

variable [Inhabited NP] [Inhabited D]

/-- A restriction is enforced exactly when the rules of the document bar all its turns. -/
theorem negRestr_enforced_iff (bBoxNodes noHupNodes : Osmid → Bool) (rawRests : Restrictions)
    (annotate : OsmWay → EdgePayload D → EdgePayload D) (keep : OsmWay → Bool)
    (ways : List OsmWay) (via : Osmid) (kv : Restriction) :
    let st : ReadState NP D := readEdges bBoxNodes noHupNodes rawRests annotate keep ways
    (∀ a b v, ⟨via, kv.eFrom, a, v⟩ ∈ st.visits → ⟨via, kv.eTo, b, v⟩ ∈ st.visits →
      st.restor.may a b v = false) ↔
    Enforced rawRests (docVisits bBoxNodes noHupNodes (keyed (ways.filter keep))) via kv := by
  intro st
  have hnamed : ∃ used ν, Named bBoxNodes used ν
      (docVisits bBoxNodes noHupNodes (keyed (ways.filter keep))) st :=
    readEdges_named (keyed_ways _) (keyed_nodup _)
  obtain ⟨used, ν, hnamed⟩ := hnamed
  rw [may_false_iff_enforced (readEdges_traced keep ways), hnamed.enforced_iff]

end enforced

section sample

def turnFilter : OsmFilter where
  keepRules _ := []
  dropRules _ := []
  posRestrRules _ := []
  negRestrRules key := if key = "restriction" then [("no_left_turn", 1)] else []
  noRestrRules _ := []

def noLeftTurn : XmlRelation where
  id := 7
  tags := [("type", "restriction"), ("restriction", "no_left_turn")]
  members := [⟨"way", 1, "from"⟩, ⟨"node", 20, "via"⟩, ⟨"way", 2, "to"⟩]

/-- The to way runs through the via node, and its first edge there stays open. -/
theorem negRestr_not_enforced :
    ¬ ∀ (filter : OsmFilter) (keepAttrs : List String) (rels : List XmlRelation)
      (ways : List OsmWay) (bBoxNodes noHupNodes : Osmid → Bool),
      let rests := (readRelations id filter keepAttrs (fun _ => 0) rels).rests
      let st : ReadState Unit Unit :=
        readEdges bBoxNodes noHupNodes rests (fun _ p => p) (fun _ => true) ways
      ∀ via, ∀ kv ∈ rests.neg via, ∀ a b v, ⟨via, kv.eFrom, a, v⟩ ∈ st.visits →
        ⟨via, kv.eTo, b, v⟩ ∈ st.visits → st.restor.may a b v = false := by
  intro h
  have hmay := h turnFilter ["type", "restriction"] [noLeftTurn] [⟨1, [], [10, 20]⟩, ⟨2, [], [30, 20, 40]⟩]
    (fun _ => true) (fun _ => false) 20 ⟨1, 2⟩ (by decide) ⟨0, 0, 1⟩ ⟨1, 2, 1⟩ 1 (by decide) (by decide)
  exact absurd hmay (by decide)

end sample

end Pfaedle.ReadEdges

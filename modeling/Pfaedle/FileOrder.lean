import Mathlib.Data.List.Perm.Basic
import Pfaedle.RestrictionNames

set_option autoImplicit false

/-!
# Rules and the order of the ways

For restrictions between different ways every rule ends up with the edge of its to way that is
visited last, and that edge depends on this one way only.
-/
namespace Pfaedle.ReadEdges
open DirGraphs Osm Restriction ODirEdges

section grouping
variable {α V : Type*} [DecidableEq V]

theorem flatMap_filter_perm {f : α → V} {vs : List V} (hnodup : vs.Nodup) (xs : List α) :
    (vs.flatMap fun v => xs.filter fun x => f x = v).Perm (xs.filter fun x => f x ∈ vs) := by
  induction vs with
  | nil => simp
  | cons v vs ih =>
    rw [List.nodup_cons] at hnodup
    rw [List.flatMap_cons]
    have hsplit := List.filter_append_perm (fun x => decide (f x = v))
      (xs.filter fun x => f x ∈ v :: vs)
    have hhead : (xs.filter fun x => f x ∈ v :: vs).filter (fun x => decide (f x = v)) =
        xs.filter fun x => f x = v := by
      rw [List.filter_filter]
      apply List.filter_congr
      intro x _
      by_cases hx : f x = v
      · simp [hx]
      · simp [hx]
    have htail : (xs.filter fun x => f x ∈ v :: vs).filter (fun x => !decide (f x = v)) =
        xs.filter fun x => f x ∈ vs := by
      rw [List.filter_filter]
      apply List.filter_congr
      intro x _
      by_cases hx : f x = v
      · simp [hx, hnodup.1]
      · simp [hx]
    rw [hhead, htail] at hsplit
    exact ((ih hnodup.2).append_left _).trans hsplit

theorem flatMap_group_perm {β : Type*} {f : α → V} {vs : List V} (hnodup : vs.Nodup)
    {xs : List α} (hcover : ∀ x ∈ xs, f x ∈ vs) (h : α → List β) :
    (vs.flatMap fun v => (xs.filter fun x => f x = v).flatMap h).Perm (xs.flatMap h) := by
  have hfilter : (vs.flatMap fun v => xs.filter fun x => f x = v).Perm _ :=
    flatMap_filter_perm hnodup xs
  have hperm := hfilter.flatMap_right h
  rw [List.filter_eq_self.2 fun x hx => decide_eq_true (hcover x hx), List.flatMap_assoc] at hperm
  exact hperm

end grouping

section doc
variable {K : Type*} {bBoxNodes noHupNodes : Osmid → Bool}

theorem mem_refVisits {key : K} {wid : Osmid} {nids : List Osmid} {pos : ℕ}
    {last : Option (Osmid × Name K)} {x : Visit (Name K) (EdgeName K)}
    (hlast : ∀ l ∈ last, ∃ p, nameRef bBoxNodes noHupNodes key p l.1 = some l.2)
    (hx : x ∈ refVisits bBoxNodes noHupNodes key wid pos last nids) :
    x.wid = wid ∧ ∃ p, nameRef bBoxNodes noHupNodes key p x.nid = some x.n := by
  induction nids generalizing pos last with
  | nil => simp [refVisits] at hx
  | cons nid nids ih =>
    rw [refVisits] at hx
    cases hname : nameRef bBoxNodes noHupNodes key pos nid with
    | none =>
      rw [hname] at hx
      exact ih hlast hx
    | some n =>
      rw [hname] at hx
      cases List.mem_append.1 hx with
      | inl hx =>
        cases last with
        | none => simp at hx
        | some l =>
          obtain ⟨p, hp⟩ := hlast l rfl
          cases List.mem_cons.1 hx with
          | inl hx => rw [hx]; exact ⟨rfl, pos, hname⟩
          | inr hx => rw [List.mem_singleton.1 hx]; exact ⟨rfl, p, hp⟩
      | inr hx =>
        apply ih _ hx
        intro l hl
        rw [← Option.some.inj hl]
        exact ⟨pos, hname⟩

theorem mem_wayVisits {kw : K × OsmWay} {x : Visit (Name K) (EdgeName K)}
    (hx : x ∈ wayVisits bBoxNodes noHupNodes kw) :
    x.wid = kw.2.id ∧ ∃ p, nameRef bBoxNodes noHupNodes kw.1 p x.nid = some x.n :=
  mem_refVisits (by simp) hx

theorem nameRef_of_hup {key : K} {pos : ℕ} {nid : Osmid} {n : Name K}
    (h : nameRef bBoxNodes noHupNodes key pos nid = some n) (hhup : noHupNodes nid = false) :
    n = .node nid := by
  rw [nameRef, hhup, if_neg (by simp)] at h
  split at h
  · exact (Option.some.inj h).symm
  · simp at h

theorem nameRef_node {key : K} {pos : ℕ} {nid nid' : Osmid}
    (h : nameRef bBoxNodes noHupNodes key pos nid = some (.node nid')) : nid' = nid := by
  rw [nameRef] at h
  split at h
  · simp at h
  · split at h
    · exact (Name.node.inj (Option.some.inj h)).symm
    · simp at h

theorem contiguous_append {V E : Type*} {xs ys : List (Visit V E)} {wid : Osmid}
    (hxs : ∀ x ∈ xs, x.wid = wid) (hys : ∀ y ∈ ys, y.wid ≠ wid) (h : Contiguous ys) :
    Contiguous (xs ++ ys) := by
  intro p x s heq y hy hne z hz
  rw [List.append_eq_append_iff] at heq
  rcases heq with ⟨c, rfl, hc⟩ | ⟨c, rfl, hc⟩
  · cases List.mem_append.1 hy with
    | inl hy =>
      rw [hxs y hy]
      exact hys z (by rw [hc]; simp [hz])
    | inr hy => exact h c x s hc y hy hne z hz
  · cases c with
    | nil =>
      rw [hxs y (List.mem_append_left _ hy)]
      exact hys z (by rw [List.nil_append] at hc; rw [← hc]; exact List.mem_cons_of_mem _ hz)
    | cons c cs =>
      obtain ⟨rfl, -⟩ := List.cons.inj hc
      have hx := hxs x (by simp)
      exact absurd ((hxs y (List.mem_append_left _ hy)).trans hx.symm) hne

theorem docVisits_contiguous (kws : List (K × OsmWay))
    (hids : (kws.map fun kw => kw.2.id).Nodup) :
    Contiguous (docVisits bBoxNodes noHupNodes kws) := by
  induction kws with
  | nil =>
    intro p x s h
    simp [docVisits] at h
  | cons kw kws ih =>
    rw [List.map_cons, List.nodup_cons] at hids
    rw [docVisits, List.flatMap_cons]
    apply contiguous_append (fun x hx => (mem_wayVisits hx).1) _ (ih hids.2)
    intro y hy
    obtain ⟨kw', hkw', hy⟩ := List.mem_flatMap.1 hy
    rw [(mem_wayVisits hy).1]
    intro he
    apply hids.1
    rw [← he]
    exact List.mem_map_of_mem hkw'

variable {rawRests : Restrictions}

def viasHup (noHupNodes : Osmid → Bool) (rawRests : Restrictions) : Prop :=
  ∀ nid, Restricted rawRests nid → noHupNodes nid = false

theorem docVisits_name {kws : List (K × OsmWay)} {x : Visit (Name K) (EdgeName K)}
    (hx : x ∈ docVisits bBoxNodes noHupNodes kws) :
    ∃ key pos, nameRef bBoxNodes noHupNodes key pos x.nid = some x.n := by
  obtain ⟨kw, -, hx⟩ := List.mem_flatMap.1 hx
  obtain ⟨-, p, hp⟩ := mem_wayVisits hx
  exact ⟨kw.1, p, hp⟩

theorem docVisits_node {kws : List (K × OsmWay)} {x : Visit (Name K) (EdgeName K)}
    (hx : x ∈ docVisits bBoxNodes noHupNodes kws) (hhup : noHupNodes x.nid = false) :
    x.n = .node x.nid := by
  obtain ⟨key, pos, hname⟩ := docVisits_name hx
  exact nameRef_of_hup hname hhup

theorem docVisits_sameNid (kws : List (K × OsmWay)) (hvias : viasHup noHupNodes rawRests) :
    SameNid rawRests (docVisits bBoxNodes noHupNodes kws) := by
  intro x hx y hy hrestr hn
  obtain ⟨key, pos, hname⟩ := docVisits_name hy
  rw [hn, docVisits_node hx (hvias _ hrestr)] at hname
  exact (nameRef_node hname).symm

/-- Only the way itself matters for its last edge at a node. -/
theorem lastEdge_docVisits [DecidableEq K] (kws : List (K × OsmWay)) (t : Osmid) (v : Name K) :
    lastEdge (docVisits bBoxNodes noHupNodes kws) t v =
      lastEdge (docVisits bBoxNodes noHupNodes (kws.filter fun kw => kw.2.id = t)) t v := by
  rw [lastEdge, lastEdge]
  congr 1
  induction kws with
  | nil => rfl
  | cons kw kws ih =>
    rw [docVisits, List.flatMap_cons, List.filterMap_append]
    change _ ++ (docVisits bBoxNodes noHupNodes kws).filterMap _ = _
    rw [ih]
    by_cases hid : kw.2.id = t
    · rw [List.filter_cons_of_pos (by simpa using hid), docVisits, docVisits, List.flatMap_cons,
        List.filterMap_append]
    · rw [List.filter_cons_of_neg (by simpa using hid)]
      have hnil : (wayVisits bBoxNodes noHupNodes kw).filterMap
          (fun y => if y.wid = t ∧ y.n = v then some y.e else none) = [] := by
        rw [List.filterMap_eq_nil_iff]
        intro y hy
        rw [if_neg]
        intro hc
        exact hid (by rw [← (mem_wayVisits hy).1]; exact hc.1)
      rw [hnil, List.nil_append]

theorem filter_id_eq {kws kws' : List (K × OsmWay)} (hperm : kws.Perm kws')
    (hids : (kws.map fun kw => kw.2.id).Nodup) (t : Osmid) :
    (kws.filter fun kw => kw.2.id = t) = kws'.filter fun kw => kw.2.id = t := by
  have hp := hperm.filter fun kw => decide (kw.2.id = t)
  generalize hxs : (kws.filter fun kw => kw.2.id = t) = xs at hp
  have hall : ∀ kw ∈ xs, kw ∈ kws ∧ kw.2.id = t := by
    intro kw hkw
    rw [← hxs] at hkw
    simpa using hkw
  have hnodup : (xs.map fun kw => kw.2.id).Nodup := by
    rw [← hxs]
    exact hids.sublist (List.filter_sublist.map _)
  cases xs with
  | nil => exact (List.nil_perm.1 hp).symm
  | cons kw xs =>
    cases xs with
    | nil => exact List.singleton_perm.1 hp
    | cons kw' xs =>
      have hne : kw.2.id ≠ kw'.2.id := by
        intro he
        simp [he] at hnodup
      exact absurd ((hall kw (by simp)).2.trans (hall kw' (by simp)).2.symm) hne

theorem lastEdge_perm [DecidableEq K] {kws kws' : List (K × OsmWay)} (hperm : kws.Perm kws')
    (hids : (kws.map fun kw => kw.2.id).Nodup) (t : Osmid) (v : Name K) :
    lastEdge (docVisits bBoxNodes noHupNodes kws) t v =
      lastEdge (docVisits bBoxNodes noHupNodes kws') t v := by
  rw [lastEdge_docVisits, filter_id_eq hperm hids, ← lastEdge_docVisits]

end doc

section ruleList
variable {V E V' E' : Type*} [DecidableEq V] [DecidableEq V'] {f : V → V'} {g : E → E'}

theorem lastEdge_map {xs : List (Visit V E)} {v : V} (h : ∀ x ∈ xs, f x.n = f v → x.n = v)
    (t : Osmid) : lastEdge (xs.map (Visit.map f g)) t (f v) = (lastEdge xs t v).map g := by
  rw [lastEdge, lastEdge, ← List.getLast?_map, List.filterMap_map, List.map_filterMap]
  congr 1
  apply List.filterMap_congr
  intro x hx
  change (if x.wid = t ∧ f x.n = f v then _ else _) = Option.map g (if x.wid = t ∧ x.n = v then _ else _)
  by_cases hcond : x.wid = t ∧ x.n = v
  · rw [if_pos hcond, if_pos ⟨hcond.1, congrArg f hcond.2⟩]
    rfl
  · rw [if_neg hcond, if_neg fun hc => hcond ⟨hc.1, h x hx hc.2⟩]
    rfl

theorem visitRules_map {xs : List (Visit V E)} {x : Visit V E}
    (h : ∀ y ∈ xs, f y.n = f x.n → y.n = x.n) (rests : Osmid → List Restriction) :
    visitRules rests (xs.map (Visit.map f g)) (Visit.map f g x) =
      (visitRules rests xs x).map fun p => (g p.1, p.2.map g) := by
  rw [visitRules, visitRules, List.map_map]
  apply List.map_congr_left
  intro kv _
  exact Prod.ext rfl (lastEdge_map h kv.eTo)

end ruleList

section order
variable {NP D : Type*} {bBoxNodes noHupNodes : Osmid → Bool} {rawRests : Restrictions}

def Restrictor.side (r : Restrictor) (pos : Bool) : RuleTable := if pos then r.pos else r.neg

structure NamedRule (K : Type*) where
  pos : Bool
  via : Name K
  first : EdgeName K
  second : Option (EdgeName K)
deriving DecidableEq

def nameRule {K : Type*} (ν : ℕ → Name K) (pos : Bool) (via : ℕ) (r : RulePair) : NamedRule K :=
  ⟨pos, ν via, edgeName ν r.first, r.second.map (edgeName ν)⟩

def namedRules {K : Type*} (ν : ℕ → Name K) (pos : Bool) (st : ReadState NP D) :
    List (NamedRule K) :=
  st.g.nds.flatMap fun v => ((Restrictor.side st.restor pos).rules v).map (nameRule ν pos v)

/-- `ν` tells the nodes of the graph apart and gives those of OSM nodes their id. -/
structure Names {K : Type*} (ν : ℕ → Name K) (st : ReadState NP D) : Prop where
  inj : ∀ n ∈ st.g.nds, ∀ m ∈ st.g.nds, ν n = ν m → n = m
  node : ∀ nid n, st.nodes nid = some n → ν n = .node nid

/-- Every rule has the last edge of its to way at the via node for its target. -/
structure TargetsResolved (rawRests : Restrictions) (st : ReadState NP D) : Prop where
  rules : ∀ pos v, (Restrictor.side st.restor pos).rules v =
    (ruleList (Restrictions.side rawRests pos) st.visits v).map fun p => ⟨p.1, p.2⟩
  target : ∀ pos, ∀ x ∈ st.visits, ∀ kv ∈ Restrictions.side rawRests pos x.nid,
    kv.eFrom = x.wid → (∃ y ∈ st.visits, y.nid = x.nid ∧ y.wid = kv.eTo) →
    ∃ b, lastEdge st.visits kv.eTo x.n = some b ∧ ⟨x.nid, kv.eTo, b, x.n⟩ ∈ st.visits

theorem Traced.side_rules {st : ReadState NP D} (h : Traced rawRests st) (pos : Bool) (v : ℕ) :
    (Restrictor.side st.restor pos).rules v =
      (entries pos v [] (readOps rawRests st.visits)).map
        fun g => ⟨g.first, g.target (readOps rawRests st.visits) v⟩ := by
  obtain ⟨hpos, hneg, -⟩ := foldl_run_resolved (readOps rawRests st.visits)
  rw [h]
  cases pos with
  | true => exact hpos.rules v
  | false => exact hneg.rules v

theorem Traced.side_eq_ruleList {st : ReadState NP D} (h : Traced rawRests st)
    (hproper : Proper rawRests) (hcontig : Contiguous st.visits)
    (hsame : SameNid rawRests st.visits) (pos : Bool) (v : ℕ) :
    (Restrictor.side st.restor pos).rules v =
      (ruleList (Restrictions.side rawRests pos) st.visits v).map fun p => ⟨p.1, p.2⟩ := by
  rw [h.side_rules, ← rules_eq_ruleList hproper hcontig hsame, List.map_map]
  rfl

variable {K : Type*} {used : Set (K × ℕ)} {ν : ℕ → Name K} {kws : List (K × OsmWay)}
  {st : ReadState NP D}

theorem Named.contiguous (h : Named bBoxNodes used ν (docVisits bBoxNodes noHupNodes kws) st)
    (hids : (kws.map fun kw => kw.2.id).Nodup) : Contiguous st.visits := by
  intro p x s heq y hy hne z hz
  have hmap : docVisits bBoxNodes noHupNodes kws = p.map (Visit.map ν (edgeName ν)) ++
      Visit.map ν (edgeName ν) x :: s.map (Visit.map ν (edgeName ν)) := by
    rw [← h.visits, heq, List.map_append, List.map_cons]
  exact docVisits_contiguous kws hids _ _ _ hmap (Visit.map ν (edgeName ν) y)
    (List.mem_map_of_mem hy) hne (Visit.map ν (edgeName ν) z) (List.mem_map_of_mem hz)

theorem Named.mem_visits {xs : List (Visit (Name K) (EdgeName K))}
    (h : Named bBoxNodes used ν xs st) {x : Visit ℕ Edge} (hx : x ∈ st.visits) :
    Visit.map ν (edgeName ν) x ∈ xs := by
  rw [← h.visits]
  exact List.mem_map_of_mem hx

theorem Named.sameNid (h : Named bBoxNodes used ν (docVisits bBoxNodes noHupNodes kws) st)
    (hvias : viasHup noHupNodes rawRests) : SameNid rawRests st.visits := by
  intro x hx y hy hrestr hn
  exact docVisits_sameNid kws hvias _ (h.mem_visits hx) _ (h.mem_visits hy) hrestr (congrArg ν hn)

theorem Named.names {xs : List (Visit (Name K) (EdgeName K))} (h : Named bBoxNodes used ν xs st) :
    Names ν st where
  inj n hn m hm := by
    rw [h.nds, List.mem_range] at hn hm
    exact h.inj n hn m hm
  node nid n hn := ((h.node nid n).1 hn).2

theorem Named.targetsResolved
    (h : Named bBoxNodes used ν (docVisits bBoxNodes noHupNodes kws) st)
    (htraced : Traced rawRests st) (hproper : Proper rawRests)
    (hids : (kws.map fun kw => kw.2.id).Nodup) (hvias : viasHup noHupNodes rawRests) :
    TargetsResolved rawRests st where
  rules := htraced.side_eq_ruleList hproper (h.contiguous hids) (h.sameNid hvias)
  target pos x hx kv hkv _ hex := by
    obtain ⟨y, hy, hnid, hwid⟩ := hex
    have hrestr : Restricted rawRests x.nid := ⟨pos, List.ne_nil_of_mem hkv⟩
    have hhup := hvias x.nid hrestr
    have hxn : ν x.n = .node x.nid := docVisits_node (h.mem_visits hx) hhup
    have hyn : ν y.n = .node y.nid :=
      docVisits_node (h.mem_visits hy) (by change noHupNodes y.nid = false; rw [hnid]; exact hhup)
    have hn : y.n = x.n := by
      apply h.inj _ (h.visited_lt hy) _ (h.visited_lt hx)
      rw [hxn, hyn, hnid]
    have hmem : y.e ∈ st.visits.filterMap
        (fun z => if z.wid = kv.eTo ∧ z.n = x.n then some z.e else none) :=
      List.mem_filterMap.2 ⟨y, hy, if_pos ⟨hwid, hn⟩⟩
    obtain ⟨b, hb⟩ : ∃ b, lastEdge st.visits kv.eTo x.n = some b := by
      rw [← Option.isSome_iff_exists, lastEdge, List.getLast?_isSome]
      exact List.ne_nil_of_mem hmem
    refine ⟨b, hb, ?_⟩
    obtain ⟨z, hz, hcond⟩ := List.mem_filterMap.1 (List.mem_of_getLast? hb)
    split at hcond
    · rename_i hz'
      have hznid := h.sameNid hvias x hx z hz hrestr hz'.2
      rw [← hznid, ← hz'.1, ← hz'.2, ← Option.some.inj hcond]
      exact hz
    · simp at hcond

variable [DecidableEq K]

theorem Named.namedRules_perm
    (h : Named bBoxNodes used ν (docVisits bBoxNodes noHupNodes kws) st)
    (hres : TargetsResolved rawRests st) (pos : Bool) :
    (namedRules ν pos st).Perm ((docVisits bBoxNodes noHupNodes kws).flatMap fun x =>
      (visitRules (Restrictions.side rawRests pos) (docVisits bBoxNodes noHupNodes kws) x).map
        fun p => ⟨pos, x.n, p.1, p.2⟩) := by
  have hrules : ∀ v, ((Restrictor.side st.restor pos).rules v).map (nameRule ν pos v) =
      (st.visits.filter fun x => x.n = v).flatMap fun x =>
        (visitRules (Restrictions.side rawRests pos) st.visits x).map fun p =>
          (⟨pos, ν x.n, edgeName ν p.1, p.2.map (edgeName ν)⟩ : NamedRule K) := by
    intro v
    rw [hres.rules, List.map_map, ruleList, List.map_flatMap]
    apply List.flatMap_congr
    intro x hx
    have hxv : x.n = v := by simpa using (List.mem_filter.1 hx).2
    rw [hxv]
    rfl
  have hcover : ∀ x ∈ st.visits, x.n ∈ st.g.nds := by
    intro x hx
    rw [h.nds, List.mem_range]
    exact h.visited_lt hx
  have hnodup : st.g.nds.Nodup := by
    rw [h.nds]
    exact List.nodup_range
  rw [namedRules]
  simp only [hrules]
  refine (flatMap_group_perm hnodup hcover _).trans (List.Perm.of_eq ?_)
  rw [← h.visits, List.flatMap_map]
  apply List.flatMap_congr
  intro x hx
  have hapart : ∀ y ∈ st.visits, ν y.n = ν x.n → y.n = x.n :=
    fun y hy => h.inj _ (h.visited_lt hy) _ (h.visited_lt hx)
  rw [visitRules_map hapart, List.map_map]
  rfl

variable [Inhabited NP] [Inhabited D]

/-- The same ways in another order give the same rules, with every target resolved. -/
theorem readEdges_order_rules (hproper : Proper rawRests) (hvias : viasHup noHupNodes rawRests)
    {annotate : OsmWay → EdgePayload D → EdgePayload D} {keep : OsmWay → Bool}
    {ways ways' : List OsmWay} (hids : ((ways.filter keep).map OsmWay.id).Nodup)
    (hperm : (ways.filter keep).Perm (ways'.filter keep)) :
    let st : ReadState NP D := readEdges bBoxNodes noHupNodes rawRests annotate keep ways
    let st' : ReadState NP D := readEdges bBoxNodes noHupNodes rawRests annotate keep ways'
    (∃ ν ν' : ℕ → Name Osmid, Names ν st ∧ Names ν' st' ∧
      ∀ pos, (namedRules ν pos st).Perm (namedRules ν' pos st')) ∧
    TargetsResolved rawRests st ∧ TargetsResolved rawRests st' := by
  intro st st'
  have hkey : ∀ ws : List OsmWay, (ws.map fun w => (w.id, w)).map Prod.snd = ws := by
    intro ws
    rw [List.map_map]
    exact List.map_id ws
  have hids' := (hperm.map OsmWay.id).nodup_iff.1 hids
  obtain ⟨used, ν, hnamed⟩ : ∃ used ν, Named bBoxNodes used ν
      (docVisits bBoxNodes noHupNodes ((ways.filter keep).map fun w => (w.id, w))) st :=
    readEdges_named (hkey _) (by rw [List.map_map]; exact hids)
  obtain ⟨used', ν', hnamed'⟩ : ∃ used ν, Named bBoxNodes used ν
      (docVisits bBoxNodes noHupNodes ((ways'.filter keep).map fun w => (w.id, w))) st' :=
    readEdges_named (hkey _) (by rw [List.map_map]; exact hids')
  have hkws := hperm.map fun w => (w.id, w)
  have hkids : (((ways.filter keep).map fun w => (w.id, w)).map fun kw => kw.2.id).Nodup := by
    rw [List.map_map]
    exact hids
  have hkids' : (((ways'.filter keep).map fun w => (w.id, w)).map fun kw => kw.2.id).Nodup := by
    rw [List.map_map]
    exact hids'
  have hres := hnamed.targetsResolved (readEdges_traced keep ways) hproper hkids hvias
  have hres' := hnamed'.targetsResolved (readEdges_traced keep ways') hproper hkids' hvias
  refine ⟨⟨ν, ν', hnamed.names, hnamed'.names, fun pos => ?_⟩, hres, hres'⟩
  refine (hnamed.namedRules_perm hres pos).trans (.trans ?_ (hnamed'.namedRules_perm hres' pos).symm)
  have hlast : ∀ t v,
      lastEdge (docVisits bBoxNodes noHupNodes ((ways.filter keep).map fun w => (w.id, w))) t v =
      lastEdge (docVisits bBoxNodes noHupNodes ((ways'.filter keep).map fun w => (w.id, w))) t v :=
    lastEdge_perm hkws hkids
  simp only [visitRules, hlast]
  exact (hkws.flatMap_right _).flatMap_right _

end order

section sample

def noTurn : Restrictions := ⟨fun _ => [], fun nid => if nid = 20 then [⟨1, 2⟩] else []⟩

theorem noTurn_proper : Proper noTurn := by
  intro pos nid kv hkv
  cases pos with
  | true => simp [Restrictions.side, noTurn] at hkv
  | false =>
    simp only [Restrictions.side, noTurn, Bool.false_eq_true, if_false] at hkv
    split at hkv
    · rw [List.mem_singleton.1 hkv]
      decide
    · simp at hkv

theorem readEdges_order_rules_turn :
    let st : ReadState Unit Unit := readEdges (fun _ => true) (fun _ => false) noTurn
      (fun _ p => p) (fun _ => true) [⟨1, [], [10, 20]⟩, ⟨2, [], [20, 40]⟩]
    let st' : ReadState Unit Unit := readEdges (fun _ => true) (fun _ => false) noTurn
      (fun _ p => p) (fun _ => true) [⟨2, [], [20, 40]⟩, ⟨1, [], [10, 20]⟩]
    (∃ ν ν' : ℕ → Name Osmid, Names ν st ∧ Names ν' st' ∧
      ∀ pos, (namedRules ν pos st).Perm (namedRules ν' pos st')) ∧
    TargetsResolved noTurn st ∧ TargetsResolved noTurn st' :=
  readEdges_order_rules noTurn_proper (fun _ _ => rfl) (by decide) (List.Perm.swap _ _ _)

end sample

end Pfaedle.ReadEdges

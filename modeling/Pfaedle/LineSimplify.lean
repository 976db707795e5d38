import Mathlib.Algebra.Order.Ring.Nat
import Mathlib.Data.List.Basic
import Mathlib.Tactic.Common

set_option autoImplicit false

/-!
# `util::geo::simplify`

Douglas-Peucker over any distance to a segment. The recursion gets a budget, and a line without
points has no result.
-/
namespace Pfaedle.Geo

section model
variable {P C : Type*} [LinearOrder C] [Zero C] (distToSegment : P → P → P → C)

/-- The loop over the inner points: the first of those that are farthest away. -/
def farthest (front back : P) : ℕ → List P → C × ℕ → C × ℕ
  | i, p :: q :: rest, best =>
    farthest front back (i + 1) (q :: rest)
      (if best.1 < distToSegment front back p then (distToSegment front back p, i) else best)
  | _, _, best => best

def simplify (d : C) : ℕ → List P → Option (List P)
  | 0, _ => none
  | fuel + 1, g =>
    match g.head?, g.getLast? with
    | some front, some back =>
      let (maxd, maxi) := farthest distToSegment front back 1 g.tail (0, 0)
      if d < maxd then do
        let a ← simplify d fuel (g.take (maxi + 1))
        let b ← simplify d fuel (g.drop maxi)
        some (a ++ b.drop 1)
      else some [front, back]
    | _, _ => none

/-- `out` are the points of `g` at the places `kept`, and what lies between two places that
follow each other is within `d` of their segment. -/
structure Simplified (d : C) (g out : List P) (kept : List ℕ) : Prop where
  increasing : kept.Pairwise (· < ·)
  first : kept.head? = some 0
  last : kept.getLast? = some (g.length - 1)
  points : kept.map (fun i => g[i]?) = out.map some
  sublist : out.Sublist g
  dropped : ∀ i < g.length, i ∉ kept → ∃ k k' p q x, [k, k'] <:+: kept ∧ k < i ∧ i < k' ∧
    g[k]? = some p ∧ g[k']? = some q ∧ g[i]? = some x ∧ distToSegment p q x ≤ d

end model

section scan
variable {P C : Type*} [LinearOrder C] {distToSegment : P → P → P → C}

variable (distToSegment) in
theorem farthest_spec (front back : P) (i : ℕ) (l : List P) (best : C × ℕ) :
    best.1 ≤ (farthest distToSegment front back i l best).1 ∧
      (∀ j x, j + 1 < l.length → l[j]? = some x →
        distToSegment front back x ≤ (farthest distToSegment front back i l best).1) ∧
      (farthest distToSegment front back i l best = best ∨
        ∃ j, j + 1 < l.length ∧ (farthest distToSegment front back i l best).2 = i + j) := by
  fun_induction farthest distToSegment front back i l best with
  | case1 i p q rest best ih =>
    obtain ⟨hge, hall, hcase⟩ := ih
    have hmax : best.1 ≤ (if best.1 < distToSegment front back p then
        (distToSegment front back p, i) else best).1 ∧ distToSegment front back p ≤
        (if best.1 < distToSegment front back p then
          (distToSegment front back p, i) else best).1 := by
      split_ifs with hlt
      · exact ⟨hlt.le, le_refl _⟩
      · exact ⟨le_refl _, not_lt.1 hlt⟩
    refine ⟨hmax.1.trans hge, ?_, ?_⟩
    · intro j x hj hx
      cases j with
      | zero =>
        cases hx
        exact hmax.2.trans hge
      | succ j => exact hall j x (by simpa using hj) (by simpa using hx)
    · rcases hcase with heq | ⟨j, hj, heq⟩
      · rw [heq]
        split_ifs
        · exact .inr ⟨0, by simp, rfl⟩
        · exact .inl rfl
      · refine .inr ⟨j + 1, by simpa using hj, ?_⟩
        rw [heq]
        omega
  | case2 l i best hshort =>
    refine ⟨le_refl _, fun j x hj hx => ?_, .inl rfl⟩
    match l, hshort with
    | [], _ => simp at hj
    | [p], _ => simp at hj
    | p :: q :: rest, hshort => exact absurd rfl (hshort p q rest)

variable [Zero C]

/-- Above a bound that is not negative the split point is an inner one. -/
theorem farthest_inner {front back : P} {g : List P} {d : C} (hd : 0 ≤ d)
    (h : d < (farthest distToSegment front back 1 g.tail (0, 0)).1) :
    0 < (farthest distToSegment front back 1 g.tail (0, 0)).2 ∧
      (farthest distToSegment front back 1 g.tail (0, 0)).2 + 1 < g.length := by
  rcases (farthest_spec distToSegment front back 1 g.tail (0, 0)).2.2 with
    heq | ⟨j, hj, heq⟩
  · rw [heq] at h
    exact absurd h (not_lt.2 hd)
  · rw [heq]
    rw [List.length_tail] at hj
    omega

end scan

section segments
variable {P C : Type*} [LinearOrder C] [Zero C] {distToSegment : P → P → P → C} {d : C}
variable {g a b : List P}

theorem simplified_segment {front back : P} (hsize : 2 ≤ g.length) (hfront : g.head? = some front)
    (hback : g.getLast? = some back)
    (h : (farthest distToSegment front back 1 g.tail (0, 0)).1 ≤ d) :
    Simplified distToSegment d g [front, back] [0, g.length - 1] := by
  obtain ⟨tail, rfl⟩ : ∃ tail, g = front :: tail := by
    cases g with
    | nil => cases hfront
    | cons p tail =>
      cases hfront
      exact ⟨tail, rfl⟩
  rw [List.length_cons] at hsize
  have hlast : (front :: tail)[tail.length]? = some back := by
    rw [List.getLast?_eq_getElem?] at hback
    simpa using hback
  refine ⟨by simp; omega, rfl, rfl, ?_, ?_, ?_⟩
  · change [some front, (front :: tail)[tail.length + 1 - 1]?] = [some front, some back]
    rw [Nat.add_sub_cancel, hlast]
  · have hmem : back ∈ tail := by
      cases tail with
      | nil => simp at hsize
      | cons q tail =>
        rw [List.getLast?_cons_cons] at hback
        exact List.mem_of_getLast? hback
    exact (List.singleton_sublist.2 hmem).cons_cons front
  · intro i hi hnot
    simp only [List.length_cons, Nat.add_sub_cancel, List.mem_cons, List.not_mem_nil, or_false,
      not_or] at hi hnot
    obtain ⟨x, hx⟩ : ∃ x, tail[i - 1]? = some x :=
      ⟨_, List.getElem?_eq_getElem (by omega)⟩
    have hi' : (front :: tail)[i]? = some x := by
      rw [List.getElem?_cons, if_neg hnot.1, hx]
    have hle := (farthest_spec distToSegment front back 1 tail (0, 0)).2.1 (i - 1)
      x (by omega) hx
    exact ⟨0, tail.length, front, back, x, List.infix_rfl, by omega, by omega, rfl, hlast, hi',
      hle.trans h⟩

theorem le_of_mem_increasing {l : List ℕ} {m : ℕ} (h : l.Pairwise (· < ·))
    (hlast : l.getLast? = some m) : ∀ i ∈ l, i ≤ m := by
  obtain ⟨before, rfl⟩ := List.getLast?_eq_some_iff.1 hlast
  intro i hi
  rcases List.mem_append.1 hi with hi | hi
  · exact Nat.le_of_lt ((List.pairwise_append.1 h).2.2 i hi m (by simp))
  · exact Nat.le_of_eq (List.mem_singleton.1 hi)

omit [Zero C] in
theorem Simplified.join {m : ℕ} {ka kb : List ℕ} (hm : 0 < m) (hlt : m + 1 < g.length)
    (ha : Simplified distToSegment d (g.take (m + 1)) a ka)
    (hb : Simplified distToSegment d (g.drop m) b kb) :
    Simplified distToSegment d g (a ++ b.drop 1) (ka ++ (kb.drop 1).map (m + ·)) := by
  have hlast := ha.last
  rw [List.length_take, Nat.min_eq_left (by omega), Nat.add_sub_cancel] at hlast
  have hle := le_of_mem_increasing ha.increasing hlast
  obtain ⟨lb, rfl⟩ : ∃ lb, kb = 0 :: lb := List.head?_eq_some_iff.1 hb.first
  have hlb := (List.pairwise_cons.1 hb.increasing).1
  change Simplified distToSegment d g (a ++ b.drop 1) (ka ++ lb.map (m + ·))
  refine ⟨?_, ?_, ?_, ?_, ?_, ?_⟩
  · rw [List.pairwise_append]
    refine ⟨ha.increasing, ?_, ?_⟩
    · rw [List.pairwise_map]
      exact (List.pairwise_cons.1 hb.increasing).2.imp fun h => by omega
    · intro i hi j hj
      obtain ⟨j', hj', rfl⟩ := List.mem_map.1 hj
      have := hle i hi
      have := hlb j' hj'
      omega
  · rw [List.head?_append, ha.first]
    rfl
  · have hend := hb.last
    rw [List.length_drop] at hend
    cases lb with
    | nil =>
      have hzero : 0 = g.length - m - 1 := Option.some.inj hend
      omega
    | cons j lb =>
      rw [List.getLast?_cons_cons] at hend
      rw [List.getLast?_append, List.getLast?_map, hend]
      simp
      omega
  · have hpa : ka.map (fun i => g[i]?) = a.map some := by
      rw [← ha.points]
      apply List.map_congr_left
      intro i hi
      have := hle i hi
      rw [List.getElem?_take_of_lt (by omega)]
    have hpb := congrArg List.tail hb.points
    rw [List.map_append, hpa, List.map_append, List.map_map, List.drop_one, List.map_tail, ← hpb]
    simp [Function.comp_def]
  · have hsplit : g = g.take (m + 1) ++ (g.drop m).tail := by
      rw [List.tail_drop, List.take_append_drop]
    rw [List.drop_one, hsplit]
    exact ha.sublist.append hb.sublist.tail
  · intro i hi hnot
    rw [List.mem_append, not_or] at hnot
    by_cases him : i ≤ m
    · obtain ⟨k, k', p, q, x, hpair, hki, hik', hp, hq, hx, hdist⟩ :=
        ha.dropped i (by rw [List.length_take]; omega) hnot.1
      have hk' := hle k' (hpair.subset (by simp))
      rw [List.getElem?_take_of_lt (by omega)] at hp hq hx
      exact ⟨k, k', p, q, x, hpair.trans (List.prefix_append _ _).isInfix, hki, hik', hp, hq, hx,
        hdist⟩
    · have hnotb : i - m ∉ 0 :: lb := by
        rw [List.mem_cons, not_or]
        refine ⟨by omega, fun hmem => hnot.2 (List.mem_map.2 ⟨i - m, hmem, by omega⟩)⟩
      obtain ⟨k, k', p, q, x, hpair, hki, hik', hp, hq, hx, hdist⟩ :=
        hb.dropped (i - m) (by rw [List.length_drop]; omega) hnotb
      rw [List.getElem?_drop] at hp hq hx
      rw [Nat.add_sub_cancel' (by omega)] at hx
      -- The split point closes the first half and opens the second one.
      obtain ⟨before, rfl⟩ := List.getLast?_eq_some_iff.1 hlast
      have hshared : before ++ [m] ++ lb.map (m + ·) = before ++ (0 :: lb).map (m + ·) := by
        simp
      refine ⟨m + k, m + k', p, q, x, ?_, by omega, by omega, hp, hq, hx, hdist⟩
      rw [hshared]
      exact (hpair.map (m + ·)).trans (List.suffix_append _ _).isInfix

theorem map_some_eq {o o' : Option P} (h : some o = o'.map some) : o' = o := by
  cases o' with
  | none => cases h
  | some p => exact (Option.some.inj h).symm

omit [Zero C] in
theorem Simplified.ends {out : List P} {kept : List ℕ} (h : Simplified distToSegment d g out kept) :
    out.head? = g.head? ∧ out.getLast? = g.getLast? := by
  constructor
  · have hhead := congrArg List.head? h.points
    rw [List.head?_map, List.head?_map, h.first] at hhead
    rw [map_some_eq hhead, List.head?_eq_getElem?]
  · have hend := congrArg List.getLast? h.points
    rw [List.getLast?_map, List.getLast?_map, h.last] at hend
    rw [map_some_eq hend, List.getLast?_eq_getElem?]

theorem simplify_step (fuel : ℕ) {front back : P} (hfront : g.head? = some front)
    (hback : g.getLast? = some back) :
    simplify distToSegment d (fuel + 1) g =
      if d < (farthest distToSegment front back 1 g.tail (0, 0)).1 then do
        let a ← simplify distToSegment d fuel
          (g.take ((farthest distToSegment front back 1 g.tail (0, 0)).2 + 1))
        let b ← simplify distToSegment d fuel
          (g.drop (farthest distToSegment front back 1 g.tail (0, 0)).2)
        some (a ++ b.drop 1)
      else some [front, back] := by
  rw [simplify, hfront, hback]

/-- The halves are shorter than the line, so its length is budget enough. -/
theorem simplify_simplified (distToSegment : P → P → P → C) (hd : 0 ≤ d) (g : List P)
    (hsize : 2 ≤ g.length) :
    ∃ out kept, (∀ fuel, g.length ≤ fuel → simplify distToSegment d fuel g = some out) ∧
      Simplified distToSegment d g out kept := by
  induction hn : g.length using Nat.strongRecOn generalizing g with
  | ind n ih =>
    subst hn
    obtain ⟨front, hfront⟩ : ∃ front, g.head? = some front := by
      cases g with
      | nil => simp at hsize
      | cons p tail => exact ⟨p, rfl⟩
    obtain ⟨back, hback⟩ : ∃ back, g.getLast? = some back :=
      ⟨_, List.getLast?_eq_some_getLast (List.ne_nil_of_length_pos (by omega))⟩
    by_cases hmax : d < (farthest distToSegment front back 1 g.tail (0, 0)).1
    · obtain ⟨hm, hlt⟩ := farthest_inner hd hmax
      generalize hsplit : (farthest distToSegment front back 1 g.tail (0, 0)).2 = m at hm hlt
      have hleft : (g.take (m + 1)).length = m + 1 := by
        rw [List.length_take]
        omega
      have hright : (g.drop m).length = g.length - m := List.length_drop
      obtain ⟨a, ka, hruna, ha⟩ := ih _ (by omega) (g.take (m + 1)) (by omega) rfl
      obtain ⟨b, kb, hrunb, hb⟩ := ih _ (by omega) (g.drop m) (by omega) rfl
      refine ⟨_, _, fun fuel hfuel => ?_, ha.join hm hlt hb⟩
      obtain ⟨fuel, rfl⟩ : ∃ rest, fuel = rest + 1 := ⟨fuel - 1, by omega⟩
      rw [simplify_step fuel hfront hback, if_pos hmax, hsplit, hruna fuel (by omega),
        hrunb fuel (by omega)]
      rfl
    · refine ⟨_, _, fun fuel hfuel => ?_,
        simplified_segment hsize hfront hback (not_lt.1 hmax)⟩
      obtain ⟨fuel, rfl⟩ : ∃ rest, fuel = rest + 1 := ⟨fuel - 1, by omega⟩
      rw [simplify_step fuel hfront hback, if_neg hmax]

/-- The result of `simplify` for every line with two points, and the budget that gives it. -/
theorem simplify_sound (distToSegment : P → P → P → C) (d : C) (hd : 0 ≤ d) (g : List P)
    (hsize : 2 ≤ g.length) :
    ∃ out kept, (∀ fuel, g.length ≤ fuel → simplify distToSegment d fuel g = some out) ∧
      out.head? = g.head? ∧ out.getLast? = g.getLast? ∧
      Simplified distToSegment d g out kept := by
  obtain ⟨out, kept, hrun, hsound⟩ := simplify_simplified distToSegment hd g hsize
  exact ⟨out, kept, hrun, hsound.ends.1, hsound.ends.2, hsound⟩

end segments

/-- On a number line, where the distance to a segment is the way out of it. -/
theorem simplify_sound_numbers :
    ∃ out kept, (∀ fuel, 4 ≤ fuel →
        simplify (fun a b p : ℕ => (min a b - p) + (p - max a b)) 1 fuel [0, 5, 1, 2] = some out) ∧
      out.head? = some 0 ∧ out.getLast? = some 2 ∧
      Simplified (fun a b p : ℕ => (min a b - p) + (p - max a b)) 1 [0, 5, 1, 2] out kept :=
  simplify_sound (fun a b p : ℕ => (min a b - p) + (p - max a b)) 1 (by decide) [0, 5, 1, 2] (by decide)

example : simplify (fun a b p : ℕ => (min a b - p) + (p - max a b)) 1 4 [0, 5, 1, 2] = some [0, 5, 2] := by
  decide

end Pfaedle.Geo

import Pfaedle.LoopRules
import Pfaedle.Osm
import Pfaedle.SortedMap
import Mathlib.Data.String.Basic

set_option autoImplicit false

/-!
# Rules of attribute filters

`mot_config_reader` writes the rules of a filter into nested maps. `USE` is in the flags of every
rule, so that the flags of a rule that matches are never zero.
-/
namespace Pfaedle.Osm
open LoopRules

section rules

structure FilterRule where
  kv : String × String
  flags : List String
deriving DecidableEq

def getFlags (flags : List String) : UInt64 :=
  flags.foldl (fun ret flag =>
    if flag = "rel_flat" then ret ||| relNoDown
    else if flag = "no_match_nds" then ret ||| FilterType.node.flag
    else if flag = "no_match_rels" then ret ||| FilterType.rel.flag
    else if flag = "no_match_ways" then ret ||| FilterType.way.flag
    else if flag = "mult_val_match" then ret ||| multValMatch
    else ret) 1

/-- A `multi_attribute_map` as the configuration builds it. -/
structure RuleMap where
  rules : SortedMap String (SortedMap String UInt64)
  used : ∀ e ∈ rules.entries, ∀ r ∈ e.2.entries, r.2 ≠ 0
deriving DecidableEq

theorem or_ne_zero {x : UInt64} (h : x ≠ 0) (y : UInt64) : x ||| y ≠ 0 := by
  intro hor
  apply h
  have hand : x = x &&& (x ||| y) := by
    apply UInt64.toBitVec_inj.1
    ext i
    rw [UInt64.toBitVec_and, UInt64.toBitVec_or, BitVec.getElem_and, BitVec.getElem_or,
      Bool.and_or_distrib_left, Bool.and_self]
    cases x.toBitVec[i] with
    | false => rfl
    | true => rfl
  rw [hand, hor]
  exact UInt64.and_zero

theorem getFlags_ne_zero (flags : List String) : getFlags flags ≠ 0 := by
  refine foldl_inv _ (fun ret : UInt64 => ret ≠ 0) flags (by decide) fun ret flag _ hret => ?_
  split_ifs
  · exact or_ne_zero hret _
  · exact or_ne_zero hret _
  · exact or_ne_zero hret _
  · exact or_ne_zero hret _
  · exact or_ne_zero hret _
  · exact hret

namespace RuleMap

def keys (m : RuleMap) : List String := m.rules.keys

def map (m : RuleMap) : MultiAttributeMap := fun key => ((m.rules.find? key).getD .empty).entries

def empty : RuleMap := ⟨.empty, fun _ he => absurd he List.not_mem_nil⟩

/-- `filter[rule.kv.first].insert({rule.kv.second, getFlags(rule.flags)})` -/
def insert (m : RuleMap) (rule : FilterRule) : RuleMap where
  rules := m.rules.alter rule.kv.1 fun old =>
    (old.getD .empty).insert rule.kv.2 (getFlags rule.flags)
  used e he r hr := by
    rw [← SortedMap.find?_eq_some_iff, SortedMap.find?_alter] at he
    split at he
    · rw [← Option.some.inj he] at hr
      cases SortedMap.mem_insertAll _ (l := [(rule.kv.2, getFlags rule.flags)]) hr with
      | inl hold =>
        cases hfind : m.rules.find? rule.kv.1 with
        | none =>
          rw [hfind] at hold
          exact absurd hold List.not_mem_nil
        | some inner =>
          rw [hfind] at hold
          exact m.used _ ((m.rules.find?_eq_some_iff _ _).1 hfind) r hold
      | inr hnew =>
        rw [List.mem_singleton.1 hnew]
        exact getFlags_ne_zero _
    · exact m.used e ((m.rules.find?_eq_some_iff _ _).1 he) r hr

def ofRules (rules : List FilterRule) : RuleMap := rules.foldl insert empty

theorem map_sorted (m : RuleMap) (key : String) :
    (m.map key).Pairwise fun a b => a.1 < b.1 := SortedMap.sorted _

theorem map_used (m : RuleMap) (key : String) : ∀ r ∈ m.map key, r.2 ≠ 0 := by
  intro r hr
  rw [map] at hr
  cases hfind : m.rules.find? key with
  | none =>
    rw [hfind] at hr
    exact absurd hr List.not_mem_nil
  | some inner =>
    rw [hfind] at hr
    exact m.used _ ((m.rules.find?_eq_some_iff _ _).1 hfind) r hr

theorem map_eq_nil (m : RuleMap) {key : String} (h : key ∉ m.keys) : m.map key = [] := by
  rw [map, (m.rules.find?_eq_none_iff key).2 h]
  rfl

end RuleMap

end rules

section matching

/-- The rule is not switched off for the kind of element, and the value is one of its values. -/
def Applies (v : String) (t : FilterType) (r : String × UInt64) : Prop :=
  r.2 &&& t.flag = 0 ∧ valMatches v r.1 (r.2 &&& multValMatch ≠ 0) = true

variable {t : FilterType} {v : String}

theorem ruleFlags_sound {rules : List (String × UInt64)} {flags : UInt64}
    (h : ruleFlags v t rules = some flags) : ∃ r ∈ rules, Applies v t r ∧ r.2 = flags := by
  induction rules with
  | nil => cases h
  | cons r rules ih =>
    have htail : ruleFlags v t rules = some flags →
        ∃ r' ∈ r :: rules, Applies v t r' ∧ r'.2 = flags := fun h => by
      obtain ⟨r', hr', happlies⟩ := ih h
      exact ⟨r', List.mem_cons_of_mem r hr', happlies⟩
    rw [ruleFlags] at h
    split at h
    · exact htail h
    · rename_i hoff
      split at h
      · rename_i hval
        exact ⟨r, List.mem_cons_self, ⟨not_ne_iff.1 hoff, hval⟩, Option.some.inj h⟩
      · exact htail h

theorem ruleFlags_complete {rules : List (String × UInt64)} {r : String × UInt64}
    (hr : r ∈ rules) (happlies : Applies v t r) : ruleFlags v t rules ≠ none := by
  induction rules with
  | nil => exact absurd hr List.not_mem_nil
  | cons r' rules ih =>
    rw [ruleFlags]
    cases List.mem_cons.1 hr with
    | inl heq =>
      subst heq
      rw [if_neg (not_ne_iff.2 happlies.1), if_pos happlies.2]
      exact Option.some_ne_none _
    | inr hmem =>
      split
      · exact ih hmem
      · split
        · exact Option.some_ne_none _
        · exact ih hmem

theorem contained_ne_zero_iff {iter : AttributeMap → AttributeMap} {attrs : AttributeMap}
    {map : MultiAttributeMap} (hused : ∀ key, ∀ r ∈ map key, r.2 ≠ 0) :
    contained iter attrs map t ≠ 0 ↔
      ∃ kv ∈ iter attrs, ∃ r ∈ map kv.1, Applies kv.2 t r := by
  rw [contained]
  constructor
  · intro h
    cases hfind : (iter attrs).findSome? fun kv => ruleFlags kv.2 t (map kv.1) with
    | none =>
      rw [hfind] at h
      exact absurd rfl h
    | some flags =>
      obtain ⟨kv, hkv, hflags⟩ := List.exists_of_findSome?_eq_some hfind
      obtain ⟨r, hr, happlies, -⟩ := ruleFlags_sound hflags
      exact ⟨kv, hkv, r, hr, happlies⟩
  · intro h
    obtain ⟨kv, hkv, r, hr, happlies⟩ := h
    cases hfind : (iter attrs).findSome? fun kv => ruleFlags kv.2 t (map kv.1) with
    | none =>
      exact absurd (List.findSome?_eq_none_iff.1 hfind kv hkv) (ruleFlags_complete hr happlies)
    | some flags =>
      obtain ⟨kv', -, hflags⟩ := List.exists_of_findSome?_eq_some hfind
      obtain ⟨r', hr', -, hflag⟩ := ruleFlags_sound hflags
      rw [Option.getD_some, ← hflag]
      exact hused _ r' hr'

theorem contained_empty (iter : AttributeMap → AttributeMap) (attrs : AttributeMap) :
    contained iter attrs (fun _ => []) t = 0 := by
  have hnone : ((iter attrs).findSome? fun kv => ruleFlags kv.2 t []) = none :=
    List.findSome?_eq_none_iff.2 fun _ _ => rfl
  change ((iter attrs).findSome? fun kv => ruleFlags kv.2 t []).getD 0 = 0
  rw [hnone]
  rfl

end matching

end Pfaedle.Osm

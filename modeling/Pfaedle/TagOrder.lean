import Pfaedle.FilterRules
import Mathlib.Data.List.Perm.Basic

set_option autoImplicit false

/-!
# Flags and the order of the tags

`contained` returns the flags of the first entry that a rule applies to.
-/
namespace Pfaedle.Osm

section flags
variable {β : Type*} {t : FilterType} {map : MultiAttributeMap} {attrs : AttributeMap}

/-- The flags that an entry brings are the same for all entries, as far as `g` looks at them. -/
def SameFlags (g : UInt64 → β) (map : MultiAttributeMap) (t : FilterType) (attrs : AttributeMap) :
    Prop :=
  ∀ kv ∈ attrs, ∀ kv' ∈ attrs, ∀ flags flags', ruleFlags kv.2 t (map kv.1) = some flags →
    ruleFlags kv'.2 t (map kv'.1) = some flags' → g flags = g flags'

theorem contained_of_head {iter : AttributeMap → AttributeMap} {kv : String × String}
    {rest : AttributeMap} {flags : UInt64} (hiter : iter attrs = kv :: rest)
    (h : ruleFlags kv.2 t (map kv.1) = some flags) : contained iter attrs map t = flags := by
  rw [contained, hiter, List.findSome?_cons, h]
  rfl

theorem contained_cases (iter : AttributeMap → AttributeMap) (attrs : AttributeMap)
    (map : MultiAttributeMap) (t : FilterType) :
    (∃ kv ∈ iter attrs, ruleFlags kv.2 t (map kv.1) = some (contained iter attrs map t)) ∨
      (∀ kv ∈ iter attrs, ruleFlags kv.2 t (map kv.1) = none) ∧ contained iter attrs map t = 0 := by
  unfold contained
  cases hfind : (iter attrs).findSome? fun kv => ruleFlags kv.2 t (map kv.1) with
  | none => exact Or.inr ⟨List.findSome?_eq_none_iff.1 hfind, rfl⟩
  | some flags => exact Or.inl (List.exists_of_findSome?_eq_some hfind)

theorem first_perm {kv : String × String} (hkv : kv ∈ attrs) :
    (kv :: attrs.erase kv).Perm attrs := (List.perm_cons_erase hkv).symm

theorem contained_order_iff (g : UInt64 → β) :
    (∀ iter iter' : AttributeMap → AttributeMap, (iter attrs).Perm attrs →
        (iter' attrs).Perm attrs →
          g (contained iter attrs map t) = g (contained iter' attrs map t)) ↔
      SameFlags g map t attrs := by
  constructor
  · intro h kv hkv kv' hkv' flags flags' hflags hflags'
    have hfirst := h (fun _ => kv :: attrs.erase kv) (fun _ => kv' :: attrs.erase kv')
      (first_perm hkv) (first_perm hkv')
    have hkeep : contained (fun _ => kv :: attrs.erase kv) attrs map t = flags :=
      contained_of_head rfl hflags
    have hkeep' : contained (fun _ => kv' :: attrs.erase kv') attrs map t = flags' :=
      contained_of_head rfl hflags'
    rwa [hkeep, hkeep'] at hfirst
  · intro h iter iter' hperm hperm'
    rcases contained_cases iter attrs map t with ⟨kv, hkv, hflags⟩ | ⟨hnone, hzero⟩
    · rcases contained_cases iter' attrs map t with ⟨kv', hkv', hflags'⟩ | ⟨hnone', -⟩
      · exact h kv (hperm.mem_iff.1 hkv) kv' (hperm'.mem_iff.1 hkv') _ _ hflags hflags'
      · rw [hnone' kv (hperm'.mem_iff.2 (hperm.mem_iff.1 hkv))] at hflags
        cases hflags
    · rcases contained_cases iter' attrs map t with ⟨kv', hkv', hflags'⟩ | ⟨-, hzero'⟩
      · rw [hnone kv' (hperm.mem_iff.2 (hperm'.mem_iff.1 hkv'))] at hflags'
        cases hflags'
      · rw [hzero, hzero']

/-- `rel.keepFlags & osm::REL_NO_DOWN` of a relation that is kept. -/
theorem flat_order_iff (f : OsmFilter) :
    (∀ iter iter' : AttributeMap → AttributeMap, (iter attrs).Perm attrs →
        (iter' attrs).Perm attrs →
          f.keep iter attrs .rel &&& relNoDown = f.keep iter' attrs .rel &&& relNoDown) ↔
      SameFlags (· &&& relNoDown) f.keepRules .rel attrs :=
  contained_order_iff (· &&& relNoDown)

/-- The rules that apply to the entries have to agree on their flags. -/
theorem keep_drop_order_iff (f : OsmFilter) (t : FilterType) (attrs : AttributeMap) :
    (∀ iter iter' : AttributeMap → AttributeMap, (iter attrs).Perm attrs →
        (iter' attrs).Perm attrs →
          f.keep iter attrs t = f.keep iter' attrs t ∧ f.drop iter attrs t = f.drop iter' attrs t) ↔
      SameFlags id f.keepRules t attrs ∧ SameFlags id f.dropRules t attrs := by
  rw [← contained_order_iff, ← contained_order_iff]
  constructor
  · exact fun h => ⟨fun iter iter' hperm hperm' => (h iter iter' hperm hperm').1,
      fun iter iter' hperm hperm' => (h iter iter' hperm hperm').2⟩
  · exact fun h iter iter' hperm hperm' => ⟨h.1 iter iter' hperm hperm', h.2 iter iter' hperm hperm'⟩

/-- `railway=rail` and `public_transport=stop_area|rel_flat`. -/
def stopAreaFilter : OsmFilter where
  keepRules key :=
    if key = "railway" then [("rail", getFlags [])]
    else if key = "public_transport" then [("stop_area", getFlags ["rel_flat"])]
    else []
  dropRules _ := []
  posRestrRules _ := []
  negRestrRules _ := []
  noRestrRules _ := []

/-- The relation is flat if its `public_transport` tag comes first. -/
theorem keep_order_stopArea :
    let attrs : AttributeMap := [("railway", "rail"), ("public_transport", "stop_area")]
    (List.reverse attrs).Perm attrs ∧ stopAreaFilter.keep id attrs .rel = 1 ∧
      stopAreaFilter.keep List.reverse attrs .rel = 3 := by
  decide

end flags

end Pfaedle.Osm

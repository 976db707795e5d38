import Mathlib.Algebra.Order.Floor.Ring
import Mathlib.Data.Rat.Floor
import Pfaedle.FilterSufficient
import Pfaedle.StdText
import Pfaedle.XmlElements

set_option autoImplicit false

/-!
# `osm_builder::overpass_query_write`

The query asks for the elements in the boxes that a keep rule of the merged filter is for. What a
query answers is stated for the document that a reader gets.
-/
namespace Pfaedle.OverpassQuery
open Gtfs XmlText XmlWriter Osm OsmBuilder BoundingBoxes FilterMerge

section model
variable {C : Type*} [Field C] [LinearOrder C]

abbrev KeepMap := SortedMap String (SortedMap String UInt64)

def insertRule (keep : KeepMap) (kv : String × SortedMap String UInt64) : KeepMap :=
  keep.alter kv.1 fun old => (old.getD .empty).insertAll kv.2.entries

def insertRules (keep other : KeepMap) : KeepMap :=
  other.entries.foldl insertRule keep

def mergeKeep (a b : KeepMap) : KeepMap := insertRules (insertRules .empty a) b

def mergedKeep (opts : List (OsmReadOptions C)) : KeepMap :=
  opts.foldl (fun keep o => mergeKeep keep o.keepFilter.rules) .empty

def typeName : FilterType → Text
  | .way => "way".toList
  | .node => "node".toList
  | .rel => "relation".toList
  | .all => []

-- `toString` is `std::to_string` of a `double`
variable (toString : C → Text)

def boxText (c : ℕ) (box : Box C) : Text :=
  "Bounding box #".toList ++ toStr c ++ " (".toList ++ toString box.lowerLeft.2 ++ ", ".toList ++
    toString box.lowerLeft.1 ++ ", ".toList ++ toString box.upperRight.2 ++ ", ".toList ++
    toString box.upperRight.1 ++ ")".toList

def kvAttrs (k v : String) : List (Text × Text) :=
  if v = "*" then [("k".toList, k.toList)] else [("k".toList, k.toList), ("v".toList, v.toList)]

def boxAttrs (box : Box C) : List (Text × Text) :=
  [("s".toList, toString box.lowerLeft.2), ("w".toList, toString box.lowerLeft.1),
    ("n".toList, toString box.upperRight.2), ("e".toList, toString box.upperRight.1)]

def queryCalls (box : Box C) (t : FilterType) (k v : String) : List Call :=
  [openTagWith "query".toList [("type".toList, typeName t)],
    openTagWith "has-kv".toList (kvAttrs k v), .closeTag,
    openTagWith "bbox-query".toList (boxAttrs toString box), .closeTag, .closeTag]

def valCalls (box : Box C) (t : FilterType) (k : String) (val : String × UInt64) : List Call :=
  if val.2 &&& t.flag ≠ 0 then [] else queryCalls toString box t k val.1

def boxCalls (keep : KeepMap) (c : ℕ) (box : Box C) : List Call :=
  [.openComment, .writeText (boxText toString c box), .closeTag] ++
    [FilterType.way, .node, .rel].flatMap fun t =>
      keep.entries.flatMap fun r => r.2.entries.flatMap (valCalls toString box t r.1)

def queriedBoxes (bbox : BoundingBox C) : List (Box C) :=
  bbox.getLeafs.filter fun box => ¬box.upperRight.1 < box.lowerLeft.1

def scriptCalls (keep : KeepMap) (bbox : BoundingBox C) : List Call :=
  [.openComment, .writeText " - written by pfaedle -".toList, .closeTag,
    openTag "osm-script".toList, openTag "union".toList] ++
  ((queriedBoxes bbox).zipIdx 1).flatMap (fun b => boxCalls toString keep b.2 b.1) ++
  [.closeTag, openTag "union".toList, openTag "item".toList, .closeTag,
    openTagWith "recurse".toList [("type".toList, "down".toList)], .closeTag, .closeTag,
    openTag "print".toList]

def prolog : Text := "<?xml version=\"1.0\" encoding=\"UTF-8\"?>\n".toList

/-- `overpass_query_write` with `closeTags()` at its end -/
def overpassQueryWrite (opts : List (OsmReadOptions C)) (bbox : BoundingBox C) :
    Except XmlWriterException Text :=
  (runCalls (scriptCalls toString (mergedKeep opts) bbox) { newWriter true 4 with out := prolog }).map
    fun w => w.closeTags.out

end model

section answers
variable {C : Type*}

structure Thing (C : Type*) where
  type : FilterType
  tags : AttributeMap
  touches : Box C → Bool

variable (number : Text → Option C) (x : Thing C)

def attr (k : String) (attrs : List (Text × Text)) : Option Text := attrs.lookup k.toList

def boxOf (attrs : List (Text × Text)) : Option (Box C) :=
  match (attr "s" attrs).bind number, (attr "w" attrs).bind number, (attr "n" attrs).bind number,
    (attr "e" attrs).bind number with
  | some s, some w, some n, some e => some ⟨(w, s), (e, n)⟩
  | _, _, _, _ => none

/-- `has-kv` asks for a key, or for a key with a value. -/
def hasKv (attrs : List (Text × Text)) : Bool :=
  x.tags.any fun kv => attr "k" attrs = some kv.1.toList && (attr "v" attrs).all (· = kv.2.toList)

def condition : Xml → Bool
  | .elem tag attrs _ =>
    if tag = "has-kv".toList then hasKv x attrs
    else if tag = "bbox-query".toList then (boxOf number attrs).any x.touches
    else false
  | _ => true

/-- The element is of the type of a `query` and meets its conditions. -/
def selects : Xml → Bool
  | .elem tag attrs childs =>
    tag = "query".toList && attr "type" attrs = some (typeName x.type) &&
      childs.all (condition number x)
  | _ => false

/-- A `union` of the script has a query for the element. -/
def Asked (nodes : List Xml) : Prop :=
  ∃ attrs childs, .elem "osm-script".toList attrs childs ∈ nodes ∧
    ∃ attrs' queries, .elem "union".toList attrs' queries ∈ childs ∧
      ∃ q ∈ queries, selects number x q = true

end answers

section rules
variable {C : Type*}

def rulesOf (keep : KeepMap) : MultiAttributeMap := fun key =>
  ((keep.find? key).getD .empty).entries

theorem find?_foldl_insertRule {entries : List (String × SortedMap String UInt64)}
    (hnodup : (entries.map Prod.fst).Nodup) (keep : KeepMap) (key : String) :
    ((entries.foldl insertRule keep).find? key).getD .empty =
      ((keep.find? key).getD .empty).insertAll ((entries.lookup key).getD .empty).entries := by
  induction entries generalizing keep with
  | nil => rfl
  | cons e entries ih =>
    obtain ⟨hnew, hnodup⟩ := List.nodup_cons.1 hnodup
    rw [List.foldl_cons, ih hnodup, insertRule, SortedMap.find?_alter]
    by_cases hkey : key = e.1
    · have hnone : entries.lookup key = none := lookup_eq_none fun e' he' heq =>
        hnew (hkey ▸ heq ▸ List.mem_map_of_mem he')
      have hhead : (e :: entries).lookup key = some e.2 := by
        rw [hkey]
        exact List.lookup_cons_self
      rw [hnone, hhead, if_pos hkey, hkey]
      rfl
    · rw [lookup_cons_ne hkey, if_neg hkey]

theorem find?_insertRules (keep other : KeepMap) (key : String) :
    ((insertRules keep other).find? key).getD .empty =
      ((keep.find? key).getD .empty).insertAll (rulesOf other key) :=
  find?_foldl_insertRule other.keys_nodup keep key

theorem rulesOf_mergeKeep (a b : KeepMap) :
    rulesOf (mergeKeep a b) = mergeRules (rulesOf a) (rulesOf b) := by
  funext key
  have hb := find?_insertRules (insertRules .empty a) b key
  rw [find?_insertRules .empty a key] at hb
  rw [rulesOf, mergeKeep, hb]
  rfl

theorem rulesOf_mergedKeep (opts : List (OsmReadOptions C)) :
    rulesOf (mergedKeep opts) = (mergedFilter opts).keepRules := by
  have hstep : ∀ (opts : List (OsmReadOptions C)) (keep : KeepMap) (filter : OsmFilter),
      rulesOf keep = filter.keepRules →
      rulesOf (opts.foldl (fun keep o => mergeKeep keep o.keepFilter.rules) keep) =
        (opts.foldl (fun filter o => merge filter (osmFilter o.keepFilter.map o.dropFilter.map))
          filter).keepRules := by
    intro opts
    induction opts with
    | nil => exact fun _ _ h => h
    | cons o opts ih =>
      intro keep filter h
      apply ih
      rw [rulesOf_mergeKeep, h]
      rfl
  exact hstep opts .empty _ rfl

theorem mem_rulesOf {keep : KeepMap} {k v : String} {flags : UInt64} :
    (v, flags) ∈ rulesOf keep k ↔ ∃ m, (k, m) ∈ keep.entries ∧ (v, flags) ∈ m.entries := by
  rw [rulesOf]
  cases hfind : keep.find? k with
  | none =>
    constructor
    · exact fun h => absurd h List.not_mem_nil
    · rintro ⟨m, hm, -⟩
      rw [(keep.find?_eq_some_iff k m).2 hm] at hfind
      cases hfind
  | some m =>
    constructor
    · exact fun h => ⟨m, (keep.find?_eq_some_iff k m).1 hfind, h⟩
    · rintro ⟨m', hm', h⟩
      rw [(keep.find?_eq_some_iff k m').2 hm'] at hfind
      cases hfind
      exact h

end rules

section queries
variable {C : Type*} [Field C] [LinearOrder C] {toString : C → Text} {number : Text → Option C}
  {shown : C → C}

def PlainText (t : Text) : Prop := ∀ c ∈ t, isXmlChar c = true ∧ attrChar c = c

instance (t : Text) : Decidable (PlainText t) := List.decidableBAll _ _

/-- Numbers are printed without two dashes in a row, and `shown` is what is read back of one. -/
structure Printed (toString : C → Text) (number : Text → Option C) (shown : C → C) : Prop where
  plain : ∀ c, PlainText (toString c)
  noDashes : ∀ c, NoDashes (toString c)
  read : ∀ c, number (toString c) = some (shown c)

def shownBox (shown : C → C) (box : Box C) : Box C where
  lowerLeft := (shown box.lowerLeft.1, shown box.lowerLeft.2)
  upperRight := (shown box.upperRight.1, shown box.upperRight.2)

def attrsOf (attrs : List (Text × Text)) : List (Text × Text) :=
  attrsRead (SortedMap.empty.insertAll attrs).entries

theorem PlainText.map {t : Text} (h : PlainText t) : t.map attrChar = t :=
  (List.map_congr_left fun c hc => (h c hc).2).trans (List.map_id t)

theorem lookup_lawful {K V : Type*} {b b' : BEq K} (_ : @LawfulBEq K b) (_ : @LawfulBEq K b')
    (k : K) (l : List (K × V)) : @List.lookup K V b k l = @List.lookup K V b' k l := by
  induction l with
  | nil => rfl
  | cons e l ih =>
    obtain ⟨k', v⟩ := e
    by_cases hkey : k = k'
    · subst hkey
      rw [@List.lookup_cons_self, @List.lookup_cons_self]
    · rw [@lookup_cons_ne K V b _ k _ l hkey, @lookup_cons_ne K V b' _ k _ l hkey]
      exact ih

theorem attr_attrsOf (k : String) (attrs : List (Text × Text)) :
    attr k (attrsOf attrs) = (attrs.lookup k.toList).map (List.map attrChar) := by
  have hread : ∀ es : List (Text × Text), (attrsRead es).lookup k.toList =
      (es.lookup k.toList).map (List.map attrChar) := by
    intro es
    induction es with
    | nil => rfl
    | cons e es ih =>
      obtain ⟨key, val⟩ := e
      by_cases hkey : k.toList = key
      · subst hkey
        rw [List.lookup_cons_self]
        exact List.lookup_cons_self
      · rw [lookup_cons_ne hkey, ← ih]
        exact lookup_cons_ne hkey
  have hfind := SortedMap.find?_insertAll .empty attrs k.toList
  rw [SortedMap.find?_empty, Option.none_or, SortedMap.find?] at hfind
  rw [attr, attrsOf, hread]
  apply congrArg
  exact (lookup_lawful inferInstance inferInstance _ _).trans
    (hfind.trans (lookup_lawful inferInstance inferInstance _ _))

theorem attrsFit {attrs : List (Text × Text)}
    (h : ∀ kv ∈ attrs, isName kv.1 = true ∧ PlainText kv.2) :
    AttrsFit (SortedMap.empty.insertAll attrs) := by
  intro kv hkv
  cases SortedMap.mem_insertAll _ hkv with
  | inl hold => exact absurd hold List.not_mem_nil
  | inr hmem =>
    obtain ⟨hname, hplain⟩ := h kv hmem
    exact ⟨hname, List.all_eq_true.2 fun c hc => (hplain c hc).1⟩

theorem plainText_typeName (t : FilterType) : PlainText (typeName t) := by
  have hall : (typeName t).all (fun c => isXmlChar c && decide (attrChar c = c)) = true := by
    cases t <;> rfl
  intro c hc
  have hboth := List.all_eq_true.1 hall c hc
  rwa [Bool.and_eq_true, decide_eq_true_eq] at hboth

def queryNode (toString : C → Text) (box : Box C) (t : FilterType) (k v : String) : Xml :=
  .elem "query".toList (attrsOf [("type".toList, typeName t)])
    [.elem "has-kv".toList (attrsOf (kvAttrs k v)) [],
      .elem "bbox-query".toList (attrsOf (boxAttrs toString box)) []]

theorem kvAttrs_fit {k v : String} (hk : PlainText k.toList) (hv : PlainText v.toList) :
    AttrsFit (SortedMap.empty.insertAll (kvAttrs k v)) := by
  apply attrsFit
  intro kv hkv
  rw [kvAttrs] at hkv
  split at hkv
  · rw [List.mem_singleton.1 hkv]
    exact ⟨rfl, hk⟩
  · obtain rfl | hmem := List.mem_cons.1 hkv
    · exact ⟨rfl, hk⟩
    · rw [List.mem_singleton.1 hmem]
      exact ⟨rfl, hv⟩

omit [Field C] [LinearOrder C]

theorem boxAttrs_fit (h : Printed toString number shown) (box : Box C) :
    AttrsFit (SortedMap.empty.insertAll (boxAttrs toString box)) := by
  apply attrsFit
  intro kv hkv
  simp only [boxAttrs, List.mem_cons, List.not_mem_nil, or_false] at hkv
  obtain rfl | rfl | rfl | rfl := hkv <;> exact ⟨rfl, h.plain _⟩

theorem queryCalls_writes (h : Printed toString number shown) (lay : ℕ → Text) (box : Box C)
    (t : FilterType) {k v : String} (hk : PlainText k.toList) (hv : PlainText v.toList) :
    Writes lay (queryCalls toString box t k v) [queryNode toString box t k v] := by
  have htype : AttrsFit (SortedMap.empty.insertAll [("type".toList, typeName t)]) := by
    apply attrsFit
    intro kv hkv
    rw [List.mem_singleton.1 hkv]
    exact ⟨rfl, plainText_typeName t⟩
  exact Writes.elem (by decide) htype
    ((Writes.empty (by decide) (kvAttrs_fit hk hv)).append
      (Writes.empty (by decide) (boxAttrs_fit h box)))

variable {x : Thing C}

theorem hasKv_iff {k v : String} (hk : PlainText k.toList) (hv : PlainText v.toList) :
    hasKv x (attrsOf (kvAttrs k v)) = true ↔
      ∃ kv ∈ x.tags, kv.1 = k ∧ valMatches kv.2 v false = true := by
  rw [hasKv, List.any_eq_true]
  have hkey : attr "k" (attrsOf (kvAttrs k v)) = some k.toList := by
    rw [attr_attrsOf, kvAttrs]
    split <;> exact congrArg some hk.map
  have hval : ∀ a : String, (attr "v" (attrsOf (kvAttrs k v))).all (· = a.toList) = true ↔
      valMatches a v false = true := by
    intro a
    rw [attr_attrsOf, kvAttrs, valMatches, Bool.false_and, Bool.or_false, Bool.or_eq_true,
      decide_eq_true_eq, decide_eq_true_eq]
    split
    · rename_i hstar
      exact iff_of_true rfl (Or.inl hstar)
    · rename_i hstar
      have hread : ([("k".toList, k.toList), ("v".toList, v.toList)].lookup "v".toList).map
          (List.map attrChar) = some v.toList := congrArg some hv.map
      rw [hread, Option.all_some, decide_eq_true_eq, String.toList_inj]
      exact ⟨fun heq => Or.inr heq.symm, fun hor => (hor.resolve_left hstar).symm⟩
  constructor
  · rintro ⟨kv, hkv, h⟩
    rw [hkey, Bool.and_eq_true, decide_eq_true_eq, Option.some_inj, String.toList_inj] at h
    exact ⟨kv, hkv, h.1.symm, (hval kv.2).1 h.2⟩
  · rintro ⟨kv, hkv, rfl, hmatch⟩
    refine ⟨kv, hkv, ?_⟩
    rw [hkey, Bool.and_eq_true, decide_eq_true_eq]
    exact ⟨rfl, (hval kv.2).2 hmatch⟩

theorem boxOf_boxAttrs (h : Printed toString number shown) (box : Box C) :
    boxOf number (attrsOf (boxAttrs toString box)) = some (shownBox shown box) := by
  have hread : ∀ (k : String) (c : C),
      (boxAttrs toString box).lookup k.toList = some (toString c) →
      (attr k (attrsOf (boxAttrs toString box))).bind number = some (shown c) := by
    intro k c hlookup
    rw [attr_attrsOf, hlookup, Option.map_some, (h.plain c).map]
    exact h.read c
  rw [boxOf, hread "s" box.lowerLeft.2 rfl, hread "w" box.lowerLeft.1 rfl,
    hread "n" box.upperRight.2 rfl, hread "e" box.upperRight.1 rfl]
  rfl

theorem typeName_inj {t t' : FilterType} (h : typeName t = typeName t') : t = t' := by
  cases t <;> cases t' <;> first | rfl | exact absurd h (by decide)

theorem selects_queryNode (h : Printed toString number shown) (box : Box C) (t : FilterType)
    {k v : String} (hk : PlainText k.toList) (hv : PlainText v.toList) :
    selects number x (queryNode toString box t k v) = true ↔
      t = x.type ∧ (∃ kv ∈ x.tags, kv.1 = k ∧ valMatches kv.2 v false = true) ∧
        x.touches (shownBox shown box) = true := by
  have htype : attr "type" (attrsOf [("type".toList, typeName t)]) = some (typeName t) := by
    rw [attr_attrsOf]
    exact congrArg some (plainText_typeName t).map
  have hkv : condition number x (.elem "has-kv".toList (attrsOf (kvAttrs k v)) []) =
      hasKv x (attrsOf (kvAttrs k v)) := rfl
  have hbox : condition number x (.elem "bbox-query".toList (attrsOf (boxAttrs toString box)) []) =
      x.touches (shownBox shown box) := by
    change (boxOf number (attrsOf (boxAttrs toString box))).any x.touches = _
    rw [boxOf_boxAttrs h]
    rfl
  rw [queryNode, selects, htype, List.all_cons, List.all_cons, List.all_nil, hkv, hbox,
    Bool.and_true, Bool.and_eq_true, Bool.and_eq_true, Bool.and_eq_true, hasKv_iff hk hv,
    decide_eq_true_eq, decide_eq_true_eq, Option.some_inj]
  constructor
  · rintro ⟨⟨-, hname⟩, hrest⟩
    exact ⟨typeName_inj hname, hrest⟩
  · rintro ⟨rfl, hrest⟩
    exact ⟨⟨rfl, rfl⟩, hrest⟩

end queries

section script
variable {C : Type*} {toString : C → Text} {number : Text → Option C} {shown : C → C}
  {keep : KeepMap} {x : Thing C}

/-- The keys and the values of the rules are plain. -/
def PlainRules (keep : KeepMap) : Prop :=
  ∀ r ∈ keep.entries, ∀ val ∈ r.2.entries, PlainText r.1.toList ∧ PlainText val.1.toList

def valNodes (toString : C → Text) (box : Box C) (t : FilterType) (k : String)
    (val : String × UInt64) : List Xml :=
  if val.2 &&& t.flag ≠ 0 then [] else [queryNode toString box t k val.1]

def boxNodes (toString : C → Text) (keep : KeepMap) (c : ℕ) (box : Box C) : List Xml :=
  [.comment (trim (boxText toString c box))] ++
    [FilterType.way, .node, .rel].flatMap fun t =>
      keep.entries.flatMap fun r => r.2.entries.flatMap (valNodes toString box t r.1)

theorem toStr_digits (c : ℕ) : ∀ d ∈ toStr c, d.isDigit = true := by
  intro d hd
  rw [toStr, if_neg (by omega)] at hd
  exact isDigit_of_mem_toDigits hd

theorem boxText_chars (h : Printed toString number shown) (c : ℕ) (box : Box C) :
    (boxText toString c box).all isXmlChar = true := by
  have hnumber : ∀ n, (toString n).all isXmlChar = true := fun n =>
    List.all_eq_true.2 fun d hd => (h.plain n d hd).1
  have hcount : (toStr c).all isXmlChar = true := by
    refine List.all_eq_true.2 fun d hd => isXmlChar_of_isNameChar ?_
    rw [isNameChar, toStr_digits c d hd, Bool.or_true]
    rfl
  delta boxText
  simp only [List.all_append, hnumber, hcount, Bool.and_true]
  decide

theorem boxText_noDashes (h : Printed toString number shown) (c : ℕ) (box : Box C) :
    NoDashes (boxText toString c box) := by
  have hnumber : ∀ {s : Text} (_ : NoDashes s) (_ : s.getLast? ≠ some '-') (n : C),
      NoDashes (s ++ toString n) := fun hs hlast n => hs.append (h.noDashes n) (Or.inl hlast)
  have hsign : ∀ {s t : Text} (_ : NoDashes s) (_ : NoDashes t) (_ : t.head? ≠ some '-'),
      NoDashes (s ++ t) := fun hs ht hhead => hs.append ht (Or.inr hhead)
  have hcount : NoDashes (toStr c) :=
    noDashes_of_notMem fun hmem => absurd (toStr_digits c _ hmem) (by decide)
  have hstart := (show NoDashes "Bounding box #".toList by decide).append hcount
    (Or.inl (by decide))
  have hparen : ∀ s : Text, (s ++ " (".toList).getLast? ≠ some '-' := fun s => by simp
  have hcomma : ∀ s : Text, (s ++ ", ".toList).getLast? ≠ some '-' := fun s => by simp
  have hlat := hnumber (hsign hstart (show NoDashes " (".toList by decide) (by decide)) (hparen _)
    box.lowerLeft.2
  have hlon := hnumber (hsign hlat (show NoDashes ", ".toList by decide) (by decide)) (hcomma _)
    box.lowerLeft.1
  have hlat' := hnumber (hsign hlon (show NoDashes ", ".toList by decide) (by decide)) (hcomma _)
    box.upperRight.2
  have hlon' := hnumber (hsign hlat' (show NoDashes ", ".toList by decide) (by decide)) (hcomma _)
    box.upperRight.1
  exact hsign hlon' (show NoDashes ")".toList by decide) (by decide)

theorem boxCalls_writes {lay : ℕ → Text} (hlay : ∀ n, ∀ c ∈ lay n, isXmlBlank c = true)
    (h : Printed toString number shown) (hkeep : PlainRules keep) (c : ℕ) (box : Box C) :
    Writes lay (boxCalls toString keep c box) (boxNodes toString keep c box) := by
  apply (Writes.comment hlay (boxText_chars h c box) (boxText_noDashes h c box)).append
  refine .flatMap fun t _ => .flatMap fun r hr => .flatMap fun val hval => ?_
  obtain ⟨hk, hv⟩ := hkeep r hr val hval
  rw [valCalls, valNodes]
  split
  · exact .nil
  · exact queryCalls_writes h lay box t hk hv

variable [LinearOrder C]

def unionNodes (toString : C → Text) (keep : KeepMap) (bbox : BoundingBox C) : List Xml :=
  ((queriedBoxes bbox).zipIdx 1).flatMap fun b => boxNodes toString keep b.2 b.1

def scriptNodes (toString : C → Text) (keep : KeepMap) (bbox : BoundingBox C) : List Xml :=
  [.elem "union".toList [] (unionNodes toString keep bbox),
    .elem "union".toList []
      [.elem "item".toList [] [], .elem "recurse".toList [("type".toList, "down".toList)] []],
    .elem "print".toList [] []]

theorem noAttrs_fit : AttrsFit .empty := fun _ hkv => absurd hkv List.not_mem_nil

theorem recurseAttrs_fit :
    AttrsFit (SortedMap.empty.insertAll [("type".toList, "down".toList)]) := by
  rw [AttrsFit]
  decide

theorem scriptCalls_eq (toString : C → Text) (keep : KeepMap) (bbox : BoundingBox C) :
    scriptCalls toString keep bbox =
      [.openComment, .writeText " - written by pfaedle -".toList, .closeTag] ++
      ([openTag "osm-script".toList] ++
        (((openTag "union".toList ::
            ((queriedBoxes bbox).zipIdx 1).flatMap (fun b => boxCalls toString keep b.2 b.1) ++
              [.closeTag]) ++
          (openTag "union".toList ::
              ([openTag "item".toList, .closeTag] ++
                [openTagWith "recurse".toList [("type".toList, "down".toList)], .closeTag]) ++
              [.closeTag])) ++
            [openTag "print".toList])) := by
  rw [scriptCalls]
  simp only [List.append_assoc, List.cons_append, List.nil_append]

/-- The nodes that are there once the script and what is open in it are closed. -/
theorem nodes_script (roots nodes : List Xml) (tag tag' : Text) :
    Doc.nodes ⟨(addAll nodes (Forest.start tag [] ⟨roots, []⟩)).start tag' [], .text []⟩ =
      roots ++ [.elem tag [] (nodes ++ [.elem tag' [] []])] := by
  have hopen : addAll nodes (Forest.start tag [] ⟨roots, []⟩) = ⟨roots, [⟨tag, [], nodes⟩]⟩ :=
    addAll_open nodes roots ⟨tag, [], []⟩ []
  rw [hopen]
  rfl

theorem overpassQueryWrite_read (h : Printed toString number shown)
    (opts : List (OsmReadOptions C)) (hkeep : PlainRules (mergedKeep opts))
    (bbox : BoundingBox C) :
    ∃ text, overpassQueryWrite toString opts bbox = .ok text ∧
      parse text = some [.comment "- written by pfaedle -".toList,
        .elem "osm-script".toList [] (scriptNodes toString (mergedKeep opts) bbox)] := by
  let lay := Writer.layout true 4
  have hlay : ∀ n, ∀ c ∈ lay n, isXmlBlank c = true := layout_blanks true 4
  have hstart : Agrees declaration lay { newWriter true 4 with out := prolog }
      ⟨.empty, .text ['\n']⟩ :=
    .content ⟨⟨['\n'], rfl, rfl⟩, rfl, rfl, fun n hn => absurd hn List.not_mem_nil⟩ fun _ => rfl
  have htag : ∀ tag ∈ ["osm-script", "union", "item", "recurse", "print"],
      validTag tag.toList = true := by decide
  have hcomment : Writes lay
      [.openComment, .writeText " - written by pfaedle -".toList, .closeTag]
      [.comment "- written by pfaedle -".toList] := .comment hlay (by decide) (by decide)
  have hboxes : Writes lay (((queriedBoxes bbox).zipIdx 1).flatMap fun b =>
      boxCalls toString (mergedKeep opts) b.2 b.1) (((queriedBoxes bbox).zipIdx 1).flatMap fun b =>
        boxNodes toString (mergedKeep opts) b.2 b.1) :=
    .flatMap fun b _ => boxCalls_writes hlay h hkeep b.2 b.1
  have hunion := hboxes.elem (htag "union" (by decide)) noAttrs_fit
  have hitem : Writes lay _ _ := .empty (htag "item" (by decide)) noAttrs_fit
  have hrecurse : Writes lay _ _ := .empty (htag "recurse" (by decide)) recurseAttrs_fit
  have hdown := (hitem.append hrecurse).elem (htag "union" (by decide)) noAttrs_fit
  obtain ⟨s₁, hs₁, hleads₁⟩ := hcomment .empty ['\n'] rfl
  obtain ⟨s₂, hs₂, hleads₂⟩ := (hunion.append hdown) (Forest.start "osm-script".toList []
    (addAll [.comment "- written by pfaedle -".toList] .empty)) [] rfl
  obtain ⟨d, hleads, hnodes⟩ : ∃ d, Leads lay ⟨.empty, .text ['\n']⟩
      (scriptCalls toString (mergedKeep opts) bbox) d ∧
      d.nodes = [.comment "- written by pfaedle -".toList,
        .elem "osm-script".toList [] (scriptNodes toString (mergedKeep opts) bbox)] := by
    rw [scriptCalls_eq]
    exact ⟨_, hleads₁.append ((leads_openTag hs₁ (htag "osm-script" (by decide))
      noAttrs_fit).append (hleads₂.append (leads_openTag hs₂ (htag "print" (by decide))
        noAttrs_fit))), nodes_script [.comment "- written by pfaedle -".toList] _ _ _⟩
  obtain ⟨w, d', hrun, hdoc, hagrees⟩ | ⟨e, -, hdoc⟩ := hstart.calls hleads.fits
  · rw [hleads.doc] at hdoc
    cases hdoc
    refine ⟨w.closeTags.out, ?_, ?_⟩
    · rw [overpassQueryWrite, hrun]
      rfl
    · obtain ⟨out, m, hout, hread, hfinished⟩ := hagrees.closeTags
      rw [hnodes] at hfinished
      rw [hout, parse_declaration, hread]
      exact hfinished
  · rw [hleads.doc] at hdoc
    cases hdoc

omit [LinearOrder C] in
theorem selects_tag {tag : Text} {attrs : List (Text × Text)} {childs : List Xml}
    (h : selects number x (.elem tag attrs childs) = true) : tag = "query".toList := by
  rw [selects, Bool.and_eq_true, Bool.and_eq_true, decide_eq_true_eq] at h
  exact h.1.1

omit [LinearOrder C] in
theorem exists_boxNodes (h : Printed toString number shown) (hkeep : PlainRules keep) (c : ℕ)
    (box : Box C) :
    (∃ q ∈ boxNodes toString keep c box, selects number x q = true) ↔
      x.type ≠ .all ∧ x.touches (shownBox shown box) = true ∧
        ∃ kv ∈ x.tags, ∃ val ∈ rulesOf keep kv.1,
          val.2 &&& x.type.flag = 0 ∧ valMatches kv.2 val.1 false = true := by
  constructor
  · rintro ⟨q, hq, hselects⟩
    cases List.mem_append.1 hq with
    | inl hcomment =>
      rw [List.mem_singleton.1 hcomment] at hselects
      exact absurd hselects Bool.false_ne_true
    | inr hrules =>
      obtain ⟨t, ht, hq⟩ := List.mem_flatMap.1 hrules
      obtain ⟨r, hr, hq⟩ := List.mem_flatMap.1 hq
      obtain ⟨val, hval, hq⟩ := List.mem_flatMap.1 hq
      rw [valNodes] at hq
      split at hq
      · exact absurd hq List.not_mem_nil
      · rename_i hflag
        obtain ⟨hk, hv⟩ := hkeep r hr val hval
        rw [List.mem_singleton.1 hq, selects_queryNode h box t hk hv] at hselects
        obtain ⟨rfl, ⟨kv, hkv, hkey, hmatch⟩, htouch⟩ := hselects
        refine ⟨?_, htouch, kv, hkv, val, ?_, not_not.1 hflag, hmatch⟩
        · intro hall
          rw [hall] at ht
          exact absurd ht (by simp)
        · rw [hkey]
          exact mem_rulesOf.2 ⟨r.2, hr, hval⟩
  · rintro ⟨hall, htouch, kv, hkv, val, hval, hflag, hmatch⟩
    obtain ⟨m, hm, hval⟩ := mem_rulesOf.1 hval
    obtain ⟨hk, hv⟩ := hkeep _ hm val hval
    refine ⟨queryNode toString box x.type kv.1 val.1, List.mem_append_right _ ?_,
      (selects_queryNode h box x.type hk hv).2 ⟨rfl, ⟨kv, hkv, rfl, hmatch⟩, htouch⟩⟩
    have htype : x.type ∈ [FilterType.way, .node, .rel] := by
      cases hx : x.type <;> simp_all
    refine List.mem_flatMap.2 ⟨x.type, htype, List.mem_flatMap.2 ⟨_, hm, List.mem_flatMap.2
      ⟨val, hval, ?_⟩⟩⟩
    rw [valNodes, if_neg (not_not.2 hflag)]
    exact List.mem_singleton_self _

/-- An element is asked for in a box if one of its tags matches a rule, with lists of values left
aside. -/
theorem asked_iff (h : Printed toString number shown) (hkeep : PlainRules keep)
    (bbox : BoundingBox C) (comment : Text) :
    Asked number x
        [.comment comment, .elem "osm-script".toList [] (scriptNodes toString keep bbox)] ↔
      x.type ≠ .all ∧
        (∃ box ∈ queriedBoxes bbox, x.touches (shownBox shown box) = true) ∧
          ∃ kv ∈ x.tags, ∃ val ∈ rulesOf keep kv.1,
            val.2 &&& x.type.flag = 0 ∧ valMatches kv.2 val.1 false = true := by
  have hunion : Asked number x
        [.comment comment, .elem "osm-script".toList [] (scriptNodes toString keep bbox)] ↔
      ∃ q ∈ unionNodes toString keep bbox, selects number x q = true := by
    constructor
    · rintro ⟨attrs, childs, hscript, attrs', queries, hunion, q, hq, hselects⟩
      obtain ⟨-, rfl⟩ : attrs = [] ∧ childs = scriptNodes toString keep bbox := by
        simpa using hscript
      simp only [scriptNodes, List.mem_cons, Xml.elem.injEq, List.not_mem_nil, or_false] at hunion
      obtain ⟨-, -, rfl⟩ | ⟨-, -, rfl⟩ | ⟨hprint, -⟩ := hunion
      · exact ⟨q, hq, hselects⟩
      · simp only [List.mem_cons, List.not_mem_nil, or_false] at hq
        obtain rfl | rfl := hq <;> exact absurd (selects_tag hselects) (by decide)
      · exact absurd hprint (by decide)
    · rintro ⟨q, hq, hselects⟩
      exact ⟨[], _, List.mem_cons_of_mem _ List.mem_cons_self, [], _, List.mem_cons_self, q, hq,
        hselects⟩
  have hboxes : ((queriedBoxes bbox).zipIdx 1).map Prod.fst = queriedBoxes bbox :=
    List.zipIdx_map_fst 1 _
  rw [hunion]
  constructor
  · rintro ⟨q, hq, hselects⟩
    obtain ⟨b, hb, hq⟩ := List.mem_flatMap.1 hq
    obtain ⟨hall, htouch, hrules⟩ := (exists_boxNodes h hkeep b.2 b.1).1 ⟨q, hq, hselects⟩
    have hbox : b.1 ∈ queriedBoxes bbox := hboxes ▸ List.mem_map_of_mem hb
    exact ⟨hall, ⟨b.1, hbox, htouch⟩, hrules⟩
  · rintro ⟨hall, ⟨box, hbox, htouch⟩, hrules⟩
    rw [← hboxes] at hbox
    obtain ⟨b, hb, rfl⟩ := List.mem_map.1 hbox
    obtain ⟨q, hq, hselects⟩ := (exists_boxNodes h hkeep b.2 b.1).2 ⟨hall, htouch, hrules⟩
    exact ⟨q, List.mem_flatMap.2 ⟨b, hb, hq⟩, hselects⟩

/-- The query that is written asks for an element exactly when it touches a box, as its corners are
printed, and a rule of the merged filter that is not switched off for its type has one of its tags.
Only the values in a list of values are not asked for. -/
theorem overpassQueryWrite_asks (h : Printed toString number shown)
    (opts : List (OsmReadOptions C)) (hkeep : PlainRules (mergedKeep opts))
    (bbox : BoundingBox C) :
    ∃ text nodes, overpassQueryWrite toString opts bbox = .ok text ∧ parse text = some nodes ∧
      ∀ x : Thing C, Asked number x nodes ↔
        x.type ≠ .all ∧
          (∃ box ∈ queriedBoxes bbox, x.touches (shownBox shown box) = true) ∧
            ∃ kv ∈ x.tags, ∃ val ∈ (mergedFilter opts).keepRules kv.1,
              val.2 &&& x.type.flag = 0 ∧ valMatches kv.2 val.1 false = true := by
  obtain ⟨text, htext, hread⟩ := overpassQueryWrite_read h opts hkeep bbox
  refine ⟨text, _, htext, hread, fun x => ?_⟩
  rw [asked_iff h hkeep, rulesOf_mergedKeep]

end script

section sample

def wholeText (q : ℚ) : Text := wholeNumbers.fixed ⌊q⌋

def wholeNumber (t : Text) : Option ℚ := (wholeNumbers.stod t).toOption.map fun z => (z : ℚ)

theorem wholeText_chars (q : ℚ) : ∀ c ∈ wholeText q, c.isDigit = true ∨ c = '-' ∨ c = '.' := by
  intro c hc
  cases List.mem_append.1 hc with
  | inl hint =>
    rw [toStr] at hint
    split at hint
    · cases List.mem_cons.1 hint with
      | inl heq => exact Or.inr (Or.inl heq)
      | inr hmem => exact Or.inl (isDigit_of_mem_toDigits hmem)
    · exact Or.inl (isDigit_of_mem_toDigits hint)
  | inr hzeros =>
    have hcase : c = '.' ∨ c = '0' := by simpa using hzeros
    obtain rfl | rfl := hcase
    · exact Or.inr (Or.inr rfl)
    · exact Or.inl (by decide)

theorem wholeText_printed : Printed wholeText wholeNumber fun q => ((⌊q⌋ : ℤ) : ℚ) where
  plain q c hc := by
    obtain hdigit | rfl | rfl := wholeText_chars q c hc
    · have hname : isNameChar c = true := by
        rw [isNameChar, hdigit, Bool.or_true]
        rfl
      refine ⟨isXmlChar_of_isNameChar hname, if_neg fun hblank => ?_⟩
      have hne : ∀ d : Char, d.isDigit = false → c ≠ d := by
        rintro d hd rfl
        rw [hdigit] at hd
        exact absurd hd (by decide)
      simp only [isXmlBlank, Bool.or_eq_true, decide_eq_true_eq] at hblank
      obtain (heq | heq) | heq := hblank
      · exact hne _ (by decide) heq
      · exact hne _ (by decide) heq
      · exact hne _ (by decide) heq
    · exact ⟨by decide, by decide⟩
    · exact ⟨by decide, by decide⟩
  noDashes q := by
    have hdigits : ∀ n : ℕ, '-' ∉ Nat.toDigits 10 n := fun n hmem =>
      absurd (isDigit_of_mem_toDigits hmem) (by decide)
    have hint : NoDashes (toStr ⌊q⌋) := by
      rw [toStr]
      split
      · exact (noDashes_of_notMem (hdigits _)).cons fun d hd hboth =>
          hdigits _ (List.mem_of_head? (hboth.2 ▸ hd))
      · exact noDashes_of_notMem (hdigits _)
    exact hint.append (show NoDashes ".000000".toList by decide) (Or.inr (by decide))
  read q := by
    have hread : wholeNumbers.stod (wholeText q) = .ok ⌊q⌋ := strtol_toStr _ ⌊q⌋ rfl
    rw [wholeNumber, hread]
    rfl

def cornerTrack : Thing ℚ :=
  ⟨.way, [("name", "Main"), ("railway", "rail")], fun box => box.lowerLeft = (0, 0)⟩

theorem overpassQueryWrite_asks_track : ∃ text nodes,
    overpassQueryWrite wholeText [railOptions] unitBox = .ok text ∧ parse text = some nodes ∧
      Asked wholeNumber cornerTrack nodes := by
  have hplain : PlainRules (mergedKeep [railOptions]) := by
    rw [PlainRules]
    decide +kernel
  obtain ⟨text, nodes, htext, hread, hasks⟩ :=
    overpassQueryWrite_asks wholeText_printed [railOptions] hplain unitBox
  refine ⟨text, nodes, htext, hread, (hasks cornerTrack).2 ⟨fun hall => (by cases hall), ?_, ?_⟩⟩
  · exact ⟨⟨(0, 0), (1, 1)⟩, by decide +kernel, by decide +kernel⟩
  · exact ⟨("railway", "rail"), by decide, ("rail", 1), by decide +kernel, by decide, by decide⟩

end sample

end Pfaedle.OverpassQuery

import Pfaedle.FeedProcessing
import Pfaedle.KeptKeys
import Pfaedle.NameSimi

set_option autoImplicit false

/-!
# The lines of relations

`get_lines` makes a line of the names of a relation, all of which pass through the normalizer for
lines. The names of a trip pass through the normalizer for lines and the one for stations.
-/
namespace Pfaedle.ShapeBuilder
open Gtfs Osm KeptKeys

section normalizer
variable (replace : String → String → String → String)

/-- `normalizer::norm`, where `replace` is `std::regex_replace`. -/
def norm (rules : ReplRules) (sn : String) : String :=
  rules.foldl (fun ret rule => replace rule.1 rule.2 ret) sn

def normText (rules : ReplRules) (sn : Text) : Text :=
  (norm replace rules (String.ofList sn)).toList

def Builder.normalizers {C D : Type} (B : Builder D) (o : OsmReadOptions C) : Builder D :=
  { B with
    lineNorm := normText replace o.lineNormzer
    statNorm := normText replace o.statNormzer
    trackNorm := normText replace o.trackNormzer }

end normalizer

section lines
variable {C : Type} (replace : String → String → String → String) (o : OsmReadOptions C)

/-- `_lines` and `_relLines`; the address of a line is its place in `lines`. -/
structure LineStore where
  lines : List TransitEdgeLine
  relLines : ℕ → Option ℕ

def LineStore.empty : LineStore := ⟨[], fun _ => none⟩

def relationLine (rel : AttributeMap) : TransitEdgeLine :=
  let names := lineNames (norm replace) o rel
  ⟨names.2.1.toList, names.2.2.toList, names.1.toList⟩

def LineStore.intern (s : LineStore) (el : TransitEdgeLine) (relId : ℕ) : LineStore :=
  ⟨if el ∈ s.lines then s.lines else s.lines ++ [el],
    Function.update s.relLines relId (some (s.lines.idxOf el))⟩

variable (rels : List AttributeMap)

def getLine (st : LineStore × List ℕ) (relId : ℕ) : LineStore × List ℕ :=
  match st.1.relLines relId with
  | some elp => (st.1, st.2 ++ [elp])
  | none =>
    let el := relationLine replace o (rels.getD relId [])
    if el.shortName = [] ∧ el.fromStr = [] ∧ el.toStr = [] then st
    else (st.1.intern el relId, st.2 ++ [st.1.lines.idxOf el])

def getLines (s : LineStore) (edgeRels : List ℕ) : LineStore × List ℕ :=
  edgeRels.foldl (getLine replace o rels) (s, [])

/-- What `get_lines` leaves behind for the ways before. -/
def linesOfWays (ways : List (List ℕ)) : LineStore :=
  ways.foldl (fun s edgeRels => (getLines replace o rels s edgeRels).1) .empty

/-- An address stands for one line, and the one of a relation for the line of the relation. -/
structure LineStore.Valid (s : LineStore) : Prop where
  nodup : s.lines.Nodup
  built : ∀ {relId elp}, s.relLines relId = some elp →
    s.lines[elp]? = some (relationLine replace o (rels.getD relId []))

variable {replace o rels}

theorem LineStore.intern_lines (s : LineStore) (el : TransitEdgeLine) (relId : ℕ) :
    (s.intern el relId).lines[s.lines.idxOf el]? = some el := by
  rw [LineStore.intern]
  by_cases h : el ∈ s.lines
  · rw [if_pos h, List.getElem?_eq_getElem (List.idxOf_lt_length_of_mem h)]
    exact congrArg some (List.getElem_idxOf _)
  · rw [if_neg h, List.idxOf_eq_length h]
    exact List.getElem?_concat_length

theorem LineStore.intern_kept (s : LineStore) (el : TransitEdgeLine) (relId : ℕ) {elp : ℕ}
    {line : TransitEdgeLine} (h : s.lines[elp]? = some line) :
    (s.intern el relId).lines[elp]? = some line := by
  rw [LineStore.intern]
  split_ifs
  · exact h
  · rw [List.getElem?_append_left (List.getElem?_eq_some_iff.1 h).1]
    exact h

theorem LineStore.Valid.intern {s : LineStore} (h : s.Valid replace o rels) (relId : ℕ) :
    (s.intern (relationLine replace o (rels.getD relId [])) relId).Valid replace o rels := by
  constructor
  · rw [LineStore.intern]
    split_ifs with hmem
    · exact h.nodup
    · exact List.nodup_append.2 ⟨h.nodup, List.nodup_singleton _,
        fun a ha b hb => by rintro rfl; exact hmem (List.mem_singleton.1 hb ▸ ha)⟩
  · intro relId' elp help
    by_cases heq : relId' = relId
    · subst heq
      rw [LineStore.intern] at help
      dsimp only at help
      rw [Function.update_self] at help
      cases help
      exact s.intern_lines _ _
    · rw [LineStore.intern] at help
      dsimp only at help
      rw [Function.update_of_ne heq] at help
      exact s.intern_kept _ _ (h.built help)

theorem LineStore.valid_empty : LineStore.empty.Valid replace o rels :=
  ⟨List.nodup_nil, fun h => nomatch h⟩

theorem LineStore.Valid.getLine {st : LineStore × List ℕ} (h : st.1.Valid replace o rels)
    (relId : ℕ) : (getLine replace o rels st relId).1.Valid replace o rels := by
  unfold ShapeBuilder.getLine
  split
  · exact h
  · dsimp only
    split_ifs
    · exact h
    · exact h.intern relId

theorem LineStore.Valid.foldl (edgeRels : List ℕ) {st : LineStore × List ℕ}
    (h : st.1.Valid replace o rels) :
    (edgeRels.foldl (ShapeBuilder.getLine replace o rels) st).1.Valid replace o rels := by
  induction edgeRels generalizing st with
  | nil => exact h
  | cons relId edgeRels ih => exact ih (h.getLine relId)

variable (replace o rels) in
theorem linesOfWays_valid (ways : List (List ℕ)) :
    (linesOfWays replace o rels ways).Valid replace o rels := by
  unfold linesOfWays
  generalize hs : LineStore.empty = s
  have h : s.Valid replace o rels := hs ▸ LineStore.valid_empty
  clear hs
  induction ways generalizing s with
  | nil => exact h
  | cons edgeRels ways ih =>
    have hstart : (s, ([] : List ℕ)).1.Valid replace o rels := h
    exact ih _ (hstart.foldl edgeRels)

/-- The edge gets the line with the address `elp`, and the relation has that line. -/
def HasLine (st : LineStore × List ℕ) (relId elp : ℕ) : Prop :=
  st.1.relLines relId = some elp ∧ elp ∈ st.2

theorem HasLine.getLine {st : LineStore × List ℕ} {relId elp : ℕ} (h : HasLine st relId elp)
    (relId' : ℕ) : HasLine (getLine replace o rels st relId') relId elp := by
  unfold ShapeBuilder.getLine
  split
  · exact ⟨h.1, List.mem_append_left _ h.2⟩
  · rename_i hnone
    dsimp only
    split_ifs
    · exact h
    · refine ⟨?_, List.mem_append_left _ h.2⟩
      have hne : relId ≠ relId' := by
        rintro rfl
        exact absurd (hnone.symm.trans h.1) (by simp)
      exact (Function.update_of_ne hne _ _).trans h.1

theorem HasLine.foldl (edgeRels : List ℕ) {st : LineStore × List ℕ} {relId elp : ℕ}
    (h : HasLine st relId elp) :
    HasLine (edgeRels.foldl (ShapeBuilder.getLine replace o rels) st) relId elp := by
  induction edgeRels generalizing st with
  | nil => exact h
  | cons relId' edgeRels ih => exact ih (h.getLine relId')

theorem hasLine_getLine (st : LineStore × List ℕ) {relId : ℕ}
    (hname : (relationLine replace o (rels.getD relId [])).shortName ≠ []) :
    ∃ elp, HasLine (getLine replace o rels st relId) relId elp := by
  unfold getLine
  split
  · rename_i elp help
    exact ⟨elp, help, List.mem_append_right _ (List.mem_singleton_self _)⟩
  · dsimp only
    rw [if_neg fun hempty => hname hempty.1]
    exact ⟨_, Function.update_self _ _ _, List.mem_append_right _ (List.mem_singleton_self _)⟩

/-- The edges of a way get the line of each of its relations that has a name. -/
theorem getLines_hasLine (s : LineStore) {edgeRels : List ℕ} {relId : ℕ} (hmem : relId ∈ edgeRels)
    (hname : (relationLine replace o (rels.getD relId [])).shortName ≠ []) :
    ∃ elp, HasLine (getLines replace o rels s edgeRels) relId elp := by
  unfold getLines
  generalize (s, ([] : List ℕ)) = st
  induction edgeRels generalizing st with
  | nil => exact absurd hmem List.not_mem_nil
  | cons relId' edgeRels ih =>
    rcases List.mem_cons.1 hmem with rfl | hrest
    · obtain ⟨elp, help⟩ := hasLine_getLine st hname
      exact ⟨elp, help.foldl edgeRels⟩
    · exact ih hrest _

end lines

section agreement
variable {C D : Type} (K : Type*) [Field K] [LinearOrder K]
  (replace : String → String → String → String) (o : OsmReadOptions C)

/-- The relation has the name under the first of the keys that it has. -/
def Carries (rule : List String) (rel : AttributeMap) (name : Text) : Prop :=
  (rule.filterMap fun r => rel.lookup r).head? = some (String.ofList name)

instance (rule : List String) (rel : AttributeMap) (name : Text) :
    Decidable (Carries rule rel name) :=
  inferInstanceAs (Decidable (_ = _))

def usedTag (rule : List String) (rel : AttributeMap) : Option String :=
  (rule.filterMap fun r => rel.lookup r).find? fun v => norm replace o.lineNormzer v ≠ ""

/-- What the normalizer for lines makes of the tag is like what the one for stations makes of the
name. -/
def TagMatches (tag : String) (name : Text) : Prop :=
  (0.5 : K) < statSimi (norm replace o.lineNormzer tag).toList (normText replace o.statNormzer name)

/-- The two normalizers make like names of the name, or one of them leaves nothing of it. Then a tag
with another key counts. -/
def NormsAgree (rule : List String) (rel : AttributeMap) (name : Text) : Prop :=
  normText replace o.statNormzer name = [] ∨
    if normText replace o.lineNormzer name = [] then
      ∀ v, usedTag replace o rule rel = some v → TagMatches K replace o v name
    else TagMatches K replace o (String.ofList name) name

variable {K replace o}

theorem lineName_eq (rule : List String) (rel : AttributeMap) :
    lineName rule rel (norm replace o.lineNormzer) =
      ((usedTag replace o rule rel).map (norm replace o.lineNormzer)).getD "" := by
  rw [lineName, List.find?_map]
  rfl

theorem usedTag_carried {rule : List String} {rel : AttributeMap} {name : Text}
    (h : Carries rule rel name) (hne : normText replace o.lineNormzer name ≠ []) :
    usedTag replace o rule rel = some (String.ofList name) := by
  obtain ⟨rest, hrest⟩ := List.head?_eq_some_iff.1 h
  rw [usedTag, hrest, List.find?_cons_of_pos]
  exact decide_eq_true fun hempty => hne (congrArg String.toList hempty)

theorem endMatches_iff {rule : List String} {rel : AttributeMap} {name : Text}
    (h : Carries rule rel name) :
    EndMatches K (normText replace o.statNormzer name)
        (lineName rule rel (norm replace o.lineNormzer)).toList ↔
      NormsAgree K replace o rule rel name := by
  rw [EndMatches, NormsAgree, lineName_eq]
  refine or_congr_right ?_
  by_cases hempty : normText replace o.lineNormzer name = []
  · rw [if_pos hempty]
    cases hused : usedTag replace o rule rel with
    | none => simp
    | some v =>
      have hne : norm replace o.lineNormzer v ≠ "" := of_decide_eq_true (List.find?_some hused :)
      simp [hne, TagMatches]
  · rw [if_neg hempty, usedTag_carried h hempty]
    exact or_iff_right hempty

variable [IsStrictOrderedRing K]

/-- With one normalizer, equal names agree. -/
theorem normsAgree_same (hsame : o.lineNormzer = o.statNormzer) (rule : List String)
    (rel : AttributeMap) (name : Text) : NormsAgree K replace o rule rel name := by
  by_cases hne : normText replace o.statNormzer name = []
  · exact Or.inl hne
  · refine Or.inr ?_
    rw [hsame, if_neg hne, TagMatches, hsame]
    exact statSimi_self _

theorem getRAttrs_eq {B : Builder D} {f : Feed D} {trip : Trip} {route : Route}
    {sts : List (StopTime D)} {first last : Stop D} (hroute : routeOf f trip = some route)
    (hsts : stopTimes f trip = some sts) (hfirst : sts.head? >>= stopOf f = some first)
    (hlast : sts.getLast? >>= stopOf f = some last) :
    getRAttrs B f trip = some
      ⟨if B.lineNorm route.routeShortName = [] then B.lineNorm route.routeLongName
        else B.lineNorm route.routeShortName,
        B.statNorm first.stopName, B.statNorm last.stopName⟩ := by
  simp only [Option.bind_eq_bind] at hfirst hlast
  simp [getRAttrs, hroute, hsts, hfirst, hlast]

variable (K) in
/-- A line with the names of a trip matches in full if the two normalizers agree on the names of
the first and the last stop. -/
theorem simi_equalNames_iff (replace : String → String → String → String) (o : OsmReadOptions C)
    (B : Builder D) {f : Feed D} {trip : Trip} {route : Route} {sts : List (StopTime D)}
    {first last : Stop D} (hroute : routeOf f trip = some route)
    (hsts : stopTimes f trip = some sts) (hfirst : sts.head? >>= stopOf f = some first)
    (hlast : sts.getLast? >>= stopOf f = some last) (rels : List AttributeMap)
    (ways : List (List ℕ)) {edgeRels : List ℕ} {relId : ℕ} (hrel : relId ∈ edgeRels)
    (hname : Carries o.relLinerules.sNameRule (rels.getD relId []) route.routeShortName)
    (hnonempty : normText replace o.lineNormzer route.routeShortName ≠ [])
    (hfrom : Carries o.relLinerules.fromNameRule (rels.getD relId []) first.stopName)
    (hto : Carries o.relLinerules.toNameRule (rels.getD relId []) last.stopName) :
    let st := getLines replace o rels (linesOfWays replace o rels ways) edgeRels
    ∃ attrs elp line, getRAttrs (B.normalizers replace o) f trip = some attrs ∧
      HasLine st relId elp ∧ st.1.lines[elp]? = some line ∧
        ((simi attrs line : K) = fullMatch K ↔
          NormsAgree K replace o o.relLinerules.toNameRule (rels.getD relId []) last.stopName ∧
            NormsAgree K replace o o.relLinerules.fromNameRule (rels.getD relId [])
              first.stopName) := by
  have hshort : (relationLine replace o (rels.getD relId [])).shortName =
      normText replace o.lineNormzer route.routeShortName := by
    change (lineName _ _ _).toList = _
    rw [lineName_eq, usedTag_carried hname hnonempty]
    rfl
  have hne : (relationLine replace o (rels.getD relId [])).shortName ≠ [] := hshort ▸ hnonempty
  obtain ⟨elp, help⟩ := getLines_hasLine (linesOfWays replace o rels ways) hrel hne
  have hstart : (linesOfWays replace o rels ways, ([] : List ℕ)).1.Valid replace o rels :=
    linesOfWays_valid replace o rels ways
  have hvalid := hstart.foldl edgeRels
  refine ⟨_, elp, _, getRAttrs_eq hroute hsts hfirst hlast, help, hvalid.built help.1, ?_⟩
  rw [simi_full_iff, ← endMatches_iff hfrom, ← endMatches_iff hto]
  refine and_iff_right (Or.inr ?_)
  change (0.5 : K) < lineSimi _ (if normText replace o.lineNormzer route.routeShortName = [] then _
    else normText replace o.lineNormzer route.routeShortName)
  rw [if_neg hnonempty, hshort]
  exact lineSimi_self _

end agreement

section sample

/-- `std::regex_replace` for a pattern that is one letter. -/
def replaceLetter (pattern rep s : String) : String :=
  String.ofList (s.toList.flatMap fun c => if [c] = pattern.toList then rep.toList else [c])

def hyphenOptions : OsmReadOptions ℕ :=
  { sidingOptions with
    statNormzer := [("-", " ")]
    relLinerules := ⟨["ref"], ["from"], ["to"]⟩ }

def lineRelation (frm : String) : AttributeMap := [("from", frm), ("ref", "4"), ("to", "Ulm")]

def tramTrip : Trip := ⟨"tram".toList, [], "t".toList, [], [], 0, [], [], 0, 0⟩

def tramFeed (frm : String) : Feed ℚ :=
  let stop (id name : String) : Stop ℚ :=
    ⟨id.toList, name.toList, true, 0, 0, [], [], [], [], [], 0, [], [], [], []⟩
  { Feed.empty with
    stops := SortedMap.empty.insertAll [("a".toList, stop "a" frm), ("b".toList, stop "b" "Ulm")]
    routes := SortedMap.empty.insertAll
      [("tram".toList, ⟨"tram".toList, 0, [], "4".toList, [], [], [], [], [], 0⟩)]
    trips := SortedMap.empty.insertAll [("t".toList, tramTrip)]
    stopTimes := [⟨"t".toList, "a".toList, 0, Time.default, Time.default, [], 0, 0, 0, 1⟩,
      ⟨"t".toList, "b".toList, 1, Time.default, Time.default, [], 0, 0, 0, 1⟩] }

theorem simi_equalNames_iff_plain :
    let st := getLines replaceLetter hyphenOptions [lineRelation "Au"]
      (linesOfWays replaceLetter hyphenOptions [lineRelation "Au"] []) [0]
    ∃ attrs elp line,
      getRAttrs (degreeBuilder.normalizers replaceLetter hyphenOptions) (tramFeed "Au") tramTrip =
        some attrs ∧ HasLine st 0 elp ∧ st.1.lines[elp]? = some line ∧
        ((simi attrs line : ℚ) = fullMatch ℚ ↔
          NormsAgree ℚ replaceLetter hyphenOptions ["to"] (lineRelation "Au") "Ulm".toList ∧
            NormsAgree ℚ replaceLetter hyphenOptions ["from"] (lineRelation "Au") "Au".toList) :=
  simi_equalNames_iff ℚ replaceLetter hyphenOptions degreeBuilder
    (show routeOf (tramFeed "Au") tramTrip = some _ from rfl)
    (show stopTimes (tramFeed "Au") tramTrip = some _ from rfl)
    (show _ = some (Stop.mk _ _ _ _ _ _ _ _ _ _ _ _ _ _ _) from rfl)
    (show _ = some (Stop.mk _ _ _ _ _ _ _ _ _ _ _ _ _ _ _) from rfl) [lineRelation "Au"] []
    (List.mem_singleton_self 0) rfl (by decide +kernel) rfl rfl

/-- A line has the names of a trip, but the names of the first stop do not match. -/
theorem simi_equalNames_hyphen :
    (getRAttrs (degreeBuilder.normalizers replaceLetter hyphenOptions) (tramFeed "Ulm-Ost")
        tramTrip).map (fun attrs =>
      (getLines replaceLetter hyphenOptions [lineRelation "Ulm-Ost"] .empty [0]).1.lines.map
        (simi attrs)) = some [(1 - 0.333333333 - 0.333333333 : ℚ)] ∧
      (1 - 0.333333333 - 0.333333333 : ℚ) ≠ fullMatch ℚ ∧
      (routeOf (tramFeed "Ulm-Ost") tramTrip).map Route.routeShortName = some "4".toList ∧
      (stopTimes (tramFeed "Ulm-Ost") tramTrip).map (fun sts =>
        sts.map fun st => (stopOf (tramFeed "Ulm-Ost") st).map Stop.stopName) =
          some [some "Ulm-Ost".toList, some "Ulm".toList] ∧
      Carries ["ref"] (lineRelation "Ulm-Ost") "4".toList ∧
      Carries ["from"] (lineRelation "Ulm-Ost") "Ulm-Ost".toList ∧
      Carries ["to"] (lineRelation "Ulm-Ost") "Ulm".toList := by
  decide +kernel

end sample

end Pfaedle.ShapeBuilder

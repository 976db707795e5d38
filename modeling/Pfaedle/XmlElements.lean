import Pfaedle.XmlRoundTrip

set_option autoImplicit false

/-!
# Calls that write whole elements

Calls that open an element, write its children and close it add one node, wherever they come.
-/
namespace Pfaedle.XmlWriter
open Gtfs XmlText

section forests

def addAll (nodes : List Xml) (f : Forest) : Forest := nodes.foldl (fun f node => f.add node) f

theorem addAll_append (nodes nodes' : List Xml) (f : Forest) :
    addAll (nodes ++ nodes') f = addAll nodes' (addAll nodes f) := List.foldl_append

theorem addAll_open (nodes : List Xml) (roots : List Xml) (o : Open) (opens : List Open) :
    addAll nodes ⟨roots, o :: opens⟩ = ⟨roots, { o with childs := o.childs ++ nodes } :: opens⟩ := by
  induction nodes generalizing o with
  | nil =>
    rw [List.append_nil]
    rfl
  | cons node nodes ih =>
    change addAll nodes ⟨roots, { o with childs := o.childs ++ [node] } :: opens⟩ = _
    rw [ih, List.append_assoc]
    rfl

theorem finish_addAll (nodes : List Xml) (tag : Text) (attrs : List (Text × Text)) (f : Forest) :
    (addAll nodes (f.start tag attrs)).finish = f.add (.elem tag attrs nodes) := by
  rw [Forest.start, addAll_open]
  rfl

theorem putText_blank {s : Text} (hs : trim s = []) (f : Forest) : f.putText s = f := if_pos hs

theorem trim_blanks_append {b : Text} (hb : ∀ c ∈ b, isXmlBlank c = true) (s : Text) :
    trim (b ++ s) = trim s := by
  rw [trim, List.dropWhile_append_of_pos hb, trim]

end forests

section runs
variable {lay : ℕ → Text}

structure Leads (lay : ℕ → Text) (d : Doc) (calls : List Call) (d' : Doc) : Prop where
  fits : d.FitsAll lay calls
  doc : d.calls lay calls = some d'

theorem Leads.nil (d : Doc) : Leads lay d [] d := ⟨trivial, rfl⟩

theorem Leads.cons {d d' d'' : Doc} {call : Call} {calls : List Call} (hfit : d.Fits lay call)
    (hcall : d.call lay call = some d') (h : Leads lay d' calls d'') :
    Leads lay d (call :: calls) d'' where
  fits := by
    refine ⟨hfit, fun e he => ?_⟩
    rw [hcall] at he
    cases he
    exact h.fits
  doc := by
    rw [Doc.calls, List.foldlM_cons, hcall]
    exact h.doc

theorem Leads.append {d d' d'' : Doc} {calls calls' : List Call} (h : Leads lay d calls d')
    (h' : Leads lay d' calls' d'') : Leads lay d (calls ++ calls') d'' := by
  induction calls generalizing d with
  | nil =>
    obtain ⟨-, hdoc⟩ := h
    cases hdoc
    exact h'
  | cons call calls ih =>
    obtain ⟨⟨hfit, hrest⟩, hdoc⟩ := h
    rw [Doc.calls, List.foldlM_cons] at hdoc
    obtain ⟨d₁, hcall, htail⟩ := Option.bind_eq_some_iff.1 hdoc
    exact Leads.cons hfit hcall (ih ⟨hrest d₁ hcall, htail⟩)

/-- The calls add the nodes where they come, and leave at most layout behind. -/
def Writes (lay : ℕ → Text) (calls : List Call) (nodes : List Xml) : Prop :=
  ∀ f s, trim s = [] → ∃ s', trim s' = [] ∧ Leads lay ⟨f, .text s⟩ calls ⟨addAll nodes f, .text s'⟩

theorem Writes.nil : Writes lay [] [] := fun _ s hs => ⟨s, hs, .nil _⟩

theorem Writes.append {calls calls' : List Call} {nodes nodes' : List Xml}
    (h : Writes lay calls nodes) (h' : Writes lay calls' nodes') :
    Writes lay (calls ++ calls') (nodes ++ nodes') := by
  intro f s hs
  obtain ⟨s₁, hs₁, hleads⟩ := h f s hs
  obtain ⟨s₂, hs₂, hleads'⟩ := h' (addAll nodes f) s₁ hs₁
  refine ⟨s₂, hs₂, ?_⟩
  rw [addAll_append]
  exact hleads.append hleads'

theorem Writes.flatMap {A : Type*} {calls : A → List Call} {nodes : A → List Xml} {xs : List A}
    (h : ∀ x ∈ xs, Writes lay (calls x) (nodes x)) :
    Writes lay (xs.flatMap calls) (xs.flatMap nodes) := by
  induction xs with
  | nil => exact .nil
  | cons x xs ih =>
    rw [List.flatMap_cons, List.flatMap_cons]
    exact (h x List.mem_cons_self).append (ih fun y hy => h y (List.mem_cons_of_mem x hy))

def AttrsFit (attrs : SortedMap Text Text) : Prop :=
  ∀ kv ∈ attrs.entries, isName kv.1 = true ∧ kv.2.all isXmlChar = true

theorem leads_openTag {f : Forest} {s tag : Text} {attrs : SortedMap Text Text} (hs : trim s = [])
    (htag : validTag tag = true) (hattrs : AttrsFit attrs) :
    Leads lay ⟨f, .text s⟩ [.openTag tag attrs]
      ⟨f.start tag (attrsRead attrs.entries), .text []⟩ := by
  refine .cons hattrs ?_ (.nil _)
  change (if validTag tag = true then some _ else none) = _
  rw [if_pos htag, putText_blank hs]

theorem Writes.elem {tag : Text} {attrs : SortedMap Text Text} {calls : List Call}
    {nodes : List Xml} (htag : validTag tag = true) (hattrs : AttrsFit attrs)
    (h : Writes lay calls nodes) :
    Writes lay (.openTag tag attrs :: calls ++ [.closeTag])
      [.elem tag (attrsRead attrs.entries) nodes] := by
  intro f s hs
  obtain ⟨s', hs', hleads⟩ := h (f.start tag (attrsRead attrs.entries)) [] rfl
  refine ⟨[], rfl, ((leads_openTag hs htag hattrs).append hleads).append ?_⟩
  refine .cons trivial ?_ (.nil _)
  have hopens : (addAll nodes (f.start tag (attrsRead attrs.entries))).opens ≠ [] := by
    rw [Forest.start, addAll_open]
    exact List.cons_ne_nil _ _
  change some (Doc.closeTag _) = _
  rw [Doc.closeTag]
  dsimp only
  rw [if_neg hopens, putText_blank hs', finish_addAll]
  rfl

theorem Writes.empty {tag : Text} {attrs : SortedMap Text Text} (htag : validTag tag = true)
    (hattrs : AttrsFit attrs) : Writes lay [.openTag tag attrs, .closeTag]
      [.elem tag (attrsRead attrs.entries) []] := Writes.elem htag hattrs .nil

theorem Writes.comment (hlay : ∀ n, ∀ c ∈ lay n, isXmlBlank c = true) {t : Text}
    (ht : t.all isXmlChar = true) (hfree : NoDashes t) :
    Writes lay [.openComment, .writeText t, .closeTag] [.comment (trim t)] := by
  intro f s hs
  have hblank : '-' ∉ lay (f.opens.length + 1) := fun hmem => absurd (hlay _ _ hmem) (by decide)
  have hfree' : NoDashes ([] ++ lay (f.opens.length + 1) ++ t) := by
    rw [List.nil_append]
    exact (noDashes_of_notMem hblank).append hfree
      (Or.inl fun hlast => hblank (List.mem_of_getLast? hlast))
  have hopen : Doc.call lay ⟨f, .text s⟩ .openComment = some ⟨f, .comment []⟩ := by
    change some _ = some _
    rw [putText_blank hs]
  refine ⟨[], rfl, .cons trivial hopen (.cons ⟨ht, hfree'⟩ rfl (.cons trivial ?_ (.nil _)))⟩
  change some (Doc.closeTag _) = _
  rw [Doc.closeTag]
  dsimp only
  rw [List.nil_append, trim_blanks_append (hlay _)]
  rfl

end runs

end Pfaedle.XmlWriter

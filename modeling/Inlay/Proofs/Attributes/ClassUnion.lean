import Inlay.Proofs.Attributes.ClassSearch
import Inlay.Proofs.Attributes.Groups
import Inlay.Proofs.Markup.Root

/-!
# Class names of a root

Class names that are added to a root join those in its class attribute, of several in the last one; a root without
one takes a class attribute behind its other attributes. Nothing else of the root changes. This holds of the roots
whose class attribute is found, which can be told from their attributes.

* `joinClasses` — the attributes with further class names.
* `Attributes.AreTokens` — class names that can stand in a class attribute.

Main statements: `Attributes.extendClasses_writeSpaced` (the class attribute is found, or appended),
`Attributes.ofList_joinClasses` (what the attributes say then) and `Attributes.addTo_classes` (the root of a
template with further class names).
-/

namespace Inlay

open Markup

/-- The attributes with further class names: joined to those of the last class attribute, or in a class attribute of
their own behind the others. -/
def joinClasses (classes : List Text) : SpacedAttributes → SpacedAttributes
  | [] => [([' '], Attributes.classAttribute classes)]
  | (gap, .flag name) :: rest => (gap, .flag name) :: joinClasses classes rest
  | (gap, .pair name quote value) :: rest =>
    if name = className ∧ LackClass (rest.map (·.2)) then
      (gap, Attributes.classAttribute (mergeClasses (Text.words value) classes)) :: rest
    else (gap, .pair name quote value) :: joinClasses classes rest

namespace Attributes

variable {s t gap : Text} {quote : Char} {classes : List Text} {a : Attribute} {items : SpacedAttributes}

/-! ## Joining class names -/

/-- An attribute that is not the last class attribute is none, or has another one behind it. -/
theorem ne_className_or_of_not_last {name value : Text} {as : List Attribute}
    (h : ¬ (name = className ∧ LackClass as)) :
    (∀ p ∈ (Attribute.pair name quote value).quoted?, p.name ≠ className) ∨ ¬ LackClass as := by
  by_cases hname : name = className
  · exact .inr fun hlack => h ⟨hname, hlack⟩
  · exact .inl (by simpa [Attribute.quoted?] using hname)

/-- What is passed over in front of the class attribute is not changed. -/
theorem extendClasses_append (classes : List Text)
    (h : breakAtClass? false (s ++ t) = (breakAtClass? false t).map (behind s)) :
    extendClasses classes (s ++ t) = s ++ extendClasses classes t := by
  unfold extendClasses
  split
  · rfl
  · rw [h]
    cases breakAtClass? false t with
    | none => exact List.append_assoc ..
    | some found => simp [behind]

/-- What is written with further class names: the class attribute that counts with the names joined, or a new one. -/
theorem writeSpaced_joinClasses (classes : List Text) (items : SpacedAttributes) :
    writeSpaced (joinClasses classes items) = match lastClass? items with
      | some (before, value, after) => before ++ classText (mergeClasses (Text.words value) classes) ++ after
      | none => writeSpaced items ++ ' ' :: classText classes := by
  induction items with
  | nil => simp [joinClasses, lastClass?, writeSpaced, classAttribute, classText, pairText, Attribute.write]
  | cons item items ih =>
    obtain ⟨gap, a⟩ := item
    -- where the first attribute is not the one that counts, it stays in front of what is written of the others
    have hbehind (hjoined : joinClasses classes ((gap, a) :: items) = (gap, a) :: joinClasses classes items)
        (hcounts : a.classWith? (writeSpaced items) (lastClass? items) = (lastClass? items).map (behind a.write)) :
        writeSpaced (joinClasses classes ((gap, a) :: items)) = match lastClass? ((gap, a) :: items) with
          | some (before, value, after) => before ++ classText (mergeClasses (Text.words value) classes) ++ after
          | none => writeSpaced ((gap, a) :: items) ++ ' ' :: classText classes := by
      rw [hjoined, writeSpaced_cons, ih, lastClass?, hcounts, writeSpaced_cons]
      cases lastClass? items with
      | none => simp
      | some found => simp [behind]
    cases a with
    | flag name => exact hbehind rfl (classWith?_eq_map _ (.inl (by simp [Attribute.quoted?])))
    | pair name quote value =>
      by_cases hlast : name = className ∧ LackClass (items.map (·.2))
      · have hnone := lastClass?_eq_none_iff.mpr hlast.2
        rw [joinClasses, if_pos hlast, writeSpaced_cons, lastClass?, hnone]
        simp [Attribute.classWith?, hlast.1, behind, classAttribute, classText, pairText, Attribute.write]
      · refine hbehind (by rw [joinClasses, if_neg hlast]) (classWith?_eq_map _ ?_)
        exact (ne_className_or_of_not_last hlast).imp_right lastClass?_eq_none_iff.not.mpr

/-- **The class attribute is found, or a new one is appended.** -/
theorem extendClasses_writeSpaced (hclasses : classes ≠ []) (h : AreSpaced items)
    (hplain : classIsPlain (items.map (·.2)) = true) :
    extendClasses classes (writeSpaced items) = writeSpaced (joinClasses classes items) := by
  have hfound := (breakAtClass?_eq_lastClass?_iff h).mpr hplain
  rw [extendClasses, if_neg (by simpa using hclasses), hfound]
  refine Eq.trans ?_ (writeSpaced_joinClasses classes items).symm
  cases lastClass? items <;> rfl

/-- The class attribute of an opening tag is looked for behind the name of the tag. -/
theorem extendClasses_opening {name : Text} (hname : isName name = true) (hclasses : classes ≠ [])
    (h : AreSpaced items) (hplain : classIsPlain (items.map (·.2)) = true) :
    extendClasses classes ('<' :: (name ++ writeSpaced items)) =
      '<' :: (name ++ writeSpaced (joinClasses classes items)) := by
  have hsolid : ∀ c ∈ '<' :: name, Text.isBlank c = false :=
    List.forall_mem_cons.mpr ⟨by decide, (isWord_of_isName hname).solid⟩
  have hpassed := extendClasses_append classes (breakAtClass?_append_solid hsolid (writeSpaced items))
  rw [extendClasses_writeSpaced hclasses h hplain] at hpassed
  simpa using hpassed

/-! ## What the attributes say then -/

theorem classes_ofList_of_lackClass {as : List Attribute} (h : LackClass as) : (ofList as).classes = [] := by
  have hnone : (as.filterMap Attribute.quoted?).filter (·.name = className) = [] :=
    List.filter_eq_nil_iff.mpr fun p hp hname => h p hp (of_decide_eq_true hname)
  refine (classes_foldl_put _ _).trans ?_
  rw [hnone]
  rfl

theorem foldl_put_classes {pairs : List QuotedPair} (h : ∀ p ∈ pairs, p.name ≠ className) (a : Attributes)
    (classes : List Text) :
    pairs.foldl put { a with classes := classes } = { pairs.foldl put a with classes := classes } := by
  induction pairs generalizing a with
  | nil => rfl
  | cons p pairs ih =>
    obtain ⟨hp, hpairs⟩ := List.forall_mem_cons.mp h
    have hput : put { a with classes := classes } p = { put a p with classes := classes } := by
      unfold put
      rw [if_neg hp, if_neg hp]
      split <;> rfl
    rw [List.foldl_cons, hput, ih hpairs, List.foldl_cons]

/-- A class attribute among others that are none gives the class names, and `class` is no name without a value
then. -/
theorem ofList_class {before after : List Attribute} (hafter : LackClass after) (quote : Char) (value : Text) :
    ofList (before ++ .pair className quote value :: after) =
      { ofList (before ++ after) with
        classes := mergeClasses [] (Text.words value)
        flags := (ofList (before ++ after)).flags.filter (· ≠ className) } := by
  have hquoted : (before ++ .pair className quote value :: after).filterMap Attribute.quoted? =
      before.filterMap Attribute.quoted? ++
        ⟨className, value, (Attribute.pair className quote value).write⟩ :: after.filterMap Attribute.quoted? := by
    rw [List.filterMap_append, filterMap_cons_toList]
    rfl
  have hflag : (before ++ .pair className quote value :: after).filterMap Attribute.flag? =
      (before ++ after).filterMap Attribute.flag? := by
    rw [List.filterMap_append, filterMap_cons_toList, List.filterMap_append]
    rfl
  have hput (a : Attributes) : put a ⟨className, value, (Attribute.pair className quote value).write⟩ =
      { a with classes := mergeClasses [] (Text.words value) } := if_pos rfl
  have hfold : ((before ++ .pair className quote value :: after).filterMap Attribute.quoted?).foldl put {} =
      { ((before ++ after).filterMap Attribute.quoted?).foldl put {} with
        classes := mergeClasses [] (Text.words value) } := by
    rw [hquoted, List.foldl_append, List.foldl_cons, hput, foldl_put_classes hafter, List.filterMap_append,
      List.foldl_append]
  have hkept (name : Text) :
      (!((before ++ .pair className quote value :: after).filterMap Attribute.quoted?).any (·.name = name)) =
        (decide (name ≠ className) && !((before ++ after).filterMap Attribute.quoted?).any (·.name = name)) := by
    rw [hquoted, List.filterMap_append, List.any_append, List.any_append, List.any_cons]
    by_cases hname : name = className
    · simp [hname]
    · simp [hname, Ne.symm hname]
  simp only [ofList, hfold, hflag, hkept, List.filter_filter]

/-- The attributes `bs` are `as` with class names that were joined: in a class attribute behind them, or in the
last one among them. -/
def Joins (classes : List Text) (as bs : List Attribute) : Prop :=
  LackClass as ∧ bs = as ++ [classAttribute classes] ∨
    ∃ before quote value after, LackClass after ∧ as = before ++ .pair className quote value :: after ∧
      bs = before ++ classAttribute (mergeClasses (Text.words value) classes) :: after

theorem Joins.cons {as bs : List Attribute} (h : Joins classes as bs)
    (ha : (∀ p ∈ a.quoted?, p.name ≠ className) ∨ ¬ LackClass as) : Joins classes (a :: as) (a :: bs) := by
  rcases h with ⟨hlack, rfl⟩ | ⟨before, quote, value, after, hafter, rfl, rfl⟩
  · exact .inl ⟨lackClass_cons_iff.mpr ⟨ha.resolve_right fun hnot => hnot hlack, hlack⟩, rfl⟩
  · exact .inr ⟨a :: before, quote, value, after, hafter, rfl, rfl⟩

theorem joins_joinClasses (classes : List Text) (items : SpacedAttributes) :
    Joins classes (items.map (·.2)) ((joinClasses classes items).map (·.2)) := by
  induction items with
  | nil => exact .inl ⟨by simp [LackClass], rfl⟩
  | cons item items ih =>
    obtain ⟨gap, a⟩ := item
    cases a with
    | flag name => exact ih.cons (.inl (by simp [Attribute.quoted?]))
    | pair name quote value =>
      rw [joinClasses]
      split
      · next hlast =>
        obtain ⟨rfl, hlack⟩ := hlast
        exact .inr ⟨[], quote, value, items.map (·.2), hlack, rfl, rfl⟩
      · next hlast => exact ih.cons (ne_className_or_of_not_last hlast)

/-- **The attributes say the same but for the class names**, and `class` has a value now. -/
theorem ofList_joinClasses (items : SpacedAttributes) (hwords : ∀ word ∈ classes, Text.IsWord word) :
    ofList ((joinClasses classes items).map (·.2)) =
      { ofList (items.map (·.2)) with
        classes := mergeClasses (ofList (items.map (·.2))).classes classes
        flags := (ofList (items.map (·.2))).flags.filter (· ≠ className) } := by
  rcases joins_joinClasses classes items with ⟨hlack, heq⟩ | ⟨before, quote, value, after, hafter, heq, hjoined⟩
  · have hempty : LackClass ([] : List Attribute) := by simp [LackClass]
    rw [heq, classAttribute, ofList_class hempty, List.append_nil, Text.words_join hwords,
      classes_ofList_of_lackClass hlack]
  · have hmerged : ∀ word ∈ mergeClasses (Text.words value) classes, Text.IsWord word := fun word hword =>
      (mem_mergeClasses.mp hword).elim Text.isWord_of_mem_words (hwords word)
    have hclasses : mergeClasses [] (mergeClasses (Text.words value) classes) =
        mergeClasses (mergeClasses [] (Text.words value)) classes := (mergeClasses_assoc ..).symm
    rw [hjoined, classAttribute, ofList_class hafter, Text.words_join hmerged, hclasses, heq,
      ofList_class hafter, List.filter_filter]
    simp only [Bool.and_self]

/-! ## The root with further class names -/

/-- The class names can stand in a class attribute. -/
def AreTokens (classes : List Text) : Prop :=
  ∀ word ∈ classes, Text.IsWord word ∧ '\x22' ∉ word ∧ '>' ∉ word

instance (classes : List Text) : Decidable (AreTokens classes) :=
  inferInstanceAs (Decidable (∀ word ∈ classes, _))

theorem areSpaced_joinClasses (h : AreSpaced items) (hplain : classIsPlain (items.map (·.2)) = true)
    (hclasses : AreTokens classes) : AreSpaced (joinClasses classes items) := by
  have hadded : ∀ word ∈ classes, '\x22' ∉ word ∧ '>' ∉ word := fun word hword => (hclasses word hword).2
  induction items with
  | nil =>
    intro item hitem
    obtain rfl := List.mem_singleton.mp hitem
    exact ⟨List.cons_ne_nil _ _, rfl, isProper_classAttribute hadded⟩
  | cons item items ih =>
    obtain ⟨gap, a⟩ := item
    obtain ⟨hne, hblank, hproper⟩ := h _ List.mem_cons_self
    cases a with
    | flag name => exact List.forall_mem_cons.mpr ⟨⟨hne, hblank, hproper⟩, ih h.tail hplain⟩
    | pair name quote value =>
      rw [joinClasses]
      split
      · next hlast =>
        obtain ⟨rfl, hlack⟩ := hlast
        have hvalue : ∀ c ∈ value, isQuote c = false := by
          simpa using any_isQuote_of_classIsPlain hplain hlack
        have hmerged : ∀ word ∈ mergeClasses (Text.words value) classes, '\x22' ∉ word ∧ '>' ∉ word := by
          intro word hword
          refine (mem_mergeClasses.mp hword).elim (fun hold => ?_) (hadded word)
          have hsubset := Text.subset_of_mem_words hold
          exact ⟨fun hc => absurd (hvalue _ (hsubset hc)) (by decide), fun hc => hproper.2.2.2 (hsubset hc)⟩
        exact List.forall_mem_cons.mpr ⟨⟨hne, hblank, isProper_classAttribute hmerged⟩, h.tail⟩
      · next hlast =>
        exact List.forall_mem_cons.mpr ⟨⟨hne, hblank, hproper⟩, ih h.tail (classIsPlain_of_cons hplain hlast)⟩

/-- A name with nothing behind it, or with a blank, begins an element. -/
theorem beginsElement_of_head {delimiter : Char → Bool} (hdelimiter : EndsTagName delimiter) {name u : Text}
    (hname : isName name = true) (hu : u.head?.all Text.isBlank = true) (t : Text) :
    beginsElement delimiter (name ++ u ++ '>' :: t) = true := by
  rw [List.append_assoc]
  cases u with
  | nil => exact beginsElement_name hname (by decide) hdelimiter.gt t
  | cons d u =>
    have hd : Text.isBlank d = true := by simpa using hu
    exact beginsElement_name hname (isNameChar_of_isBlank hd) (hdelimiter.blank d hd) _

theorem beginsElement_writeSpaced {name : Text} (hname : isName name = true) (h : AreSpaced items) (t : Text) :
    beginsElement endsRootName (name ++ writeSpaced items ++ '>' :: t) = true :=
  beginsElement_of_head endsTagName_root hname h.head?_writeSpaced t

/-- **Class names join those of a template's root, and nothing else of the root changes**, but that `class` has
a value now. -/
theorem addTo_classes {template name : Text} {r : RootTag} (hroot : rootTag? endsRootName template = some r)
    (hopening : r.opening = '<' :: (name ++ writeSpaced items)) (hname : isName name = true)
    (hspaced : AreSpaced items) (hplain : classIsPlain (items.map (·.2)) = true)
    (hne : classes ≠ []) (hclasses : AreTokens classes) :
    ∃ q, rootTag? endsRootName (({ classes := classes } : Attributes).addTo template) = some q ∧
      q.before = r.before ∧ q.after = r.after ∧
      ofTag (q.opening ++ ['>']) =
        { ofTag (r.opening ++ ['>']) with
          classes := mergeClasses (ofTag (r.opening ++ ['>'])).classes classes
          flags := (ofTag (r.opening ++ ['>'])).flags.filter (· ≠ className) } := by
  have hjoined := areSpaced_joinClasses hspaced hplain hclasses
  have hextend : ({ classes := classes } : Attributes).extend r.opening =
      '<' :: (name ++ writeSpaced (joinClasses classes items)) := by
    rw [hopening, extend, extendClasses_opening hname hne hspaced hplain]
    exact List.append_nil _
  have hadded : ({ classes := classes } : Attributes).addTo template =
      RootTag.text { r with opening := '<' :: (name ++ writeSpaced (joinClasses classes items)) } := by
    rw [addTo, hroot]
    simp only [hextend]
  have hread {more : SpacedAttributes} (hmore : AreSpaced more) :
      ofTag ('<' :: (name ++ writeSpaced more) ++ ['>']) = ofList (more.map (·.2)) :=
    ofTag_writeSpaced hname hmore []
  refine ⟨{ r with opening := '<' :: (name ++ writeSpaced (joinClasses classes items)) }, ?_, rfl, rfl, ?_⟩
  · rw [hadded]
    exact rootTag?_reopened hroot (beginsElement_writeSpaced hname hjoined _) (not_mem_name_writeSpaced hname hjoined)
  · rw [hopening, hread hspaced, hread hjoined]
    exact ofList_joinClasses items fun word hword => (hclasses word hword).1

/-- A comment in front of the root, a longer name that holds `class`, values that hold `class=`, and a class attribute
with a quote in front of the one that counts. -/
theorem addTo_classes_div :
    let opening := "<div data-class=\"a class=b\" title=\" class=\" lang='en' class=\"it's\" class='a b' hidden".toList
    let template := "<!-- card -->".toList ++ opening ++ ">y</div>".toList
    let classes := ["b".toList, "c".toList]
    rootTag? endsRootName template = some ⟨"<!-- card -->".toList, opening, "y</div>".toList⟩ ∧
      ∃ q, rootTag? endsRootName (({ classes := classes } : Attributes).addTo template) = some q ∧
        q.before = "<!-- card -->".toList ∧ q.after = "y</div>".toList ∧
        ofTag (q.opening ++ ['>']) =
          { ofTag (opening ++ ['>']) with
            classes := mergeClasses (ofTag (opening ++ ['>'])).classes classes
            flags := (ofTag (opening ++ ['>'])).flags.filter (· ≠ className) } := by
  intro opening template classes
  have hroot : rootTag? endsRootName template =
      some ⟨"<!-- card -->".toList, opening, "y</div>".toList⟩ := by decide
  have hopening : opening = '<' :: ("div".toList ++ writeSpaced
      [([' '], .pair "data-class".toList '\x22' "a class=b".toList), ([' '], .pair "title".toList '\x22' " class=".toList),
        ([' '], .pair "lang".toList '\x27' "en".toList), ([' '], .pair className '\x22' "it's".toList),
        ([' '], .pair className '\x27' "a b".toList), ([' '], .flag "hidden".toList)]) := by decide
  exact ⟨hroot, addTo_classes hroot hopening (by decide) (by decide) (by decide) (by decide) (by decide)⟩

/-- On a root with a bare `class` the name takes a value, so it is no longer a name without one. -/
theorem not_addTo_classes :
    rootTag? endsRootName "<div class>x</div>".toList = some ⟨[], "<div class".toList, "x</div>".toList⟩ ∧
      ({ classes := ["a".toList] } : Attributes).addTo "<div class>x</div>".toList =
        "<div class class=\"a\">x</div>".toList ∧
      (ofTag "<div class>".toList).flags = [className] ∧
      (ofTag "<div class class=\"a\">".toList).flags = [] ∧
      (ofTag "<div class class=\"a\">".toList).flags ≠ (ofTag "<div class>".toList).flags := by
  have hbare : (ofTag "<div class>".toList).flags = [className] := by cbv
  have hvalued : (ofTag "<div class class=\"a\">".toList).flags = [] := by cbv
  refine ⟨by decide, by cbv, hbare, hvalued, fun heq => ?_⟩
  rw [hbare, hvalued] at heq
  cases heq

end Attributes

end Inlay

import Inlay.Proofs.Attributes.Reopened
import Inlay.Proofs.Page.Comment

/-!
# Roots with quoted values

The opening tag of a template's root goes up to the first greater-than sign, wherever that stands. So the tag is
found as it is written if its values, which stand between double quotes, hold no such sign: then attributes are
appended right in front of its end, and content without a mark to take its place goes right behind it. A value with
a greater-than sign ends the tag early, and attributes and content are put into the value.

* `Attribute.IsQuoted`, `AreQuoted` — attributes with values between double quotes.

Main statements: `rootTag?_quoted` (where the tag ends), `placed_at_quoted_root`, and `not_placed_at_quoted_root`
(a value with a greater-than sign).
-/

namespace Inlay

open Markup

/-- The attribute is a name with a value between double quotes, which may hold anything else. -/
def Attribute.IsQuoted : Attribute → Prop
  | flag _ => False
  | pair name quote value => isName name = true ∧ quote = '\x22' ∧ quote ∉ value

instance : DecidablePred Attribute.IsQuoted
  | .flag _ => inferInstanceAs (Decidable False)
  | .pair name quote value => inferInstanceAs (Decidable (isName name = true ∧ quote = '\x22' ∧ quote ∉ value))

/-- The value of an attribute, empty if it has none. -/
def Attribute.value : Attribute → Text
  | flag _ => []
  | pair _ _ value => value

/-- The attributes have values between double quotes, and something blank stands in front of each. -/
def AreQuoted (items : SpacedAttributes) : Prop :=
  ∀ item ∈ items, item.1 ≠ [] ∧ Text.isAllBlank item.1 = true ∧ item.2.IsQuoted

instance (items : SpacedAttributes) : Decidable (AreQuoted items) :=
  inferInstanceAs (Decidable (∀ item ∈ items, _))

variable {delimiter : Char → Bool} {items : SpacedAttributes} {name t u : Text}

/-! ## The end of the tag -/

theorem Attribute.IsQuoted.mem_write_iff {a : Attribute} (h : a.IsQuoted) : '>' ∈ a.write ↔ '>' ∈ a.value := by
  cases a with
  | flag name => exact h.elim
  | pair name quote value =>
    obtain ⟨hname, rfl, -⟩ := h
    have hgt : '>' ∉ name := not_mem_of_isName hname (by decide)
    simp [write, Attribute.value, hgt]

/-- Only a value can hold a greater-than sign. -/
theorem AreQuoted.mem_iff (hname : isName name = true) (h : AreQuoted items) :
    '>' ∈ name ++ writeSpaced items ↔ ∃ item ∈ items, '>' ∈ item.2.value := by
  have hgt : '>' ∉ name := not_mem_of_isName hname (by decide)
  unfold writeSpaced
  simp only [List.mem_append, hgt, false_or, List.mem_flatMap]
  refine exists_congr fun item => and_congr_right fun hitem => ?_
  obtain ⟨-, hblank, hquoted⟩ := h item hitem
  have hgap : '>' ∉ item.1 := fun hmem => absurd (List.all_eq_true.mp hblank _ hmem) (by decide)
  rw [hquoted.mem_write_iff]
  simp [hgap]

theorem length_takeWhile_eq_iff (u t : Text) :
    ((u ++ '>' :: t).takeWhile (· != '>')).length = u.length ↔ '>' ∉ u := by
  constructor
  · -- a sign in `u` would stop the reading inside `u`
    intro hlength hmem
    obtain ⟨front, d, back, rfl, hfront, hd⟩ := Text.exists_span (p := (· != '>')) hmem (by simp)
    rw [List.append_assoc, List.cons_append, Text.takeWhile_append_cons hfront hd] at hlength
    simp at hlength
  · intro hmem
    rw [Text.takeWhile_append_cons (Text.ne_of_not_mem hmem) (by simp)]

/-- The root that begins a template ends at the first greater-than sign. -/
theorem rootTag?_of_begins (h : beginsElement delimiter (u ++ '>' :: t) = true) :
    ∃ after, rootTag? delimiter ('<' :: (u ++ '>' :: t)) =
      some ⟨[], '<' :: (u ++ '>' :: t).takeWhile (· != '>'), after⟩ := by
  obtain ⟨after, hafter⟩ := Text.exists_dropWhile_ne (t := u ++ '>' :: t) (x := '>') (by simp)
  refine ⟨after, ?_⟩
  rw [rootTag?, if_pos (by simp [h]), hafter]

/-- A name with quoted attributes begins an element. -/
theorem beginsElement_quoted (hdelimiter : EndsTagName delimiter) (hname : isName name = true) (h : AreQuoted items)
    (t : Text) : beginsElement delimiter (name ++ writeSpaced items ++ '>' :: t) = true :=
  Attributes.beginsElement_of_head hdelimiter hname
    (head?_writeSpaced fun item hitem => ⟨(h item hitem).1, (h item hitem).2.1⟩) t

/-- **The opening tag ends where it is written to end if no value holds a greater-than sign, and only then.** -/
theorem rootTag?_quoted (hdelimiter : EndsTagName delimiter) (hname : isName name = true) (h : AreQuoted items)
    (t : Text) :
    ∃ r, rootTag? delimiter ('<' :: (name ++ writeSpaced items ++ '>' :: t)) = some r ∧ r.start = 0 ∧
      (r.stop = (name ++ writeSpaced items).length + 1 ↔ ∀ item ∈ items, '>' ∉ item.2.value) := by
  obtain ⟨after, hroot⟩ := rootTag?_of_begins (beginsElement_quoted hdelimiter hname h t)
  refine ⟨_, hroot, rfl, ?_⟩
  have hvalues : (∀ item ∈ items, '>' ∉ item.2.value) ↔ '>' ∉ name ++ writeSpaced items := by
    rw [h.mem_iff hname]
    simp
  rw [hvalues, ← length_takeWhile_eq_iff (name ++ writeSpaced items) t]
  simp [RootTag.stop]

/-- The tag as it is written is the root if no value holds a greater-than sign. -/
theorem rootTag?_quoted_of_closed (hdelimiter : EndsTagName delimiter) (hname : isName name = true)
    (h : AreQuoted items) (hvalues : ∀ item ∈ items, '>' ∉ item.2.value) (t : Text) :
    rootTag? delimiter ('<' :: (name ++ writeSpaced items ++ '>' :: t)) =
      some ⟨[], '<' :: (name ++ writeSpaced items), t⟩ := by
  refine rootTag?_opening (beginsElement_quoted hdelimiter hname h t) ?_
  rw [h.mem_iff hname]
  simpa using hvalues

/-- The tag does not close itself: a quote or the name is its end. -/
theorem getLast?_quoted (hname : isName name = true) (h : AreQuoted items) :
    ('<' :: (name ++ writeSpaced items)).getLast? ≠ some '/' := by
  rcases List.eq_nil_or_concat items with rfl | ⟨front, last, rfl⟩
  · intro hlast
    have hmem : '/' ∈ '<' :: (name ++ writeSpaced []) := List.mem_of_getLast? hlast
    have hslash : '/' ∉ name := not_mem_of_isName hname (by decide)
    simp [writeSpaced, hslash] at hmem
  · -- the closing quote of the last attribute is the end
    obtain ⟨-, -, hquoted⟩ := h last (by simp)
    obtain ⟨gap, a⟩ := last
    cases a with
    | flag name => exact hquoted.elim
    | pair label quote value =>
      obtain ⟨-, rfl, -⟩ := hquoted
      have hend : '<' :: (name ++ writeSpaced (front ++ [(gap, .pair label '\x22' value)])) =
          '<' :: (name ++ writeSpaced front ++ gap ++ label ++ '=' :: '\x22' :: value) ++ ['\x22'] := by
        simp [writeSpaced, Attribute.write]
      rw [List.concat_eq_append, hend, List.getLast?_concat]
      simp

/-! ## Attributes and content -/

/-- **The tag ends where it is written to end if and only if no value holds a greater-than sign, and then attributes
come right in front of its end, and content right behind it.** -/
theorem placed_at_quoted_root (hname : isName name = true) (h : AreQuoted items) (t : Text) :
    (∀ delimiter, delimiter = endsRootName ∨ delimiter = endsFirstName →
      ∃ r, rootTag? delimiter ('<' :: (name ++ writeSpaced items ++ '>' :: t)) = some r ∧ r.start = 0 ∧
        (r.stop = ('<' :: (name ++ writeSpaced items)).length ↔ ∀ item ∈ items, '>' ∉ item.2.value)) ∧
    ((∀ item ∈ items, '>' ∉ item.2.value) →
      (∀ a : Attributes, ∃ core, Attributes.TakesClasses a.classes ('<' :: (name ++ writeSpaced items)) core ∧
        a.addTo ('<' :: (name ++ writeSpaced items ++ '>' :: t)) =
          core ++ writeSpaced (Attributes.spaced a.rest) ++ '>' :: t) ∧
      ∀ x, Text.isAllBlank x = false → IsUnmarked ('<' :: (name ++ writeSpaced items ++ '>' :: t)) →
        fill ('<' :: (name ++ writeSpaced items ++ '>' :: t)) x =
          '<' :: (name ++ writeSpaced items ++ '>' :: (x ++ t))) := by
  constructor
  · rintro delimiter (rfl | rfl)
    · exact rootTag?_quoted endsTagName_root hname h t
    · exact rootTag?_quoted endsTagName_first hname h t
  · intro hvalues
    constructor
    · intro a
      have hroot := rootTag?_quoted_of_closed endsTagName_root hname h hvalues t
      refine ⟨_, Attributes.takesClasses_iff.mpr rfl, ?_⟩
      unfold Attributes.addTo
      rw [hroot, Attributes.writeSpaced_rest]
      simp [RootTag.text, Attributes.extend]
    · intro x hx hunmarked
      have hroot := rootTag?_quoted_of_closed endsTagName_first hname h hvalues t
      unfold fill
      rw [hx, slot_eq, firstMark?_eq_none_iff.mpr hunmarked, hroot]
      simp [getLast?_quoted hname h]

/-- Blanks of several kinds, an empty value, a value with the other quote and one with a less-than sign. -/
theorem placed_at_quoted_root_section :
    let items : SpacedAttributes := [("\n ".toList, .pair "class".toList '\x22' "a b".toList),
      (" ".toList, .pair "alt".toList '\x22' []), (" ".toList, .pair "title".toList '\x22' "it's 1 < 2".toList)]
    let template := "<section\n class=\"a b\" alt=\"\" title=\"it's 1 < 2\"><p></p></section>".toList
    let a : Attributes := ⟨["c".toList], [], [], ["open".toList]⟩
    AreQuoted items ∧ (∀ item ∈ items, '>' ∉ item.2.value) ∧ IsUnmarked template ∧
    template = '<' :: ("section".toList ++ writeSpaced items ++ '>' :: "<p></p></section>".toList) ∧
    (∃ r, rootTag? endsRootName template = some r ∧ r.start = 0 ∧ r.stop = 47) ∧
    a.addTo template = "<section\n class=\"a b c\" alt=\"\" title=\"it's 1 < 2\" open><p></p></section>".toList ∧
    fill template "Hi".toList =
      "<section\n class=\"a b\" alt=\"\" title=\"it's 1 < 2\">Hi<p></p></section>".toList := by
  intro items template a
  have hquoted : AreQuoted items := by decide
  have hvalues : ∀ item ∈ items, '>' ∉ item.2.value := by decide
  have hunmarked : IsUnmarked template := by decide +kernel
  have htemplate : template = '<' :: ("section".toList ++ writeSpaced items ++ '>' :: "<p></p></section>".toList) := by
    decide
  have hname : isName "section".toList = true := by decide
  obtain ⟨hroot, hplaced⟩ := placed_at_quoted_root hname hquoted "<p></p></section>".toList
  obtain ⟨r, hr, hstart, hstop⟩ := hroot endsRootName (.inl rfl)
  obtain ⟨hadd, hfill⟩ := hplaced hvalues
  rw [← htemplate] at hr hadd hfill
  refine ⟨hquoted, hvalues, hunmarked, htemplate, ⟨r, hr, hstart, (hstop.mpr hvalues).trans (by decide)⟩, ?_, ?_⟩
  · obtain ⟨core, hcore, hadd⟩ := hadd a
    rw [hadd, Attributes.takesClasses_iff.mp hcore]
    decide
  · rw [hfill "Hi".toList (by decide) hunmarked]
    decide

/-- **A value with a greater-than sign ends the tag early**, and what is added goes into the value. -/
theorem not_placed_at_quoted_root :
    let template := "<div title=\"a > b\">x</div>".toList
    AreQuoted [(" ".toList, .pair "title".toList '\x22' "a > b".toList)] ∧
    template = '<' :: ("div".toList ++ writeSpaced [(" ".toList, .pair "title".toList '\x22' "a > b".toList)] ++
      '>' :: "x</div>".toList) ∧
    rootTag? endsRootName template = some ⟨[], "<div title=\"a ".toList, " b\">x</div>".toList⟩ ∧
    rootTag? endsFirstName template = some ⟨[], "<div title=\"a ".toList, " b\">x</div>".toList⟩ ∧
    ({ flags := ["open".toList] } : Attributes).addTo template = "<div title=\"a  open> b\">x</div>".toList ∧
    fill template "Hi".toList = "<div title=\"a >Hi b\">x</div>".toList ∧
    ¬ ∀ (name : Text) (items : SpacedAttributes) (t : Text), isName name = true → AreQuoted items →
      ∃ r, rootTag? endsRootName ('<' :: (name ++ writeSpaced items ++ '>' :: t)) = some r ∧ r.start = 0 ∧
        r.stop = ('<' :: (name ++ writeSpaced items)).length := by
  intro template
  have hquoted : AreQuoted [(" ".toList, .pair "title".toList '\x22' "a > b".toList)] := by decide
  refine ⟨hquoted, by decide, by decide, by decide, by decide, by decide, fun h => ?_⟩
  obtain ⟨r, hr, -, hstop⟩ := h "div".toList [(" ".toList, .pair "title".toList '\x22' "a > b".toList)]
    "x</div>".toList (by decide) hquoted
  have hroot : rootTag? endsRootName ('<' :: ("div".toList ++ writeSpaced
      [(" ".toList, .pair "title".toList '\x22' "a > b".toList)] ++ '>' :: "x</div>".toList)) =
      some ⟨[], "<div title=\"a ".toList, " b\">x</div>".toList⟩ := by decide
  rw [hroot] at hr
  obtain rfl := Option.some.inj hr
  exact absurd hstop (by decide)

end Inlay

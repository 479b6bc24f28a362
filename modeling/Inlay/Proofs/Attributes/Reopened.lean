import Inlay.Proofs.Attributes.ClassUnion

/-!
# The root with attributes added

Attributes that are added to a template change the opening tag of its root and nothing else. The class names go into
the first class attribute of the tag, or into one of their own behind what was there; all other attributes follow
one after the other. The tag keeps its name, and nothing that is written ends it earlier, so it is the root still.

* `Attributes.IsClosed` — attributes without a greater-than sign.
* `Attributes.TakesClasses` — an opening tag before and after class names are added.

Main statements: `Attributes.takesClasses_iff`, `Attributes.opening_extend` (the name of the tag stays and goes no
further), `Attributes.addTo_reopens`.
-/

namespace Inlay.Attributes

open Markup

variable {a : Attributes} {classes : List Text} {opening core name t u : Text}

/-- No class name, no other name and no value holds a greater-than sign. -/
def IsClosed (a : Attributes) : Prop :=
  (∀ word ∈ a.classes, '>' ∉ word) ∧ (∀ p ∈ a.data ++ a.other, '>' ∉ p.1 ∧ '>' ∉ p.2) ∧ ∀ name ∈ a.flags, '>' ∉ name

instance (a : Attributes) : Decidable a.IsClosed :=
  inferInstanceAs (Decidable (_ ∧ _))

/-- The opening tag with class names added: none to add, a new class attribute behind what was there, or the first
class attribute written anew. -/
inductive TakesClasses (classes : List Text) (opening : Text) : Text → Prop
  | same (hempty : classes = []) : TakesClasses classes opening opening
  | added (hne : classes ≠ []) (hnone : ∀ before value after, ¬ ClassAt false opening before value after) :
    TakesClasses classes opening (opening ++ ' ' :: (classAttribute classes).write)
  | merged {before value after : Text} (hne : classes ≠ [])
    (hfirst : FirstClassAt false opening before value after) :
    TakesClasses classes opening
      (before ++ (classAttribute (mergeClasses (Text.words value) classes)).write ++ after)

/-- **Class names are added in one way.** -/
theorem takesClasses_iff : TakesClasses classes opening core ↔ core = extendClasses classes opening := by
  constructor
  · intro h
    cases h with
    | same hempty => simp [extendClasses, hempty]
    | added hne hnone =>
      rw [extendClasses, if_neg (by simpa using hne), breakAtClass?_eq_none_iff.mpr hnone]
      rfl
    | merged hne hfirst =>
      rw [extendClasses, if_neg (by simpa using hne), breakAtClass?_eq_some_iff.mpr hfirst]
      rfl
  · rintro rfl
    by_cases hempty : classes = []
    · rw [show extendClasses classes opening = opening by simp [extendClasses, hempty]]
      exact .same hempty
    · rw [extendClasses, if_neg (by simpa using hempty)]
      cases hbreak : breakAtClass? false opening with
      | none => exact .added hempty (breakAtClass?_eq_none_iff.mp hbreak)
      | some found => exact .merged hempty (breakAtClass?_eq_some_iff.mp hbreak)

/-! ## The end of the tag -/

theorem not_mem_classAttribute (h : ∀ word ∈ classes, '>' ∉ word) : '>' ∉ (classAttribute classes).write := by
  have hjoin : '>' ∉ Text.join [' '] classes := by
    intro hmem
    rcases Text.of_mem_join hmem with hspace | ⟨word, hword, hgt⟩
    · exact absurd hspace (by decide)
    · exact h word hword hgt
  simp [classAttribute, Attribute.write, className, hjoin]

theorem TakesClasses.not_mem (h : TakesClasses classes opening core) (hopening : '>' ∉ opening)
    (hclasses : ∀ word ∈ classes, '>' ∉ word) : '>' ∉ core := by
  cases h with
  | same hempty => exact hopening
  | added hne hnone => simp [hopening, not_mem_classAttribute hclasses]
  | @merged before value after hne hfirst =>
    obtain ⟨written, hwritten, rfl⟩ := hfirst.text
    simp only [List.mem_append, not_or] at hopening
    obtain ⟨⟨hbefore, hin⟩, hafter⟩ := hopening
    have hmerged : ∀ word ∈ mergeClasses (Text.words value) classes, '>' ∉ word := by
      intro word hword
      rcases mem_mergeClasses.mp hword with hold | hnew
      · exact fun hgt => hin (hwritten.subset (Text.subset_of_mem_words hold hgt))
      · exact hclasses word hnew
    simp [hbefore, hafter, not_mem_classAttribute hmerged]

theorem not_mem_rest (ha : a.IsClosed) : '>' ∉ writeSpaced (spaced a.rest) := by
  obtain ⟨-, hpairs, hflags⟩ := ha
  rw [writeSpaced_rest, appendix]
  simp only [List.mem_append, List.mem_flatMap, List.mem_cons, pairText, not_or, not_exists, not_and]
  constructor
  · intro p hp
    have := hpairs p (List.mem_append.mpr hp)
    simp [this]
  · intro name hname
    simp [hflags name hname]

/-! ## The name of the tag -/

/-- Behind the name of the tag comes a blank, or nothing. -/
theorem head?_extendClasses (hu : u.head?.all Text.isBlank = true) (classes : List Text) :
    (extendClasses classes u).head?.all Text.isBlank = true := by
  have htakes : TakesClasses classes u (extendClasses classes u) := takesClasses_iff.mpr rfl
  generalize extendClasses classes u = core at htakes
  cases htakes with
  | same hempty => exact hu
  | added hne hnone =>
    cases u with
    | nil => rfl
    | cons c u => exact hu
  | @merged before value after hne hfirst =>
    obtain ⟨written, -, rfl⟩ := hfirst.text
    -- a class attribute stands behind a blank, so it does not begin `u`
    cases before with
    | nil => cases hfirst.blank
    | cons c before => exact hu

theorem opening_extend (hname : isName name = true) (hu : u.head?.all Text.isBlank = true) (a : Attributes) :
    ∃ u', a.extend ('<' :: (name ++ u)) = '<' :: (name ++ u') ∧ u'.head?.all Text.isBlank = true := by
  have hsolid : ∀ c ∈ '<' :: name, Text.isBlank c = false :=
    List.forall_mem_cons.mpr ⟨by decide, (isWord_of_isName hname).solid⟩
  have hclasses := extendClasses_append a.classes (breakAtClass?_append_solid hsolid u)
  have hhead := head?_extendClasses hu a.classes
  refine ⟨extendClasses a.classes u ++ writeSpaced (spaced a.rest), ?_, ?_⟩
  · rw [extend, ← writeSpaced_rest, ← List.cons_append, hclasses]
    simp only [List.cons_append, List.append_assoc]
  · cases hextended : extendClasses a.classes u with
    | cons c u' =>
      rw [hextended] at hhead
      exact hhead
    | nil =>
      rw [List.nil_append]
      unfold spaced writeSpaced
      cases a.rest <;> rfl

/-- The opening tag of a root is a less-than sign, a name, and nothing more or a blank. -/
theorem exists_name_of_rootTag? {r : RootTag} (h : rootTag? endsRootName t = some r) :
    ∃ name u, r.opening = '<' :: (name ++ u) ∧ isName name = true ∧ u.head?.all Text.isBlank = true ∧
      '>' ∉ r.opening := by
  obtain ⟨opening, hopening, hgt, hbegins⟩ := exists_opening_of_rootTag? h
  obtain ⟨hstart, hends⟩ := beginsElement_eq_true_iff.mp hbegins
  rw [Text.dropWhile_append_of_head (by rfl)] at hends
  refine ⟨opening.takeWhile isNameChar, opening.dropWhile isNameChar, ?_, ?_, ?_, ?_⟩
  · rw [List.takeWhile_append_dropWhile, hopening]
  · cases opening with
    | nil => exact absurd (show isNameStart '>' = true from hstart) (by decide)
    | cons c rest =>
      have hc : isNameStart c = true := by simpa using hstart
      rw [List.takeWhile_cons_of_pos (isNameChar_of_isNameStart hc)]
      simp [isName, hc, List.all_takeWhile]
  · cases hdrop : opening.dropWhile isNameChar with
    | nil => rfl
    | cons d rest =>
      rw [hdrop] at hends
      have hne : d ≠ '>' := by
        rintro rfl
        exact hgt ((List.dropWhile_suffix _).subset (hdrop ▸ List.mem_cons_self))
      simpa [endsRootName, hne] using hends
  · simp [hopening, hgt]

/-! ## The template -/

theorem isClosed_ofTag (t : Text) : (ofTag t).IsClosed := by
  have horder := inOrder_ofTag t
  have hname {name : Text} (h : isName name = true) : '>' ∉ name := not_mem_of_isName h (by decide)
  refine ⟨horder.classes_closed, fun p hp => ?_, fun name hflag => hname (horder.flags_isName name hflag)⟩
  rcases List.mem_append.mp hp with hp | hp
  · exact ⟨hname (horder.data.isName p hp), horder.data.closed p hp⟩
  · exact ⟨hname (horder.other.isName p hp), horder.other.closed p hp⟩

/-- The opening tag of the root stays the root when attributes are added to it. -/
theorem rootTag?_addTo (ha : a.IsClosed) {r : RootTag} (h : rootTag? endsRootName t = some r) :
    rootTag? endsRootName (a.addTo t) = some { r with opening := a.extend r.opening } := by
  obtain ⟨name, u, hopening, hname, hu, hgt⟩ := exists_name_of_rootTag? h
  obtain ⟨u', hextend, hu'⟩ := opening_extend hname hu a
  have hcore : '>' ∉ extendClasses a.classes r.opening := (takesClasses_iff.mpr rfl).not_mem hgt ha.1
  have hclosed : '>' ∉ a.extend r.opening := by
    rw [extend, ← writeSpaced_rest, List.mem_append, not_or]
    exact ⟨hcore, not_mem_rest ha⟩
  rw [← hopening] at hextend
  have hbegins := beginsElement_of_head endsTagName_root hname hu' r.after
  unfold addTo
  rw [h]
  simp only [hextend] at hclosed ⊢
  exact rootTag?_reopened h hbegins fun hmem => hclosed (List.mem_cons_of_mem _ hmem)

/-- **Only the opening tag of the root is changed, and it stays the root.** -/
theorem addTo_reopens (ha : a.IsClosed) (t : Text) :
    match rootTag? endsRootName t with
    | none => a.addTo t = t
    | some r =>
      ∃ q core, rootTag? endsRootName (a.addTo t) = some q ∧
        q.start = r.start ∧ (q.stop : Int) = r.stop + ((a.addTo t).length - t.length) ∧
        (a.addTo t).take q.start = t.take r.start ∧ (a.addTo t).drop q.stop = t.drop r.stop ∧
        TakesClasses a.classes (Text.cut t r.start r.stop) core ∧
        Text.cut (a.addTo t) q.start q.stop = core ++ writeSpaced (spaced a.rest) := by
  cases hroot : rootTag? endsRootName t with
  | none => simp [addTo, hroot]
  | some r =>
    have hreopened := rootTag?_addTo ha hroot
    have htext := text_of_rootTag? hroot
    have htext' := text_of_rootTag? hreopened
    refine ⟨{ r with opening := a.extend r.opening }, extendClasses a.classes r.opening, hreopened, rfl,
      ?_, ?_, ?_, ?_, ?_⟩
    · rw [← htext', ← htext, RootTag.length_text, RootTag.length_text]
      push_cast
      omega
    · rw [← htext', ← htext, RootTag.take_text, RootTag.take_text]
    · rw [← htext', ← htext, RootTag.drop_text, RootTag.drop_text]
    · rw [← htext, RootTag.cut_text]
      exact takesClasses_iff.mpr rfl
    · rw [← htext', RootTag.cut_text, writeSpaced_rest]
      rfl

/-- A comment in front of the root, a longer name that holds `class`, and a class attribute that gets shorter. -/
theorem addTo_reopens_card :
    let t := "<!-- card --><div data-class=\"x\" class = 'a   b'>y</div>".toList
    let a := ofTag "<card class=\"b\" id='7' data-k=\"1\" open>".toList
    let r : RootTag := ⟨"<!-- card -->".toList, "<div data-class=\"x\" class = 'a   b'".toList, "y</div>".toList⟩
    a.IsClosed ∧ rootTag? endsRootName t = some r ∧
      ∃ q core, rootTag? endsRootName (a.addTo t) = some q ∧
        q.start = r.start ∧ (q.stop : Int) = r.stop + ((a.addTo t).length - t.length) ∧
        (a.addTo t).take q.start = t.take r.start ∧ (a.addTo t).drop q.stop = t.drop r.stop ∧
        TakesClasses a.classes (Text.cut t r.start r.stop) core ∧
        Text.cut (a.addTo t) q.start q.stop = core ++ writeSpaced (spaced a.rest) := by
  intro t a r
  have hroot : rootTag? endsRootName t = some r := by decide
  have hreopens := addTo_reopens (isClosed_ofTag "<card class=\"b\" id='7' data-k=\"1\" open>".toList) t
  rw [hroot] at hreopens
  exact ⟨isClosed_ofTag _, hroot, hreopens⟩

end Inlay.Attributes

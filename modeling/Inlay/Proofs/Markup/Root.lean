import Inlay.Markup.Root
import Inlay.Proofs.Text.Span

/-!
# Where the root of a template stands

The root is told by the text up to the end of its opening tag alone: what is written in the tag behind its name
does not matter, and neither does what follows.

* `EndsTagName` — what both classes of delimiters hold.

Main statements: `beginsElement_eq_true_iff` (what begins an element), `rootTag?_opening` (a template that begins
with its root) and `rootTag?_reopened` (another opening tag in the place of the root's).
-/

namespace Inlay.Markup

/-- The class holds all blanks and the greater-than sign. -/
structure EndsTagName (delimiter : Char → Bool) : Prop where
  blank : ∀ c, Text.isBlank c = true → delimiter c = true
  gt : delimiter '>' = true

theorem endsTagName_root : EndsTagName endsRootName := ⟨by simp +contextual [endsRootName], by decide⟩

theorem endsTagName_first : EndsTagName endsFirstName := ⟨by simp +contextual [endsFirstName], by decide⟩

variable {delimiter : Char → Bool} {opening t : Text} {r : RootTag}

/-- An element begins with a letter, and a delimiter follows its name. -/
theorem beginsElement_eq_true_iff :
    beginsElement delimiter t = true ↔
      t.head?.any isNameStart = true ∧ (t.dropWhile isNameChar).head?.any delimiter = true := by
  cases t with
  | nil => simp [beginsElement]
  | cons c rest =>
    rw [beginsElement, Bool.and_eq_true]
    refine and_congr_right fun hc => ?_
    rw [List.dropWhile_cons_of_pos (isNameChar_of_isNameStart hc)]
    cases rest.dropWhile isNameChar <;> simp

theorem beginsElement_name {name : Text} (hname : isName name = true) {d : Char} (hd : isNameChar d = false)
    (hends : delimiter d = true) (t : Text) : beginsElement delimiter (name ++ d :: t) = true := by
  cases name with
  | nil => cases hname
  | cons c rest =>
    simp only [isName, Bool.and_eq_true, List.all_eq_true] at hname
    have hall : ∀ e ∈ c :: rest, isNameChar e = true :=
      List.forall_mem_cons.mpr ⟨isNameChar_of_isNameStart hname.1, hname.2⟩
    rw [beginsElement_eq_true_iff, Text.dropWhile_append_cons hall hd]
    exact ⟨hname.1, hends⟩

/-- A character that no name holds ends a name, so what follows it does not matter. -/
theorem beginsElement_append {c : Char} (hc : isNameChar c = false) (x y z : Text) :
    beginsElement delimiter (x ++ c :: y) = beginsElement delimiter (x ++ c :: z) := by
  cases x with
  | nil =>
    have hstart : isNameStart c = false := by
      cases h : isNameStart c with
      | false => rfl
      | true => rwa [isNameChar_of_isNameStart h] at hc
    simp only [beginsElement, List.nil_append, hstart, Bool.false_and]
  | cons d x =>
    simp only [beginsElement, List.cons_append, List.dropWhile_append, List.dropWhile_cons, hc]
    cases x.dropWhile isNameChar <;> rfl

/-! ## The parts of a template -/

namespace RootTag

theorem length_text (r : RootTag) : r.text.length = r.stop + 1 + r.after.length := by
  simp only [text, stop, List.length_append, List.length_cons]
  omega

theorem take_text (r : RootTag) : r.text.take r.start = r.before := by
  unfold text start
  rw [List.append_assoc, List.take_left]

theorem drop_text (r : RootTag) : r.text.drop r.stop = '>' :: r.after := by
  unfold text stop
  rw [← List.length_append, List.drop_left]

theorem cut_text (r : RootTag) : Text.cut r.text r.start r.stop = r.opening := by
  unfold text start stop
  rw [← List.length_append, Text.cut_middle]

end RootTag

/-! ## Where the root stands -/

theorem rootTag?_opening (hbegins : beginsElement delimiter (opening ++ '>' :: t) = true)
    (hopening : '>' ∉ opening) :
    rootTag? delimiter ('<' :: (opening ++ '>' :: t)) = some ⟨[], '<' :: opening, t⟩ := by
  have hall := Text.ne_of_not_mem hopening
  rw [rootTag?, if_pos (by rw [hbegins]; rfl), Text.dropWhile_append_cons hall (by decide),
    Text.takeWhile_append_cons hall (by decide)]

/-- The opening tag of a root begins an element and goes up to the first greater-than sign. -/
theorem exists_opening_of_rootTag? (h : rootTag? delimiter t = some r) :
    ∃ opening, r.opening = '<' :: opening ∧ '>' ∉ opening ∧
      beginsElement delimiter (opening ++ '>' :: r.after) = true := by
  induction t generalizing r with
  | nil => cases h
  | cons c rest ih =>
    simp only [rootTag?] at h
    split at h
    · next hc =>
      obtain ⟨hlt, hbegins⟩ := Bool.and_eq_true_iff.mp hc
      obtain rfl : c = '<' := by simpa using hlt
      split at h
      · cases h
      · next d after hdrop =>
        obtain rfl := Option.some.inj h
        have hd : d = '>' := by
          have hhead := List.head?_dropWhile_not (· != '>') rest
          simpa [hdrop] using hhead
        subst hd
        refine ⟨_, rfl, fun hmem => by simpa using Text.of_mem_takeWhile hmem, ?_⟩
        rwa [Text.takeWhile_append_of_dropWhile hdrop]
    · obtain ⟨q, hq, rfl⟩ := Option.map_eq_some_iff.mp h
      exact ih (r := q) hq

/-- A text without a greater-than sign has no root. -/
theorem rootTag?_of_not_mem (h : '>' ∉ t) : rootTag? delimiter t = none := by
  cases hroot : rootTag? delimiter t with
  | none => rfl
  | some r =>
    rw [← text_of_rootTag? hroot] at h
    simp [RootTag.text] at h

/-- **Another opening tag in the place of the root's is the root then.** -/
theorem rootTag?_reopened (h : rootTag? delimiter t = some r)
    (hbegins : beginsElement delimiter (opening ++ '>' :: r.after) = true) (hopening : '>' ∉ opening) :
    rootTag? delimiter (RootTag.text { r with opening := '<' :: opening }) =
      some { r with opening := '<' :: opening } := by
  induction t generalizing r with
  | nil => cases h
  | cons c rest ih =>
    simp only [rootTag?] at h
    split at h
    · split at h
      · cases h
      · obtain rfl := Option.some.inj h
        exact rootTag?_opening hbegins hopening
    · next hc =>
      obtain ⟨q, hq, rfl⟩ := Option.map_eq_some_iff.mp h
      obtain ⟨tail, htail, -⟩ := exists_opening_of_rootTag? hq
      have hrest : rest = q.before ++ '<' :: (tail ++ '>' :: q.after) := by
        rw [← text_of_rootTag? hq, RootTag.text, htail]
        simp
      have hkept : ¬ (decide (c = '<') && beginsElement delimiter
          (q.before ++ '<' :: (opening ++ '>' :: q.after))) = true := by
        rwa [hrest, beginsElement_append (by decide) _ _ (opening ++ '>' :: q.after)] at hc
      have htext : RootTag.text { q with opening := '<' :: opening } =
          q.before ++ '<' :: (opening ++ '>' :: q.after) := by
        simp [RootTag.text]
      have hnext := ih hq hbegins
      rw [htext] at hnext
      change rootTag? delimiter (c :: (q.before ++ '<' :: opening ++ '>' :: q.after)) = _
      rw [List.append_assoc, List.cons_append, rootTag?, if_neg hkept, hnext]
      rfl

end Inlay.Markup

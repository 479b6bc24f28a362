import Mathlib.Data.List.Find
import Mathlib.Data.List.Infix
import Inlay.Proofs.Markup.Root
import Inlay.Proofs.Page.Fill

/-!
# Templates behind a comment

A comment in front of a template is plain text for the two searches that content and attributes ask for a place.
What looks like a mark counts as one there as well: the first mark of a template takes its content, wherever it
stands. A comment ends with a greater-than sign, and no mark and no name goes on behind one, so a search in a
comment and a template is a search in each of them.

* `comment` — a comment.
* `HoldsSlot`, `HoldsTag` — a text in which one of the slot marks stands, and one in which a tag begins.
* `TakesContent` — the mark that takes the content of a template stands in the text in front of it.
* `firstMark?` — a template broken at the mark that takes its content.

Main statements: `firstMark?_concat_gt`, `rootTag?_concat_gt` (the searches behind a greater-than sign),
`fill_concat_gt`, `Attributes.addTo_concat_gt` and `placed_behind_comment`.
-/

namespace Inlay

namespace Markup

variable {delimiter : Char → Bool} {marks : List Text} {mark s t u : Text}

/-- A comment. -/
def comment (c : Text) : Text := "<!--".toList ++ c ++ "-->".toList

/-- One of the slot marks stands in the text. -/
def HoldsSlot (t : Text) : Prop := ∃ mark ∈ slotMarks, mark <:+: t

/-- The children mark stands in the text. -/
def HoldsChildren (t : Text) : Prop := childrenMark <:+: t

/-- A tag begins in the text: a name and a delimiter follow a less-than sign. -/
def HoldsTag (delimiter : Char → Bool) (t : Text) : Prop :=
  ∃ v, '<' :: v <:+ t ∧ beginsElement delimiter v = true

/-- The mark that takes the content of the template `u ++ t` stands in `u`. -/
def TakesContent (u t : Text) : Prop := HoldsSlot u ∨ ¬ HoldsSlot t ∧ HoldsChildren u

/-- There is no mark in the text. -/
def IsUnmarked (t : Text) : Prop := ¬ HoldsSlot t ∧ ¬ HoldsChildren t

instance (t : Text) : Decidable (HoldsSlot t) := inferInstanceAs (Decidable (∃ mark ∈ slotMarks, mark <:+: t))

instance (t : Text) : Decidable (HoldsChildren t) := inferInstanceAs (Decidable (childrenMark <:+: t))

instance (u t : Text) : Decidable (TakesContent u t) := inferInstanceAs (Decidable (_ ∨ ¬ _ ∧ _))

instance (t : Text) : Decidable (IsUnmarked t) := inferInstanceAs (Decidable (¬ _ ∧ ¬ _))

theorem not_holdsTag_nil : ¬ HoldsTag delimiter [] := by
  rintro ⟨v, hv, -⟩
  exact absurd (List.suffix_nil.mp hv) (by simp)

theorem holdsTag_cons {c : Char} :
    HoldsTag delimiter (c :: t) ↔ (c = '<' ∧ beginsElement delimiter t = true) ∨ HoldsTag delimiter t := by
  constructor
  · rintro ⟨v, hv, hbegins⟩
    rcases List.suffix_cons_iff.mp hv with heq | hrest
    · obtain ⟨rfl, rfl⟩ := List.cons.inj heq
      exact .inl ⟨rfl, hbegins⟩
    · exact .inr ⟨v, hrest, hbegins⟩
  · rintro (⟨rfl, hbegins⟩ | ⟨v, hv, hbegins⟩)
    · exact ⟨t, List.suffix_refl _, hbegins⟩
    · exact ⟨v, hv.trans (List.suffix_cons c t), hbegins⟩

instance decidableHoldsTag (delimiter : Char → Bool) : ∀ t, Decidable (HoldsTag delimiter t)
  | [] => isFalse not_holdsTag_nil
  | c :: t =>
    have := decidableHoldsTag delimiter t
    decidable_of_iff ((c = '<' ∧ beginsElement delimiter t = true) ∨ HoldsTag delimiter t) holdsTag_cons.symm

/-! ## Searching for a mark -/

/-- A mark without a greater-than sign, but for one at its end, begins in a text up to such a sign or behind it. -/
theorem prefix_concat_gt_iff (hmark : '>' ∉ mark.dropLast) :
    mark <+: u ++ '>' :: t ↔ mark <+: u ++ ['>'] := by
  have hsplit : u ++ '>' :: t = u ++ ['>'] ++ t := by simp
  rw [hsplit]
  constructor
  · intro h
    rcases List.prefix_or_prefix_of_prefix h (List.prefix_append (u ++ ['>']) t) with hle | ⟨v, rfl⟩
    · exact hle
    · -- the mark goes on behind the sign only if the sign stands in its front part
      cases v using List.reverseRecOn with
      | nil => simp
      | append_singleton v c =>
        rw [← List.append_assoc, List.dropLast_concat] at hmark
        simp at hmark
  · intro h
    exact h.trans (List.prefix_append _ t)

/-- **The first mark stands in the text up to the sign, or it is the first one behind.** -/
theorem breakAtMark?_concat_gt (hmarks : ∀ mark ∈ marks, '>' ∉ mark.dropLast) (u t : Text) :
    breakAtMark? marks (u ++ '>' :: t) =
      ((breakAtMark? marks (u ++ ['>'])).map fun parts => (parts.1, parts.2 ++ t)).or
        ((breakAtMark? marks t).map fun parts => (u ++ '>' :: parts.1, parts.2)) := by
  -- at each place up to the sign the same mark is found, whatever comes behind the sign
  have hfind : ∀ s, marks.find? (fun mark => mark.isPrefixOf (s ++ '>' :: t)) =
      marks.find? (fun mark => mark.isPrefixOf (s ++ ['>'])) := by
    intro s
    refine List.find?_congr fun mark hmark => ?_
    rw [Bool.eq_iff_iff, List.isPrefixOf_iff_prefix, List.isPrefixOf_iff_prefix,
      prefix_concat_gt_iff (hmarks mark hmark)]
  have hdrop : ∀ s mark, marks.find? (fun mark => mark.isPrefixOf (s ++ ['>'])) = some mark →
      (s ++ '>' :: t).drop mark.length = (s ++ ['>']).drop mark.length ++ t := by
    intro s mark hfound
    rw [← List.drop_append_of_le_length (prefix_of_find? hfound).length_le]
    simp
  induction u with
  | nil =>
    have hhead := hfind []
    have htail := hdrop []
    rw [List.nil_append, List.nil_append] at hhead htail ⊢
    rw [breakAtMark?, breakAtMark?, hhead]
    cases hfound : marks.find? fun mark => mark.isPrefixOf ['>'] with
    | none => cases breakAtMark? marks t <;> rfl
    | some mark => exact congrArg (fun rest => some ([], rest)) (htail mark hfound)
  | cons c u ih =>
    have hhead := hfind (c :: u)
    have htail := hdrop (c :: u)
    rw [List.cons_append, List.cons_append] at hhead htail ⊢
    rw [breakAtMark?, breakAtMark?, hhead, ih]
    cases hfound : marks.find? fun mark => mark.isPrefixOf (c :: (u ++ ['>'])) with
    | none => cases breakAtMark? marks (u ++ ['>']) <;> cases breakAtMark? marks t <;> rfl
    | some mark => exact congrArg (fun rest => some ([], rest)) (htail mark hfound)

theorem breakAtMark?_eq_none_iff (hne : [] ∉ marks) :
    breakAtMark? marks t = none ↔ ∀ mark ∈ marks, ¬ mark <:+: t := by
  induction t with
  | nil =>
    refine iff_of_true rfl fun mark hmark h => hne ?_
    rwa [← List.infix_nil.mp h]
  | cons c t ih =>
    have hcons : (∀ mark ∈ marks, ¬ mark <:+: c :: t) ↔
        (∀ mark ∈ marks, ¬ mark <+: c :: t) ∧ ∀ mark ∈ marks, ¬ mark <:+: t := by
      simp only [List.infix_cons_iff, not_or]
      exact forall₂_and
    rw [hcons, ← ih]
    by_cases hno : ∀ mark ∈ marks, ¬ mark <+: c :: t
    · rw [breakAtMark?_cons hno, Option.map_eq_none_iff]
      exact ⟨fun h => ⟨hno, h⟩, And.right⟩
    · refine iff_of_false ?_ fun h => hno h.1
      cases hfound : marks.find? fun mark => mark.isPrefixOf (c :: t) with
      | none => exact absurd (by simpa using hfound) hno
      | some mark => simp [breakAtMark?, hfound]

theorem breakOn?_eq_breakAtMark? {needle : Text} (hne : needle ≠ []) (t : Text) :
    Text.breakOn? needle t = breakAtMark? [needle] t := by
  induction t with
  | nil => simp [Text.breakOn?, breakAtMark?, hne]
  | cons c t ih =>
    rw [Text.breakOn?, breakAtMark?, ih]
    cases h : needle.isPrefixOf (c :: t) <;> simp [h]

theorem isSome_breakAtMark?_iff (hne : [] ∉ marks) :
    (breakAtMark? marks t).isSome = true ↔ ∃ mark ∈ marks, mark <:+: t := by
  rw [← Option.ne_none_iff_isSome, ne_eq, breakAtMark?_eq_none_iff hne]
  simp only [not_forall, not_not, exists_prop]

/-- The template broken at the mark that takes its content. -/
def firstMark? (t : Text) : Option (Text × Text) :=
  (breakAtMark? slotMarks t).or (breakAtMark? [childrenMark] t)

theorem firstMark?_eq_none_iff : firstMark? t = none ↔ IsUnmarked t := by
  rw [firstMark?, Option.or_eq_none_iff, breakAtMark?_eq_none_iff (by decide), breakAtMark?_eq_none_iff (by decide)]
  simp [IsUnmarked, HoldsSlot, HoldsChildren]

theorem takesContent_iff :
    TakesContent u t ↔ (breakAtMark? slotMarks u).isSome = true ∨
      breakAtMark? slotMarks t = none ∧ (breakAtMark? [childrenMark] u).isSome = true := by
  rw [isSome_breakAtMark?_iff (by decide), isSome_breakAtMark?_iff (by decide), breakAtMark?_eq_none_iff (by decide)]
  simp [TakesContent, HoldsSlot, HoldsChildren]

/-- **The mark that takes the content is sought in the text up to the sign and behind it apart.** -/
theorem firstMark?_concat_gt (u t : Text) :
    firstMark? (u ++ '>' :: t) =
      if TakesContent (u ++ ['>']) t then
        (firstMark? (u ++ ['>'])).map fun parts => (parts.1, parts.2 ++ t)
      else (firstMark? t).map fun parts => (u ++ '>' :: parts.1, parts.2) := by
  have hslot := breakAtMark?_concat_gt (by decide : ∀ mark ∈ slotMarks, '>' ∉ mark.dropLast) u t
  have hchildren := breakAtMark?_concat_gt (by decide : ∀ mark ∈ [childrenMark], '>' ∉ mark.dropLast) u t
  simp only [firstMark?, hslot, hchildren, takesContent_iff]
  cases breakAtMark? slotMarks (u ++ ['>']) with
  | some parts => rfl
  | none =>
    cases breakAtMark? slotMarks t with
    | some parts => rfl
    | none => cases breakAtMark? [childrenMark] (u ++ ['>']) <;> rfl

/-- The slot is the first mark, or the place behind the opening tag of the first element. -/
theorem slot_eq (t : Text) :
    slot t =
      match firstMark? t with
      | some (before, after) => .gap before after
      | none =>
        match rootTag? endsFirstName t with
        | none => .missing
        | some r =>
          if r.opening.getLast? = some '/' then .selfClosing
          else .gap (r.before ++ r.opening ++ ['>']) r.after := by
  unfold slot firstMark?
  rw [breakOn?_eq_breakAtMark? (by decide)]
  cases breakAtMark? slotMarks t <;> rfl

/-! ## Searching for the root -/

/-- **Behind a greater-than sign the root is searched for anew.** -/
theorem rootTag?_concat_gt (h : ¬ HoldsTag delimiter (u ++ ['>'])) (t : Text) :
    rootTag? delimiter (u ++ '>' :: t) =
      (rootTag? delimiter t).map fun r => { r with before := u ++ '>' :: r.before } := by
  induction u with
  | nil => cases hr : rootTag? delimiter t <;> simp [rootTag?, hr]
  | cons c u ih =>
    rw [List.cons_append, holdsTag_cons, not_or] at h
    have hpassed : ¬ (decide (c = '<') && beginsElement delimiter (u ++ '>' :: t)) = true := by
      rw [beginsElement_append (by decide) u t []]
      simpa using h.1
    rw [List.cons_append, rootTag?, if_neg hpassed, ih h.2]
    cases rootTag? delimiter t <;> rfl

/-! ## Content and attributes -/

/-- **The first mark takes the content, and a text without a mark and a tag is passed over.** -/
theorem fill_concat_gt {x : Text} (hx : Text.isAllBlank x = false)
    (h : IsUnmarked (u ++ ['>']) → IsUnmarked t → ¬ HoldsTag endsFirstName (u ++ ['>'])) :
    fill (u ++ '>' :: t) x =
      if TakesContent (u ++ ['>']) t then fill (u ++ ['>']) x ++ t else u ++ '>' :: fill t x := by
  unfold fill
  rw [hx, slot_eq, slot_eq, slot_eq, firstMark?_concat_gt]
  by_cases htakes : TakesContent (u ++ ['>']) t
  · rw [if_pos htakes, if_pos htakes]
    cases hmark : firstMark? (u ++ ['>']) with
    | some parts => simp
    | none =>
      have hunmarked := firstMark?_eq_none_iff.mp hmark
      exact absurd htakes fun h => h.elim hunmarked.1 fun hboth => hunmarked.2 hboth.2
  · rw [if_neg htakes, if_neg htakes]
    cases hmark : firstMark? t with
    | some parts => simp
    | none =>
      have hback := firstMark?_eq_none_iff.mp hmark
      have hfront : IsUnmarked (u ++ ['>']) :=
        ⟨fun hslot => htakes (.inl hslot), fun hchildren => htakes (.inr ⟨hback.1, hchildren⟩)⟩
      simp only [Option.map_none, rootTag?_concat_gt (h hfront hback)]
      cases rootTag? endsFirstName t with
      | none => rfl
      | some r => by_cases hself : r.opening.getLast? = some '/' <;> simp [hself]

end Markup

open Markup

namespace Attributes

/-- **Attributes go to the root behind a text in which no tag begins.** -/
theorem addTo_concat_gt {u : Text} (h : ¬ HoldsTag endsRootName (u ++ ['>'])) (a : Attributes) (t : Text) :
    a.addTo (u ++ '>' :: t) = u ++ '>' :: a.addTo t := by
  unfold addTo
  rw [rootTag?_concat_gt h]
  cases rootTag? endsRootName t with
  | none => rfl
  | some r => simp [RootTag.text]

end Attributes

/-- **A leading comment is passed over, unless the first mark of the template stands in it.** -/
theorem placed_behind_comment (c t x : Text) (a : Attributes) :
    ((Text.isAllBlank x = false → IsUnmarked (comment c) → IsUnmarked t → ¬ HoldsTag endsFirstName (comment c)) →
      fill (comment c ++ t) x =
        if TakesContent (comment c) t then fill (comment c) x ++ t else comment c ++ fill t x) ∧
    ((a ≠ {} → ¬ HoldsTag endsRootName (comment c)) →
      a.addTo (comment c ++ t) = comment c ++ a.addTo t) := by
  obtain ⟨u, hu⟩ : ∃ u, comment c = u ++ ['>'] := ⟨"<!--".toList ++ c ++ "--".toList, by simp [comment]⟩
  rw [hu]
  simp only [← List.append_cons]
  constructor
  · intro hfirst
    cases hx : Text.isAllBlank x with
    | true => simp [fill_of_isAllBlank hx]
    | false => exact fill_concat_gt hx (hfirst hx)
  · intro hroot
    by_cases ha : a = {}
    · rw [ha, Attributes.addTo_empty, Attributes.addTo_empty]
    · exact Attributes.addTo_concat_gt (hroot ha) a t

/-- A comment with both signs in it, in front of a template without a mark. -/
theorem placed_behind_comment_card :
    let c := " 1 <2> card ".toList
    let a : Attributes := ⟨[], [], [], ["open".toList]⟩
    IsUnmarked (comment c) ∧ IsUnmarked "<p></p>".toList ∧ ¬ HoldsTag endsFirstName (comment c) ∧
    ¬ HoldsTag endsRootName (comment c) ∧
    fill (comment c ++ "<p></p>".toList) "Hi".toList = comment c ++ "<p>Hi</p>".toList ∧
    a.addTo (comment c ++ "<p></p>".toList) = comment c ++ "<p open></p>".toList := by
  intro c a
  have hunmarked : IsUnmarked (comment c) ∧ IsUnmarked "<p></p>".toList := by decide
  have hfirst : ¬ HoldsTag endsFirstName (comment c) := by decide
  have hroot : ¬ HoldsTag endsRootName (comment c) := by decide
  obtain ⟨hfill, hadd⟩ := placed_behind_comment c "<p></p>".toList "Hi".toList a
  refine ⟨hunmarked.1, hunmarked.2, hfirst, hroot, ?_, ?_⟩
  · rw [hfill fun _ _ _ => hfirst, if_neg (by decide)]
    rfl
  · rw [hadd fun _ => hroot]
    rfl

/-- A comment is not passed over if a slot mark stands in it. -/
theorem not_passed_over_comment :
    ¬ ∀ c : Text, ¬ "-->".toList <:+: c → ∀ (t x : Text) (a : Attributes),
      fill (comment c ++ t) x = comment c ++ fill t x ∧
        a.addTo (comment c ++ t) = comment c ++ a.addTo t := by
  intro h
  have hfill := (h " <slot/> ".toList (by decide) "<p><slot/></p>".toList "Hi".toList {}).1
  exact absurd hfill (by decide)

end Inlay

import Inlay.Proofs.Attributes.Written

/-!
# Where the attributes of a tag begin

The scan of a page breaks a tag into a name and its raw attribute text, and the attributes are then read from the tag
once more, which breaks it anew. The names of page tags may hold four letters that the second reader does not know
for letters. It breaks the tag at the same place exactly when the name holds none of them; else it takes a part of
the name for attribute text, or does not find the tag at all.

* `solidCount` — the number of characters that are not blank, which stripping does not change.

Main statements: `Attributes.attributeText?_opening` (what is read of a tag), and
`Attributes.attributeText?_opening_eq_iff` (when the two readers agree).
-/

namespace Inlay

open Markup

variable {c : Char} {name attributes rest raw t u : Text}

/-! ## Characters that are not blank -/

/-- The number of characters that are not blank. -/
def solidCount (t : Text) : Nat := t.countP fun c => !Text.isBlank c

theorem solidCount_append (t u : Text) : solidCount (t ++ u) = solidCount t + solidCount u :=
  List.countP_append

theorem solidCount_cons (c : Char) (t : Text) :
    solidCount (c :: t) = solidCount t + if Text.isBlank c then 0 else 1 := by
  unfold solidCount
  rw [List.countP_cons]
  cases Text.isBlank c <;> rfl

theorem solidCount_dropWhile_isBlank (t : Text) : solidCount (t.dropWhile Text.isBlank) = solidCount t := by
  induction t with
  | nil => rfl
  | cons c t ih =>
    rw [List.dropWhile_cons]
    split
    · next hc => rw [ih, solidCount_cons, if_pos hc, Nat.add_zero]
    · rfl

/-- Stripping takes away nothing but blanks. -/
theorem solidCount_strip (t : Text) : solidCount (Text.strip t) = solidCount t := by
  have hreverse : ∀ u : Text, solidCount u.reverse = solidCount u := fun u => List.countP_reverse
  unfold Text.strip Text.stripEnd
  rw [hreverse, solidCount_dropWhile_isBlank, hreverse, solidCount_dropWhile_isBlank]

theorem solidCount_dropWhile_le (p : Char → Bool) (t : Text) : solidCount (t.dropWhile p) ≤ solidCount t :=
  (List.dropWhile_sublist p).countP_le

/-! ## The second reader -/

namespace Attributes

theorem isNameChar_of_endsName (h : endsName attributes = true) :
    (attributes ++ ['>']).head?.any isNameChar = false := by
  cases attributes with
  | nil => rfl
  | cons c attributes =>
    have hc : isTagChar c = false := by simpa [endsName] using h
    cases hname : isNameChar c with
    | false => simpa using hname
    | true => simp [isTagChar_of_isNameChar hname] at hc

/-- A tag that begins with a letter is read from the end of its letters on. -/
theorem attributeText?_opening (h : Tag.IsOpening (c :: rest) attributes) (hc : isNameStart c = true) :
    attributeText? (Tag.opening (c :: rest) attributes) =
      some (Text.strip (rest.dropWhile isNameChar ++ attributes)) := by
  have htail : (c :: rest ++ attributes ++ ['>']).dropWhile isNameChar =
      rest.dropWhile isNameChar ++ attributes ++ ['>'] := by
    rw [List.append_assoc, Text.dropWhile_append_of_head (isNameChar_of_endsName h.endsName),
      List.dropWhile_cons_of_pos (isNameChar_of_isNameStart hc), List.append_assoc]
  have hgt : ∀ d ∈ rest.dropWhile isNameChar ++ attributes, (d != '>') = true := by
    intro d hd
    refine h.ne_gt d ?_
    rcases List.mem_append.mp hd with hd | hd
    · simp [(List.dropWhile_suffix _).subset hd]
    · simp [hd]
  rw [Tag.opening, attributeText?, htail, if_pos (by simp [hc]), if_pos (by simp),
    Text.takeWhile_append_cons hgt (by simp)]

theorem attributeText?_append_of_not_mem (h : '<' ∉ u) (t : Text) : attributeText? (u ++ t) = attributeText? t := by
  induction u with
  | nil => rfl
  | cons c u ih =>
    simp only [List.mem_cons, not_or] at h
    rw [List.cons_append, attributeText?, if_neg (by simp [Ne.symm h.1]), ih h.2]

/-- A tag that begins with another letter is passed over, and one that begins in its attributes is read. -/
theorem attributeText?_opening_of_folded (h : Tag.IsOpening (c :: rest) attributes) (hc : isNameStart c = false) :
    attributeText? (Tag.opening (c :: rest) attributes) = attributeText? (attributes ++ ['>']) := by
  rw [Tag.opening, attributeText?, if_neg (by simp [hc]), List.append_assoc,
    attributeText?_append_of_not_mem (not_lt_of_isTagName h.isName)]

/-- What is read of a tag is less than the text in which the tag stands. -/
theorem solidCount_of_attributeText? (h : attributeText? t = some raw) : solidCount raw + 2 ≤ solidCount t := by
  induction t with
  | nil => cases h
  | cons d t ih =>
    rw [solidCount_cons]
    rw [attributeText?] at h
    split at h
    · next hd =>
      obtain ⟨hlt, hstart⟩ := Bool.and_eq_true_iff.mp hd
      obtain rfl : d = '<' := by simpa using hlt
      dsimp only at h
      split at h
      · next hgt =>
        obtain rfl := Option.some.inj h
        have hspan := List.takeWhile_append_dropWhile (p := (· != '>')) (l := t.dropWhile isNameChar)
        have hend : 1 ≤ solidCount ((t.dropWhile isNameChar).dropWhile (· != '>')) := by
          obtain ⟨after, hafter⟩ := Text.exists_dropWhile_ne (by simpa using hgt)
          rw [hafter, solidCount_cons, if_neg (by decide)]
          omega
        have hle := solidCount_dropWhile_le isNameChar t
        rw [← hspan, solidCount_append] at hle
        rw [solidCount_strip, if_neg (by decide)]
        omega
      · cases h
    · have := ih h
      omega

/-- **The two readers break a tag at the same place if and only if its name is a name for both of them.** -/
theorem attributeText?_opening_eq_iff (h : Tag.IsOpening name attributes) :
    attributeText? (Tag.opening name attributes) = attributeText? (Tag.opening "x".toList attributes) ↔
      isName name = true := by
  have hx : attributeText? (Tag.opening "x".toList attributes) = some (Text.strip attributes) :=
    attributeText?_opening ⟨by decide, h.endsName, h.not_mem⟩ (by decide)
  cases name with
  | nil => exact absurd h.isName (by decide)
  | cons c rest =>
    rw [hx, isName, Bool.and_eq_true]
    cases hc : isNameStart c with
    | true =>
      rw [attributeText?_opening h hc, Option.some.injEq, List.all_eq_true]
      simp only [true_and]
      constructor
      · -- what is left of the name would have to be blank
        intro heq d hd
        rw [← Bool.not_eq_false]
        intro hname
        have hcount := congrArg solidCount heq
        rw [solidCount_strip, solidCount_strip, solidCount_append] at hcount
        obtain ⟨front, e, back, rfl, hfront, he⟩ := Text.exists_span hd hname
        have hsolid : Text.isBlank e = false := by
          refine isBlank_of_isTagChar (isTagChar_of_isTagName h.isName e ?_)
          simp
        rw [Text.dropWhile_append_cons hfront he, solidCount_cons, hsolid] at hcount
        simp at hcount
      · intro hall
        have hdrop : (rest ++ []).dropWhile isNameChar = [] := List.dropWhile_append_of_pos hall
        rw [List.append_nil] at hdrop
        rw [hdrop, List.nil_append]
    | false =>
      rw [attributeText?_opening_of_folded h hc]
      refine iff_of_false (fun heq => ?_) (by simp)
      have hcount := solidCount_of_attributeText? heq
      rw [solidCount_strip, solidCount_append] at hcount
      have hgt : solidCount ['>'] = 1 := by decide
      omega

end Attributes

end Inlay

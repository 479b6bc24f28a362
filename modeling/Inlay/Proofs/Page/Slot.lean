import Inlay.Proofs.Page.Comment

/-!
# Where a template takes its content

The place for the content is told by the template alone, and the content is written there once, as it is. The place
is the first of the slot marks; without one it is the first children mark; without either it is behind the first
tag, if that one ends and does not close itself.

* `Text.IsFirst` — a text broken at the first place where something begins.
* `BeginsMark`, `BeginsTag` — what begins with one of some marks, and what begins with a tag.
* `IsPlace` — the part of a template that gives way to the content.
* `LacksPlace` — a template without such a part.

Main statements: `breakAtMark?_isFirst`, `rootTag?_of_isFirst` (the searches stop at the first place),
`exists_isPlace_or_lacksPlace`, `IsPlace.not_lacksPlace` and `fill_literally`.
-/

namespace Inlay

namespace Text

/-- The text `before ++ rest` is broken at the first place where what follows is as asked for. -/
structure IsFirst (begins : Text → Prop) (before rest : Text) : Prop where
  here : begins rest
  first : ∀ a b, a ++ b = before ++ rest → begins b → before.length ≤ a.length

variable {begins : Text → Prop} {before before' rest rest' t : Text} {c : Char}

theorem isFirst_nil (h : begins rest) : IsFirst begins [] rest := ⟨h, fun _ _ _ _ => Nat.zero_le _⟩

theorem isFirst_cons :
    IsFirst begins (c :: before) rest ↔ ¬ begins (c :: (before ++ rest)) ∧ IsFirst begins before rest := by
  constructor
  · intro h
    refine ⟨fun hbegins => absurd (h.first [] _ rfl hbegins) (by simp), h.here, fun a b heq hb => ?_⟩
    exact Nat.succ_le_succ_iff.mp (h.first (c :: a) b (by rw [List.cons_append, heq]; rfl) hb)
  · rintro ⟨hno, hrest⟩
    refine ⟨hrest.here, fun a b heq hb => ?_⟩
    cases a with
    | nil =>
      obtain rfl : b = c :: (before ++ rest) := heq
      exact absurd hb hno
    | cons d a => exact Nat.succ_le_succ (hrest.first a b (List.cons.inj heq).2 hb)

/-- **There is one first place.** -/
theorem IsFirst.unique (h : IsFirst begins before rest) (h' : IsFirst begins before' rest')
    (heq : before ++ rest = before' ++ rest') : before = before' ∧ rest = rest' := by
  have hle := h.first before' rest' heq.symm h'.here
  have hle' := h'.first before rest heq h.here
  exact List.append_inj heq (Nat.le_antisymm hle hle')

/-- What begins anywhere has a first place. -/
theorem exists_isFirst (h : ∃ s, s <:+ t ∧ begins s) :
    ∃ before rest, t = before ++ rest ∧ IsFirst begins before rest := by
  induction t with
  | nil =>
    obtain ⟨s, hs, hbegins⟩ := h
    obtain rfl := List.suffix_nil.mp hs
    exact ⟨[], [], rfl, isFirst_nil hbegins⟩
  | cons c t ih =>
    by_cases hc : begins (c :: t)
    · exact ⟨[], c :: t, rfl, isFirst_nil hc⟩
    · obtain ⟨s, hs, hbegins⟩ := h
      rcases List.suffix_cons_iff.mp hs with rfl | hs
      · exact absurd hbegins hc
      · obtain ⟨before, rest, rfl, hfirst⟩ := ih ⟨s, hs, hbegins⟩
        exact ⟨c :: before, rest, rfl, isFirst_cons.mpr ⟨hc, hfirst⟩⟩

end Text

namespace Markup

open Text (IsFirst isFirst_nil isFirst_cons exists_isFirst)

/-- One of the marks begins the text. -/
def BeginsMark (marks : List Text) (t : Text) : Prop := ∃ mark ∈ marks, mark <+: t

/-- A tag begins the text: a less-than sign, a name, and a blank, a slash or a greater-than sign behind it. -/
def BeginsTag (t : Text) : Prop :=
  ∃ name d rest, isName name = true ∧ endsFirstName d = true ∧ t = '<' :: (name ++ d :: rest)

/-- What the content takes the place of in the template `p ++ m ++ q`: the first slot mark; without a slot mark the
first children mark; without either nothing, behind the greater-than sign of the first tag. -/
inductive IsPlace : Text → Text → Text → Prop
  | slotMark {p m q : Text} : m ∈ slotMarks → IsFirst (BeginsMark slotMarks) p (m ++ q) → IsPlace p m q
  | childrenMark {p q : Text} : ¬ HoldsSlot (p ++ childrenMark ++ q) →
      IsFirst (BeginsMark [childrenMark]) p (childrenMark ++ q) → IsPlace p childrenMark q
  | openingTag {front opening q : Text} : IsUnmarked (front ++ '<' :: (opening ++ '>' :: q)) →
      IsFirst BeginsTag front ('<' :: (opening ++ '>' :: q)) → '>' ∉ opening → opening.getLast? ≠ some '/' →
      IsPlace (front ++ '<' :: opening ++ ['>']) [] q

/-- The template has no mark, and its first tag is missing, does not end, or closes itself. -/
inductive LacksPlace : Text → Prop
  | missing {t : Text} : IsUnmarked t → (∀ s, s <:+ t → ¬ BeginsTag s) → LacksPlace t
  | unclosed {front rest : Text} : IsUnmarked (front ++ rest) → IsFirst BeginsTag front rest → '>' ∉ rest →
      LacksPlace (front ++ rest)
  | selfClosing {front opening after : Text} : IsUnmarked (front ++ '<' :: (opening ++ '>' :: after)) →
      IsFirst BeginsTag front ('<' :: (opening ++ '>' :: after)) → '>' ∉ opening → opening.getLast? = some '/' →
      LacksPlace (front ++ '<' :: (opening ++ '>' :: after))

variable {marks : List Text} {t p m q front rest : Text} {c : Char}

/-! ## The searches -/

/-- **A search for marks stops at the first of them.** -/
theorem breakAtMark?_isFirst (h : breakAtMark? marks t = some (p, q)) :
    ∃ m ∈ marks, t = p ++ m ++ q ∧ IsFirst (BeginsMark marks) p (m ++ q) := by
  induction t generalizing p with
  | nil => cases h
  | cons c t ih =>
    cases hfound : marks.find? fun mark => mark.isPrefixOf (c :: t) with
    | some mark =>
      obtain ⟨v, hv⟩ := prefix_of_find? hfound
      rw [breakAtMark?, hfound] at h
      simp only [← hv, List.drop_left, Option.some.injEq, Prod.mk.injEq] at h
      obtain ⟨rfl, rfl⟩ := h
      have hmem := List.mem_of_find?_eq_some hfound
      exact ⟨mark, hmem, hv.symm, isFirst_nil ⟨mark, hmem, List.prefix_append ..⟩⟩
    | none =>
      have hno : ¬ BeginsMark marks (c :: t) := by
        rintro ⟨mark, hmark, hstarts⟩
        simpa [hstarts] using List.find?_eq_none.mp hfound mark hmark
      rw [breakAtMark?_cons fun mark hmark hstarts => hno ⟨mark, hmark, hstarts⟩, Option.map_eq_some_iff] at h
      obtain ⟨⟨p', q'⟩, hbreak, heq⟩ := h
      obtain ⟨rfl, rfl⟩ := Prod.mk.inj heq
      obtain ⟨m, hm, rfl, hfirst⟩ := ih hbreak
      refine ⟨m, hm, rfl, isFirst_cons.mpr ⟨?_, hfirst⟩⟩
      rwa [List.append_assoc] at hno

theorem beginsTag_cons : BeginsTag (c :: t) ↔ c = '<' ∧ beginsElement endsFirstName t = true := by
  constructor
  · rintro ⟨name, d, rest, hname, hd, heq⟩
    obtain ⟨rfl, rfl⟩ := List.cons.inj heq
    have hchar : isNameChar d = false := by
      simp only [endsFirstName, Bool.or_eq_true, decide_eq_true_eq] at hd
      rcases hd with (hblank | rfl) | rfl
      · exact isNameChar_of_isBlank hblank
      · rfl
      · rfl
    exact ⟨rfl, beginsElement_name hname hchar hd rest⟩
  · rintro ⟨rfl, h⟩
    cases t with
    | nil => cases h
    | cons c t =>
      simp only [beginsElement, Bool.and_eq_true] at h
      obtain ⟨hc, hends⟩ := h
      cases hdrop : t.dropWhile isNameChar with
      | nil => simp [hdrop] at hends
      | cons d rest =>
        refine ⟨c :: t.takeWhile isNameChar, d, rest, ?_, by simpa [hdrop] using hends, ?_⟩
        · simp only [isName, hc, Bool.true_and]
          exact List.all_takeWhile
        · rw [List.cons_append, Text.takeWhile_append_of_dropWhile hdrop]

theorem eq_lt_of_beginsTag (h : BeginsTag t) : ∃ rest, t = '<' :: rest ∧ beginsElement endsFirstName rest = true := by
  cases t with
  | nil =>
    obtain ⟨_, _, _, -, -, heq⟩ := h
    cases heq
  | cons c t =>
    obtain ⟨rfl, hbegins⟩ := beginsTag_cons.mp h
    exact ⟨t, rfl, hbegins⟩

/-- **The search for the root stops at the first tag.** -/
theorem rootTag?_of_isFirst (h : IsFirst BeginsTag front rest) :
    rootTag? endsFirstName (front ++ rest) =
      (rootTag? endsFirstName rest).map fun r => { r with before := front ++ r.before } := by
  induction front with
  | nil => cases hr : rootTag? endsFirstName rest <;> simp [hr]
  | cons c front ih =>
    obtain ⟨hno, hrest⟩ := isFirst_cons.mp h
    have hpassed : ¬ (decide (c = '<') && beginsElement endsFirstName (front ++ rest)) = true := by
      simpa [beginsTag_cons] using hno
    rw [List.cons_append, rootTag?, if_neg hpassed, ih hrest]
    cases rootTag? endsFirstName rest <;> rfl

/-- A text in which no tag begins has no root. -/
theorem rootTag?_of_not_beginsTag (h : ∀ s, s <:+ t → ¬ BeginsTag s) : rootTag? endsFirstName t = none := by
  cases hroot : rootTag? endsFirstName t with
  | none => rfl
  | some r =>
    obtain ⟨opening, hopening, -, hbegins⟩ := exists_opening_of_rootTag? hroot
    refine absurd (beginsTag_cons.mpr ⟨rfl, hbegins⟩) (h _ ⟨r.before, ?_⟩)
    rw [← text_of_rootTag? hroot, RootTag.text, hopening]
    simp

/-! ## The place -/

/-- A template without a mark takes its content behind its first tag, or nowhere. -/
theorem IsUnmarked.exists_isPlace_or_lacksPlace (h : IsUnmarked t) :
    (∃ p m q, t = p ++ m ++ q ∧ IsPlace p m q ∧ slot t = .gap p q) ∨
      LacksPlace t ∧ (slot t = .missing ∨ slot t = .selfClosing) := by
  rw [slot_eq, firstMark?_eq_none_iff.mpr h]
  by_cases htag : ∃ s, s <:+ t ∧ BeginsTag s
  · obtain ⟨front, rest, rfl, hfirst⟩ := exists_isFirst htag
    rw [rootTag?_of_isFirst hfirst]
    by_cases hgt : '>' ∈ rest
    · obtain ⟨rest, rfl, hbegins⟩ := eq_lt_of_beginsTag hfirst.here
      obtain ⟨opening, d, after, rfl, hopening, hd⟩ :=
        Text.exists_span (p := (· != '>')) ((List.mem_cons.mp hgt).resolve_left (by decide)) (by simp)
      obtain rfl : d = '>' := by simpa using hd
      have hmem : '>' ∉ opening := fun hmem => by simpa using hopening _ hmem
      rw [rootTag?_opening hbegins hmem]
      by_cases hself : opening.getLast? = some '/'
      · refine .inr ⟨.selfClosing h hfirst hmem hself, .inr ?_⟩
        simp [List.getLast?_cons, hself]
      · refine .inl ⟨front ++ '<' :: opening ++ ['>'], [], after, by simp, .openingTag h hfirst hmem hself, ?_⟩
        have hlast : ('<' :: opening).getLast? ≠ some '/' := by
          cases opening with
          | nil => decide
          | cons c opening => rwa [List.getLast?_cons_cons]
        simp [hlast]
    · rw [rootTag?_of_not_mem hgt]
      exact .inr ⟨.unclosed h hfirst hgt, .inl rfl⟩
  · have hno : ∀ s, s <:+ t → ¬ BeginsTag s := fun s hs hbegins => htag ⟨s, hs, hbegins⟩
    rw [rootTag?_of_not_beginsTag hno]
    exact .inr ⟨.missing h hno, .inl rfl⟩

/-- **A template has a place for its content, or it lacks one.** -/
theorem exists_isPlace_or_lacksPlace (t : Text) :
    (∃ p m q, t = p ++ m ++ q ∧ IsPlace p m q ∧ slot t = .gap p q) ∨
      LacksPlace t ∧ (slot t = .missing ∨ slot t = .selfClosing) := by
  cases hslot : breakAtMark? slotMarks t with
  | some parts =>
    obtain ⟨m, hm, ht, hfirst⟩ := breakAtMark?_isFirst hslot
    exact .inl ⟨parts.1, m, parts.2, ht, .slotMark hm hfirst, by rw [slot_eq, firstMark?, hslot]; rfl⟩
  | none =>
    have hnoSlot : ¬ HoldsSlot t := by
      simpa [HoldsSlot] using (breakAtMark?_eq_none_iff (by decide)).mp hslot
    cases hchildren : breakAtMark? [childrenMark] t with
    | some parts =>
      obtain ⟨m, hm, ht, hfirst⟩ := breakAtMark?_isFirst hchildren
      obtain rfl := List.mem_singleton.mp hm
      exact .inl ⟨parts.1, childrenMark, parts.2, ht, .childrenMark (ht ▸ hnoSlot) hfirst,
        by rw [slot_eq, firstMark?, hslot, hchildren]; rfl⟩
    | none =>
      have hunmarked : firstMark? t = none := by rw [firstMark?, hslot, hchildren]; rfl
      exact (firstMark?_eq_none_iff.mp hunmarked).exists_isPlace_or_lacksPlace

theorem LacksPlace.isUnmarked (h : LacksPlace t) : IsUnmarked t := by
  cases h <;> assumption

/-- **No template has a place and lacks one.** -/
theorem IsPlace.not_lacksPlace (h : IsPlace p m q) : ¬ LacksPlace (p ++ m ++ q) := by
  intro hlacks
  cases h with
  | slotMark hm hfirst => exact hlacks.isUnmarked.1 ⟨m, hm, p, q, rfl⟩
  | childrenMark hnoSlot hfirst => exact hlacks.isUnmarked.2 ⟨p, q, rfl⟩
  | @openingTag front opening q hunmarked hfirst hopening hself =>
    have htext : front ++ '<' :: opening ++ ['>'] ++ [] ++ q = front ++ '<' :: (opening ++ '>' :: q) := by simp
    rw [htext] at hlacks
    generalize hwhole : front ++ '<' :: (opening ++ '>' :: q) = whole at hlacks
    cases hlacks with
    | missing _ hno => exact hno _ ⟨front, hwhole⟩ hfirst.here
    | unclosed _ hfirst' hgt =>
      obtain ⟨rfl, rfl⟩ := hfirst.unique hfirst' hwhole
      simp at hgt
    | selfClosing _ hfirst' hopening' hself' =>
      obtain ⟨rfl, heq⟩ := hfirst.unique hfirst' hwhole
      obtain ⟨rfl, -, -⟩ := Text.append_cons_inj (Text.ne_of_not_mem hopening) (by decide)
        (Text.ne_of_not_mem hopening') (by decide) (List.cons.inj heq).2
      exact hself hself'

/-- **The place for the content is told by the template alone, and the content is written there once, as it is.**
Content that is blank is dropped, and so is all content if and only if the template lacks a place. -/
theorem fill_literally (t : Text) :
    (∀ c, Text.isAllBlank c = true → fill t c = t) ∧
      ((∀ c, fill t c = t) ∨
        ∃ p m q, t = p ++ m ++ q ∧ IsPlace p m q ∧ ∀ c, Text.isAllBlank c = false → fill t c = p ++ c ++ q) ∧
      ((∀ c, fill t c = t) ↔ LacksPlace t) := by
  refine ⟨fun c hc => fill_of_isAllBlank hc, ?_⟩
  rcases exists_isPlace_or_lacksPlace t with ⟨p, m, q, ht, hplace, hslot⟩ | ⟨hlacks, hslot⟩
  · have hfill : ∀ c, Text.isAllBlank c = false → fill t c = p ++ c ++ q := by
      intro c hc
      rw [fill, hc, hslot]
      rfl
    refine ⟨.inr ⟨p, m, q, ht, hplace, hfill⟩, fun hsame => ?_, fun hlacks => ?_⟩
    · -- content longer than the template cannot be dropped
      have hlong := congrArg List.length ((hsame _).symm.trans (hfill ('x' :: t) rfl))
      simp only [List.length_append, List.length_cons] at hlong
      omega
    · exact absurd hlacks (ht ▸ hplace.not_lacksPlace)
  · have hfill : ∀ c, fill t c = t := by
      intro c
      rcases hslot with hslot | hslot <;> simp [fill, hslot]
    exact ⟨.inl hfill, fun _ => hlacks, fun _ => hfill⟩

/-- The longest of the slot marks comes first, behind the children mark, and the content looks like a mark. -/
theorem fill_literally_slots :
    let t := "<p>\x7bchildren\x7d<slot /><slot></p>".toList
    fill t " ".toList = t ∧ ¬ LacksPlace t ∧ ∃ p m q, t = p ++ m ++ q ∧ IsPlace p m q ∧
      p ++ "<slot>\\1".toList ++ q = "<p>\x7bchildren\x7d<slot>\\1<slot></p>".toList := by
  intro t
  obtain ⟨hblank, hplace, hlacks⟩ := fill_literally t
  have hfilled : fill t "<slot>\\1".toList = "<p>\x7bchildren\x7d<slot>\\1<slot></p>".toList := by decide
  have hkept : ¬ ∀ c, fill t c = t := fun hsame => absurd (hfilled.symm.trans (hsame _)) (by decide)
  obtain ⟨p, m, q, ht, hm, hfill⟩ := hplace.resolve_left hkept
  exact ⟨hblank _ rfl, fun h => hkept (hlacks.mpr h), p, m, q, ht, hm, (hfill _ rfl).symm.trans hfilled⟩

end Markup

end Inlay

import Inlay.Attributes.Write
import Inlay.Proofs.Attributes.Written

/-!
# Where the class attribute of a tag stands

The class attribute of a tag is looked for in its raw text: the name `class` behind a blank, an equals sign that may
have blanks around it, and a value without quotes between two quotes of one kind. The first such place counts,
whatever else it may be a part of.

* `IsClassText` — a class attribute as it is written, and its value.
* `ClassAt`, `FirstClassAt` — a text broken at a class attribute, and at its first one.

Main statements: `readClass?_eq_some_iff`, `breakAtClass?_eq_some_iff` and `breakAtClass?_eq_none_iff` (the search
finds the first class attribute if there is one).
-/

namespace Inlay

open Markup

/-- What is written is a class attribute with the given value. -/
def IsClassText (value written : Text) : Prop :=
  ∃ gap gap' quote, Text.isAllBlank gap = true ∧ Text.isAllBlank gap' = true ∧ isQuote quote = true ∧
    value.any isQuote = false ∧ written = className ++ gap ++ '=' :: (gap' ++ quote :: (value ++ [quote]))

/-- A class attribute stands in the text between `before` and `after`, behind a blank. `afterBlank` tells whether a
blank stands before the text. -/
structure ClassAt (afterBlank : Bool) (t before value after : Text) : Prop where
  blank : before.getLast?.elim afterBlank Text.isBlank = true
  text : ∃ written, IsClassText value written ∧ t = before ++ written ++ after

/-- The first class attribute of the text stands between `before` and `after`. -/
structure FirstClassAt (afterBlank : Bool) (t before value after : Text) : Prop
    extends ClassAt afterBlank t before value after where
  first : ∀ b v a, ClassAt afterBlank t b v a → before.length ≤ b.length

variable {afterBlank : Bool} {c d : Char} {t rest before value after written : Text}

/-! ## Reading -/

theorem IsClassText.ne_nil (h : IsClassText value written) : written ≠ [] := by
  obtain ⟨gap, gap', quote, -, -, -, -, rfl⟩ := h
  simp

theorem IsClassText.subset (h : IsClassText value written) : value ⊆ written := by
  obtain ⟨gap, gap', quote, -, -, -, -, rfl⟩ := h
  intro c hc
  simp [hc]

theorem IsClassText.readClass? (h : IsClassText value written) (after : Text) :
    readClass? (written ++ after) = some (value, after) := by
  obtain ⟨gap, gap', quote, hgap, hgap', hquote, hvalue, rfl⟩ := h
  have hne : ∀ c ∈ value, (!isQuote c) = true := by simpa using hvalue
  have hstop : (!isQuote quote) = false := by simp [hquote]
  have htext : className ++ gap ++ '=' :: (gap' ++ quote :: (value ++ [quote])) ++ after =
      className ++ (gap ++ '=' :: (gap' ++ quote :: (value ++ quote :: after))) := by simp
  have hequals : (gap ++ '=' :: (gap' ++ quote :: (value ++ quote :: after))).dropWhile Text.isBlank =
      '=' :: (gap' ++ quote :: (value ++ quote :: after)) :=
    Text.dropWhile_append_cons (List.all_eq_true.mp hgap) (by decide)
  have hbody : (gap' ++ quote :: (value ++ quote :: after)).dropWhile Text.isBlank =
      quote :: (value ++ quote :: after) :=
    Text.dropWhile_append_cons (List.all_eq_true.mp hgap') (isBlank_of_isQuote hquote)
  rw [htext, Inlay.readClass?, if_pos (List.isPrefixOf_iff_prefix.mpr (List.prefix_append ..)), List.drop_left,
    hequals]
  simp only [hbody, Text.dropWhile_append_cons hne hstop, Text.takeWhile_append_cons hne hstop, hquote,
    decide_true, Bool.and_self, if_true]

/-- **What is read is a class attribute.** -/
theorem readClass?_eq_some_iff :
    readClass? t = some (value, after) ↔ ∃ written, IsClassText value written ∧ t = written ++ after := by
  constructor
  · intro h
    unfold readClass? at h
    split at h
    · next hstart =>
      obtain ⟨u, rfl⟩ := List.isPrefixOf_iff_prefix.mp hstart
      rw [List.drop_left] at h
      split at h
      · next tail htail =>
        split at h
        · next quote body hbody =>
          split at h
          · next close more hmore =>
            split at h
            · next hquotes =>
              obtain ⟨hquote, rfl⟩ : isQuote quote = true ∧ close = quote := by simpa using hquotes
              obtain ⟨rfl, rfl⟩ := Prod.mk.inj (Option.some.inj h)
              have hvalue : ∀ c ∈ body.takeWhile fun c => !isQuote c, isQuote c = false := by
                intro c hc
                simpa using Text.of_mem_takeWhile hc
              refine ⟨_, ⟨u.takeWhile Text.isBlank, tail.takeWhile Text.isBlank, close, List.all_takeWhile,
                List.all_takeWhile, hquote, by simpa using hvalue, rfl⟩, ?_⟩
              calc className ++ u
                  = className ++ (u.takeWhile Text.isBlank ++ '=' :: tail) := by
                    rw [Text.takeWhile_append_of_dropWhile htail]
                _ = className ++ (u.takeWhile Text.isBlank ++ '=' :: (tail.takeWhile Text.isBlank ++
                      close :: body)) := by
                    rw [Text.takeWhile_append_of_dropWhile hbody]
                _ = className ++ (u.takeWhile Text.isBlank ++ '=' :: (tail.takeWhile Text.isBlank ++
                      close :: (body.takeWhile (fun c => !isQuote c) ++ close :: more))) := by
                    rw [Text.takeWhile_append_of_dropWhile hmore]
                _ = _ := by simp
            · cases h
          · cases h
        · cases h
      · cases h
    · cases h
  · rintro ⟨written, hwritten, rfl⟩
    exact hwritten.readClass? after

/-! ## Searching -/

theorem classAt_nil_iff :
    ClassAt afterBlank t [] value after ↔ afterBlank = true ∧ readClass? t = some (value, after) := by
  rw [readClass?_eq_some_iff]
  constructor
  · rintro ⟨hblank, htext⟩
    exact ⟨hblank, htext⟩
  · rintro ⟨hblank, htext⟩
    exact ⟨hblank, htext⟩

theorem classAt_cons_iff :
    ClassAt afterBlank (c :: rest) (d :: before) value after ↔
      d = c ∧ ClassAt (Text.isBlank c) rest before value after := by
  have hlast : (d :: before).getLast?.elim afterBlank Text.isBlank =
      before.getLast?.elim (Text.isBlank d) Text.isBlank := by
    rw [List.getLast?_cons]
    cases before.getLast? <;> rfl
  constructor
  · rintro ⟨hblank, written, hwritten, heq⟩
    obtain ⟨rfl, hrest⟩ := List.cons.inj heq
    exact ⟨rfl, hlast ▸ hblank, written, hwritten, hrest⟩
  · rintro ⟨rfl, hblank, written, hwritten, rfl⟩
    exact ⟨hlast.trans hblank, written, hwritten, rfl⟩

theorem not_classAt_nil : ¬ ClassAt afterBlank [] before value after := by
  rintro ⟨-, written, hwritten, heq⟩
  have hnil : before = [] ∧ written = [] ∧ after = [] := by simpa using heq.symm
  exact hwritten.ne_nil hnil.2.1

/-- Where no class attribute begins a text, each one in it stands behind the first character. -/
theorem exists_cons_of_classAt (hnone : (if afterBlank then readClass? (c :: rest) else none) = none)
    (h : ClassAt afterBlank (c :: rest) before value after) :
    ∃ b, before = c :: b ∧ ClassAt (Text.isBlank c) rest b value after := by
  cases before with
  | nil =>
    obtain ⟨rfl, hread⟩ := classAt_nil_iff.mp h
    simp [hread] at hnone
  | cons d b =>
    obtain ⟨rfl, hb⟩ := classAt_cons_iff.mp h
    exact ⟨b, rfl, hb⟩

theorem breakAtClass?_eq_none_iff :
    breakAtClass? afterBlank t = none ↔ ∀ before value after, ¬ ClassAt afterBlank t before value after := by
  induction t generalizing afterBlank with
  | nil => exact iff_of_true rfl fun _ _ _ => not_classAt_nil
  | cons c rest ih =>
    rw [breakAtClass?]
    split
    · next value after hfound =>
      refine iff_of_false (by simp) fun h => h [] value after (classAt_nil_iff.mpr ?_)
      simpa using hfound
    · next hnone =>
      rw [Option.map_eq_none_iff, ih]
      constructor
      · intro h before value after hat
        obtain ⟨b, -, hb⟩ := exists_cons_of_classAt hnone hat
        exact h b value after hb
      · intro h before value after hat
        exact h (c :: before) value after (classAt_cons_iff.mpr ⟨rfl, hat⟩)

/-- **The first class attribute is found.** -/
theorem breakAtClass?_eq_some_iff :
    breakAtClass? afterBlank t = some (before, value, after) ↔ FirstClassAt afterBlank t before value after := by
  induction t generalizing afterBlank before with
  | nil => exact iff_of_false (by simp [breakAtClass?]) fun h => not_classAt_nil h.toClassAt
  | cons c rest ih =>
    rw [breakAtClass?]
    split
    · next v a hfound =>
      have hhere : afterBlank = true ∧ readClass? (c :: rest) = some (v, a) := by simpa using hfound
      constructor
      · intro h
        obtain ⟨rfl, rfl, rfl⟩ : [] = before ∧ v = value ∧ a = after := by simpa using h
        exact ⟨classAt_nil_iff.mpr hhere, fun _ _ _ _ => Nat.zero_le _⟩
      · intro h
        have hlength := h.first [] v a (classAt_nil_iff.mpr hhere)
        obtain rfl : before = [] := List.length_eq_zero_iff.mp (Nat.le_zero.mp hlength)
        have hread := (classAt_nil_iff.mp h.toClassAt).2
        rw [hhere.2] at hread
        cases hread
        rfl
    · next hnone =>
      constructor
      · intro h
        obtain ⟨⟨b, v, a⟩, hfound, heq⟩ := Option.map_eq_some_iff.mp h
        cases heq
        have hfirst := ih.mp hfound
        refine ⟨classAt_cons_iff.mpr ⟨rfl, hfirst.toClassAt⟩, fun b' v' a' hat => ?_⟩
        obtain ⟨b', rfl, hb'⟩ := exists_cons_of_classAt hnone hat
        exact Nat.succ_le_succ (hfirst.first b' v' a' hb')
      · intro h
        obtain ⟨b, rfl, hb⟩ := exists_cons_of_classAt hnone h.toClassAt
        have hfirst : FirstClassAt (Text.isBlank c) rest b value after := ⟨hb, fun b' v' a' hat =>
          Nat.le_of_succ_le_succ (h.first (c :: b') v' a' (classAt_cons_iff.mpr ⟨rfl, hat⟩))⟩
        rw [ih.mpr hfirst]
        rfl

end Inlay

import Inlay.Markup.Name

/-!
# Opening tags of a page

An opening tag is a less-than sign, a name, any text without greater-than signs, and a greater-than
sign. The scan of a page is the list of its opening tags from left to right; a tag begins where the
one before has ended, or later.

* `Tag` — a tag with its place.
* `Tag.read?` — reads the tag that follows a less-than sign.
* `Tag.scan` — all tags of a page.

Main statements: `Tag.eq_of_read?` (what is read is the text itself), `Tag.length_lt_of_read?` (each
tag takes at least one character, so the scan ends).
-/

namespace Inlay.Markup

/-- An opening tag: where its less-than sign stands, the position after its greater-than sign, its
name, and the raw text between the name and the greater-than sign. -/
structure Tag where
  start : Nat
  stop : Nat
  name : Text
  attributes : Text
  deriving DecidableEq, Repr

namespace Tag

/-- The text of an opening tag. -/
def opening (name attributes : Text) : Text := '<' :: (name ++ attributes ++ ['>'])

/-- The text of a closing tag. -/
def closing (name : Text) : Text := '<' :: '/' :: (name ++ ['>'])

/-- Reads a name, the text up to the next greater-than sign, and what comes after that sign, from
the text that follows a less-than sign. -/
def read? : Text → Option (Text × Text × Text)
  | [] => none
  | c :: rest =>
    if isTagStart c then
      let name := c :: rest.takeWhile isTagChar
      let tail := rest.dropWhile isTagChar
      match tail.dropWhile (· != '>') with
      | [] => none
      | _ :: after => some (name, tail.takeWhile (· != '>'), after)
    else none

theorem eq_of_read? {t name attributes after : Text} (h : read? t = some (name, attributes, after)) :
    t = name ++ attributes ++ '>' :: after := by
  cases t with
  | nil => simp [read?] at h
  | cons c rest =>
    simp only [read?] at h
    split at h
    · split at h
      · simp at h
      · next d after' hd =>
        simp only [Option.some.injEq, Prod.mk.injEq] at h
        obtain ⟨rfl, rfl, rfl⟩ := h
        have hgt : d = '>' := by
          have := List.head?_dropWhile_not (· != '>') (rest.dropWhile isTagChar)
          simpa [hd] using this
        have htail := List.takeWhile_append_dropWhile (p := (· != '>'))
          (l := rest.dropWhile isTagChar)
        have hrest := List.takeWhile_append_dropWhile (p := isTagChar) (l := rest)
        rw [hd, hgt] at htail
        simp only [List.cons_append, List.append_assoc]
        rw [htail, hrest]
    · simp at h

theorem length_lt_of_read? {t name attributes after : Text}
    (h : read? t = some (name, attributes, after)) : after.length < t.length := by
  rw [eq_of_read? h]; simp; omega

/-- The opening tags of `t`, which stands at position `i` of a page. -/
def scanFrom (i : Nat) : Text → List Tag
  | [] => []
  | c :: rest =>
    if c = '<' then
      match h : read? rest with
      | some (name, attributes, after) =>
        let stop := i + (name.length + attributes.length + 2)
        ⟨i, stop, name, attributes⟩ :: scanFrom stop after
      | none => scanFrom (i + 1) rest
    else scanFrom (i + 1) rest
termination_by t => t.length
decreasing_by
  · have := length_lt_of_read? h; simp; omega
  · simp
  · simp

/-- The opening tags of a page, from left to right. -/
def scan (page : Text) : List Tag := scanFrom 0 page

end Tag

end Inlay.Markup

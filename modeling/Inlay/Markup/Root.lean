import Inlay.Markup.Name
import Inlay.Text.Blank

/-!
# The root of a template

The root is the first place where a less-than sign, a name and a delimiter follow each other; its
opening tag goes up to the next greater-than sign. Comments and document types do not begin with a
letter, so they are passed over.

* `RootTag` — a template broken at its root's opening tag.
* `rootTag?` — the root for a given class of delimiters.
* `endsRootName`, `endsFirstName` — the two classes in use: a blank or a greater-than sign, and the
  same with the slash of a self-closing tag.

Main statement: `text_of_rootTag?` — breaking a template loses nothing but puts the greater-than sign
between the parts.
-/

namespace Inlay.Markup

/-- A template broken at its root: the text before the opening tag, the opening tag without its
greater-than sign, and the text after that sign. -/
structure RootTag where
  before : Text
  opening : Text
  after : Text
  deriving DecidableEq, Repr

namespace RootTag

/-- Where the opening tag begins. -/
def start (r : RootTag) : Nat := r.before.length

/-- Where the greater-than sign of the opening tag stands. -/
def stop (r : RootTag) : Nat := r.before.length + r.opening.length

/-- The whole template. -/
def text (r : RootTag) : Text := r.before ++ r.opening ++ '>' :: r.after

end RootTag

/-- What may follow the name of an element that attributes are given to. -/
def endsRootName (c : Char) : Bool := Text.isBlank c || c = '>'

/-- What may follow the name of an element that content is put into. -/
def endsFirstName (c : Char) : Bool := Text.isBlank c || c = '/' || c = '>'

/-- Whether `t`, which follows a less-than sign, begins with a name and a delimiter. -/
def beginsElement (delimiter : Char → Bool) (t : Text) : Bool :=
  match t with
  | [] => false
  | c :: rest =>
    isNameStart c &&
      match rest.dropWhile isNameChar with
      | [] => false
      | d :: _ => delimiter d

/-- The template broken at its root, if it has one and the root's opening tag ends. -/
def rootTag? (delimiter : Char → Bool) : Text → Option RootTag
  | [] => none
  | c :: rest =>
    if c = '<' && beginsElement delimiter rest then
      match rest.dropWhile (· != '>') with
      | [] => none
      | _ :: after => some ⟨[], c :: rest.takeWhile (· != '>'), after⟩
    else
      (rootTag? delimiter rest).map fun r => ⟨c :: r.before, r.opening, r.after⟩

theorem text_of_rootTag? {delimiter : Char → Bool} {t : Text} {r : RootTag}
    (h : rootTag? delimiter t = some r) : r.text = t := by
  induction t generalizing r with
  | nil => simp [rootTag?] at h
  | cons c rest ih =>
    simp only [rootTag?] at h
    split at h
    · split at h
      · simp at h
      · next d after hd =>
        simp only [Option.some.injEq] at h
        subst h
        have hgt : d = '>' := by
          have := List.head?_dropWhile_not (· != '>') rest
          simpa [hd] using this
        have hrest := List.takeWhile_append_dropWhile (p := (· != '>')) (l := rest)
        rw [hd, hgt] at hrest
        simp [RootTag.text, hrest]
    · obtain ⟨q, hq, rfl⟩ := Option.map_eq_some_iff.mp h
      have := ih hq
      simp only [RootTag.text, List.cons_append, List.append_assoc] at this ⊢
      rw [this]

end Inlay.Markup

import Inlay.Text.Basic

/-!
# Names in markup

A name is a letter followed by letters, digits and hyphens. Two classes of letters are in use:
template roots and attributes take the ASCII letters, page tags also the four letters that are
equal to an ASCII letter when letter case is ignored.

* `isNameStart`, `isNameChar` — the characters of attribute names and of template roots.
* `isTagStart`, `isTagChar` — the characters of tag names in pages.
* `isName` — whether a whole text is an attribute name.
-/

namespace Inlay.Markup

/-- Characters that may begin an attribute name or the name of a template's root. -/
def isNameStart (c : Char) : Bool := c.isAlpha

/-- Characters that may stand inside such a name. -/
def isNameChar (c : Char) : Bool := c.isAlphanum || c = '-'

/-- Letters outside ASCII that are equal to an ASCII letter when letter case is ignored: dotted
capital I, dotless small i, long s and the kelvin sign. -/
def foldedLetters : List Char := ['\u0130', '\u0131', '\u017F', '\u212A']

/-- Characters that may begin the name of a page tag. -/
def isTagStart (c : Char) : Bool := isNameStart c || foldedLetters.contains c

/-- Characters that may stand inside the name of a page tag. -/
def isTagChar (c : Char) : Bool := isNameChar c || foldedLetters.contains c

/-- Whether the whole of `t` is an attribute name. -/
def isName : Text → Bool
  | [] => false
  | c :: rest => isNameStart c && rest.all isNameChar

theorem isNameChar_of_isNameStart {c : Char} (h : isNameStart c = true) : isNameChar c = true := by
  simp_all [isNameStart, isNameChar, Char.isAlphanum]

theorem isTagChar_of_isTagStart {c : Char} (h : isTagStart c = true) : isTagChar c = true := by
  simp only [isTagStart, isTagChar, Bool.or_eq_true] at *
  exact h.imp_left isNameChar_of_isNameStart

end Inlay.Markup

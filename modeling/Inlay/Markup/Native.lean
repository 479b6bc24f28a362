import Inlay.Text.Lowercase

/-!
# Native tags

The tags of HTML itself. They are never taken for components; any other tag may be one.

* `NativeSet` — a set of names in lower case.
* `NativeSet.html` — the names of HTML.
* `NativeSet.isNative` — whether a tag name, in any letter case, is native.

Main statement: `NativeSet.isNative_add` — adding names adds exactly those.
-/

namespace Inlay.Markup

/-- Native tag names, in lower case. -/
structure NativeSet where
  names : List Text
  deriving DecidableEq, Repr

/-- The tag names of HTML, in alphabetical order. -/
def htmlNames : List String := [
  "a", "abbr", "address", "area", "article", "aside", "audio", "b", "base", "bdi", "bdo",
  "blockquote", "body", "br", "button", "canvas", "caption", "cite", "code", "col", "colgroup",
  "data", "datalist", "dd", "del", "details", "dfn", "dialog", "div", "dl", "dt", "em", "embed",
  "fieldset", "figcaption", "figure", "footer", "form", "h1", "h2", "h3", "h4", "h5", "h6",
  "head", "header", "hgroup", "hr", "html", "i", "iframe", "img", "input", "ins", "kbd", "label",
  "legend", "li", "link", "main", "map", "mark", "meta", "meter", "nav", "noscript", "object",
  "ol", "optgroup", "option", "output", "p", "param", "picture", "pre", "progress", "q", "rp",
  "rt", "ruby", "s", "samp", "script", "section", "select", "small", "source", "span", "strong",
  "style", "sub", "summary", "sup", "svg", "table", "tbody", "td", "template", "textarea",
  "tfoot", "th", "thead", "time", "title", "tr", "track", "u", "ul", "var", "video", "wbr"
]

namespace NativeSet

/-- The tag names of HTML. -/
def html : NativeSet := ⟨htmlNames.map String.toList⟩

/-- The set with further names, which are taken as they are. -/
def add (s : NativeSet) (extra : List Text) : NativeSet :=
  ⟨s.names ++ extra.filter fun name => !s.names.contains name⟩

/-- Whether the tag called `name` is native, in whatever letter case it is written. -/
def isNative (s : NativeSet) (name : Text) : Bool := s.names.contains (Text.lower name)

theorem isNative_add (s : NativeSet) (extra : List Text) (name : Text) :
    (s.add extra).isNative name = (s.isNative name || extra.contains (Text.lower name)) := by
  rw [Bool.eq_iff_iff]
  simp only [isNative, add, List.contains_eq_mem, List.mem_append, List.mem_filter,
    Bool.not_eq_true', decide_eq_false_iff_not, Bool.or_eq_true, decide_eq_true_eq]
  by_cases h : Text.lower name ∈ s.names <;> simp [h]

end NativeSet

end Inlay.Markup

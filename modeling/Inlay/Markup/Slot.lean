import Inlay.Markup.Root

/-!
# The slot of a template

The content of a component's tag is put into the slot of its template. The slot is the first of the
three slot marks; without such a mark it is the first children mark; without either it lies right
behind the opening tag of the template's first element.

* `Slot` — where the content goes, told by the template alone.
* `slot` — the slot of a template.
* `fill` — the template with content in its slot.

Main statement: `fill_of_isAllBlank` (blank content leaves the template as it is).
-/

namespace Inlay.Markup

/-- Where the content of a component's tag goes: between two parts of the template, nowhere because
the first element closes itself, or nowhere because there is no element. -/
inductive Slot where
  | gap (before after : Text)
  | selfClosing
  | missing
  deriving DecidableEq, Repr

/-- The three ways to write a slot mark. -/
def slotMarks : List Text :=
  [['<', 's', 'l', 'o', 't', '>'], ['<', 's', 'l', 'o', 't', '/', '>'],
    ['<', 's', 'l', 'o', 't', ' ', '/', '>']]

/-- The children mark. -/
def childrenMark : Text := ['\x7B', 'c', 'h', 'i', 'l', 'd', 'r', 'e', 'n', '\x7D']

/-- The text before and after the first place where one of the marks stands. -/
def breakAtMark? (marks : List Text) : Text → Option (Text × Text)
  | [] => none
  | c :: rest =>
    match marks.find? fun mark => mark.isPrefixOf (c :: rest) with
    | some mark => some ([], (c :: rest).drop mark.length)
    | none => (breakAtMark? marks rest).map fun parts => (c :: parts.1, parts.2)

/-- The slot of a template. -/
def slot (template : Text) : Slot :=
  match breakAtMark? slotMarks template with
  | some (before, after) => .gap before after
  | none =>
    match Text.breakOn? childrenMark template with
    | some (before, after) => .gap before after
    | none =>
      match rootTag? endsFirstName template with
      | none => .missing
      | some r =>
        if r.opening.getLast? = some '/' then .selfClosing
        else .gap (r.before ++ r.opening ++ ['>']) r.after

/-- Whether content that is not blank finds no place because the first element closes itself. -/
def refuses (template content : Text) : Bool :=
  !Text.isAllBlank content && slot template = .selfClosing

/-- The template with `content` in its slot; blank content is dropped. -/
def fill (template content : Text) : Text :=
  if Text.isAllBlank content then template
  else
    match slot template with
    | .gap before after => before ++ content ++ after
    | .selfClosing => template
    | .missing => template

theorem fill_of_isAllBlank {template content : Text} (h : Text.isAllBlank content = true) :
    fill template content = template := by
  simp [fill, h]

end Inlay.Markup

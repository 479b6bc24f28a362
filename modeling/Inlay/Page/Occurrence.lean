import Inlay.Catalogue
import Inlay.Markup.Closing
import Inlay.Markup.Native

/-!
# Component tags in a page

A page is a text that changes step by step. One step looks for the first component tag that has a
matching closing tag; component tags without one are passed over and noted.

* `matchingClose` — where the closing tag stands that matches a tag, or the failure that there is none.
* `Occurrence` — a component tag with its matching closing tag.
* `Draft`, `PageAction` — the page under work, and a step on it.
* `Draft.occurrence?` — the first component tag that can be replaced.
-/

namespace Inlay

open Markup

/-- The position of the closing tag that matches an opening tag called `name` which ends at position
`stop` of the page; fails if there is none. -/
def matchingClose (page name : Text) (stop : Int) : Except Failure Nat :=
  match closing? page name stop with
  | some close => .ok close
  | none => .error (.unterminated name stop)

/-- A component tag in a page: its name and raw attribute text as written, where its less-than sign
stands, the position after its greater-than sign, and where its closing tag stands. -/
structure Occurrence where
  name : Text
  attributes : Text
  start : Int
  openEnd : Int
  closeStart : Int
  deriving DecidableEq, Repr

namespace Occurrence

/-- The text of the opening tag. -/
def openingTag (o : Occurrence) : Text := Tag.opening o.name o.attributes

/-- The text of the closing tag. -/
def closingTag (o : Occurrence) : Text := Tag.closing o.name

/-- The position after the closing tag. -/
def closeEnd (o : Occurrence) : Int := o.closeStart + o.closingTag.length

end Occurrence

/-- A page under work: its text, and the names of the component tags that the latest search has passed
over because no closing tag matches them. -/
structure Draft where
  content : Text
  skipped : List Text := []
  deriving DecidableEq, Repr

/-- The state of a step on a page. -/
structure PageState where
  draft : Draft
  workspace : Workspace

/-- A step on a page. When it fails, what it has done so far stays. -/
abbrev PageAction := ExceptT Failure (StateM PageState)

namespace PageAction

/-- A step of the run as a step on a page. -/
def lift {α : Type} (step : Action α) : PageAction α := do
  let s ← get
  let (result, workspace) := step.run.run s.workspace
  set { s with workspace := workspace }
  match result with
  | .ok a => pure a
  | .error failure => throw failure

/-- A step on a page as a step of the run: the page is `draft` at its beginning. Yields how the step
ended and what the page is then. -/
def runOn {α : Type} (draft : Draft) (step : PageAction α) : Action (Except Failure α × Draft) := do
  let (result, s) := step.run.run ⟨draft, ← get⟩
  set s.workspace
  return (result, s.draft)

/-- Changes the page. -/
def update (change : Draft → Draft) : PageAction Unit :=
  modify fun s => { s with draft := change s.draft }

end PageAction

namespace Draft

/-- Whether the tag called `name` is a component tag: not native, and with a template. -/
def isComponent (native : NativeSet) (name : Text) : Action Bool := do
  if native.isNative name then return false else Catalogue.contains name

/-- The first of the given tags of `page` that is a component tag with a matching closing tag. The
component tags before it are noted as passed over. -/
def firstAmong (native : NativeSet) (page : Text) : List Tag → PageAction (Option Occurrence)
  | [] => return none
  | tag :: rest => do
    if ← PageAction.lift (isComponent native tag.name) then
      match closing? page tag.name tag.stop with
      | some close => return some ⟨tag.name, tag.attributes, tag.start, tag.stop, close⟩
      | none =>
        PageAction.lift (Action.tell (.tagSkipped tag.name tag.stop))
        PageAction.update fun draft => { draft with skipped := draft.skipped ++ [tag.name] }
        firstAmong native page rest
    else
      firstAmong native page rest

/-- The first component tag of the page that has a matching closing tag. -/
def occurrence? (native : NativeSet) : PageAction (Option Occurrence) := do
  PageAction.update fun draft => { draft with skipped := [] }
  let page := (← get).draft.content
  firstAmong native page (Tag.scan page)

end Draft

end Inlay

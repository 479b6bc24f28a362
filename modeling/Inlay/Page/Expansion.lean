import Inlay.Page.Occurrence
import Inlay.Attributes.Write
import Inlay.Markup.Slot

/-!
# Expanding a page

A component tag is replaced by its template, which takes the content of the tag into its slot and the
attributes of the tag onto its root. Expanding repeats this until no component tag can be replaced, or
until a ceiling of passes is reached, which stops components that contain themselves.

* `Occurrence.expansion` — what stands for a component tag.
* `Draft.replace` — one replacement.
* `Draft.expand` — all of them, with `Expansion` as its account.

Main statement: `Draft.length_splice` (a replacement keeps all characters before and after the tag).
-/

namespace Inlay

open Markup

/-- The account of an expansion: the text of the page, the number of searches, the number of
replacements, the component tags that are left because no closing tag matches them, and whether the
ceiling of passes ended it. -/
structure Expansion where
  content : Text
  passes : Nat
  replacements : Nat
  skipped : List Text
  ceilingReached : Bool
  deriving DecidableEq, Repr

/-- The content of the tag, without blanks at its ends. -/
def Occurrence.inner (o : Occurrence) (page : Text) : Text :=
  Text.strip (Text.cut page o.openEnd o.closeStart)

/-- The template with the content in its slot and then the tag's attributes on its root. -/
def Occurrence.expansion (o : Occurrence) (template inner : Text) : Text :=
  (Attributes.ofTag o.openingTag).addTo (fill template inner)

namespace Draft

/-- The page with `new` in the place of a component tag. -/
def splice (page : Text) (o : Occurrence) (new : Text) : Text :=
  Text.cut page 0 o.start ++ new ++ Text.cut page o.closeEnd page.length

/-- Replaces a component tag by its expanded template. -/
def replace (o : Occurrence) : PageAction Unit := do
  let page := (← get).draft.content
  let inner := o.inner page
  let template ← PageAction.lift (Catalogue.load o.name)
  if refuses template inner then
    PageAction.lift (Action.tell .contentRefused)
  let new := o.expansion template inner
  PageAction.update fun draft => { draft with content := splice page o new }
  PageAction.lift (Action.tell (.tagReplaced o.name o.start (o.closeEnd - o.start) new.length))

/-- Searches and replaces, at most `left` more times after `passes` passes. Yields the number of passes,
the number of replacements, and whether no pass was left. -/
def expandFrom (native : NativeSet) : Nat → Nat → PageAction (Nat × Nat × Bool)
  | 0, passes => do
    PageAction.lift (Action.tell (.passesExhausted passes))
    return (passes, passes, true)
  | left + 1, passes => do
    match ← occurrence? native with
    | none => return (passes + 1, passes, false)
    | some o => do
      replace o
      expandFrom native left (passes + 1)

/-- Replaces component tags until none can be replaced, in at most `ceiling` passes. -/
def expand (native : NativeSet) (ceiling : Nat) : PageAction Expansion := do
  let (passes, replacements, ceilingReached) ← expandFrom native ceiling 0
  let draft := (← get).draft
  return ⟨draft.content, passes, replacements, draft.skipped, ceilingReached⟩

/-- The number of passes that a ceiling allows; at least one pass must be allowed. -/
def passesAllowed (ceiling : Int) : Except Failure Nat :=
  if ceiling < 1 then .error (.ceilingTooLow ceiling) else .ok ceiling.toNat

theorem length_splice (page : Text) (o : Occurrence) (new : Text) :
    (splice page o new).length =
      Text.position page.length o.start + new.length +
        (page.length - Text.position page.length o.closeEnd) := by
  have := Text.position_le page.length o.start
  simp only [splice, Text.cut_from_start, Text.cut_to_end, List.length_append, List.length_take,
    List.length_drop]
  omega

end Draft

end Inlay

import Inlay.Workspace

/-!
# Components

A component called `x` has the template file `x/x.html` in the directory of components. A name without
such a file is no component.

* `Catalogue.templateFile` — where a component's template lies.
* `Catalogue.contains`, `Catalogue.load` — whether a template exists, and its text; remembered where the
  catalogue remembers.
* `Catalogue.names` — the names of all components.
-/

namespace Inlay

namespace Catalogue

/-- The template file of the component called `name`. -/
def templateFile (c : Catalogue) (name : Text) : Path :=
  (c.directory.join (Path.ofText name)).join (Path.ofText (name ++ c.extension))

/-- What is remembered of the existence of a template. -/
def recalled (c : Catalogue) (name : Text) : Option Bool :=
  if c.remembering then c.existence.lookup name else none

/-- The catalogue with the answer remembered, if it remembers. -/
def remember (c : Catalogue) (name : Text) (answer : Bool) : Catalogue :=
  if c.remembering then { c with existence := (name, answer) :: c.existence } else c

/-- The text that is remembered for a template. -/
def recalledText (c : Catalogue) (name : Text) : Option Text :=
  if c.remembering then c.templates.lookup name else none

/-- The catalogue with the text remembered, if it remembers. -/
def rememberText (c : Catalogue) (name text : Text) : Catalogue :=
  if c.remembering then { c with templates := (name, text) :: c.templates } else c

/-- Changes the catalogue. -/
def update (change : Catalogue → Catalogue) : Action Unit :=
  modify fun w => { w with catalogue := change w.catalogue }

/-- Whether there is a template for `name`. -/
def contains (name : Text) : Action Bool := do
  let c := (← get).catalogue
  match c.recalled name with
  | some answer => return answer
  | none =>
    let answer ← Action.ask (·.isFile (c.templateFile name))
    update (·.remember name answer)
    return answer

/-- The text of the template for `name`. -/
def load (name : Text) : Action Text := do
  let c := (← get).catalogue
  match c.recalledText name with
  | some text => return text
  | none =>
    let file := c.templateFile name
    if ← contains name then
      let text ← Action.readText file
      Action.tell (.templateLoaded name file)
      update (·.rememberText name text)
      return text
    else
      throw (.noComponent name file)

/-- The names of all components, in the order of texts. The entries are looked up in that order, while a system may
list them in any; which one it is only shows in what is remembered when one of the lookups fails. -/
def names : Action (List Text) := do
  let c := (← get).catalogue
  if ← Action.ask (·.isDirectory c.directory) then
    (← Action.ask (·.names c.directory)).filterM fun name => do
      if ← Action.ask (·.isDirectory (c.directory.child name)) then contains name else return false
  else
    return []

end Catalogue

end Inlay

import Inlay.Settings.Basic
import Inlay.Site.Build

/-!
# Jobs

A job is a request to build a site, together with what its stages have found out: whether the request
can be met, the directories that it means, and the account of the build.

* `Job` — the request and the findings.
* `Stop` — how a job ends early: with an exit code, or by a failure that no stage handles.
* `StageAction` — a step of a stage, which may also print error lines.
-/

namespace Inlay

/-- A request to build a site, and what its stages have found out. A value of the request may be absent;
the stage that needs it then fails. What no request can ask for is taken from the settings. -/
structure Job where
  input : Option Path := none
  output : Option Path := none
  verbosity : Int := 1
  pagesName : Option Text := some "src/pages".toList
  componentsName : Option Text := some "src/components".toList
  pageGlob : Option Text := some "**/*.html".toList
  ceiling : Option Int := some 100
  clean : Bool := false
  strict : Bool := false
  settings : Settings := {}
  checked : Bool := false
  pages : Text := ['/']
  components : Text := ['/']
  site : Text := ['/']
  report : Option BuildReport := none
  deriving Repr

/-- How a job ends before its last stage is done. -/
inductive Stop where
  | exit (code : Nat)
  | failure (cause : Failure)
  deriving DecidableEq, Repr

/-- The state of a job's run: the workspace and what has been printed as errors. -/
structure Terminal where
  workspace : Workspace
  errors : String := ""

/-- A step of a stage. When it ends the job, what it has done so far stays. -/
abbrev StageAction := ExceptT Stop (StateM Terminal)

namespace StageAction

/-- A step of the run within a stage; tells how it ended. -/
def attempt {α : Type} (step : Action α) : StageAction (Except Failure α) := do
  let t ← get
  let (result, workspace) := step.run.run t.workspace
  set { t with workspace := workspace }
  return result

/-- A step of the run within a stage; its failure ends the job. -/
def lift {α : Type} (step : Action α) : StageAction α := do
  match ← attempt step with
  | .ok a => pure a
  | .error failure => throw (.failure failure)

/-- Tells an event to the reader of the log. -/
def tell (e : Event) : StageAction Unit := lift (Action.tell e)

/-- Prints an error line. -/
def complain (line : String) : StageAction Unit :=
  modify fun t => { t with errors := t.errors ++ line ++ "\n" }

/-- A value that the job needs; it ends when the value is absent. -/
def demand {α : Type} (value : AbsentValue) : Option α → StageAction α
  | some a => pure a
  | none => throw (.failure (.absent value))

/-- Prints an error line and ends the job with exit code one. -/
def refuse {α : Type} (line : String) : StageAction α := do
  complain line
  throw (.exit 1)

end StageAction

end Inlay

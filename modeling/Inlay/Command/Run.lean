import Inlay.Command.Reading
import Inlay.Job.Stage

/-!
# Running a command line

A command line is read, its output directory is made, its input directory is looked for, and the job
then goes through its stages.

* `Request.job`, `Request.trees` — the job that a request stands for, and the paths below which it
  works.
* `Outcome` — what a run leaves behind: how it ended, what it printed, what it told, and the disk.
* `run` — the whole program.

Main statement: `run_of_usage` (a command line that cannot be followed changes nothing).
-/

namespace Inlay.Command

open StageAction

/-- The name of the program and its version. -/
def programName : String := "slotsmith"

/-- The version of the program. -/
def programVersion : String := "1.0.0"

/-- The words that tell how to use the program. -/
def helpText : String :=
  "usage: " ++ programName ++ " [switches] inputdir outputdir\n\nswitches:\n" ++
    String.join (Switch.spellings.map fun s => "  " ++ s.1.string ++ "\n")

/-- What a run leaves behind. Without an exit code, a failure ended it. -/
structure Outcome where
  ended : Except Failure Nat
  printed : String := ""
  errors : String := ""
  verbosity : Int := 1
  log : Log := []
  disk : Disk

namespace Request

/-- The directory that an operand names. -/
def operand? (r : Request) (i : Nat) : Option Path := (r.operands[i]?.join).map Path.ofText

/-- The job that a request stands for under the settings. -/
def job (r : Request) (s : Settings) : Job where
  input := r.operand? 0
  output := r.operand? 1
  verbosity := r.verbosity
  pagesName := r.pagesDirectory
  componentsName := r.componentsDirectory
  pageGlob := r.pageGlob
  ceiling := r.ceiling
  clean := r.clean
  strict := r.strict
  settings := s

/-- The paths below which the job reads and writes. -/
def trees (r : Request) : List Path :=
  let inner := [r.pagesDirectory, r.componentsDirectory].filterMap id
  ((r.operand? 0).map fun input => inner.map fun t => input.join (.ofText t)).getD [] ++
    (r.operand? 1).toList

end Request

/-- Ends the job if the path is no directory. -/
def requireDirectory (p : Path) : StageAction Unit := do
  if !(← lift (Action.ask (·.isDirectory p))) then
    refuse s!"Not a directory: {p.string}"

/-- Makes the output directory, if there is none, and looks for the input directory. -/
def openDirectories (input output : Path) : StageAction Unit := do
  if ← lift (Action.ask (·.exists? output)) then
    requireDirectory output
  else
    lift (Action.onDisk (DiskAction.makeNewDirectory output))
  requireDirectory input

/-- Does what a request asks for. -/
def perform (r : Request) (s : Settings) : StageAction Job := do
  openDirectories (← demand .operand (r.operand? 0)) (← demand .operand (r.operand? 1))
  (r.job s).run Stage.all

/-- Runs a command line on a disk under the settings. -/
def run (words : List Text) (disk : Disk) (s : Settings := {}) : Outcome :=
  match Request.read words s with
  | .error .version => { ended := .ok 0, printed := s!"{programName} {programVersion}\n", disk }
  | .error .help => { ended := .ok 0, printed := helpText, disk }
  | .error (.usage error) =>
    { ended := .ok 2, errors := s!"{programName}: error: {error.message}\n", disk }
  | .ok r =>
    let start : Terminal :=
      { workspace := { disk := disk, catalogue := { directory := .here }, reader := some r.verbosity } }
    let (ended, t) := (perform r s).run.run start
    { ended := match ended with
        | .ok _ => .ok 0
        | .error (.exit code) => .ok code
        | .error (.failure failure) => .error failure
      errors := t.errors
      verbosity := r.verbosity
      log := t.workspace.log
      disk := t.workspace.disk }

theorem run_of_usage {words : List Text} {s : Settings} {error : UsageError} (disk : Disk)
    (h : Request.read words s = .error (.usage error)) :
    (run words disk s).ended.toOption = some 2 ∧ (run words disk s).disk = disk := by
  simp [run, h, Except.toOption]

end Inlay.Command

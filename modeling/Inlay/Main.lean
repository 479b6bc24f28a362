import Inlay.Command.Run
import Inlay.Disk.Exchange
import Inlay.Settings.Load

/-!
# The program

Reads the settings and what a command line is about from the system, runs the command line, and brings the
system to the disk that the run leaves.

* `Program.environment`, `Program.settingsFile?` — where the settings come from.
* `Program.load`, `Program.store` — the exchange with the system.
* `Program.run` — a run of a command line on the system's disk.
* `main` — the program.
-/

namespace Inlay.Program

/-- The variables that the program is started with. One whose value is no text is passed over. -/
def environment : IO Pairs := do
  let content ← IO.FS.readBinFile "/proc/self/environ"
  let entries := (content.toList.splitOn 0).filterMap fun entry => (Utf8.decode entry).toOption
  return (entries.filter (·.contains '=')).map fun t =>
    (t.takeWhile (· != '='), (t.dropWhile (· != '=')).drop 1)

/-- The text of the file of variables in the working directory, if there is such a file. -/
def settingsFile? : IO (Option Text) := do
  let path := (← IO.currentDir) / ".env"
  if !(← path.pathExists) || (← path.isDir) then
    return none
  match Utf8.decode (← IO.FS.readBinFile path).toList with
  | .ok t => return some t
  | .error fault => throw (IO.userError fault.message)

/-- The words for settings that cannot be had. -/
def explain : LoadError → String
  | .unreadable setting source cause => LoadError.unreadableMessage setting source cause
  | .refused refusals => "\n".intercalate (refusals.map fun r => s!"{r.place.string}: {r.error.name}")

/-- The name of a location in calls of the system. -/
def systemName (l : Location) : String := "/" ++ (Text.join ['/'] l).string

/-- What the system has at a location. -/
def look (l : Location) : IO (Option Node) := do
  let path := (← IO.currentDir) / systemName l
  if ← path.isDir then
    return some .directory
  else if ← path.pathExists then
    return some (.file (← IO.FS.readBinFile path).toList)
  else
    return none

/-- The names of what the system has in a directory. -/
def names (l : Location) : IO (List Text) := do
  let path := (← IO.currentDir) / systemName l
  return (← path.readDir).toList.map (·.fileName.toList)

/-- Everything that the system has at a location and below. -/
partial def tree (l : Location) : IO (List (Location × Node)) := do
  match ← look l with
  | none => return []
  | some (.file content) => return [(l, .file content)]
  | some .directory =>
    let below ← (← names l).mapM fun name => tree (l ++ [name])
    return (l, .directory) :: below.flatten

/-- The disk as far as the paths can lead: what each of them goes through, and everything below the
ends of `trees`. -/
def load (steps trees : List Path) : IO Disk := do
  let working := (Path.ofText (toString (← IO.currentDir)).toList).names
  let bare : Disk := ⟨working, []⟩
  let passed ← (bare.passed (.here :: steps) trees).mapM fun l =>
    return (← look l).map fun node => (l, node)
  let found ← (bare.ends trees).mapM tree
  return ⟨working, passed.filterMap id ++ found.flatten⟩

/-- Brings the system from the disk `before` to the disk `after`. -/
def store (before after : Disk) : IO Unit := do
  for (l, node) in Disk.gone before after do
    match node with
    | .directory => IO.FS.removeDirAll (systemName l)
    | .file _ => IO.FS.removeFile (systemName l)
  for (l, node) in Disk.fresh before after do
    match node with
    | .directory => IO.FS.createDirAll (systemName l)
    | .file content => IO.FS.writeBinFile (systemName l) ⟨content.toArray⟩

/-- Runs the command line on the system's disk. -/
def run (words : List Text) (s : Settings) : IO UInt32 := do
  let (steps, trees) := match Command.Request.read words s with
    | .ok r => ((r.operand? 0).toList, r.trees)
    | .error _ => ([], [])
  let before ← load steps trees
  let outcome := Command.run words before s
  store before outcome.disk
  for e in outcome.log.visible (some outcome.verbosity) do
    IO.eprintln (e.severity.label ++ " " ++ e.message)
  IO.print outcome.printed
  IO.eprint outcome.errors
  match outcome.ended with
  | .ok code => return UInt32.ofNat code
  | .error failure =>
    IO.eprintln failure.message
    return 1

end Inlay.Program

open Inlay

/-- The program: runs the command line under the settings that are in force. -/
def main (arguments : List String) : IO UInt32 := do
  match Settings.load [] (← Program.environment) (← Program.settingsFile?) with
  | .ok s => Program.run (arguments.map String.toList) s
  | .error error =>
    IO.eprintln (Program.explain error)
    return 1

import Inlay.Disk.Wildcard
import Inlay.Disk.Access

/-!
# Glob patterns

A glob pattern selects paths below a directory. Its steps are names, name patterns, and the double star,
which stands for the directory itself and every directory below it.

* `Glob.ofText` — the pattern that a text writes, or why there is none.
* `Glob.select` — the paths that a pattern selects.
* `filesBelow` — the files among them, each once and in order.
-/

namespace Inlay

/-- One step of a glob pattern. -/
inductive GlobStep where
  | name (text : Text)
  | pattern (wildcards : List Wildcard)
  | anyDepth
  deriving DecidableEq, Repr

/-- A glob pattern. One that was written with a slash at its end selects only directories. -/
structure Glob where
  steps : List GlobStep
  directoriesOnly : Bool
  deriving Repr

/-- Why there is no glob pattern: no text is there, or it writes none. -/
inductive GlobError where
  | absent
  | empty
  | rooted
  | noStep
  | noStepBeforeSlash
  | doubleStarInName
  deriving DecidableEq, Repr

namespace GlobError

/-- The words for an error. -/
def message : GlobError → String
  | .absent => "Unacceptable pattern: []"
  | .empty => "Unacceptable pattern: ''"
  | .rooted => "Non-relative patterns are unsupported"
  | .noStep => "tuple index out of range"
  | .noStepBeforeSlash => "'_TerminatingSelector' object has no attribute 'select_from'"
  | .doubleStarInName => "Invalid pattern: '**' can only be an entire path component"

end GlobError

namespace Glob

/-- Two stars. -/
def doubleStar : Text := ['*', '*']

/-- The step that a name in a pattern writes. -/
def step (t : Text) : Except GlobError GlobStep :=
  if t = doubleStar then .ok .anyDepth
  else if (Text.find? doubleStar t).isSome then .error .doubleStarInName
  else if Wildcard.isPattern t then .ok (.pattern (Wildcard.ofText t))
  else .ok (.name t)

/-- The glob pattern that a text writes. -/
def ofText (t : Text) : Except GlobError Glob := do
  if t.isEmpty then throw .empty
  let path := Path.ofText t
  if path.root != .working then throw .rooted
  let slashed := t.getLast? = some '/'
  if path.names.isEmpty then
    throw (if slashed then .noStepBeforeSlash else .noStep)
  return ⟨← path.names.mapM step, slashed⟩

/-- The directory at `p` and all directories below it. -/
def directories (d : Disk) (p : Path) : List Path :=
  match d.follow p with
  | .ok (.present l .directory) =>
    p :: (d.entries.filter fun e => Disk.isBelow l e.1 && e.2 = .directory).map fun e =>
      ⟨p.root, p.names ++ e.1.drop l.length⟩
  | _ => []

/-- The paths that `steps` lead to from `p`. With `directoriesOnly`, the last step too takes only
directories. -/
def selectFrom (d : Disk) (directoriesOnly : Bool) : List GlobStep → Path →
    Except DiskError (List Path)
  | [], p => .ok [p]
  | step :: rest, p => do
    let inner := directoriesOnly || !rest.isEmpty
    match step with
    | .name text =>
      let next := p.child text
      if ← (if inner then d.isDirectory next else d.exists? next) then
        selectFrom d directoriesOnly rest next
      else
        return []
    | .pattern wildcards =>
      let listed := if inner then d.directoryNames p else d.names p
      let found := (← listed).filter (Wildcard.fits wildcards)
      return (← found.mapM fun name => selectFrom d directoriesOnly rest (p.child name)).flatten
    | .anyDepth =>
      return (← (directories d p).mapM (selectFrom d directoriesOnly rest)).flatten.eraseDups

/-- The paths below the directory `dir` that the pattern selects; none if there is no directory. -/
def select (g : Glob) (d : Disk) (dir : Path) : Except DiskError (List Path) := do
  if ← d.isDirectory dir then selectFrom d g.directoriesOnly g.steps dir else return []

end Glob

/-- The files below `dir` that the pattern selects, each once and in the order of paths. -/
def filesBelow (d : Disk) (dir : Path) (g : Glob) : Except DiskError (List Path) := do
  return Path.sort (← (← g.select d dir).filterM d.isFile)

end Inlay

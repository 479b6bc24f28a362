import Inlay.Disk.Basic

/-!
# Using the disk

Questions about paths, reading, and the three changes that a build makes: writing a file, making a
directory with the directories above it, and emptying a directory.

* `Disk.probe`, `Disk.isFile`, `Disk.isDirectory`, `Disk.exists?` — questions; only a path that the
  system cannot look up at all makes them fail.
* `Disk.readBytes`, `Disk.names`, `Disk.directoryNames` — reading a file and a directory.
* `DiskAction` — a change that may fail half-way and then keeps what it has done.
* `writeBytes`, `makeDirectories`, `makeNewDirectory`, `emptyDirectory`, `removeTree` — the changes.
-/

namespace Inlay

namespace Disk

/-- What there is at a path; nothing is found where the path leads nowhere. -/
def probe (d : Disk) (p : Path) : Except DiskError (Option Node) :=
  match d.follow p with
  | .ok (.present _ node) => .ok (some node)
  | .ok (.vacant _) => .ok none
  | .error e => if e.meansAbsent then .ok none else .error e

/-- Whether there is a file at a path. -/
def isFile (d : Disk) (p : Path) : Except DiskError Bool :=
  (d.probe p).map fun found =>
    match found with
    | some (.file _) => true
    | _ => false

/-- Whether there is a directory at a path. -/
def isDirectory (d : Disk) (p : Path) : Except DiskError Bool :=
  (d.probe p).map fun found => decide (found = some .directory)

/-- Whether there is anything at a path. -/
def exists? (d : Disk) (p : Path) : Except DiskError Bool :=
  (d.probe p).map Option.isSome

/-- The content of the file at a path. -/
def readBytes (d : Disk) (p : Path) : Except DiskError Bytes :=
  match d.follow p with
  | .ok (.present _ (.file content)) => .ok content
  | .ok (.present _ .directory) => .error (.obstacle .isDirectory p)
  | .ok (.vacant _) => .error (.obstacle .missing p)
  | .error e => .error e

/-- The location of the directory at a path. -/
def directoryAt (d : Disk) (p : Path) : Except DiskError Location :=
  match d.follow p with
  | .ok (.present l .directory) => .ok l
  | .ok (.present _ (.file _)) => .error (.obstacle .notDirectory p)
  | .ok (.vacant _) => .error (.obstacle .missing p)
  | .error e => .error e

/-- The names in the directory at a path, in the order of texts. -/
def names (d : Disk) (p : Path) : Except DiskError (List Text) := (d.directoryAt p).map d.namesIn

/-- The names of the directories in the directory at a path. The listing tells them from files, so that no entry is
looked up. -/
def directoryNames (d : Disk) (p : Path) : Except DiskError (List Text) :=
  (d.directoryAt p).map fun l => (d.namesIn l).filter fun name => d.node? (l ++ [name]) = some .directory

/-- The location that a path names when every two dots take away the name before them, whatever there
is on the disk. Without links this is all that resolving a path does. -/
def normalize (d : Disk) (p : Path) : Except DiskError Location :=
  if p.names.any (·.contains '\x00') then .error .nullCharacter
  else .ok <| p.names.foldl
    (fun l name => if name = Path.upward then l.dropLast else l ++ [name]) (d.base p.root)

end Disk

/-- A change of the disk. When it fails, what it has done so far stays. -/
abbrev DiskAction := ExceptT DiskError (StateM Disk)

namespace DiskAction

/-- The answer to a question about the disk. -/
def ask {α : Type} (question : Disk → Except DiskError α) : DiskAction α := do
  liftExcept (question (← get))
where
  /-- A result as an action that changes nothing. -/
  liftExcept {α : Type} : Except DiskError α → DiskAction α
    | .ok a => pure a
    | .error e => throw e

/-- Writes a file, which may be there already, into a directory that must be there. -/
def writeBytes (p : Path) (content : Bytes) : DiskAction Unit := do
  match ← ask (·.follow p) with
  | .present l (.file _) => modify (·.put l (.file content))
  | .present _ .directory => throw (.obstacle .isDirectory p)
  | .vacant l => modify (·.put l (.file content))

/-- Makes one directory in a directory that must be there. -/
def makeDirectory (p : Path) : DiskAction Unit := do
  match ← ask (·.follow p) with
  | .present _ _ => throw (.obstacle .alreadyThere p)
  | .vacant l => modify (·.put l .directory)

/-- Makes one directory, or leaves a directory that is there already. -/
def ensureDirectory (p : Path) : DiskAction Unit :=
  tryCatch (makeDirectory p) fun e => do
    match e with
    | .obstacle .missing _ => throw e
    | .nullCharacter => throw e
    | _ => if ← ask (·.isDirectory p) then pure () else throw e

/-- Makes a directory and, where they are missing, the directories above it; a directory that is there
already is left as it is. -/
def makeDirectories (p : Path) : DiskAction Unit :=
  tryCatch (ensureDirectory p) fun e => do
    match e with
    | .obstacle .missing _ =>
      if _h : p.names = [] then throw e
      else do
        makeDirectories p.parent
        ensureDirectory p
    | _ => throw e
termination_by p.names.length
decreasing_by
  simp only [Path.parent, List.length_dropLast]
  have := List.length_pos_iff.mpr ‹_›
  omega

/-- Makes a directory that must not be there yet and, where they are missing, the directories above it. -/
def makeNewDirectory (p : Path) : DiskAction Unit :=
  tryCatch (makeDirectory p) fun e => do
    match e with
    | .obstacle .missing _ =>
      if p.names = [] then throw e
      else do
        makeDirectories p.parent
        makeDirectory p
    | _ => throw e

/-- Removes everything in a directory. Files and directories are told apart by looking each entry up, but as there
are no links both are removed, so the answer makes no difference; and an entry whose path is too long to be looked
up, which would end the removal there, is removed like the others. -/
def emptyDirectory (p : Path) : DiskAction Unit := do
  match ← ask (·.follow p) with
  | .present l .directory => modify (·.clear l)
  | .present _ (.file _) => throw (.obstacle .notDirectory p)
  | .vacant _ => throw (.obstacle .missing p)

/-- Removes a file or a directory with everything in it; where there is nothing, nothing happens. -/
def removeTree (p : Path) : DiskAction Unit := do
  match (← get).follow p with
  | .ok (.present l _) => modify (·.remove l)
  | _ => pure ()

end DiskAction

end Inlay

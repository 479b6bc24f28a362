import Inlay.Log
import Inlay.Attributes.Basic
import Inlay.Text.Newline

/-!
# The workspace

What a run works on: the disk, what is remembered of the components, and what has been told so far to
whoever reads the log.

* `Catalogue` — where the components lie, and what is remembered of them.
* `Workspace`, `Action` — the state of a run, and a step that changes it. A step that fails keeps what
  it has done.
* `Workspace.hear` — what an event adds to the log.
* `tell`, `onDisk`, `readText`, `writeText` — the basic steps.
-/

namespace Inlay

/-- The components of a site: one directory each, with a template file of the same name. With
`remembering`, whether a template exists and what it holds is looked up once for each name. -/
structure Catalogue where
  directory : Path
  extension : Text := ['.', 'h', 't', 'm', 'l']
  remembering : Bool := true
  existence : List (Text × Bool) := []
  templates : Pairs := []
  deriving Repr

/-- The state of a run. The events are those that the reader of the log sees, with the newest first; a reader
of verbosity three sees them all. -/
structure Workspace where
  disk : Disk
  catalogue : Catalogue
  events : Log := []
  reader : Option Int := some 3
  deriving Repr

/-- What has been told, in order. -/
def Workspace.log (w : Workspace) : Log := w.events.reverse

/-- The workspace with the event told, if the reader sees it. -/
def Workspace.hear (w : Workspace) (e : Event) : Workspace :=
  if e.isHeard w.reader then { w with events := e :: w.events } else w

theorem Workspace.events_hear (w : Workspace) (e : Event) :
    (w.hear e).events = Log.visible w.reader [e] ++ w.events := by
  unfold hear Log.visible
  split
  · next h => simp [h]
  · next h => simp [h]

/-- An event is told in the log and nowhere else. -/
theorem Workspace.exists_hear_eq (w : Workspace) (e : Event) : ∃ log, w.hear e = { w with events := log } := by
  unfold hear
  split
  · exact ⟨e :: w.events, rfl⟩
  · exact ⟨w.events, rfl⟩

@[simp] theorem Workspace.disk_hear (w : Workspace) (e : Event) : (w.hear e).disk = w.disk := by
  obtain ⟨log, h⟩ := w.exists_hear_eq e
  rw [h]

@[simp] theorem Workspace.catalogue_hear (w : Workspace) (e : Event) : (w.hear e).catalogue = w.catalogue := by
  obtain ⟨log, h⟩ := w.exists_hear_eq e
  rw [h]

@[simp] theorem Workspace.reader_hear (w : Workspace) (e : Event) : (w.hear e).reader = w.reader := by
  obtain ⟨log, h⟩ := w.exists_hear_eq e
  rw [h]

/-- A step of a run. When it fails, what it has done so far stays. -/
abbrev Action := ExceptT Failure (StateM Workspace)

namespace Action

/-- Tells an event to the reader of the log. -/
def tell (e : Event) : Action Unit := modify (·.hear e)

/-- Asks the disk. -/
def ask {α : Type} (question : Disk → Except DiskError α) : Action α := do
  match question (← get).disk with
  | .ok a => pure a
  | .error e => throw (.disk e)

/-- Changes the disk. -/
def onDisk (change : DiskAction Unit) : Action Unit := do
  let w ← get
  let (result, disk) := change.run.run w.disk
  set { w with disk := disk }
  match result with
  | .ok _ => pure ()
  | .error e => throw (.disk e)

/-- Reads a file as a text with unified line ends. -/
def readText (file : Path) : Action Text := do
  match Utf8.decode (← ask (·.readBytes file)) with
  | .ok t => pure (Text.unifyLineEnds t)
  | .error fault => throw (.undecodable fault)

/-- Writes a text into a file. -/
def writeText (file : Path) (t : Text) : Action Unit :=
  onDisk (DiskAction.writeBytes file (Utf8.encode t))

end Action

end Inlay

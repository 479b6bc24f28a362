import Inlay.Disk.Path
import Inlay.Text.Quoted

/-!
# What keeps a path from being used

* `Obstacle` — the causes that the system reports, with their numbers and words.
* `DiskError` — an obstacle at a path, or a path that no system call takes.
* `DiskError.meansAbsent` — the errors that a mere question about a path answers with "nothing there".
-/

namespace Inlay

/-- Why the system refuses to use a path. -/
inductive Obstacle where
  | missing
  | alreadyThere
  | notDirectory
  | isDirectory
  | nameTooLong
  deriving DecidableEq, Repr

namespace Obstacle

/-- The system's number for an obstacle. -/
def number : Obstacle → Nat
  | .missing => 2
  | .alreadyThere => 17
  | .notDirectory => 20
  | .isDirectory => 21
  | .nameTooLong => 36

/-- The system's words for an obstacle. -/
def words : Obstacle → String
  | .missing => "No such file or directory"
  | .alreadyThere => "File exists"
  | .notDirectory => "Not a directory"
  | .isDirectory => "Is a directory"
  | .nameTooLong => "File name too long"

end Obstacle

/-- Why an operation on a path fails: an obstacle met on the way, or a null character in the path. -/
inductive DiskError where
  | obstacle (cause : Obstacle) (path : Path)
  | nullCharacter
  deriving DecidableEq, Repr

namespace DiskError

/-- The words for an error. -/
def message : DiskError → String
  | .obstacle cause path =>
    s!"[Errno {cause.number}] {cause.words}: {(Text.quoted path.text).string}"
  | .nullCharacter => "embedded null byte"

/-- Whether the error tells no more than that nothing is found at the path. -/
def meansAbsent : DiskError → Bool
  | .obstacle .missing _ => true
  | .obstacle .notDirectory _ => true
  | .nullCharacter => true
  | _ => false

end DiskError

end Inlay

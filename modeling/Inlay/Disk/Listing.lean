import Inlay.Disk.Access

/-!
# Listings

Everything below a directory as one sorted table, each entry under its path; the path of a directory ends
with a slash.

* `Disk.listing` — the table for a directory; empty where there is no directory.
-/

namespace Inlay.Disk

/-- The entry of a listing for a node at the path `p`: a file with its content, a directory without. -/
def listed (p : Path) : Node → Text × Option Bytes
  | .file content => (p.text, some content)
  | .directory => (p.text ++ ['/'], none)

/-- Everything below the directory at `p`, sorted by path. -/
def listing (d : Disk) (p : Path) : List (Text × Option Bytes) :=
  match d.follow p with
  | .ok (.present l .directory) =>
    ((d.entries.filter fun e => isBelow l e.1).map fun e =>
      listed ⟨p.root, p.names ++ e.1.drop l.length⟩ e.2).mergeSort fun a b => !Text.before b.1 a.1
  | _ => []

end Inlay.Disk

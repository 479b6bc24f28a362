import Inlay.Disk.Error
import Inlay.Text.Utf8

/-!
# The disk

A disk is what there is at each location: a directory or a file with its bytes. A location is the list
of names that leads to it from the top; the top is always a directory. There are no links and no permissions:
two dots lead to the location that holds the present one, a path is resolved by writing it without them, no entry
is ever a link, and the system refuses nothing but what stands in the way or is too long.

* `Disk.node?` — what there is at a location.
* `Disk.put`, `Disk.clear` — a disk with one location changed, or with all below one removed.
* `Disk.follow` — where a path leads.

Main statements: `Disk.node?_put` and `Disk.node?_clear` say what the two changes do, location by
location.
-/

namespace Inlay

/-- The names that lead from the top to a place on the disk. -/
abbrev Location := List Text

/-- What can stand at a location. -/
inductive Node where
  | file (content : Bytes)
  | directory
  deriving DecidableEq, Repr

/-- A disk: the location of the working directory, and what there is at each location. -/
structure Disk where
  working : Location
  entries : List (Location × Node)
  deriving Repr

/-- Where a path leads: to something that is there, or to a free name in a directory. -/
inductive Place where
  | present (at_ : Location) (node : Node)
  | vacant (at_ : Location)
  deriving DecidableEq, Repr

namespace Disk

/-- What there is at a location. -/
def node? (d : Disk) (l : Location) : Option Node :=
  if l = [] then some .directory else d.entries.lookup l

/-- The disk with `node` at the location `l`. -/
def put (d : Disk) (l : Location) (node : Node) : Disk :=
  { d with entries := (l, node) :: d.entries.filter fun e => !decide (e.1 = l) }

/-- Whether `l` lies below `above`. -/
def isBelow (above l : Location) : Bool := above.isPrefixOf l && !decide (l = above)

/-- The disk without what lies below the location `l`. -/
def clear (d : Disk) (l : Location) : Disk :=
  { d with entries := d.entries.filter fun e => !isBelow l e.1 }

/-- The disk without the location `l` and what lies below it. -/
def remove (d : Disk) (l : Location) : Disk :=
  { d with entries := d.entries.filter fun e => !l.isPrefixOf e.1 }

/-- The names of what lies directly in the location `l`, in the order of texts. -/
def namesIn (d : Disk) (l : Location) : List Text :=
  (d.entries.filterMap fun e =>
    if e.1.dropLast = l then e.1.getLast? else none).mergeSort fun a b => !Text.before b a

/-- The longest name that a directory takes, in bytes. -/
def longestName : Nat := 255

/-- The number of bytes at which a path is too long to be used. -/
def pathLimit : Nat := 4096

/-- Where a list of names leads from the location `l`. -/
def followFrom (d : Disk) (l : Location) : List Text → Except Obstacle Place
  | [] =>
    match d.node? l with
    | some node => .ok (.present l node)
    | none => .error .missing
  | name :: rest =>
    match d.node? l with
    | none => .error .missing
    | some (.file _) => .error .notDirectory
    | some .directory =>
      if name = Path.upward then d.followFrom l.dropLast rest
      else if longestName < Utf8.size name then .error .nameTooLong
      else if rest = [] ∧ d.node? (l ++ [name]) = none then .ok (.vacant (l ++ [name]))
      else d.followFrom (l ++ [name]) rest

/-- The location where paths with this root start. -/
def base (d : Disk) : PathRoot → Location
  | .working => d.working
  | _ => []

/-- Where a path leads. -/
def follow (d : Disk) (p : Path) : Except DiskError Place :=
  if p.names.any (·.contains '\x00') then .error .nullCharacter
  else if pathLimit ≤ Utf8.size p.text then .error (.obstacle .nameTooLong p)
  else (d.followFrom (d.base p.root) p.names).mapError fun cause => .obstacle cause p

theorem lookup_filter (es : List (Location × Node)) (keep : Location → Bool) (k : Location) :
    (es.filter fun e => keep e.1).lookup k = if keep k then es.lookup k else none := by
  induction es with
  | nil => simp
  | cons e es ih =>
    obtain ⟨key, node⟩ := e
    by_cases hkey : k = key
    · subst hkey
      cases hk : keep k
      · simpa [hk] using ih
      · simp [hk]
    · have hb : (k == key) = false := by simpa using hkey
      cases hk : keep key <;> simp [hk, List.lookup_cons, hb, ih]

theorem node?_put (d : Disk) {l : Location} (hl : l ≠ []) (node : Node) (k : Location) :
    (d.put l node).node? k = if k = l then some node else d.node? k := by
  by_cases h : k = l
  · subst h; simp [put, node?, hl]
  · have hb : (k == l) = false := by simpa using h
    simp only [put, node?, List.lookup_cons, hb, h, if_false]
    rw [lookup_filter d.entries (fun key => !decide (key = l)) k]
    simp [h]

theorem node?_clear (d : Disk) (l k : Location) :
    (d.clear l).node? k = if isBelow l k then none else d.node? k := by
  by_cases hk : k = []
  · subst hk
    have : isBelow l [] = false := by cases l <;> simp [isBelow]
    simp [node?, this]
  · simp only [node?, hk, if_false, clear]
    rw [lookup_filter d.entries (fun key => !isBelow l key) k]
    cases isBelow l k <;> simp

end Disk

end Inlay

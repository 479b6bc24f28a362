import Inlay.Text.Basic

/-!
# Paths

A path is a root and a list of names. Only the writing is simplified: repeated slashes, single dots and
a slash at the end are dropped, while two dots stay, because what they mean depends on the disk.

* `Path` — a path; `Path.ofText` reads it and `Path.text` writes it.
* `Path.join`, `Path.child`, `Path.parent`, `Path.relativeTo?` — paths from paths.
* `Path.before` — the order of paths, name by name.

Main statements: `Path.relativeTo?_join` (a path below a directory is found relative to it) and
`Path.join_of_relativeTo?` (joining the two gives the path back).
-/

namespace Inlay

/-- Where a path starts: at the working directory, at the top, or at the top written with exactly two
slashes, which is kept apart. -/
inductive PathRoot where
  | working
  | top
  | doubled
  deriving DecidableEq, Repr

/-- The slashes of a root. -/
def PathRoot.text : PathRoot → Text
  | .working => []
  | .top => ['/']
  | .doubled => ['/', '/']

/-- A path. -/
structure Path where
  root : PathRoot
  names : List Text
  deriving DecidableEq, Repr

namespace Path

/-- Two dots: the directory above. -/
def upward : Text := ['.', '.']

/-- The path that `t` writes. -/
def ofText (t : Text) : Path :=
  let slashes := (t.takeWhile (· = '/')).length
  let root : PathRoot := if slashes = 0 then .working else if slashes = 2 then .doubled else .top
  ⟨root, (Text.splitOn '/' t).filter fun name => !name.isEmpty && name != ['.']⟩

/-- The path of the working directory. -/
def here : Path := ⟨.working, []⟩

/-- The path as it is written inside a longer message: empty for the working directory. -/
def bareText (p : Path) : Text := p.root.text ++ Text.join ['/'] p.names

/-- The path as it is written: a single dot for the working directory. -/
def text (p : Path) : Text := if p.bareText.isEmpty then ['.'] else p.bareText

/-- The path as a string. -/
def string (p : Path) : String := p.text.string

/-- The path `q` seen from `p`; a path that starts at the top stays as it is. -/
def join (p q : Path) : Path :=
  match q.root with
  | .working => ⟨p.root, p.names ++ q.names⟩
  | _ => q

/-- The entry called `name` in the directory `p`. -/
def child (p : Path) (name : Text) : Path := ⟨p.root, p.names ++ [name]⟩

/-- The directory that holds `p`, by its writing. -/
def parent (p : Path) : Path := ⟨p.root, p.names.dropLast⟩

/-- The path `p` seen from the directory `dir`, if the writing of `p` begins with that of `dir`. -/
def relativeTo? (p dir : Path) : Option Path :=
  if p.root = dir.root ∧ dir.names.isPrefixOf p.names then
    some ⟨.working, p.names.drop dir.names.length⟩
  else none

/-- The names of a path for comparing, the root counting as the first. -/
def key (p : Path) : List Text :=
  match p.root with
  | .working => p.names
  | root => root.text :: p.names

/-- The order of paths: name by name, each by code points. -/
def before (p q : Path) : Bool := decide (p.key < q.key)

/-- The paths in their order. -/
def sort (ps : List Path) : List Path := ps.mergeSort fun p q => !before q p

theorem relativeTo?_join (dir : Path) (names : List Text) :
    relativeTo? (join dir ⟨.working, names⟩) dir = some ⟨.working, names⟩ := by
  simp [join, relativeTo?]

theorem join_of_relativeTo? {p dir q : Path} (h : relativeTo? p dir = some q) : join dir q = p := by
  unfold relativeTo? at h
  split at h
  · next hp =>
    obtain ⟨hroot, hnames⟩ := hp
    simp only [Option.some.injEq] at h
    subst h
    obtain ⟨rest, hrest⟩ := List.isPrefixOf_iff_prefix.mp hnames
    obtain ⟨root, names⟩ := p
    simp only at hroot hrest
    subst hroot hrest
    simp [join]
  · simp at h

end Path

end Inlay

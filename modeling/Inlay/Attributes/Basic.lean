import Inlay.Text.Basic

/-!
# Attributes

The attributes of a tag in four groups: class names, `data-` pairs, other pairs, and names without a
value.

* `Attributes` — the four groups.
* `putPair` — writes a pair into an ordered table: a name keeps its first place and takes its last
  value.
* `mergeClasses` — the union of two class lists in the order of first occurrence.

Main statements: `keys_putPair` (putting a pair adds its name at the end or nowhere) and
`mem_mergeClasses`.
-/

namespace Inlay

/-- An ordered table of names and values. -/
abbrev Pairs := List (Text × Text)

/-- The table with the value of `name` set: in its place if it has one, else at the end. -/
def putPair (name value : Text) : Pairs → Pairs
  | [] => [(name, value)]
  | (n, v) :: rest =>
    if n = name then (n, value) :: rest else (n, v) :: putPair name value rest

/-- The table that results from putting the given pairs one after the other. -/
def Pairs.ofList (ps : Pairs) : Pairs := ps.foldl (fun table p => putPair p.1 p.2 table) []

/-- The union of two class lists, each name at its first place. -/
def mergeClasses (existing added : List Text) : List Text := (existing ++ added).eraseDups

/-- The attributes of a tag. -/
structure Attributes where
  classes : List Text := []
  data : Pairs := []
  other : Pairs := []
  flags : List Text := []
  deriving DecidableEq, Repr

/-- Whether there are no attributes at all. -/
def Attributes.isEmpty (a : Attributes) : Bool :=
  a.classes.isEmpty && a.data.isEmpty && a.other.isEmpty && a.flags.isEmpty

theorem keys_putPair (name value : Text) (ps : Pairs) :
    (putPair name value ps).map Prod.fst =
      if name ∈ ps.map Prod.fst then ps.map Prod.fst else ps.map Prod.fst ++ [name] := by
  induction ps with
  | nil => simp [putPair]
  | cons p rest ih =>
    obtain ⟨n, v⟩ := p
    by_cases h : n = name
    · simp [putPair, h]
    · have h' : name ≠ n := fun e => h e.symm
      by_cases hm : name ∈ rest.map Prod.fst <;> simp_all [putPair]

theorem mem_mergeClasses {name : Text} {existing added : List Text} :
    name ∈ mergeClasses existing added ↔ name ∈ existing ∨ name ∈ added := by
  simp [mergeClasses]

end Inlay

import Inlay.Disk.Access

/-!
# Exchange with the system

A program works on a disk in memory. Before a run it reads from the system what its paths can lead to,
and after the run it brings the system to the new disk.

* `Disk.passed`, `Disk.ends` — the locations that paths go through, and those whose trees they name.
* `Disk.gone` — what has to be removed, each tree at its head.
* `Disk.fresh` — what has to be written, directories before what lies in them.

Main statements: `Disk.mem_fresh_iff` (what is written is what the system does not hold yet) and
`Disk.fresh_self`, `Disk.gone_self` (a run that changes nothing leads to no writing and no removal).
-/

namespace Inlay.Disk

/-- The locations from the top down to `l`, without `l` itself. -/
def above (l : Location) : List Location := (List.range l.length).map l.take

/-- The locations where the given paths end, but those that lie below another one. -/
def ends (d : Disk) (ps : List Path) : List Location :=
  let found := (ps.filterMap fun p => (d.normalize p).toOption).eraseDups
  found.filter fun l => !found.any fun m => isBelow m l

/-- The locations that the paths `steps` and `trees` go through, but those that belong to the tree of
an end of `trees`. -/
def passed (d : Disk) (steps trees : List Path) : List Location :=
  let found := (steps ++ trees).flatMap fun p =>
    (List.range (p.names.length + 1)).filterMap fun k =>
      (d.normalize ⟨p.root, p.names.take k⟩).toOption
  let heads := d.ends trees
  ((found.flatMap above) ++ found).eraseDups.filter fun l => !heads.any fun m => m.isPrefixOf l

/-- Whether `l` holds a node of another kind than `node`, or none. -/
def lacks (d : Disk) (l : Location) : Node → Bool
  | .directory => !decide (d.node? l = some .directory)
  | .file _ =>
    match d.node? l with
    | some (.file _) => false
    | _ => true

/-- What `d` has and `later` has no more, each tree at its head. -/
def gone (d later : Disk) : List (Location × Node) :=
  let missing := d.entries.filter fun e => later.lacks e.1 e.2
  missing.filter fun e => !missing.any fun f => isBelow f.1 e.1

/-- What `later` has and `d` has not, shorter locations first. -/
def fresh (d later : Disk) : List (Location × Node) :=
  (later.entries.filter fun e => !decide (d.node? e.1 = some e.2)).mergeSort fun e f =>
    decide (e.1.length ≤ f.1.length)

theorem mem_fresh_iff {d later : Disk} {l : Location} {node : Node} :
    (l, node) ∈ fresh d later ↔ (l, node) ∈ later.entries ∧ d.node? l ≠ some node := by
  simp [fresh]

theorem fresh_self {d : Disk} (h : ∀ e ∈ d.entries, d.node? e.1 = some e.2) : fresh d d = [] := by
  have : (d.entries.filter fun e => !decide (d.node? e.1 = some e.2)) = [] :=
    List.filter_eq_nil_iff.mpr fun e he => by simp [h e he]
  simp [fresh, this]

theorem gone_self {d : Disk} (h : ∀ e ∈ d.entries, d.node? e.1 = some e.2) : gone d d = [] := by
  have : (d.entries.filter fun e => d.lacks e.1 e.2) = [] :=
    List.filter_eq_nil_iff.mpr fun e he => by
      have := h e he
      cases hn : e.2 <;> simp_all [lacks]
  simp [gone, this]

end Inlay.Disk

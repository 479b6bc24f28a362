import Inlay.Proofs.Disk.Change

/-!
# Paths that lead upward

A path with two dots in it may lead nowhere until a directory in front of them is made. Where these
directories are there already, a disk that grows elsewhere does not change what the path leads to.

* `Disk.Settled` — wherever the path leads upward, what stands before is a directory.
* `Disk.Shelters` — a later disk has the same files below a path, and the directories that lead there.

Main statements: `Disk.Settled.directory_or_above` (where the way to a settled path goes) and
`Disk.Shelters.isFile`, `Disk.Shelters.readBytes` (what a later disk answers below the path, the earlier one
has answered).
-/

namespace Inlay.Disk

variable {d d' : Disk} {p : Path} {above tail : List Text}

/-- Wherever the path leads upward, what stands before is a directory. -/
def Settled (d : Disk) (p : Path) : Prop :=
  ∀ above, above ++ [Path.upward] <+: p.names → d.node? (walk (d.base p.root) above) = some .directory

theorem settled_of_not_mem (h : Path.upward ∉ p.names) : d.Settled p :=
  fun above hup => absurd (hup.subset (List.mem_append_right above (List.mem_singleton_self _))) h

/-- The way to a settled path goes through directories that are there, and straight down to its end. -/
theorem Settled.directory_or_above (hd : d.IsTree) (hs : d.Settled p) (h : above <+: p.names) :
    d.node? (walk (d.base p.root) above) = some .directory ∨
      walk (d.base p.root) above <+: d.locate p := by
  obtain ⟨rest, hrest⟩ := h
  by_cases hup : Path.upward ∈ rest
  · left
    obtain ⟨mid, more, rfl, hmid⟩ := List.eq_append_cons_of_mem hup
    have hdir := hs (above ++ mid) ⟨more, by rw [← hrest]; simp⟩
    rw [walk_append, walk_eq_append hmid] at hdir
    by_cases hnil : mid = []
    · rwa [hnil, List.append_nil] at hdir
    · exact hd.above hdir hnil
  · right
    refine ⟨rest, ?_⟩
    rw [← walk_eq_append hup, ← walk_append, hrest]
    rfl

/-- The names on the way to a path below `p` lead to `p`, or on from there. -/
theorem prefix_cases (h : above <+: p.names ++ tail) :
    above <+: p.names ∨ ∃ names, names <+: tail ∧ above = p.names ++ names := by
  rcases List.prefix_or_prefix_of_prefix h (List.prefix_append p.names tail) with h' | ⟨names, rfl⟩
  · exact .inl h'
  · exact .inr ⟨names, List.prefix_append_right_inj _ |>.mp h, rfl⟩

/-- A path straight down from a settled path is settled. -/
theorem Settled.join (hs : d.Settled p) (htail : Path.upward ∉ tail) :
    d.Settled (p.join ⟨.working, tail⟩) := by
  intro above hup
  rcases prefix_cases hup with hup | ⟨names, hnames, heq⟩
  · exact hs above hup
  · rcases List.eq_nil_or_concat' names with rfl | ⟨init, last, rfl⟩
    · exact hs above (by rw [heq, List.append_nil])
    · -- The last name on the way comes from below the path, where none leads upward.
      obtain rfl : Path.upward = last := by
        have hlast := congrArg List.getLast? heq
        rwa [← List.append_assoc, List.getLast?_concat, List.getLast?_concat, Option.some.injEq] at hlast
      exact absurd (hnames.subset (List.mem_append_right init (List.mem_singleton_self _))) htail

/-- Where there is a directory at the end of a settled path, the way to it goes through directories. -/
theorem Settled.directories (hd : d.IsTree) (hs : d.Settled p)
    (hdir : d.node? (d.locate p) = some .directory) (h : above <+: p.names) :
    d.node? (walk (d.base p.root) above) = some .directory := by
  rcases hs.directory_or_above hd h with hthere | ⟨rest, hrest⟩
  · exact hthere
  · rw [← hrest] at hdir
    by_cases hnil : rest = []
    · rwa [hnil, List.append_nil] at hdir
    · exact hd.above hdir hnil

/-- A way through directories is open. -/
theorem IsTree.opensFrom_of_directories (hd : d.IsTree) {l : Location} {names : List Text}
    (h : ∀ above, above <+: names → d.node? (walk l above) = some .directory) : d.OpensFrom l names := by
  induction names generalizing l with
  | nil => trivial
  | cons name rest ih =>
    have hfirst := h [name] (List.prefix_append [name] rest)
    have hrest : ∀ above, above <+: rest → d.node? (walk l (name :: above)) = some .directory :=
      fun above ha => h _ (List.cons_prefix_cons.mpr ⟨rfl, ha⟩)
    refine ⟨h [] List.nil_prefix, ?_⟩
    by_cases hup : name = Path.upward
    · subst hup
      rw [if_pos rfl]
      exact ih hrest
    · rw [if_neg hup]
      rw [walk_cons hup, walk_nil] at hfirst
      refine ⟨(hd.isName hfirst (List.mem_append_right _ (List.mem_singleton_self _))).short,
        ih fun above ha => ?_⟩
      rw [← walk_cons hup]
      exact hrest above ha

/-- A directory at the end of a settled path is found, if the system takes the path at all. -/
theorem Settled.isDirectory (hd : d.IsTree) (hs : d.Settled p) (hp : p.Usable)
    (hdir : d.node? (d.locate p) = some .directory) : d.isDirectory p = .ok true :=
  isDirectory_eq_true_iff.mpr
    ⟨⟨hp, hd.opensFrom_of_directories fun _ => hs.directories hd hdir⟩, hdir⟩

/-- A path below nothing is only too long as a whole, and so it is on every disk. -/
theorem overlong_join_of_none (h : d.Overlong (p.join ⟨.working, tail⟩)) (hshort : ¬ d.Overlong p)
    (hnone : d.node? (d.locate p) = none) (d' : Disk) : d'.Overlong (p.join ⟨.working, tail⟩) := by
  obtain ⟨hplain, hlong⟩ := overlong_iff.mp h
  refine overlong_iff.mpr ⟨hplain, .inl (hlong.resolve_right fun hway => ?_)⟩
  have hplain' : p.names.any (·.contains '\x00') = false := by
    have hboth : (p.names ++ tail).any (·.contains '\x00') = false := hplain
    rw [List.any_append, Bool.or_eq_false_iff] at hboth
    exact hboth.1
  rcases followFrom_append_eq_nameTooLong hway with hp | hdir
  · exact hshort (overlong_iff.mpr ⟨hplain', .inr hp⟩)
  · exact nomatch hnone.symm.trans hdir

/-! ## Files below a path -/

/-- The path is settled on `d`, and the disk `d'` has the same files below it, and the directories of `d` that
lead there, unless there is nothing at the path. -/
structure Shelters (d d' : Disk) (p : Path) : Prop where
  working : d'.working = d.working
  settled : d.Settled p
  file : ∀ {l content}, d.locate p <+: l →
    (d'.node? l = some (.file content) ↔ d.node? l = some (.file content))
  below : ∀ {l}, d.locate p <+: l → d.node? l = some .directory → d'.node? l = some .directory
  forth : (∀ above, above <+: p.names → d.node? (walk (d.base p.root) above) = some .directory →
      d'.node? (walk (d.base p.root) above) = some .directory) ∨
    d.node? (d.locate p) = none ∧ ¬ d.Overlong p

namespace Shelters

variable {content : Bytes} {b : Bool}

theorem directories (h : d.Shelters d' p) (htail : Path.upward ∉ tail)
    (hforth : ∀ above, above <+: p.names → d.node? (walk (d.base p.root) above) = some .directory →
      d'.node? (walk (d.base p.root) above) = some .directory)
    (habove : above <+: (p.join ⟨.working, tail⟩).names)
    (hdir : d.node? (walk (d.base p.root) above) = some .directory) :
    d'.node? (walk (d.base p.root) above) = some .directory := by
  rcases prefix_cases habove with habove | ⟨names, hnames, rfl⟩
  · exact hforth above habove hdir
  · rw [walk_append, walk_eq_append fun hup => htail (hnames.subset hup)] at hdir ⊢
    exact h.below (List.prefix_append _ _) hdir

/-- A file that a later disk has below the path, and can reach, the earlier one has and can reach. -/
theorem file_of_later (h : d.Shelters d' p) (hd : d.IsTree) (htail : Path.upward ∉ tail)
    (ho : d'.Opens (p.join ⟨.working, tail⟩))
    (hn : d'.node? (d'.locate (p.join ⟨.working, tail⟩)) = some (.file content)) :
    d.Opens (p.join ⟨.working, tail⟩) ∧
      d.node? (d.locate (p.join ⟨.working, tail⟩)) = some (.file content) := by
  rw [locate_congr h.working] at hn
  have hfile : d.node? (d.locate (p.join ⟨.working, tail⟩)) = some (.file content) := by
    refine (h.file ?_).mp hn
    rw [locate_join_of_level d p htail]
    exact List.prefix_append _ _
  refine ⟨ho.mono h.working.symm fun above habove hdir => ?_, hfile⟩
  rw [base_congr h.working] at hdir ⊢
  rcases (h.settled.join htail).directory_or_above hd habove with hthere | ⟨rest, hrest⟩
  · exact hthere
  · by_cases hnil : rest = []
    · -- The file itself is no directory.
      rw [hnil, List.append_nil] at hrest
      rw [hrest, hn] at hdir
      cases hdir
    · rw [← hrest] at hfile
      exact hd.above hfile hnil

theorem readBytes (h : d.Shelters d' p) (hd : d.IsTree) (htail : Path.upward ∉ tail)
    (hr : d'.readBytes (p.join ⟨.working, tail⟩) = .ok content) :
    d.readBytes (p.join ⟨.working, tail⟩) = .ok content := by
  obtain ⟨ho, hn⟩ := readBytes_eq_ok_iff.mp hr
  exact readBytes_eq_ok_iff.mpr (h.file_of_later hd htail ho hn)

/-- **What a later disk answers about a file below the path, the earlier one has answered.** -/
theorem isFile (h : d.Shelters d' p) (hd : d.IsTree) (htail : Path.upward ∉ tail) (hne : tail ≠ [])
    (hr : d'.isFile (p.join ⟨.working, tail⟩) = .ok b) : d.isFile (p.join ⟨.working, tail⟩) = .ok b := by
  have hplace : d.locate (p.join ⟨.working, tail⟩) = d.locate p ++ tail := by
    rw [locate_join_of_level d p htail]
  cases b with
  | true =>
    obtain ⟨ho, content, hn⟩ := isFile_eq_true_iff.mp hr
    obtain ⟨ho', hn'⟩ := h.file_of_later hd htail ho hn
    exact isFile_eq_true_iff.mpr ⟨ho', content, hn'⟩
  | false =>
    cases hf : d.isFile (p.join ⟨.working, tail⟩) with
    | error e =>
      obtain ⟨hlong, -⟩ := isFile_eq_error_iff.mp hf
      have hlong' : d'.Overlong (p.join ⟨.working, tail⟩) := by
        rcases h.forth with hforth | ⟨hnone, hshort⟩
        · exact hlong.mono h.working fun _ => h.directories htail hforth
        · exact overlong_join_of_none hlong hshort hnone d'
      rw [isFile_eq_error_iff.mpr ⟨hlong', rfl⟩] at hr
      cases hr
    | ok b' =>
      cases b' with
      | false => rfl
      | true =>
        obtain ⟨ho, content, hn⟩ := isFile_eq_true_iff.mp hf
        rcases h.forth with hforth | ⟨hnone, -⟩
        · have hn' : d'.node? (d'.locate (p.join ⟨.working, tail⟩)) = some (.file content) := by
            rw [locate_congr h.working]
            refine (h.file ?_).mpr hn
            rw [hplace]
            exact List.prefix_append _ _
          rw [isFile_eq_true_iff.mpr ⟨ho.mono h.working fun _ => h.directories htail hforth, content, hn'⟩] at hr
          cases hr
        · rw [hplace] at hn
          rw [hd.above hn hne] at hnone
          cases hnone

end Shelters

end Inlay.Disk

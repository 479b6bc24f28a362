import Mathlib
import Inlay.Disk.Access

/-!
# Where paths lead

There are no links, so the location that a path leads to can be told from its writing. Whether it leads
there at all depends on the disk: every step has to start in a directory, and no name may be too long.

* `Disk.locate` — the location that a path names by its writing.
* `Disk.Opens` — the way to a path is open: every step starts in a directory, and nothing is too long.
* `Disk.Overlong` — the system refuses a path because it, or a name that it meets, is too long.
* `Disk.Keeps` — a later disk has the directories of an earlier one, and files where that had files.

Main statements: `Disk.follow_eq_present_iff`, `Disk.follow_eq_vacant_iff` (where an open way leads),
`Disk.follow_eq_error` (the only other endings), `Disk.followFrom_eq_nameTooLong_iff` (when a name is too
long), `Disk.Keeps.opens` (an open way stays open).
-/

namespace Inlay

/-- The system takes the writing of the path at all. -/
structure Path.Usable (p : Path) : Prop where
  plain : p.names.any (·.contains '\x00') = false
  short : Utf8.size p.text < Disk.pathLimit

namespace Disk

variable {d d' : Disk} {p : Path} {l k : Location} {names : List Text}

/-- The location that names lead to from `l` by their writing: two dots take away the name before. -/
def walk (l : Location) (names : List Text) : Location :=
  names.foldl (fun l name => if name = Path.upward then l.dropLast else l ++ [name]) l

/-- The location that a path names by its writing. -/
def locate (d : Disk) (p : Path) : Location := walk (d.base p.root) p.names

@[simp] theorem walk_nil (l : Location) : walk l [] = l := rfl

theorem walk_upward (l : Location) (names : List Text) :
    walk l (Path.upward :: names) = walk l.dropLast names := rfl

theorem walk_cons {name : Text} (h : name ≠ Path.upward) (l : Location) (names : List Text) :
    walk l (name :: names) = walk (l ++ [name]) names := by
  simp only [walk, List.foldl_cons, if_neg h]

theorem walk_append (l : Location) (names more : List Text) :
    walk l (names ++ more) = walk (walk l names) more := by
  simp only [walk, List.foldl_append]

/-- Names without two dots among them lead straight down. -/
theorem walk_eq_append (h : Path.upward ∉ names) (l : Location) : walk l names = l ++ names := by
  induction names generalizing l with
  | nil => simp
  | cons name rest ih =>
    obtain ⟨hname, hrest⟩ := List.ne_and_not_mem_of_not_mem_cons h
    rw [walk_cons hname.symm, ih hrest, List.append_assoc, List.singleton_append]

theorem locate_join (d : Disk) (p : Path) (names : List Text) :
    d.locate (p.join ⟨.working, names⟩) = walk (d.locate p) names := walk_append _ _ _

theorem locate_join_of_level (d : Disk) (p : Path) (h : Path.upward ∉ names) :
    d.locate (p.join ⟨.working, names⟩) = d.locate p ++ names := by
  rw [locate_join, walk_eq_append h]

theorem locate_congr (h : d'.working = d.working) : d'.locate = d.locate := by
  funext p
  unfold locate base
  rw [h]

theorem normalize_eq_ok_iff :
    d.normalize p = .ok l ↔ p.names.any (·.contains '\x00') = false ∧ l = d.locate p := by
  unfold normalize locate walk
  cases p.names.any (·.contains '\x00') <;> simp [eq_comm]

/-! ## Open ways -/

/-- Every step along the names starts in a directory, and no name is too long. -/
def OpensFrom (d : Disk) (l : Location) : List Text → Prop
  | [] => True
  | name :: rest => d.node? l = some .directory ∧
    if name = Path.upward then d.OpensFrom l.dropLast rest
    else Utf8.size name ≤ longestName ∧ d.OpensFrom (l ++ [name]) rest

/-- The way to a path is open. -/
structure Opens (d : Disk) (p : Path) : Prop where
  usable : p.Usable
  steps : d.OpensFrom (d.base p.root) p.names

/-- The system refuses the path as too long. -/
def Overlong (d : Disk) (p : Path) : Prop := d.follow p = .error (.obstacle .nameTooLong p)

theorem opensFrom_append {more : List Text} :
    d.OpensFrom l (names ++ more) ↔ d.OpensFrom l names ∧ d.OpensFrom (walk l names) more := by
  induction names generalizing l with
  | nil => simp [OpensFrom]
  | cons name rest ih =>
    by_cases h : name = Path.upward
    · subst h
      simp [OpensFrom, walk_upward, ih, and_assoc]
    · simp [OpensFrom, walk_cons h, h, ih, and_assoc]

/-- A last name is the first one, or stands behind it. -/
theorem exists_cons_eq_concat_iff {name : Text} {rest : List Text} {P : Text → Prop} :
    (∃ above last, name :: rest = above ++ [last] ∧ P last) ↔
      (rest = [] ∧ P name) ∨ ∃ above last, rest = above ++ [last] ∧ P last := by
  constructor
  · rintro ⟨above, last, h, hlast⟩
    cases above with
    | nil =>
      obtain ⟨rfl, rfl⟩ := List.cons_eq_cons.mp h
      exact .inl ⟨rfl, hlast⟩
    | cons first above =>
      obtain ⟨rfl, rfl⟩ := List.cons_eq_cons.mp h
      exact .inr ⟨above, last, rfl, hlast⟩
  · rintro (⟨rfl, hname⟩ | ⟨above, last, rfl, hlast⟩)
    · exact ⟨[], name, rfl, hname⟩
    · exact ⟨name :: above, last, rfl, hlast⟩

/-- **An open way leads where its names say**: to what is there, or to nothing below a last name that is free. -/
theorem followFrom_eq_ok_iff {place : Place} :
    d.followFrom l names = .ok place ↔ d.OpensFrom l names ∧
      ((∃ node, d.node? (walk l names) = some node ∧ place = .present (walk l names) node) ∨
        (∃ above name, names = above ++ [name] ∧ name ≠ Path.upward) ∧ d.node? (walk l names) = none ∧
          place = .vacant (walk l names)) := by
  induction names generalizing l with
  | nil =>
    unfold followFrom
    cases hn : d.node? l with
    | none => simp [hn]
    | some node =>
      simp [OpensFrom, hn]
      exact eq_comm
  | cons name rest ih =>
    rw [exists_cons_eq_concat_iff]
    unfold followFrom OpensFrom
    cases hn : d.node? l with
    | none => simp
    | some found =>
      cases found with
      | file content => simp
      | directory =>
        by_cases hup : name = Path.upward
        · subst hup
          simp [ih, walk_upward]
        · by_cases hlong : longestName < Utf8.size name
          · simp [hup, hlong]
          · simp only [hup, hlong, if_false, walk_cons hup, true_and, Nat.not_lt.mp hlong]
            by_cases hlast : rest = []
            · subst hlast
              cases hv : d.node? (l ++ [name]) with
              | none =>
                simp [hv, OpensFrom, hup]
                exact eq_comm
              | some node =>
                simp [ih, hv, OpensFrom]
            · simp [ih, hlast]

theorem followFrom_eq_present_iff {node : Node} :
    d.followFrom l names = .ok (.present k node) ↔
      d.OpensFrom l names ∧ k = walk l names ∧ d.node? k = some node := by
  rw [followFrom_eq_ok_iff]
  constructor
  · rintro ⟨ho, ⟨node', hn, heq⟩ | ⟨-, -, heq⟩⟩
    · cases heq
      exact ⟨ho, rfl, hn⟩
    · cases heq
  · rintro ⟨ho, rfl, hn⟩
    exact ⟨ho, .inl ⟨node, hn, rfl⟩⟩

theorem followFrom_eq_vacant_iff :
    d.followFrom l names = .ok (.vacant k) ↔
      ∃ above name, names = above ++ [name] ∧ name ≠ Path.upward ∧ d.OpensFrom l names ∧
        k = walk l names ∧ d.node? k = none := by
  rw [followFrom_eq_ok_iff]
  constructor
  · rintro ⟨ho, ⟨node, -, heq⟩ | ⟨⟨above, name, hnames, hname⟩, hn, heq⟩⟩
    · cases heq
    · cases heq
      exact ⟨above, name, hnames, hname, ho, rfl, hn⟩
  · rintro ⟨above, name, hnames, hname, ho, rfl, hn⟩
    exact ⟨ho, .inr ⟨⟨above, name, hnames, hname⟩, hn, rfl⟩⟩

/-- The only obstacles on a way. -/
theorem followFrom_eq_error {cause : Obstacle} (h : d.followFrom l names = .error cause) :
    cause = .missing ∨ cause = .notDirectory ∨ cause = .nameTooLong := by
  induction names generalizing l with
  | nil =>
    unfold followFrom at h
    split at h <;> cases h
    exact .inl rfl
  | cons name rest ih =>
    unfold followFrom at h
    split at h
    · cases h
      exact .inl rfl
    · cases h
      exact .inr (.inl rfl)
    · split at h
      · exact ih h
      · split at h
        · cases h
          exact .inr (.inr rfl)
        · split at h
          · cases h
          · exact ih h

theorem OpensFrom.mono (h : d.OpensFrom l names)
    (hd : ∀ above, above <+: names → d.node? (walk l above) = some .directory →
      d'.node? (walk l above) = some .directory) : d'.OpensFrom l names := by
  induction names generalizing l with
  | nil => trivial
  | cons name rest ih =>
    obtain ⟨hl, hrest⟩ := h
    refine ⟨hd [] List.nil_prefix hl, ?_⟩
    by_cases hup : name = Path.upward
    · subst hup
      rw [if_pos rfl] at hrest ⊢
      exact ih hrest fun above ha => hd (_ :: above) (List.cons_prefix_cons.mpr ⟨rfl, ha⟩)
    · rw [if_neg hup] at hrest ⊢
      refine ⟨hrest.1, ih hrest.2 fun above ha => ?_⟩
      rw [← walk_cons hup]
      exact hd (name :: above) (List.cons_prefix_cons.mpr ⟨rfl, ha⟩)

theorem exists_of_followFrom_eq_nameTooLong (h : d.followFrom l names = .error .nameTooLong) :
    ∃ above name more, names = above ++ name :: more ∧ d.OpensFrom l above ∧
      d.node? (walk l above) = some .directory ∧ name ≠ Path.upward ∧ longestName < Utf8.size name := by
  induction names generalizing l with
  | nil =>
    unfold followFrom at h
    split at h <;> cases h
  | cons name rest ih =>
    unfold followFrom at h
    split at h
    · cases h
    · cases h
    · rename_i hl
      split at h
      · rename_i hup
        subst hup
        obtain ⟨above, last, more, rfl, ho, hdir, hlast⟩ := ih h
        exact ⟨Path.upward :: above, last, more, rfl, ⟨hl, by rwa [if_pos rfl]⟩, hdir, hlast⟩
      · rename_i hup
        split at h
        · rename_i hlong
          exact ⟨[], name, rest, rfl, trivial, hl, hup, hlong⟩
        · rename_i hshort
          split at h
          · cases h
          · obtain ⟨above, last, more, rfl, ho, hdir, hlast⟩ := ih h
            refine ⟨name :: above, last, more, rfl, ⟨hl, ?_⟩, by rwa [walk_cons hup], hlast⟩
            rw [if_neg hup]
            exact ⟨Nat.not_lt.mp hshort, ho⟩

theorem followFrom_append_cons_of_long {above more : List Text} {name : Text} (ho : d.OpensFrom l above)
    (hdir : d.node? (walk l above) = some .directory) (hname : name ≠ Path.upward)
    (hlong : longestName < Utf8.size name) :
    d.followFrom l (above ++ name :: more) = .error .nameTooLong := by
  induction above generalizing l with
  | nil =>
    rw [walk_nil] at hdir
    rw [List.nil_append]
    unfold followFrom
    simp only [hdir, if_neg hname, if_pos hlong]
  | cons first above ih =>
    obtain ⟨hl, hsteps⟩ := ho
    rw [List.cons_append]
    unfold followFrom
    simp only [hl]
    by_cases hup : first = Path.upward
    · subst hup
      rw [if_pos rfl] at hsteps ⊢
      exact ih hsteps hdir
    · rw [if_neg hup] at hsteps ⊢
      rw [walk_cons hup] at hdir
      -- more names stand behind this one, so the way does not end at it
      rw [if_neg (Nat.not_lt.mpr hsteps.1), if_neg fun hv => absurd hv.1 (by simp)]
      exact ih hsteps.2 hdir

/-- **A way ends at a name that is too long just if it is open up to the directory where that name is met.** -/
theorem followFrom_eq_nameTooLong_iff :
    d.followFrom l names = .error .nameTooLong ↔
      ∃ above name more, names = above ++ name :: more ∧ d.OpensFrom l above ∧
        d.node? (walk l above) = some .directory ∧ name ≠ Path.upward ∧ longestName < Utf8.size name := by
  constructor
  · exact exists_of_followFrom_eq_nameTooLong
  · rintro ⟨above, name, more, rfl, ho, hdir, hname, hlong⟩
    exact followFrom_append_cons_of_long ho hdir hname hlong

/-- A name that is too long on one disk is so on every disk that has the directories of the way. -/
theorem followFrom_eq_nameTooLong (h : d.followFrom l names = .error .nameTooLong)
    (hd : ∀ above, above <+: names → d.node? (walk l above) = some .directory →
      d'.node? (walk l above) = some .directory) :
    d'.followFrom l names = .error .nameTooLong := by
  obtain ⟨above, name, more, rfl, ho, hdir, hname⟩ := followFrom_eq_nameTooLong_iff.mp h
  have habove : above <+: above ++ name :: more := List.prefix_append ..
  refine followFrom_eq_nameTooLong_iff.mpr ⟨above, name, more, rfl, ?_, hd above habove hdir, hname⟩
  exact ho.mono fun before hbefore => hd before (hbefore.trans habove)

/-- A way on which a name is too long meets it in the first names, or finds a directory behind them. -/
theorem followFrom_append_eq_nameTooLong {more : List Text}
    (h : d.followFrom l (names ++ more) = .error .nameTooLong) :
    d.followFrom l names = .error .nameTooLong ∨ d.node? (walk l names) = some .directory := by
  obtain ⟨above, name, rest, heq, ho, hdir, hname⟩ := followFrom_eq_nameTooLong_iff.mp h
  rcases List.append_eq_append_iff.mp heq with ⟨between, rfl, -⟩ | ⟨behind, rfl, hbehind⟩
  · -- the way goes on from the end of the first names, or ends there
    right
    obtain ⟨-, hsteps⟩ := opensFrom_append.mp ho
    cases between with
    | nil => rwa [List.append_nil] at hdir
    | cons next between => exact hsteps.1
  · cases behind with
    | nil =>
      right
      rwa [List.append_nil]
    | cons first behind =>
      left
      obtain ⟨rfl, -⟩ := List.cons_eq_cons.mp hbehind
      exact followFrom_eq_nameTooLong_iff.mpr ⟨above, name, behind, rfl, ho, hdir, hname⟩

theorem follow_eq_ok_iff {place : Place} :
    d.follow p = .ok place ↔ p.Usable ∧ d.followFrom (d.base p.root) p.names = .ok place := by
  unfold follow
  split
  · rename_i hn
    refine ⟨fun h => (nomatch h), fun ⟨⟨h, _⟩, _⟩ => ?_⟩
    rw [h] at hn
    cases hn
  · rename_i hn
    split
    · rename_i hs
      exact ⟨fun h => (nomatch h), fun ⟨⟨_, h⟩, _⟩ => absurd h (Nat.not_lt.mpr hs)⟩
    · rename_i hs
      have hu : p.Usable := ⟨by simpa using hn, Nat.not_le.mp hs⟩
      simp only [hu, true_and]
      cases d.followFrom (d.base p.root) p.names <;> simp [Except.mapError]

theorem follow_eq_present_iff {node : Node} :
    d.follow p = .ok (.present k node) ↔ d.Opens p ∧ k = d.locate p ∧ d.node? k = some node := by
  rw [follow_eq_ok_iff, followFrom_eq_present_iff]
  exact ⟨fun ⟨hu, ho, h⟩ => ⟨⟨hu, ho⟩, h⟩, fun ⟨⟨hu, ho⟩, h⟩ => ⟨hu, ho, h⟩⟩

theorem follow_eq_vacant_iff :
    d.follow p = .ok (.vacant k) ↔
      ∃ above name, p.names = above ++ [name] ∧ name ≠ Path.upward ∧ d.Opens p ∧
        k = d.locate p ∧ d.node? k = none := by
  rw [follow_eq_ok_iff, followFrom_eq_vacant_iff]
  constructor
  · rintro ⟨hu, above, name, hn, hup, ho, h⟩
    exact ⟨above, name, hn, hup, ⟨hu, ho⟩, h⟩
  · rintro ⟨above, name, hn, hup, ⟨hu, ho⟩, h⟩
    exact ⟨hu, above, name, hn, hup, ho, h⟩

/-- The only ways for a path to lead nowhere. -/
theorem follow_eq_error {e : DiskError} (h : d.follow p = .error e) :
    (e = .nullCharacter ∧ p.names.any (·.contains '\x00') = true) ∨ e = .obstacle .missing p ∨
      e = .obstacle .notDirectory p ∨ (e = .obstacle .nameTooLong p ∧ d.Overlong p) := by
  have hwhole := h
  unfold follow at h
  split at h
  · rename_i hn
    cases h
    exact .inl ⟨rfl, hn⟩
  · split at h
    · cases h
      exact .inr (.inr (.inr ⟨rfl, hwhole⟩))
    · cases hf : d.followFrom (d.base p.root) p.names with
      | ok place => rw [hf] at h; cases h
      | error cause =>
        rw [hf] at h
        cases h
        rcases followFrom_eq_error hf with rfl | rfl | rfl
        · exact .inr (.inl rfl)
        · exact .inr (.inr (.inl rfl))
        · exact .inr (.inr (.inr ⟨rfl, hwhole⟩))

theorem any_contains_of_follow (h : d.follow p = .error .nullCharacter) :
    p.names.any (·.contains '\x00') = true := by
  rcases follow_eq_error h with ⟨-, hn⟩ | h | h | ⟨h, -⟩
  · exact hn
  all_goals cases h

theorem base_congr (h : d'.working = d.working) : d'.base = d.base := by
  funext root
  unfold base
  rw [h]

theorem Opens.mono (h : d.Opens p) (hw : d'.working = d.working)
    (hd : ∀ above, above <+: p.names → d.node? (walk (d.base p.root) above) = some .directory →
      d'.node? (walk (d.base p.root) above) = some .directory) : d'.Opens p :=
  ⟨h.usable, by rw [base_congr hw]; exact h.steps.mono hd⟩

/-- A path is too long as a whole, or by a name that is met on its way. -/
theorem overlong_iff :
    d.Overlong p ↔ p.names.any (·.contains '\x00') = false ∧ (pathLimit ≤ Utf8.size p.text ∨
      d.followFrom (d.base p.root) p.names = .error .nameTooLong) := by
  unfold Overlong follow
  cases p.names.any (·.contains '\x00') with
  | true => simp
  | false =>
    rw [if_neg Bool.false_ne_true]
    by_cases hs : pathLimit ≤ Utf8.size p.text
    · simp [hs]
    · cases d.followFrom (d.base p.root) p.names <;> simp [hs, Except.mapError]

theorem Overlong.mono (h : d.Overlong p) (hw : d'.working = d.working)
    (hd : ∀ above, above <+: p.names → d.node? (walk (d.base p.root) above) = some .directory →
      d'.node? (walk (d.base p.root) above) = some .directory) : d'.Overlong p := by
  obtain ⟨hplain, hlong⟩ := overlong_iff.mp h
  refine overlong_iff.mpr ⟨hplain, hlong.imp_right fun hlong => ?_⟩
  rw [base_congr hw]
  exact followFrom_eq_nameTooLong hlong hd

/-! ## Questions -/

/-- A question about a path fails only on a path that is too long. -/
theorem probe_eq_error_iff {e : DiskError} :
    d.probe p = .error e ↔ d.Overlong p ∧ e = .obstacle .nameTooLong p := by
  constructor
  · intro h
    unfold probe at h
    split at h
    · cases h
    · cases h
    · rename_i e' he
      rcases follow_eq_error he with ⟨rfl, -⟩ | rfl | rfl | ⟨rfl, hlong⟩
      · cases h
      · cases h
      · cases h
      · cases h
        exact ⟨hlong, rfl⟩
  · rintro ⟨h, rfl⟩
    unfold probe
    rw [h]
    rfl

theorem probe_eq_some_iff {node : Node} :
    d.probe p = .ok (some node) ↔ d.Opens p ∧ d.node? (d.locate p) = some node := by
  constructor
  · intro h
    unfold probe at h
    split at h
    · rename_i k found hf
      cases h
      obtain ⟨ho, rfl, hn⟩ := follow_eq_present_iff.mp hf
      exact ⟨ho, hn⟩
    · cases h
    · split at h <;> cases h
  · rintro ⟨ho, hn⟩
    unfold probe
    rw [follow_eq_present_iff.mpr ⟨ho, rfl, hn⟩]

theorem isFile_eq_true_iff :
    d.isFile p = .ok true ↔ d.Opens p ∧ ∃ content, d.node? (d.locate p) = some (.file content) := by
  unfold isFile
  constructor
  · intro h
    match hp : d.probe p with
    | .error e => rw [hp] at h; cases h
    | .ok none => rw [hp] at h; cases h
    | .ok (some .directory) => rw [hp] at h; cases h
    | .ok (some (.file content)) =>
      obtain ⟨ho, hn⟩ := probe_eq_some_iff.mp hp
      exact ⟨ho, content, hn⟩
  · rintro ⟨ho, content, hn⟩
    rw [probe_eq_some_iff.mpr ⟨ho, hn⟩]
    rfl

theorem isDirectory_eq_true_iff :
    d.isDirectory p = .ok true ↔ d.Opens p ∧ d.node? (d.locate p) = some .directory := by
  unfold isDirectory
  rw [← probe_eq_some_iff]
  cases d.probe p <;> simp [Except.map]

theorem exists?_of_isDirectory (h : d.isDirectory p = .ok true) : d.exists? p = .ok true := by
  unfold exists?
  rw [probe_eq_some_iff.mpr (isDirectory_eq_true_iff.mp h)]
  rfl

/-- Whatever is asked about a path, the question fails only on a path that is too long. -/
theorem map_probe_eq_error_iff {α : Type} (question : Option Node → α) {e : DiskError} :
    (d.probe p).map question = .error e ↔ d.Overlong p ∧ e = .obstacle .nameTooLong p := by
  rw [← probe_eq_error_iff]
  cases d.probe p <;> simp [Except.map]

/-- Whatever is asked about a path, there is an answer unless the path is too long. -/
theorem exists_map_probe_iff {α : Type} (question : Option Node → α) :
    (∃ answer, (d.probe p).map question = .ok answer) ↔ ¬ d.Overlong p := by
  cases hp : (d.probe p).map question with
  | ok answer =>
    refine ⟨fun _ hlong => ?_, fun _ => ⟨answer, rfl⟩⟩
    rw [(map_probe_eq_error_iff question).mpr ⟨hlong, rfl⟩] at hp
    cases hp
  | error e =>
    exact ⟨fun ⟨_, h⟩ => (nomatch h), fun h => absurd ((map_probe_eq_error_iff question).mp hp).1 h⟩

theorem isFile_eq_error_iff {e : DiskError} :
    d.isFile p = .error e ↔ d.Overlong p ∧ e = .obstacle .nameTooLong p := map_probe_eq_error_iff _

theorem isDirectory_eq_error_iff {e : DiskError} :
    d.isDirectory p = .error e ↔ d.Overlong p ∧ e = .obstacle .nameTooLong p := map_probe_eq_error_iff _

theorem exists_isFile_iff : (∃ b, d.isFile p = .ok b) ↔ ¬ d.Overlong p := exists_map_probe_iff _

theorem exists_isDirectory_iff : (∃ b, d.isDirectory p = .ok b) ↔ ¬ d.Overlong p := exists_map_probe_iff _

/-- A file that is found can be read. -/
theorem readBytes_eq_ok_iff {content : Bytes} :
    d.readBytes p = .ok content ↔ d.Opens p ∧ d.node? (d.locate p) = some (.file content) := by
  unfold readBytes
  constructor
  · intro h
    split at h
    · rename_i hf
      cases h
      obtain ⟨ho, rfl, hn⟩ := follow_eq_present_iff.mp hf
      exact ⟨ho, hn⟩
    · cases h
    · cases h
    · cases h
  · rintro ⟨ho, hn⟩
    rw [follow_eq_present_iff.mpr ⟨ho, rfl, hn⟩]

theorem directoryAt_eq_ok_iff : d.directoryAt p = .ok l ↔ d.isDirectory p = .ok true ∧ l = d.locate p := by
  unfold Disk.directoryAt
  constructor
  · intro h
    split at h
    · rename_i hf
      obtain ⟨ho, rfl, hn⟩ := follow_eq_present_iff.mp hf
      cases h
      exact ⟨isDirectory_eq_true_iff.mpr ⟨ho, hn⟩, rfl⟩
    · cases h
    · cases h
    · cases h
  · rintro ⟨hdir, rfl⟩
    obtain ⟨ho, hn⟩ := isDirectory_eq_true_iff.mp hdir
    rw [follow_eq_present_iff.mpr ⟨ho, rfl, hn⟩]

/-- What is told of a directory that is found. -/
theorem map_directoryAt_eq_ok_iff {α : Type} {f : Location → α} {a : α} :
    (d.directoryAt p).map f = .ok a ↔ d.isDirectory p = .ok true ∧ a = f (d.locate p) := by
  constructor
  · intro h
    cases hd : d.directoryAt p with
    | error e => rw [hd] at h; cases h
    | ok l =>
      rw [hd] at h
      cases h
      obtain ⟨hdir, rfl⟩ := directoryAt_eq_ok_iff.mp hd
      exact ⟨hdir, rfl⟩
  · rintro ⟨hdir, rfl⟩
    rw [directoryAt_eq_ok_iff.mpr ⟨hdir, rfl⟩]
    rfl

/-- The names in a directory that is found. -/
theorem names_eq_ok_iff {ns : List Text} :
    d.names p = .ok ns ↔ d.isDirectory p = .ok true ∧ ns = d.namesIn (d.locate p) := map_directoryAt_eq_ok_iff

/-- The names of the directories in a directory that is found. -/
theorem directoryNames_eq_ok_iff {ns : List Text} :
    d.directoryNames p = .ok ns ↔ d.isDirectory p = .ok true ∧
      ns = (d.namesIn (d.locate p)).filter fun name => d.node? (d.locate p ++ [name]) = some .directory :=
  map_directoryAt_eq_ok_iff

/-! ## Disks that grow -/

/-- The disk `d'` has the directories of `d`, and a file wherever `d` has one. -/
structure Keeps (d d' : Disk) : Prop where
  working : d'.working = d.working
  directory : ∀ {k}, d.node? k = some .directory → d'.node? k = some .directory
  file : ∀ {k content}, d.node? k = some (.file content) → ∃ content', d'.node? k = some (.file content')

namespace Keeps

variable {d'' : Disk}

theorem refl (d : Disk) : d.Keeps d := ⟨rfl, id, fun h => ⟨_, h⟩⟩

theorem trans (h : d.Keeps d') (h' : d'.Keeps d'') : d.Keeps d'' where
  working := h'.working.trans h.working
  directory hk := h'.directory (h.directory hk)
  file hk := by
    obtain ⟨_, hk'⟩ := h.file hk
    exact h'.file hk'

theorem opens (h : d.Keeps d') (ho : d.Opens p) : d'.Opens p :=
  ho.mono h.working fun _ _ hk => h.directory hk

theorem locate (h : d.Keeps d') : d'.locate = d.locate := locate_congr h.working

theorem isFile (h : d.Keeps d') (hp : d.isFile p = .ok true) : d'.isFile p = .ok true := by
  obtain ⟨ho, content, hn⟩ := isFile_eq_true_iff.mp hp
  obtain ⟨content', hn'⟩ := h.file hn
  exact isFile_eq_true_iff.mpr ⟨h.opens ho, content', by rwa [h.locate]⟩

end Keeps

end Disk

end Inlay

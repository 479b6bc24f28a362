import Inlay.Disk.Glob
import Inlay.Proofs.Distinct
import Inlay.Proofs.Run
import Inlay.Proofs.Disk.Tree
import Inlay.Proofs.Disk.Written

/-!
# What glob patterns select

A pattern whose names do not lead upward selects paths that lead straight down from its directory, each of
them once.

* `Path.Downward` — names that lead straight down.
* `Glob.IsDownward` — a pattern none of whose names leads upward.

Main statements: `Glob.mem_directories_iff` (the directories below a directory), `Glob.selectFrom_cases` (what
one step of a pattern selects), `Glob.downward_of_selectFrom`, `Glob.nodup_selectFrom`, `filesBelow_cases` (where
the files lie that a pattern selects) and `filesBelow_returns_iff` (when a pattern for every depth can be
selected by).
-/

namespace Inlay

open Disk

namespace Path

variable {p : Path} {name : Text} {names more : List Text}

/-- The names lead straight down from a directory: some text writes them, and none of them leads upward. -/
structure Downward (names : List Text) : Prop where
  written : Written ⟨.working, names⟩
  level : upward ∉ names

namespace Downward

theorem nil : Downward [] := ⟨fun _ h => (nomatch h), by simp⟩

theorem append (h : Downward names) (hmore : Downward more) : Downward (names ++ more) :=
  ⟨h.written.join hmore.written, fun hmem => (List.mem_append.mp hmem).elim h.level hmore.level⟩

theorem of_isName (h : ∀ name ∈ names, IsName name) : Downward names :=
  ⟨fun name hname => ⟨(h name hname).nonempty, (h name hname).undotted, (h name hname).unslashed⟩,
    fun hmem => (h _ hmem).level rfl⟩

end Downward

theorem join_nil (p : Path) : p.join ⟨.working, []⟩ = p := by
  unfold join
  rw [List.append_nil]

theorem join_join (p : Path) (names more : List Text) :
    (p.join ⟨.working, names⟩).join ⟨.working, more⟩ = p.join ⟨.working, names ++ more⟩ := by
  unfold join
  rw [List.append_assoc]

theorem child_eq_join (p : Path) (name : Text) : p.child name = p.join ⟨.working, [name]⟩ := rfl

theorem join_inj (h : p.join ⟨.working, names⟩ = p.join ⟨.working, more⟩) : names = more := by
  injection h with _ hnames
  exact List.append_cancel_left hnames

end Path

namespace Glob

open Inlay.Path (Downward join_nil join_join child_eq_join)

variable {d : Disk} {p q : Path} {names : List Text} {qs : List Path} {step : GlobStep}
  {rest : List GlobStep} {only : Bool}

/-- The directories at and below a directory, each by the names that lead down to it. -/
theorem mem_directories_iff (hd : d.IsTree) :
    q ∈ directories d p ↔ d.isDirectory p = .ok true ∧
      ∃ names, q = p.join ⟨.working, names⟩ ∧ d.node? (d.locate p ++ names) = some .directory := by
  constructor
  · intro h
    unfold directories at h
    split at h
    · rename_i l hf
      obtain ⟨ho, rfl, hn⟩ := follow_eq_present_iff.mp hf
      refine ⟨isDirectory_eq_true_iff.mpr ⟨ho, hn⟩, ?_⟩
      rcases List.mem_cons.mp h with rfl | h
      · exact ⟨[], (join_nil q).symm, by rwa [List.append_nil]⟩
      · obtain ⟨⟨l, node⟩, he, rfl⟩ := List.mem_map.mp h
        simp only [List.mem_filter, Bool.and_eq_true, decide_eq_true_eq] at he
        obtain ⟨hmem, hbelow, rfl⟩ := he
        obtain ⟨⟨names, rfl⟩, hne⟩ := isBelow_iff.mp hbelow
        refine ⟨names, by simp [Path.join], hd.node?_eq_of_mem ?_ hmem⟩
        intro hnil
        exact hne (hnil.trans (List.append_eq_nil_iff.mp hnil).1.symm)
    · cases h
  · rintro ⟨hp, names, rfl, hdir⟩
    obtain ⟨ho, hn⟩ := isDirectory_eq_true_iff.mp hp
    unfold directories
    rw [follow_eq_present_iff.mpr ⟨ho, rfl, hn⟩]
    by_cases hnil : names = []
    · subst hnil
      rw [join_nil]
      exact List.mem_cons_self
    · have hbelow : isBelow (d.locate p) (d.locate p ++ names) = true :=
        isBelow_iff.mpr ⟨List.prefix_append _ _, by simpa using hnil⟩
      have hmem := mem_entries_of_node? (by simp [hnil]) hdir
      refine List.mem_cons_of_mem _ (List.mem_map.mpr ⟨(d.locate p ++ names, .directory), ?_, ?_⟩)
      · exact List.mem_filter.mpr ⟨hmem, by simp [hbelow]⟩
      · simp [Path.join]

/-- What one step of a pattern selects, if it selects at all. -/
theorem selectFrom_cases (h : selectFrom d only (step :: rest) p = .ok qs) :
    (∃ text, step = .name text ∧ (qs = [] ∨ selectFrom d only rest (p.child text) = .ok qs)) ∨
    (∃ (wildcards : List Wildcard) (found : List Text), step = .pattern wildcards ∧ found.Sublist (d.namesIn (d.locate p)) ∧
      (∀ name ∈ found, ∃ qs', selectFrom d only rest (p.child name) = .ok qs') ∧
      qs = found.flatMap fun name => answerOf (selectFrom d only rest (p.child name))) ∨
    (step = .anyDepth ∧ (∀ q ∈ directories d p, ∃ qs', selectFrom d only rest q = .ok qs') ∧
      qs = ((directories d p).flatMap fun q => answerOf (selectFrom d only rest q)).eraseDups) := by
  unfold selectFrom at h
  cases step with
  | name text =>
    refine .inl ⟨text, rfl, ?_⟩
    obtain ⟨there, -, h⟩ := bind_eq_ok_iff.mp h
    cases there with
    | true => exact .inr h
    | false =>
      cases h
      exact .inl rfl
  | pattern wildcards =>
    obtain ⟨listed, hlisted, h⟩ := bind_eq_ok_iff.mp h
    obtain ⟨selected, hselected, h⟩ := bind_eq_ok_iff.mp h
    have hsub : listed.Sublist (d.namesIn (d.locate p)) := by
      split at hlisted
      · obtain ⟨-, rfl⟩ := directoryNames_eq_ok_iff.mp hlisted
        exact List.filter_sublist
      · obtain ⟨-, rfl⟩ := names_eq_ok_iff.mp hlisted
        exact List.Sublist.refl _
    obtain ⟨hall, rfl⟩ := mapM_eq_ok_iff.mp hselected
    cases h
    exact .inr (.inl ⟨wildcards, _, rfl, List.filter_sublist.trans hsub, hall, List.flatMap_def.symm⟩)
  | anyDepth =>
    obtain ⟨selected, hselected, h⟩ := bind_eq_ok_iff.mp h
    obtain ⟨hall, rfl⟩ := mapM_eq_ok_iff.mp hselected
    cases h
    exact .inr (.inr ⟨rfl, hall, by rw [List.flatMap_def]⟩)

/-- No name of the pattern leads upward. -/
def IsDownward (steps : List GlobStep) : Prop := ∀ text, .name text ∈ steps → Downward [text]

/-- What a pattern selects lies straight below its directory. -/
theorem downward_of_selectFrom (hd : d.IsTree) {steps : List GlobStep} (hsteps : IsDownward steps)
    (h : selectFrom d only steps p = .ok qs) (hq : q ∈ qs) :
    ∃ names, q = p.join ⟨.working, names⟩ ∧ Downward names := by
  induction steps generalizing p q qs with
  | nil =>
    cases h
    obtain rfl := List.mem_singleton.mp hq
    exact ⟨[], (join_nil q).symm, .nil⟩
  | cons step rest ih =>
    have hrest : IsDownward rest := fun text hmem => hsteps text (List.mem_cons_of_mem _ hmem)
    -- The first step leads down, and the others lead down from there.
    have hdown : ∀ {names qs'}, Downward names →
        selectFrom d only rest (p.join ⟨.working, names⟩) = .ok qs' → q ∈ qs' →
          ∃ names, q = p.join ⟨.working, names⟩ ∧ Downward names := by
      intro names qs' hnames hqs' hmem
      obtain ⟨more, rfl, hmore⟩ := ih hrest hqs' hmem
      exact ⟨names ++ more, join_join p names more, hnames.append hmore⟩
    rcases selectFrom_cases h with
      ⟨text, rfl, rfl | hqs⟩ | ⟨wildcards, found, rfl, hsub, hall, rfl⟩ | ⟨rfl, hall, rfl⟩
    · cases hq
    · exact hdown (hsteps text List.mem_cons_self) hqs hq
    · obtain ⟨name, hname, hmem⟩ := List.mem_flatMap.mp hq
      obtain ⟨qs', hqs'⟩ := hall name hname
      rw [hqs'] at hmem
      obtain ⟨node, hn⟩ := hd.mem_namesIn_iff.mp (hsub.subset hname)
      have hisName : IsName name := hd.isName hn (by simp)
      exact hdown (.of_isName (by simpa using hisName)) hqs' hmem
    · obtain ⟨dir, hdir, hmem⟩ := List.mem_flatMap.mp (List.mem_eraseDups.mp hq)
      obtain ⟨qs', hqs'⟩ := hall dir hdir
      rw [hqs'] at hmem
      obtain ⟨-, names, rfl, hn⟩ := (mem_directories_iff hd).mp hdir
      have hnames : ∀ name ∈ names, IsName name := fun name hname =>
        hd.isName hn (List.mem_append_right _ hname)
      exact hdown (.of_isName hnames) hqs' hmem

/-- A pattern selects each path once. -/
theorem nodup_selectFrom (hd : d.IsTree) {steps : List GlobStep} (hsteps : IsDownward steps)
    (h : selectFrom d only steps p = .ok qs) : qs.Nodup := by
  induction steps generalizing p qs with
  | nil =>
    cases h
    exact List.nodup_singleton p
  | cons step rest ih =>
    have hrest : IsDownward rest := fun text hmem => hsteps text (List.mem_cons_of_mem _ hmem)
    rcases selectFrom_cases h with
      ⟨text, rfl, rfl | hqs⟩ | ⟨wildcards, found, rfl, hsub, hall, rfl⟩ | ⟨rfl, hall, rfl⟩
    · exact List.nodup_nil
    · exact ih hrest hqs
    · rw [List.nodup_flatMap]
      constructor
      · intro name hname
        obtain ⟨qs', hqs'⟩ := hall name hname
        rw [hqs']
        exact ih hrest hqs'
      · -- Paths below two entries of a directory differ in the name of the entry.
        refine ((hd.nodup_namesIn _).sublist hsub).imp_of_mem fun {a b} ha hb hne q hqa hqb => hne ?_
        obtain ⟨qa, hqa'⟩ := hall a ha
        obtain ⟨qb, hqb'⟩ := hall b hb
        dsimp only at hqa hqb
        rw [hqa'] at hqa
        rw [hqb'] at hqb
        obtain ⟨namesA, rfl, -⟩ := downward_of_selectFrom hd hrest hqa' hqa
        obtain ⟨namesB, heq, -⟩ := downward_of_selectFrom hd hrest hqb' hqb
        rw [child_eq_join, child_eq_join, join_join, join_join] at heq
        exact (List.cons_eq_cons.mp (Path.join_inj heq)).1
    · exact nodup_eraseDups _

/-- A pattern that is written without two dots leads down. -/
theorem isDownward_of_ofText {t : Text} {g : Glob} (h : Glob.ofText t = .ok g)
    (hup : Path.upward ∉ (Path.ofText t).names) : IsDownward g.steps := by
  have hstep : ∀ name text, step name = .ok (.name text) → text = name := by
    intro name text h
    unfold step at h
    split at h
    · cases h
    · split at h
      · cases h
      · split at h
        · cases h
        · cases h
          rfl
  have hsteps : (Path.ofText t).names.mapM step = .ok g.steps := by
    unfold ofText at h
    dsimp only at h
    split at h
    · cases h
    · split at h
      · cases h
      · split at h
        · cases h
        · obtain ⟨steps, hsteps, h⟩ := bind_eq_ok_iff.mp h
          cases h
          exact hsteps
  have : Inhabited GlobStep := ⟨.anyDepth⟩
  obtain ⟨hall, hmap⟩ := mapM_eq_ok_iff.mp hsteps
  intro text hmem
  rw [hmap] at hmem
  obtain ⟨name, hname, heq⟩ := List.mem_map.mp hmem
  obtain ⟨found, hfound⟩ := hall name hname
  rw [hfound] at heq
  obtain rfl : found = .name text := heq
  obtain rfl := hstep name text hfound
  refine ⟨fun other hother => ?_, ?_⟩
  · obtain rfl := List.mem_singleton.mp hother
    exact Path.written_ofText t _ hname
  · intro hother
    rw [List.mem_singleton.mp hother] at hup
    exact hup hname

end Glob

/-- A file that a pattern selects below a directory. -/
theorem exists_of_mem_filesBelow {d : Disk} {dir q : Path} {g : Glob} {qs : List Path}
    (h : filesBelow d dir g = .ok qs) (hq : q ∈ qs) :
    d.isFile q = .ok true ∧ d.isDirectory dir = .ok true ∧
      ∃ selected, Glob.selectFrom d g.directoriesOnly g.steps dir = .ok selected ∧ q ∈ selected := by
  unfold filesBelow at h
  obtain ⟨selected, hselected, h⟩ := bind_eq_ok_iff.mp h
  obtain ⟨files, hfiles, h⟩ := bind_eq_ok_iff.mp h
  obtain ⟨hall, rfl⟩ := filterM_eq_ok_iff.mp hfiles
  cases h
  unfold Path.sort at hq
  rw [(List.mergeSort_perm _ _).mem_iff, List.mem_filter] at hq
  obtain ⟨hmem, hfile⟩ := hq
  obtain ⟨b, hb⟩ := hall q hmem
  rw [hb] at hfile ⊢
  refine ⟨by rw [show b = true from hfile], ?_⟩
  unfold Glob.select at hselected
  obtain ⟨there, hthere, hselected⟩ := bind_eq_ok_iff.mp hselected
  cases there with
  | true => exact ⟨hthere, selected, hselected, hmem⟩
  | false =>
    cases hselected
    cases hmem

/-- What a pattern selects among the files below a directory. -/
theorem filesBelow_cases {d : Disk} {dir : Path} {g : Glob} {qs : List Path} (hd : d.IsTree)
    (hg : Glob.IsDownward g.steps) (h : filesBelow d dir g = .ok qs) :
    qs.Nodup ∧ ∀ q ∈ qs, d.isFile q = .ok true ∧ d.isDirectory dir = .ok true ∧
      ∃ names, q = dir.join ⟨.working, names⟩ ∧ Path.Downward names := by
  constructor
  · unfold filesBelow at h
    obtain ⟨selected, hselected, h⟩ := bind_eq_ok_iff.mp h
    obtain ⟨files, hfiles, h⟩ := bind_eq_ok_iff.mp h
    obtain ⟨-, rfl⟩ := filterM_eq_ok_iff.mp hfiles
    cases h
    unfold Path.sort
    rw [(List.mergeSort_perm _ _).nodup_iff]
    apply List.Nodup.filter
    unfold Glob.select at hselected
    obtain ⟨there, -, hselected⟩ := bind_eq_ok_iff.mp hselected
    cases there with
    | true => exact Glob.nodup_selectFrom hd hg hselected
    | false =>
      cases hselected
      exact List.nodup_nil
  · intro q hq
    obtain ⟨hfile, hdir, selected, hselected, hmem⟩ := exists_of_mem_filesBelow h hq
    exact ⟨hfile, hdir, Glob.downward_of_selectFrom hd hg hselected hmem⟩

/-! ## Every depth -/

theorem Wildcard.fits_many_nil (rest : List Wildcard) :
    Wildcard.fits (.many :: rest) [] = Wildcard.fits rest [] := by
  obtain ⟨b, hb⟩ := List.length_eq_one_iff.mp (Wildcard.length_fitsEnds rest [])
  simp [Wildcard.fits, Wildcard.fitsEnds, hb, Wildcard.trueFrom]

/-- A star before a text fits the names that end in it. -/
theorem Wildcard.fits_suffix_iff (t name : Text) :
    Wildcard.fits (.many :: t.map .literal) name = true ↔ t <:+ name := by
  induction name with
  | nil =>
    rw [Wildcard.fits_many_nil, Wildcard.fits_literals, decide_eq_true_eq, List.suffix_nil, eq_comm]
  | cons c rest ih =>
    rw [Wildcard.fits_many_cons, Bool.or_eq_true, ih, Wildcard.fits_literals, List.suffix_cons_iff,
      decide_eq_true_eq, eq_comm]

/-- A last name pattern selects the entries of a directory whose names it fits. -/
theorem Glob.selectFrom_last (d : Disk) (wildcards : List Wildcard) (p : Path) :
    Glob.selectFrom d false [.pattern wildcards] p =
      (d.names p).map fun ns => (ns.filter (Wildcard.fits wildcards)).map p.child := by
  unfold Glob.selectFrom
  cases d.names p with
  | error e => rfl
  | ok ns =>
    have heach : ∀ found : List Text,
        found.mapM (fun name => Glob.selectFrom d false [] (p.child name)) =
          .ok (found.map fun name => [p.child name]) :=
      fun found => mapM_eq_ok_iff.mpr ⟨fun _ _ => ⟨_, rfl⟩, rfl⟩
    refine bind_eq_ok_iff.mpr ⟨ns, rfl, bind_eq_ok_iff.mpr ⟨_, heach _, ?_⟩⟩
    rw [← List.flatMap_def, ← List.map_eq_flatMap]
    rfl

/-- A last name pattern selects from what is a directory. -/
theorem Glob.selectFrom_last_returns_iff {d : Disk} {wildcards : List Wildcard} {p : Path} :
    (∃ selected, Glob.selectFrom d false [.pattern wildcards] p = .ok selected) ↔
      d.isDirectory p = .ok true := by
  rw [Glob.selectFrom_last]
  cases hns : d.names p with
  | ok ns => exact ⟨fun _ => (Disk.names_eq_ok_iff.mp hns).1, fun _ => ⟨_, rfl⟩⟩
  | error e =>
    refine ⟨fun ⟨_, h⟩ => (nomatch h), fun hp => ?_⟩
    rw [Disk.names_eq_ok_iff.mpr ⟨hp, rfl⟩] at hns
    cases hns

section

variable {d : Disk} {dir : Path} {wildcards : List Wildcard}

/-- A name pattern is selected by at every depth unless a directory's path is too long. -/
theorem Glob.select_everywhere (hd : d.IsTree) (hdir : d.isDirectory dir = .ok true) {qs : List Path} :
    Glob.select ⟨[.anyDepth, .pattern wildcards], false⟩ d dir = .ok qs ↔
      (∀ names, d.node? (d.locate dir ++ names) = some .directory →
        ¬ d.Overlong (dir.join ⟨.working, names⟩)) ∧
      qs = ((Glob.directories d dir).flatMap fun q =>
        answerOf (Glob.selectFrom d false [.pattern wildcards] q)).eraseDups := by
  have heach : (∀ q ∈ Glob.directories d dir, ∃ found,
      Glob.selectFrom d false [.pattern wildcards] q = .ok found) ↔
        ∀ names, d.node? (d.locate dir ++ names) = some .directory →
          ¬ d.Overlong (dir.join ⟨.working, names⟩) := by
    constructor
    · intro h names hn
      exact (hd.isDirectory_join_iff hdir hn).mp (Glob.selectFrom_last_returns_iff.mp
        (h _ ((Glob.mem_directories_iff hd).mpr ⟨hdir, names, rfl, hn⟩)))
    · intro h q hq
      obtain ⟨-, names, rfl, hn⟩ := (Glob.mem_directories_iff hd).mp hq
      exact Glob.selectFrom_last_returns_iff.mpr ((hd.isDirectory_join_iff hdir hn).mpr (h names hn))
  rw [← heach]
  unfold Glob.select
  rw [hdir]
  show (do
    let selected ← (Glob.directories d dir).mapM (Glob.selectFrom d false [.pattern wildcards])
    pure selected.flatten.eraseDups) = Except.ok qs ↔ _
  constructor
  · intro h
    obtain ⟨selected, hselected, h⟩ := bind_eq_ok_iff.mp h
    obtain ⟨hall, rfl⟩ := mapM_eq_ok_iff.mp hselected
    cases h
    exact ⟨hall, by rw [List.flatMap_def]⟩
  · rintro ⟨hall, rfl⟩
    refine bind_eq_ok_iff.mpr ⟨_, mapM_eq_ok_iff.mpr ⟨hall, rfl⟩, ?_⟩
    rw [← List.flatMap_def]
    rfl

/-- What is selected at every depth is what lies below the directory and has a name that the pattern fits. -/
theorem Glob.mem_everywhere_iff (hd : d.IsTree) (hdir : d.isDirectory dir = .ok true) {selected : List Path}
    (h : Glob.select ⟨[.anyDepth, .pattern wildcards], false⟩ d dir = .ok selected) (q : Path) :
    q ∈ selected ↔ ∃ names name node, d.node? (d.locate dir ++ names) = some .directory ∧
      d.node? (d.locate dir ++ (names ++ [name])) = some node ∧
        Wildcard.fits wildcards name = true ∧ q = dir.join ⟨.working, names ++ [name]⟩ := by
  obtain ⟨hshort, rfl⟩ := (Glob.select_everywhere hd hdir).mp h
  have hlisted : ∀ names, d.node? (d.locate dir ++ names) = some .directory →
      d.names (dir.join ⟨.working, names⟩) = .ok (d.namesIn (d.locate (dir.join ⟨.working, names⟩))) :=
    fun names hn => Disk.names_eq_ok_iff.mpr ⟨(hd.isDirectory_join_iff hdir hn).mpr (hshort names hn), rfl⟩
  rw [List.mem_eraseDups, List.mem_flatMap]
  constructor
  · rintro ⟨folder, hfolder, hq⟩
    obtain ⟨-, names, rfl, hn⟩ := (Glob.mem_directories_iff hd).mp hfolder
    rw [Glob.selectFrom_last, hlisted names hn] at hq
    obtain ⟨name, hname, rfl⟩ := List.mem_map.mp hq
    obtain ⟨hmem, hfits⟩ := List.mem_filter.mp hname
    obtain ⟨node, hnode⟩ := hd.mem_namesIn_iff.mp hmem
    rw [hd.locate_join hn, List.append_assoc] at hnode
    exact ⟨names, name, node, hn, hnode, hfits, by rw [Path.child_eq_join, Path.join_join]⟩
  · rintro ⟨names, name, node, hn, hnode, hfits, rfl⟩
    refine ⟨dir.join ⟨.working, names⟩, (Glob.mem_directories_iff hd).mpr ⟨hdir, names, rfl, hn⟩, ?_⟩
    rw [Glob.selectFrom_last, hlisted names hn]
    refine List.mem_map.mpr ⟨name, List.mem_filter.mpr ⟨hd.mem_namesIn_iff.mpr ⟨node, ?_⟩, hfits⟩, ?_⟩
    · rw [hd.locate_join hn, List.append_assoc]
      exact hnode
    · rw [Path.child_eq_join, Path.join_join]

/-- Files are found where each selected path can be looked up. -/
theorem filesBelow_returns_iff_select {g : Glob} :
    (∃ qs, filesBelow d dir g = .ok qs) ↔
      ∃ selected, Glob.select g d dir = .ok selected ∧ ∀ q ∈ selected, ¬ d.Overlong q := by
  unfold filesBelow
  constructor
  · rintro ⟨qs, h⟩
    obtain ⟨selected, hselected, h⟩ := bind_eq_ok_iff.mp h
    obtain ⟨files, hfiles, -⟩ := bind_eq_ok_iff.mp h
    exact ⟨selected, hselected, fun q hq =>
      Disk.exists_isFile_iff.mp ((filterM_eq_ok_iff.mp hfiles).1 q hq)⟩
  · rintro ⟨selected, hselected, hshort⟩
    exact ⟨_, bind_eq_ok_iff.mpr ⟨selected, hselected, bind_eq_ok_iff.mpr
      ⟨_, filterM_eq_ok_iff.mpr ⟨fun q hq => Disk.exists_isFile_iff.mpr (hshort q hq), rfl⟩, rfl⟩⟩⟩

/-- **The files at every depth are found if and only if no path on the way is too long**: that of the
directory, those of the directories below it, and those of the entries that the pattern fits. -/
theorem filesBelow_returns_iff (hd : d.IsTree) (dir : Path) (wildcards : List Wildcard) :
    (∃ qs, filesBelow d dir ⟨[.anyDepth, .pattern wildcards], false⟩ = .ok qs) ↔
      ¬ d.Overlong dir ∧ (d.isDirectory dir = .ok true → ∀ names,
        d.node? (d.locate dir ++ names) = some .directory → ¬ d.Overlong (dir.join ⟨.working, names⟩) ∧
          ∀ name node, d.node? (d.locate dir ++ (names ++ [name])) = some node →
            Wildcard.fits wildcards name = true → ¬ d.Overlong (dir.join ⟨.working, names ++ [name]⟩)) := by
  rw [filesBelow_returns_iff_select]
  match hdir : d.isDirectory dir with
  | .error e =>
    obtain ⟨hlong, -⟩ := Disk.isDirectory_eq_error_iff.mp hdir
    refine ⟨fun ⟨_, h, _⟩ => ?_, fun h => absurd hlong h.1⟩
    unfold Glob.select at h
    rw [hdir] at h
    cases h
  | .ok false =>
    refine ⟨fun _ => ⟨Disk.exists_isDirectory_iff.mp ⟨false, hdir⟩, nofun⟩, fun _ => ⟨[], ?_, nofun⟩⟩
    unfold Glob.select
    rw [hdir]
    rfl
  | .ok true =>
    constructor
    · rintro ⟨selected, hselected, hshort⟩
      refine ⟨Disk.exists_isDirectory_iff.mp ⟨true, hdir⟩, fun _ names hn => ⟨?_, ?_⟩⟩
      · exact ((Glob.select_everywhere hd hdir).mp hselected).1 names hn
      · intro name node hnode hfits
        exact hshort _ ((Glob.mem_everywhere_iff hd hdir hselected _).mpr
          ⟨names, name, node, hn, hnode, hfits, rfl⟩)
    · rintro ⟨-, hshort⟩
      obtain ⟨selected, hselected⟩ : ∃ selected,
          Glob.select ⟨[.anyDepth, .pattern wildcards], false⟩ d dir = .ok selected :=
        ⟨_, (Glob.select_everywhere hd hdir).mpr ⟨fun names hn => (hshort rfl names hn).1, rfl⟩⟩
      refine ⟨selected, hselected, fun q hq => ?_⟩
      obtain ⟨names, name, node, hn, hnode, hfits, rfl⟩ :=
        (Glob.mem_everywhere_iff hd hdir hselected q).mp hq
      exact (hshort rfl names hn).2 name node hnode hfits

end

end Inlay

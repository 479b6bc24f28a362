import Inlay.Proofs.Disk.Settled
import Inlay.Proofs.Page.Return
import Inlay.Proofs.Site.Discovery

/-!
# Where a build takes place

Before the first page a build empties the output directory, if it is asked to, and makes sure that it is
there. From then on the disk changes at the destinations of the pages only, and by directories above them.
Where the destinations keep clear of the sources and of the components, and no path of the site starts to
lead elsewhere meanwhile, what a page and its templates say is what they said in the beginning.

* `Disk.textAt?` — the text at a location.
* `Site.cleaned`, `Site.prepared` — the disk after the output directory is emptied, and after it is made.
* `Site.found` — the pages of a build.
* `Site.Apart` — the destinations keep clear of the sources and of the components.
* `Site.Steady` — no path of the site starts to lead elsewhere.
* `Site.Stage` — a disk on which such a build begins.

Main statements: `Site.Stage.directory_of_destination` (no directory is ever made at a destination),
`Site.Stage.shelters` (the components stay as they are), `Site.Stage.textAt?_source` (so do the pages),
`Site.Stage.swept` (emptying leaves nothing below the output directory).
-/

namespace Inlay

open Markup

/-- The template file of a tag's name lies straight below the directory of components. -/
theorem Catalogue.templateFile_eq_join (c : Catalogue) {name : Text} (hname : isTagName name = true)
    (hext : Path.upward ∉ (Path.ofText c.extension).names) :
    ∃ tail, tail ≠ [] ∧ Path.upward ∉ tail ∧ c.templateFile name = c.directory.join ⟨.working, tail⟩ := by
  have hchars := isTagChar_of_isTagName hname
  have hslash : '/' ∉ name := fun hmem => absurd (hchars _ hmem) (by decide)
  have hdot : '.' ∉ name := fun hmem => absurd (hchars _ hmem) (by decide)
  have hne : name ≠ [] := by
    rintro rfl
    cases hname
  have hword : Path.ofText name = ⟨.working, [name]⟩ := by
    refine Path.ofText_of_proper hne ?_ hslash
    rintro rfl
    exact hdot (List.mem_singleton_self _)
  obtain ⟨hroot, hnames⟩ := Path.ofText_append hne hslash c.extension
  refine ⟨name :: (Path.ofText (name ++ c.extension)).names, List.cons_ne_nil _ _, ?_, ?_⟩
  · -- A name that begins with that of a tag does not begin with a dot.
    have hlevel : ¬ name <+: Path.upward := by
      intro hpre
      obtain ⟨a, rest, rfl⟩ := List.exists_cons_of_ne_nil hne
      exact hdot (List.mem_cons.mpr (.inl (List.cons_prefix_cons.mp hpre).1.symm))
    intro hup
    rcases List.mem_cons.mp hup with rfl | hup
    · exact hlevel List.prefix_rfl
    · exact (hnames _ hup).elim hext hlevel
  · unfold Catalogue.templateFile
    rw [hword]
    cases hfile : Path.ofText (name ++ c.extension) with
    | mk root names =>
      rw [hfile] at hroot
      obtain rfl : root = .working := hroot
      exact Path.join_join _ _ _

/-- The text of the file at a location, its line ends unified. -/
def Disk.textAt? (d : Disk) (l : Location) : Option Text :=
  match d.node? l with
  | some (.file content) => (Utf8.decode content).toOption.map Text.unifyLineEnds
  | _ => none

namespace Site

open Disk DiskAction

variable {o : SiteOptions} {d d' : Disk} {page other : SitePage} {l k : Location}

/-- The disk after the output directory is emptied, if the site asks for it. -/
def cleaned (o : SiteOptions) (d : Disk) : Disk := if o.clean then d.emptied o.output else d

/-- The disk after the output directory is made, too. -/
def prepared (o : SiteOptions) (d : Disk) : Disk := ((makeDirectories o.output).run.run (cleaned o d)).2

/-- The pages of a build that begins on the disk. -/
def found (o : SiteOptions) (d : Disk) : List SitePage := discovered o (prepared o d)

/-- The location is on the way to the output directory, or to the directory of a destination. -/
def Leads (o : SiteOptions) (d : Disk) (k : Location) : Prop :=
  OnWay d o.output k ∨ ∃ page ∈ found o d, OnWay d page.destination.parent k

/-- The location is the destination of a page. -/
def Receives (o : SiteOptions) (d : Disk) (k : Location) : Prop :=
  ∃ page ∈ found o d, k = d.locate page.destination

/-- The destinations of the pages keep clear of their sources and of the components, and so does what lies
in the output directory when that is emptied. The sources are found after the emptying, so it spares them. -/
structure Apart (o : SiteOptions) (d : Disk) : Prop where
  sources : ∀ page ∈ found o d, ∀ other ∈ found o d, d.locate page.destination ≠ d.locate other.source
  components : ∀ page ∈ found o d, ¬ d.locate o.components <+: d.locate page.destination
  emptied : o.clean = true → ∀ l, isBelow (d.locate o.output) l = true → d.node? l ≠ none →
    ¬ d.locate o.components <+: l

/-- No path of the site starts to lead elsewhere: where the output directory and that of the components are
written with two dots, what stands before is there; when the one is emptied and the other would lie in it,
the other can be looked up; and the file extension of templates does not lead upward. -/
structure Steady (o : SiteOptions) (d : Disk) : Prop where
  output : (cleaned o d).Settled o.output
  components : (cleaned o d).Settled o.components
  reached : o.clean = true → isBelow (d.locate o.output) (d.locate o.components) = true →
    ¬ d.Overlong o.components
  extension : Path.upward ∉ (Path.ofText o.extension).names

/-! ## Emptying and making the output directory -/

/-- Emptying keeps a location as it is, or leaves nothing there. -/
theorem node?_cleaned (o : SiteOptions) (d : Disk) (l : Location) :
    (cleaned o d).node? l = d.node? l ∨
      o.clean = true ∧ isBelow (d.locate o.output) l = true ∧ (cleaned o d).node? l = none := by
  unfold cleaned
  cases o.clean with
  | false => exact .inl rfl
  | true =>
    rw [if_pos rfl]
    by_cases hdir : d.isDirectory o.output = .ok true
    · rw [emptied_eq_clear hdir, node?_clear]
      split
      · rename_i hbelow
        exact .inr ⟨rfl, hbelow, rfl⟩
      · exact .inl rfl
    · rw [emptied_eq_self hdir]
      exact .inl rfl

theorem node?_of_cleaned {node : Node} (h : (cleaned o d).node? l = some node) : d.node? l = some node := by
  rcases node?_cleaned o d l with heq | ⟨-, -, hnone⟩
  · rwa [← heq]
  · rw [hnone] at h
    cases h

theorem isTree_cleaned (hd : d.IsTree) : (cleaned o d).IsTree := by
  unfold cleaned
  split
  · by_cases hdir : d.isDirectory o.output = .ok true
    · rw [emptied_eq_clear hdir]
      exact hd.clear _
    · rw [emptied_eq_self hdir]
      exact hd
  · exact hd

theorem working_cleaned (o : SiteOptions) (d : Disk) : (cleaned o d).working = d.working := by
  unfold cleaned
  split
  · unfold Disk.emptied
    split <;> rfl
  · rfl

theorem locate_cleaned (o : SiteOptions) (d : Disk) : (cleaned o d).locate = d.locate :=
  locate_congr (working_cleaned o d)

theorem gains_prepared (o : SiteOptions) (d : Disk) :
    (cleaned o d).Gains (OnWay d o.output) (prepared o d) := by
  rw [← onWay_congr (working_cleaned o d)]
  exact gains_makeDirectories rfl

theorem Placed.locate_source {names : List Text} (h : Placed o d page names) (d' : Disk) :
    d'.locate page.source = d'.locate o.pages ++ names := by
  rw [h.source, locate_join_of_level d' _ h.downward.level]

theorem Placed.locate_destination {names : List Text} (h : Placed o d page names) (d' : Disk) :
    d'.locate page.destination = d'.locate o.output ++ names := by
  rw [h.destination, locate_join_of_level d' _ h.downward.level]

/-- A page is told from its destination. -/
theorem eq_of_locate_destination (hd : d.IsTree) (hglob : IsDownward o) (hp : page ∈ discovered o d)
    (ho : other ∈ discovered o d) (heq : d'.locate page.destination = d'.locate other.destination) :
    page = other := by
  obtain ⟨names, hplaced⟩ := mem_discovered hd hglob hp
  obtain ⟨names', hplaced'⟩ := mem_discovered hd hglob ho
  refine List.inj_on_of_nodup_map (nodup_discovered hd hglob) hp ho ?_
  rw [hplaced.locate_destination, hplaced'.locate_destination] at heq
  rw [hplaced.source, hplaced'.source, List.append_cancel_left heq]

/-- A disk on which a build begins whose pages keep clear of each other. -/
structure Stage (o : SiteOptions) (d : Disk) : Prop where
  tree : d.IsTree
  written : o.output.Written
  downward : IsDownward o
  steady : Steady o d
  apart : Apart o d
  made : (prepared o d).isDirectory o.output = .ok true

namespace Stage

variable (h : Stage o d)

include h

theorem isTree_prepared : (prepared o d).IsTree :=
  isTree_makeDirectories (isTree_cleaned h.tree) h.written rfl

theorem exists_placed (hp : page ∈ found o d) : ∃ names, Placed o (prepared o d) page names :=
  mem_discovered h.isTree_prepared h.downward hp

/-- Emptying leaves nothing below the output directory. -/
theorem swept (hclean : o.clean = true) (hl : isBelow (d.locate o.output) l = true) :
    (cleaned o d).node? l = none := by
  by_contra hthere
  obtain ⟨node, hnode⟩ := Option.ne_none_iff_exists'.mp hthere
  obtain ⟨⟨rest, rfl⟩, hne⟩ := isBelow_iff.mp hl
  have htree := isTree_cleaned (o := o) h.tree
  have hdir : (cleaned o d).node? ((cleaned o d).locate o.output) = some .directory := by
    rw [locate_cleaned]
    exact htree.above hnode fun hnil => hne (by rw [hnil, List.append_nil])
  obtain ⟨ho, -⟩ := isDirectory_eq_true_iff.mp h.made
  have hfound := h.steady.output.isDirectory htree ho.usable hdir
  unfold cleaned at hnode hfound
  rw [if_pos hclean] at hnode hfound
  by_cases hd : d.isDirectory o.output = .ok true
  · rw [emptied_eq_clear hd, node?_clear, if_pos hl] at hnode
    cases hnode
  · rw [emptied_eq_self hd] at hfound
    exact hd hfound

/-- Emptying keeps the components. -/
theorem node?_component (hl : d.locate o.components <+: l) : (cleaned o d).node? l = d.node? l := by
  rcases node?_cleaned o d l with heq | ⟨hclean, hbelow, hnone⟩
  · exact heq
  · rw [hnone]
    by_contra hthere
    exact h.apart.emptied hclean l hbelow (Ne.symm hthere) hl

/-! ## Where directories are made -/

theorem directory_or_above {p : Path} (hp : (cleaned o d).Settled p) (hk : OnWay d p k) :
    (cleaned o d).node? k = some .directory ∨ k <+: d.locate p := by
  obtain ⟨names, hnames, rfl⟩ := hk
  have := hp.directory_or_above (isTree_cleaned h.tree) hnames
  rwa [locate_cleaned, base_congr (working_cleaned o d)] at this

/-- The way to a destination goes through directories that are there, or straight down to it. -/
theorem directory_or_above_destination (hp : page ∈ found o d) (hk : OnWay d page.destination.parent k) :
    (cleaned o d).node? k = some .directory ∨
      k <+: d.locate page.destination ∧ k ≠ d.locate page.destination := by
  obtain ⟨names, hplaced⟩ := h.exists_placed hp
  have hlevel : Path.upward ∉ names.dropLast := fun hup =>
    hplaced.downward.level (List.dropLast_subset _ hup)
  have hparent : page.destination.parent = o.output.join ⟨.working, names.dropLast⟩ := by
    rw [hplaced.destination]
    unfold Path.parent Path.join
    rw [List.dropLast_append_of_ne_nil hplaced.ne_nil]
  rw [hparent] at hk
  refine (h.directory_or_above (h.steady.output.join hlevel) hk).imp_right fun hpre => ?_
  rw [locate_join_of_level d _ hlevel] at hpre
  rw [hplaced.locate_destination]
  refine ⟨hpre.trans (List.prefix_append_right_inj _ |>.mpr (List.dropLast_prefix _)), ?_⟩
  rintro rfl
  have hlen := hpre.length_le
  have hpos := List.length_pos_iff.mpr hplaced.ne_nil
  simp only [List.length_append, List.length_dropLast] at hlen
  omega

/-- No destination lies above another one: a page that lies there would be a directory. -/
theorem not_above (hp : page ∈ found o d) (ho : other ∈ found o d)
    (hpre : d.locate page.destination <+: d.locate other.destination)
    (hne : d.locate page.destination ≠ d.locate other.destination) : False := by
  obtain ⟨names, hplaced⟩ := h.exists_placed hp
  obtain ⟨names', hplaced'⟩ := h.exists_placed ho
  rw [hplaced.locate_destination, hplaced'.locate_destination] at hpre hne
  obtain ⟨rest, rfl⟩ := List.prefix_append_right_inj _ |>.mp hpre
  obtain ⟨-, content, hn⟩ := isFile_eq_true_iff.mp hplaced.isFile
  obtain ⟨-, content', hn'⟩ := isFile_eq_true_iff.mp hplaced'.isFile
  rw [hplaced.locate_source] at hn
  rw [hplaced'.locate_source, ← List.append_assoc] at hn'
  rw [h.isTree_prepared.above hn' fun hnil => hne (by rw [hnil, List.append_nil])] at hn
  cases hn

/-- **No directory is ever made at a destination.** -/
theorem directory_of_destination (hp : page ∈ found o d) (hk : Leads o d (d.locate page.destination)) :
    (cleaned o d).node? (d.locate page.destination) = some .directory := by
  rcases hk with hk | ⟨other, ho, hk⟩
  · refine (h.directory_or_above h.steady.output hk).resolve_right fun hpre => ?_
    obtain ⟨names, hplaced⟩ := h.exists_placed hp
    have hlen := hpre.length_le
    have hpos := List.length_pos_iff.mpr hplaced.ne_nil
    rw [hplaced.locate_destination, List.length_append] at hlen
    omega
  · exact (h.directory_or_above_destination ho hk).resolve_right fun ⟨hpre, hne⟩ => h.not_above hp ho hpre hne

theorem nodup_found : ((found o d).map (·.source)).Nodup :=
  nodup_discovered h.isTree_prepared h.downward

theorem eq_of_locate_destination (hp : page ∈ found o d) (ho : other ∈ found o d)
    (heq : d.locate page.destination = d.locate other.destination) : page = other :=
  Site.eq_of_locate_destination h.isTree_prepared h.downward hp ho heq

/-! ## What stays as it is -/

section

variable (ha : (cleaned o d).Alters (Leads o d) (Receives o d) d')

include ha

/-- The text that a page is read as is its text in the beginning. -/
theorem textAt?_source {text : Text} (hp : page ∈ found o d) (hr : d'.readText page.source = .ok text) :
    d.textAt? (d.locate page.source) = some text := by
  obtain ⟨content, t, hbytes, hdecode, rfl⟩ := readText_eq_ok_iff.mp hr
  obtain ⟨-, hn⟩ := readBytes_eq_ok_iff.mp hbytes
  rw [locate_congr ha.working, locate_cleaned] at hn
  have hclear : ¬ Receives o d (d.locate page.source) := fun ⟨other, ho, heq⟩ =>
    h.apart.sources other ho page hp heq.symm
  have hn := node?_of_cleaned ((ha.file_iff hclear).mp hn)
  unfold textAt?
  simp only [hn, hdecode]
  rfl

/-- **The components stay as they are.** -/
theorem shelters (hkeeps : (cleaned o d).Keeps d') : d.Shelters d' o.components where
  working := hkeeps.working.trans (working_cleaned o d)
  settled := by
    intro above hup
    have := h.steady.components above hup
    rw [base_congr (working_cleaned o d)] at this
    exact node?_of_cleaned this
  file := by
    intro l content hl
    have hclear : ¬ Receives o d l := by
      rintro ⟨page, hp, rfl⟩
      exact h.apart.components page hp hl
    rw [ha.file_iff hclear, h.node?_component hl]
  below hl hdir := hkeeps.directory (by rw [h.node?_component hl]; exact hdir)
  forth := by
    by_cases hin : o.clean = true ∧ isBelow (d.locate o.output) (d.locate o.components) = true
    · refine .inr ⟨?_, h.steady.reached hin.1 hin.2⟩
      by_contra hthere
      exact h.apart.emptied hin.1 _ hin.2 hthere List.prefix_rfl
    · refine .inl fun above habove hdir => hkeeps.directory ?_
      rcases h.directory_or_above h.steady.components ⟨above, habove, rfl⟩ with hthere | hpre
      · exact hthere
      · rcases node?_cleaned o d (walk (d.base o.components.root) above) with heq | ⟨hclean, hbelow, -⟩
        · rwa [heq]
        · exact absurd ⟨hclean, isBelow_of_prefix hbelow hpre⟩ hin

end

end Stage

end Site

end Inlay

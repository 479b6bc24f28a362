import Inlay.Proofs.Disk.Select
import Inlay.Proofs.Site.Emptying

/-!
# What a build finds

Before a build takes the pages one after the other, it lists the components and collects the pages. Listing
the components only looks up templates, and collecting the pages only looks at the disk.

* `SiteOptions.workspace` — the workspace that a build starts from.
* `Workspace.componentNames` — the names of the components.
* `Site.discovered` — the pages of a site on a disk.
* `Site.IsDownward` — a site whose glob pattern does not lead upward.

Main statements: `run_names`, `Site.run_pages` (how the two end) and `Site.mem_discovered` (where the pages lie
and go).
-/

namespace Inlay

/-- The workspace that a build starts from: nothing has been looked up or told. -/
def SiteOptions.workspace (o : SiteOptions) (d : Disk) : Workspace := { disk := d, catalogue := o.catalogue }

/-- A workspace with the catalogue of a site has looked up nothing yet. -/
theorem Workspace.reliable_of_catalogue {o : SiteOptions} {w : Workspace} (hw : w.catalogue = o.catalogue) :
    w.Reliable :=
  reliable_of_forgetful (by rw [hw]; rfl) (by rw [hw]; rfl)

/-- A site with its directories where they usually are. -/
def SiteOptions.usual : SiteOptions where
  pages := .ofText "src/pages".toList
  components := .ofText "src/components".toList
  output := .ofText "public".toList

/-! ## Components -/

/-- Whether an entry of the directory `dir` is a component. -/
def Workspace.holdsComponent (w : Workspace) (dir : Path) (name : Text) : Except Failure Bool :=
  match w.disk.isDirectory (dir.child name) with
  | .error e => .error (.disk e)
  | .ok false => .ok false
  | .ok true => w.lookups.contains name

/-- The names of the components. -/
def Workspace.componentNames (w : Workspace) : Except Failure (List Text) :=
  match w.disk.isDirectory w.catalogue.directory with
  | .error e => .error (.disk e)
  | .ok false => .ok []
  | .ok true =>
    (w.disk.namesIn (w.disk.locate w.catalogue.directory)).filterM (w.holdsComponent w.catalogue.directory)

theorem Workspace.Learns.holdsComponent {w w' : Workspace} (h : w.Learns w') :
    w'.holdsComponent = w.holdsComponent := by
  funext dir name
  unfold Workspace.holdsComponent
  rw [h.disk, h.lookups]

/-- A filter whose questions only teach the workspace answers as the questions do. -/
theorem run_filterM {step : Text → Action Bool} (question : Workspace → Text → Except Failure Bool)
    (hstable : ∀ w w', w.Learns w' → question w' = question w)
    (hstep : ∀ name w, ∃ w', w.Learns w' ∧ (step name).run.run w = (question w name, w'))
    (names : List Text) (w : Workspace) :
    ∃ w', w.Learns w' ∧ (names.filterM step).run.run w = (names.filterM (question w), w') := by
  induction names generalizing w with
  | nil => exact ⟨w, .refl w, rfl⟩
  | cons name rest ih =>
    obtain ⟨w₁, hl₁, h₁⟩ := hstep name w
    rw [filterM_cons, run_bind, h₁, filterM_cons]
    cases question w name with
    | error f => exact ⟨w₁, hl₁, rfl⟩
    | ok b =>
      obtain ⟨w₂, hl₂, h₂⟩ := ih w₁
      rw [hstable w w₁ hl₁] at h₂
      refine ⟨w₂, hl₁.trans hl₂, ?_⟩
      dsimp only
      rw [run_bind, h₂]
      cases rest.filterM (question w) <;> rfl

theorem run_names (w : Workspace) :
    ∃ w', w.Learns w' ∧ (Catalogue.names).run.run w = (w.componentNames, w') := by
  unfold Catalogue.names Workspace.componentNames
  rw [run_get_bind]
  dsimp only
  rw [run_bind, run_ask]
  match hdir : w.disk.isDirectory w.catalogue.directory with
  | .error e => exact ⟨w, .refl w, rfl⟩
  | .ok false => exact ⟨w, .refl w, rfl⟩
  | .ok true =>
    dsimp only [Except.mapError]
    rw [if_pos rfl, run_bind, run_ask, Disk.names_eq_ok_iff.mpr ⟨hdir, rfl⟩]
    dsimp only [Except.mapError]
    refine run_filterM (fun w₁ => w₁.holdsComponent w.catalogue.directory)
      (fun w₁ w₂ hl => by rw [hl.holdsComponent]) (fun name w₁ => ?_) _ w
    unfold Workspace.holdsComponent
    rw [run_bind, run_ask]
    match w₁.disk.isDirectory (w.catalogue.directory.child name) with
    | .error e => exact ⟨w₁, .refl w₁, rfl⟩
    | .ok false => exact ⟨w₁, .refl w₁, rfl⟩
    | .ok true => exact answers_contains w₁.lookups name w₁ rfl

/-! ## Pages -/

namespace Site

variable {o : SiteOptions} {d : Disk} {page : SitePage}

/-- The glob pattern of the site does not lead upward. -/
def IsDownward (o : SiteOptions) : Prop := ∀ g, o.glob = .ok g → Glob.IsDownward g.steps

/-- A glob pattern that is written without two dots does not lead upward. -/
theorem isDownward_of_pageGlob (h : ∀ t ∈ o.pageGlob, Path.upward ∉ (Path.ofText t).names) :
    IsDownward o := by
  intro g hg
  unfold SiteOptions.glob at hg
  cases hglob : o.pageGlob with
  | none => rw [hglob] at hg; cases hg
  | some t =>
    rw [hglob] at hg
    exact Glob.isDownward_of_ofText hg (h t hglob)

/-- The page from a source, if the source lies in the directory of pages. -/
def page? (o : SiteOptions) (source : Path) : Option SitePage :=
  (o.destination? source).map fun destination => { source, destination }

/-- The pages of the site on a disk; none where they cannot be collected. -/
def discovered (o : SiteOptions) (d : Disk) : List SitePage :=
  match o.glob with
  | .error _ => []
  | .ok g =>
    match filesBelow d o.pages g with
    | .error _ => []
    | .ok sources => sources.filterMap (page? o)

theorem page?_join (names : List Text) :
    page? o (o.pages.join ⟨.working, names⟩) =
      some { source := o.pages.join ⟨.working, names⟩, destination := o.output.join ⟨.working, names⟩ } := by
  unfold page?
  rw [o.destination?_join]
  rfl

/-- Where a page lies, and where it goes. -/
structure Placed (o : SiteOptions) (d : Disk) (page : SitePage) (names : List Text) : Prop where
  source : page.source = o.pages.join ⟨.working, names⟩
  destination : page.destination = o.output.join ⟨.working, names⟩
  downward : Path.Downward names
  ne_nil : names ≠ []
  isFile : d.isFile page.source = .ok true
  isDirectory : d.isDirectory o.pages = .ok true

theorem mem_discovered (hd : d.IsTree) (hglob : IsDownward o) (h : page ∈ discovered o d) :
    ∃ names, Placed o d page names := by
  unfold discovered at h
  split at h
  · cases h
  · rename_i g hg
    split at h
    · cases h
    · rename_i sources hsources
      obtain ⟨source, hmem, hpage⟩ := List.mem_filterMap.mp h
      obtain ⟨hfile, hdir, names, rfl, hnames⟩ := (filesBelow_cases hd (hglob g hg) hsources).2 source hmem
      rw [page?_join] at hpage
      cases hpage
      refine ⟨names, rfl, rfl, hnames, ?_, hfile, hdir⟩
      rintro rfl
      -- The directory of pages itself is no file.
      rw [Path.join_nil] at hfile
      obtain ⟨-, content, hn⟩ := Disk.isFile_eq_true_iff.mp hfile
      obtain ⟨-, hn'⟩ := Disk.isDirectory_eq_true_iff.mp hdir
      rw [hn'] at hn
      cases hn

/-- No two pages come from one source. -/
theorem nodup_discovered (hd : d.IsTree) (hglob : IsDownward o) :
    ((discovered o d).map (·.source)).Nodup := by
  unfold discovered
  split
  · exact List.nodup_nil
  · rename_i g hg
    split
    · exact List.nodup_nil
    · rename_i sources hsources
      rw [List.map_filterMap]
      refine (filesBelow_cases hd (hglob g hg) hsources).1.filterMap fun a a' b ha hb => ?_
      have hsource : ∀ {a b : Path}, b ∈ (page? o a).map (·.source) → b = a := by
        intro a b h
        unfold page? at h
        cases hdest : o.destination? a with
        | none => rw [hdest] at h; cases h
        | some destination =>
          rw [hdest] at h
          cases h
          rfl
      rw [← hsource ha, hsource hb]

theorem run_destinations {sources : List Path} (h : ∀ q ∈ sources, ∃ names, q = o.pages.join ⟨.working, names⟩)
    (w : Workspace) :
    (sources.mapM fun source => do
      return ({ source, destination := ← destination o source } : SitePage)).run.run w =
        (.ok (sources.filterMap (page? o)), w) := by
  induction sources with
  | nil => rfl
  | cons source rest ih =>
    obtain ⟨names, rfl⟩ := h source List.mem_cons_self
    have hfirst : (destination o (o.pages.join ⟨.working, names⟩)).run.run w =
        (.ok (o.output.join ⟨.working, names⟩), w) := by
      unfold destination
      rw [o.destination?_join]
      rfl
    rw [run_mapM_cons, run_bind, hfirst]
    dsimp only
    rw [run_pure]
    dsimp only
    rw [ih fun q hq => h q (List.mem_cons_of_mem _ hq), List.filterMap_cons, page?_join]

/-- Collecting the pages only looks at the disk. -/
theorem run_pages (w : Workspace) (hd : w.disk.IsTree) (hglob : IsDownward o) :
    (pages o).run.run w =
      match o.glob with
      | .error e => (.error (.badGlob e), w)
      | .ok g =>
        match filesBelow w.disk o.pages g with
        | .error e => (.error (.disk e), w)
        | .ok sources =>
          (.ok (discovered o w.disk), w.hear (.pagesFound sources.length o.pages)) := by
  unfold pages discovered
  cases hg : o.glob with
  | error e => rfl
  | ok g =>
    dsimp only
    rw [run_bind, run_ask]
    cases hsources : filesBelow w.disk o.pages g with
    | error e => rfl
    | ok sources =>
      dsimp only [Except.mapError]
      rw [run_bind, run_tell]
      dsimp only
      refine run_destinations (fun q hq => ?_) _
      obtain ⟨-, -, names, hnames, -⟩ := (filesBelow_cases hd (hglob g hg) hsources).2 q hq
      exact ⟨names, hnames⟩

/-- A page is told from its source: it goes below the output directory, or there is no page. -/
theorem run_destination (source : Path) (w : Workspace) :
    (do return ({ source, destination := ← destination o source } : SitePage) : Action SitePage).run.run w =
      match page? o source with
      | some page => (.ok page, w)
      | none => (.error (.outside source o.pages), w) := by
  unfold destination page?
  cases o.destination? source <;> rfl

theorem eq_of_run_destinations {sources : List Path} {w w' : Workspace} {collected : List SitePage}
    (h : (sources.mapM fun source => do
      return ({ source, destination := ← destination o source } : SitePage)).run.run w = (.ok collected, w')) :
    collected = sources.filterMap (page? o) ∧ w' = w := by
  induction sources generalizing w collected with
  | nil =>
    cases h
    exact ⟨rfl, rfl⟩
  | cons source rest ih =>
    rw [run_mapM_cons, run_destination] at h
    cases hpage : page? o source with
    | none => rw [hpage] at h; cases h
    | some page =>
      rw [hpage] at h
      dsimp only at h
      split at h
      · rename_i others w₁ hrest
        cases h
        obtain ⟨rfl, rfl⟩ := ih hrest
        rw [List.filterMap_cons, hpage]
        exact ⟨rfl, rfl⟩
      · cases h

/-- Pages that are collected are those of the disk, wherever the glob pattern leads. -/
theorem eq_discovered_of_run_pages {w w' : Workspace} {collected : List SitePage}
    (h : (pages o).run.run w = (.ok collected, w')) :
    collected = discovered o w.disk ∧ w'.disk = w.disk ∧ w'.catalogue = w.catalogue := by
  unfold pages at h
  unfold discovered
  cases hg : o.glob with
  | error e => rw [hg] at h; cases h
  | ok g =>
    rw [hg] at h
    dsimp only at h ⊢
    rw [run_bind, run_ask] at h
    cases hf : filesBelow w.disk o.pages g with
    | error e => rw [hf] at h; cases h
    | ok sources =>
      rw [hf] at h
      dsimp only [Except.mapError] at h ⊢
      rw [run_bind, run_tell] at h
      obtain ⟨rfl, rfl⟩ := eq_of_run_destinations h
      exact ⟨rfl, w.disk_hear _, w.catalogue_hear _⟩

/-! ## The build after the output directory is there -/

/-- What a build does once the output directory is there. -/
def buildAll (o : SiteOptions) : Action BuildReport := do
  Action.tell (.componentsFound (← Catalogue.names))
  let outcomes ← (← pages o).mapM (buildPage o)
  Action.tell .buildFinished
  return report o outcomes

theorem build_eq (o : SiteOptions) : build o = (do
    Action.tell .buildStarted
    if o.clean then cleanOutput o
    Action.onDisk (DiskAction.makeDirectories o.output)
    buildAll o) := rfl

/-- The names of the components and the pages can be told. -/
structure Collects (o : SiteOptions) (w : Workspace) : Prop where
  components : ∃ names, w.componentNames = .ok names
  pages : ∃ g sources, o.glob = .ok g ∧ filesBelow w.disk o.pages g = .ok sources

/-- A build takes the pages that it has found, or it ends before because they cannot be told. -/
theorem run_buildAll (w : Workspace) (hd : w.disk.IsTree) (hglob : IsDownward o) :
    (¬ Collects o w ∧ ∃ f w', (buildAll o).run.run w = (.error f, w')) ∨
    (Collects o w ∧ ∃ w₁, w₁.disk = w.disk ∧ w.Recalls w₁.catalogue ∧ (buildAll o).run.run w =
      match ((discovered o w.disk).mapM (buildPage o)).run.run w₁ with
      | (.ok outcomes, w₂) => (.ok (report o outcomes), w₂.hear .buildFinished)
      | (.error f, w₂) => (.error f, w₂)) := by
  unfold buildAll
  obtain ⟨w₁, hl, hnames⟩ := run_names w
  rw [run_bind, hnames]
  cases hc : w.componentNames with
  | error f =>
    refine .inl ⟨fun h => ?_, f, w₁, rfl⟩
    obtain ⟨names, hn⟩ := h.components
    rw [hc] at hn
    cases hn
  | ok names =>
    dsimp only
    rw [run_bind, run_tell]
    dsimp only
    have hdisk₁ : (w₁.hear (.componentsFound names)).disk = w.disk := (w₁.disk_hear _).trans hl.disk
    rw [run_bind, run_pages _ (hdisk₁ ▸ hd) hglob]
    rw [hdisk₁]
    cases hg : o.glob with
    | error e =>
      refine .inl ⟨fun h => ?_, _, _, rfl⟩
      obtain ⟨g, sources, hg', -⟩ := h.pages
      rw [hg] at hg'
      cases hg'
    | ok g =>
      dsimp only
      cases hf : filesBelow w.disk o.pages g with
      | error e =>
        refine .inl ⟨fun h => ?_, _, _, rfl⟩
        obtain ⟨g', sources, hg', hf'⟩ := h.pages
        obtain rfl : g = g' := Except.ok.inj (hg.symm.trans hg')
        rw [hf] at hf'
        cases hf'
      | ok sources =>
        refine .inr ⟨⟨⟨names, hc⟩, g, sources, hg, hf⟩,
          (w₁.hear (.componentsFound names)).hear (.pagesFound sources.length o.pages),
          (Workspace.disk_hear _ _).trans hdisk₁, ?_, ?_⟩
        · rw [Workspace.catalogue_hear, Workspace.catalogue_hear]
          exact hl.recalls
        dsimp only
        rw [run_bind]
        cases (List.mapM (buildPage o) (discovered o w.disk)).run.run _ with
        | mk r w₂ => cases r <;> rfl

/-- What a build does between the output directory and the first page: it lists the components and collects the
pages. -/
def collect (o : SiteOptions) : Action (List SitePage) := do
  Action.tell (.componentsFound (← Catalogue.names))
  pages o

theorem buildAll_eq (o : SiteOptions) : buildAll o = (do
    let outcomes ← (← collect o).mapM (buildPage o)
    Action.tell .buildFinished
    return report o outcomes) := by
  unfold buildAll collect
  simp only [bind_assoc]

/-- Collecting finds the pages of the disk, and only teaches the workspace. -/
theorem eq_of_run_collect {w w' : Workspace} {collected : List SitePage}
    (h : (collect o).run.run w = (.ok collected, w')) :
    collected = discovered o w.disk ∧ w'.disk = w.disk ∧ w.Recalls w'.catalogue := by
  unfold collect at h
  obtain ⟨names, w₁, hnames, h⟩ := exists_of_run_bind h
  obtain ⟨w₁', hl, hrun⟩ := run_names w
  obtain rfl : w₁ = w₁' := (Prod.ext_iff.mp (hnames.symm.trans hrun)).2
  rw [run_bind, run_tell] at h
  obtain ⟨rfl, hdisk, hcatalogue⟩ := eq_discovered_of_run_pages h
  rw [Workspace.disk_hear] at hdisk ⊢
  rw [Workspace.catalogue_hear] at hcatalogue
  exact ⟨by rw [hl.disk], hdisk.trans hl.disk, hcatalogue ▸ hl.recalls⟩

/-- A build that returns has taken the pages that it found, and tells what became of them. -/
theorem exists_of_run_buildAll {w w' : Workspace} {r : BuildReport}
    (h : (buildAll o).run.run w = (.ok r, w')) :
    ∃ outcomes w₁ w₂, w₁.disk = w.disk ∧ w.Recalls w₁.catalogue ∧
      ((discovered o w.disk).mapM (buildPage o)).run.run w₁ = (.ok outcomes, w₂) ∧
      w'.disk = w₂.disk ∧ r = report o outcomes := by
  rw [buildAll_eq] at h
  obtain ⟨collected, w₁, hcollect, h⟩ := exists_of_run_bind h
  obtain ⟨rfl, hdisk, hrecalls⟩ := eq_of_run_collect hcollect
  obtain ⟨outcomes, w₂, htaken, h⟩ := exists_of_run_bind h
  rw [run_bind, run_tell] at h
  cases h
  exact ⟨outcomes, w₁, w₂, hdisk, hrecalls, htaken, w₂.disk_hear _, rfl⟩

/-- Where nothing is to be removed first, a build goes on from the disk with the output directory. -/
theorem run_build_of_made {w : Workspace} (hclean : o.clean = false)
    (hmake : (DiskAction.makeDirectories o.output).run.run w.disk = (.ok (), d)) :
    ∃ w₀, w₀.disk = d ∧ w₀.catalogue = w.catalogue ∧
      (build o).run.run w = (buildAll o).run.run w₀ := by
  refine ⟨{ w.hear .buildStarted with disk := d }, rfl, w.catalogue_hear _, ?_⟩
  rw [build_eq, run_bind, run_tell]
  dsimp only
  rw [hclean, if_neg Bool.false_ne_true, run_bind, run_onDisk, w.disk_hear, hmake]

/-- A page keeps clear of null characters, as the disk does. -/
theorem Placed.plain {names : List Text} (h : Placed o d page names) (hout : d.isDirectory o.output = .ok true) :
    page.source.names.any (·.contains '\x00') = false ∧
      page.destination.names.any (·.contains '\x00') = false := by
  obtain ⟨ho, -⟩ := Disk.isFile_eq_true_iff.mp h.isFile
  have hsource := ho.usable.plain
  refine ⟨hsource, ?_⟩
  obtain ⟨ho', -⟩ := Disk.isDirectory_eq_true_iff.mp hout
  rw [h.source] at hsource
  rw [h.destination]
  show (o.output.names ++ names).any _ = false
  have hnames : (o.pages.names ++ names).any (·.contains '\x00') = false := hsource
  rw [List.any_append, Bool.or_eq_false_iff] at hnames ⊢
  exact ⟨ho'.usable.plain, hnames.2⟩

end Site

end Inlay

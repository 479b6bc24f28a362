import Inlay.Proofs.Disk.Below
import Inlay.Proofs.Site.Reached

/-!
# What a build writes

A build writes no file but the pages that it has found, each to the place that mirrors that of its source. Where the
pattern for the pages never leads above their directory, these places lie below the output directory. A pattern that
does lead above it takes the build out of its output directory in the same way. There are no links, so resolving a
destination is normalising its path.

* `Disk.Writes` — a later disk whose files are those of an earlier one, but for given locations.

Main statements: `Site.writes_build` (however a build ends, it writes at the destinations of its pages only),
`Site.isBelow_of_staysBelow` (where a page goes), `build_confined`.
-/

namespace Inlay

/-- Every file of the disk `d'` is there with the same content on `d`, or stands at a location `touched`. -/
def Disk.Writes (touched : Location → Prop) (d d' : Disk) : Prop :=
  ∀ k content, d'.node? k = some (.file content) → d.node? k = some (.file content) ∨ touched k

namespace Disk.Writes

variable {d d' d'' : Disk} {touched : Location → Prop}

theorem refl (touched : Location → Prop) (d : Disk) : d.Writes touched d := fun _ _ h => .inl h

theorem trans (h : d.Writes touched d') (h' : d'.Writes touched d'') : d.Writes touched d'' :=
  fun k content hk => (h' k content hk).elim (h k content) .inr

theorem mono {touched' : Location → Prop} (h : d.Writes touched d') (ht : ∀ k, touched k → touched' k) :
    d.Writes touched' d' := fun k content hk => (h k content hk).imp_right (ht k)

theorem of_alters {new : Location → Prop} (h : d.Alters new touched d') : d.Writes touched d' := by
  intro k content hk
  by_cases ht : touched k
  · exact .inr ht
  · exact .inl ((h.file_iff ht).mp hk)

end Disk.Writes

/-! ## Steps that write no file -/

/-- However the step ends, each file on its disk has been there before. -/
def Action.AddsNoFile {α : Type} (step : Action α) : Prop :=
  ∀ w : Workspace, w.disk.Writes (fun _ => False) (step.run.run w).2.disk

namespace Action.AddsNoFile

variable {α β : Type}

theorem pure (a : α) : AddsNoFile (Pure.pure a) := fun w => .refl _ w.disk

theorem throw (f : Failure) : AddsNoFile (throw f : Action α) := fun w => .refl _ w.disk

theorem bind {step : Action α} {next : α → Action β} (h : AddsNoFile step) (hnext : ∀ a, AddsNoFile (next a)) :
    AddsNoFile (step >>= next) := by
  intro w
  have hstep := h w
  rw [run_bind]
  cases hrun : step.run.run w with
  | mk r w₁ =>
    rw [hrun] at hstep
    cases r with
    | error f => exact hstep
    | ok a => exact hstep.trans (hnext a w₁)

theorem mapM {step : α → Action β} (h : ∀ a, AddsNoFile (step a)) (as : List α) : AddsNoFile (as.mapM step) := by
  induction as with
  | nil => exact .pure []
  | cons a as ih =>
    rw [List.mapM_cons]
    exact (h a).bind fun b => ih.bind fun bs => .pure (b :: bs)

theorem tell (e : Event) : AddsNoFile (Action.tell e) := by
  intro w
  rw [run_tell, w.disk_hear]
  exact .refl _ _

theorem ask (question : Disk → Except DiskError α) : AddsNoFile (Action.ask question) := by
  intro w
  rw [run_ask]
  exact .refl _ _

theorem makeDirectories (p : Path) : AddsNoFile (Action.onDisk (DiskAction.makeDirectories p)) := by
  intro w
  rw [run_onDisk]
  cases hrun : (DiskAction.makeDirectories p).run.run w.disk with
  | mk r d =>
    have hgains : w.disk.Writes (fun _ => False) d := .of_alters (DiskAction.gains_makeDirectories hrun)
    cases r <;> exact hgains

theorem cleanOutput (o : SiteOptions) : AddsNoFile (Site.cleanOutput o) := by
  intro w k content hk
  rw [Site.disk_cleanOutput] at hk
  by_cases hdir : w.disk.isDirectory o.output = .ok true
  · rw [Disk.emptied_eq_clear hdir, Disk.node?_clear] at hk
    split at hk
    · cases hk
    · exact .inl hk
  · rw [Disk.emptied_eq_self hdir] at hk
    exact .inl hk

theorem names : AddsNoFile Catalogue.names := by
  intro w
  obtain ⟨w', hl, hrun⟩ := run_names w
  rw [hrun, hl.disk]
  exact .refl _ _

theorem pages (o : SiteOptions) : AddsNoFile (Site.pages o) := by
  unfold Site.pages
  split
  · exact .throw _
  · refine (ask _).bind fun sources => (tell _).bind fun _ => mapM (fun source => ?_) sources
    refine .bind ?_ fun destination => .pure _
    unfold Site.destination
    split
    · exact .pure _
    · exact .throw _

/-- A build adds no file before its first page. -/
theorem opening (o : SiteOptions) : AddsNoFile (Site.opening o) := by
  have hrest := (makeDirectories o.output).bind fun _ => names.bind fun found =>
    (tell (.componentsFound found)).bind fun _ => pages o
  refine (tell _).bind fun _ => ?_
  dsimp only
  split
  · exact (cleanOutput o).bind fun _ => hrest
  · exact hrest

end Action.AddsNoFile

namespace Site

open Disk DiskAction

variable {o : SiteOptions} {d : Disk} {page : SitePage} {w w' : Workspace}

/-! ## However a build ends -/

/-- **However a build ends, it writes at the destinations of its pages only.** -/
theorem writes_build {r : Except Failure BuildReport} (h : (build o).run.run w = (r, w')) :
    w.disk.Writes (fun k => ∃ page ∈ found o w.disk, k = w.disk.locate page.destination) w'.disk := by
  have hopening : w.disk.Writes (fun k => ∃ page ∈ found o w.disk, k = w.disk.locate page.destination)
      ((opening o).run.run w).2.disk := (Action.AddsNoFile.opening o w).mono nofun
  rw [build_eq_opening, run_bind] at h
  rcases hrun : (opening o).run.run w with ⟨f | collected, w₁⟩
  · rw [hrun] at h hopening
    cases h
    exact hopening
  · rw [hrun] at h hopening
    obtain ⟨-, w₀, hdisk, -, hcollect⟩ := exists_of_run_begin hrun
    obtain ⟨rfl, hdisk', -⟩ := eq_of_run_collect hcollect
    rw [hdisk] at hdisk'
    dsimp only at h
    rw [run_bind] at h
    rcases htaken : ((discovered o w₀.disk).mapM (buildPage o)).run.run w₁ with ⟨taken, w₂⟩
    have hpages : w₁.disk.Writes (fun k => ∃ page ∈ found o w.disk, k = w.disk.locate page.destination) w₂.disk := by
      have hlocate : w₁.disk.locate = w.disk.locate := by
        rw [hdisk']
        exact (locate_congr (gains_prepared o w.disk).working).trans (locate_cleaned o w.disk)
      have htouches := (touches_run_pages htaken).alters
      rw [hlocate, hdisk] at htouches
      exact .of_alters htouches
    rw [htaken] at h
    cases taken with
    | error f =>
      cases h
      exact hopening.trans hpages
    | ok outcomes =>
      cases h
      exact hopening.trans (by rw [w₂.disk_hear]; exact hpages)

/-! ## Where the pages go -/

/-- A page goes to the place below the output directory that its source has below that of the pages. -/
theorem exists_names_of_mem_found (hd : d.IsTree) (houtput : o.output.Written) (hp : page ∈ found o d) :
    ∃ names, page.source = o.pages.join ⟨.working, names⟩ ∧ page.destination = o.output.join ⟨.working, names⟩ ∧
      (prepared o d).isFile page.source = .ok true ∧ (prepared o d).isDirectory o.pages = .ok true ∧
      ∀ g, o.glob = .ok g → Glob.staysBelow 0 g.steps = true → Path.staysBelow 0 names = true := by
  have htree : (prepared o d).IsTree := isTree_makeDirectories (isTree_cleaned hd) houtput rfl
  unfold found discovered at hp
  split at hp
  · cases hp
  · rename_i g hg
    split at hp
    · cases hp
    · rename_i sources hsources
      obtain ⟨source, hmem, hpage⟩ := List.mem_filterMap.mp hp
      obtain ⟨hfile, hdir, selected, hselected, hq⟩ := exists_of_mem_filesBelow hsources hmem
      obtain ⟨names, rfl, hstays⟩ := Glob.exists_of_selectFrom htree hselected hq
      rw [page?_join] at hpage
      cases hpage
      refine ⟨names, rfl, rfl, hfile, hdir, fun g' hg' h => hstays 0 ?_⟩
      rw [hg] at hg'
      cases hg'
      exact h

/-- **Where the pattern never leads above the directory of the pages, each page goes below the output directory.** -/
theorem isBelow_of_staysBelow (hd : d.IsTree) (houtput : o.output.Written) {g : Glob} (hg : o.glob = .ok g)
    (hstays : Glob.staysBelow 0 g.steps = true) (hp : page ∈ found o d) :
    isBelow (d.locate o.output) (d.locate page.destination) = true := by
  obtain ⟨names, hsource, hdestination, hfile, hdir, hnames⟩ := exists_names_of_mem_found hd houtput hp
  obtain ⟨rest, hrest⟩ := Path.exists_walk_eq (hnames g hg hstays) [] rfl
  simp only [List.append_nil] at hrest
  rw [hdestination, locate_join, hrest, isBelow_iff]
  refine ⟨List.prefix_append _ _, fun heq => ?_⟩
  obtain rfl := List.append_right_eq_self.mp heq
  -- Then the source would be the directory of the pages, which is no file.
  obtain ⟨-, content, hn⟩ := isFile_eq_true_iff.mp hfile
  obtain ⟨-, hn'⟩ := isDirectory_eq_true_iff.mp hdir
  rw [hsource, locate_join, hrest, List.append_nil, hn'] at hn
  cases hn

end Site

/-- **What a build writes**: however it ends, each file that is new or changed is at the destination of a page that was
found, which mirrors the place of its source. Where the pattern for the pages never leads above their directory, it
lies below the output directory. -/
theorem build_confined {o : SiteOptions} {w w' : Workspace} {r : Except Failure BuildReport} (hd : w.disk.IsTree)
    (houtput : o.output.Written) (hrun : (Site.build o).run.run w = (r, w')) {k : Location} {content : Bytes}
    (hk : w'.disk.node? k = some (.file content)) (hnew : w.disk.node? k ≠ some (.file content)) :
    (∃ page ∈ Site.found o w.disk, o.destination? page.source = some page.destination ∧
      k = w.disk.locate page.destination) ∧
    ∀ g, o.glob = .ok g → Glob.staysBelow 0 g.steps = true → Disk.isBelow (w.disk.locate o.output) k = true := by
  obtain ⟨page, hp, rfl⟩ := (Site.writes_build hrun k content hk).resolve_left hnew
  obtain ⟨names, hsource, hdestination, -⟩ := Site.exists_names_of_mem_found hd houtput hp
  refine ⟨⟨page, hp, ?_, rfl⟩, fun g hg hstays => Site.isBelow_of_staysBelow hd houtput hg hstays hp⟩
  rw [hsource, hdestination, o.destination?_join]

/-- A site whose pattern goes down and up again. -/
def SiteOptions.detour : SiteOptions := { SiteOptions.usual with pageGlob := some "blog/../*.html".toList }

/-- A disk with a page, a directory beside it, and files above the pages and in the working directory. -/
def Disk.withOutsiders : Disk :=
  .holding [("src/pages/index.html".toList, "Hi".toList), ("src/pages/blog/a.html".toList, "A".toList),
    ("src/about.html".toList, "New".toList), ("about.html".toList, "Keep".toList)]

set_option maxRecDepth 20000 in
/-- The page goes to `public/blog/../index.html`, and so into the output directory. -/
theorem build_confined_detour :
    ∃ g report w', SiteOptions.detour.glob = .ok g ∧ Glob.staysBelow 0 g.steps = true ∧
      (Site.build .detour).run.run (SiteOptions.detour.workspace .withOutsiders) = (.ok report, w') ∧
      report.pageCount = 1 ∧
      w'.disk.node? ["public".toList, "index.html".toList] = some (.file (Utf8.encode "Hi".toList)) ∧
      Disk.isBelow (Disk.withOutsiders.locate (SiteOptions.detour).output)
        ["public".toList, "index.html".toList] = true := by
  have hglob : SiteOptions.detour.glob =
      .ok ⟨[.name "blog".toList, .name Path.upward, .pattern (Wildcard.ofText "*.html".toList)], false⟩ := by cbv
  have hreport : ((Site.build .detour).run.run (SiteOptions.detour.workspace .withOutsiders)).1 =
      .ok ⟨true, 1, 0, [], [], [], "public".toList⟩ := by cbv
  have hnode : ((Site.build .detour).run.run (SiteOptions.detour.workspace .withOutsiders)).2.disk.node?
      ["public".toList, "index.html".toList] = some (.file (Utf8.encode "Hi".toList)) := by cbv
  cases hr : (Site.build .detour).run.run (SiteOptions.detour.workspace .withOutsiders) with
  | mk r w' =>
    rw [hr] at hreport hnode
    obtain rfl := hreport
    obtain ⟨-, hbelow⟩ := build_confined (o := .detour) (by decide) (by decide) hr hnode (by decide)
    exact ⟨_, _, w', hglob, by decide, rfl, rfl, hnode, hbelow _ hglob (by decide)⟩

/-- A site whose pattern leads above the directory of the pages. -/
def SiteOptions.climbing : SiteOptions := { SiteOptions.usual with pageGlob := some "../*.html".toList }

set_option maxRecDepth 20000 in
/-- The file `about.html` beside the output directory is overwritten. -/
theorem not_build_confined :
    ¬ ∀ (o : SiteOptions) (w w' : Workspace) (r : Except Failure BuildReport), w.disk.IsTree → o.output.Written →
      w.catalogue = o.catalogue → o.clean = false → (Site.build o).run.run w = (r, w') →
      ∀ k content, w'.disk.node? k = some (.file content) → w.disk.node? k ≠ some (.file content) →
        Disk.isBelow (w.disk.locate o.output) k = true := by
  intro h
  have hwritten : ((Site.build .climbing).run.run (SiteOptions.climbing.workspace .withOutsiders)).2.disk.node?
      ["about.html".toList] = some (.file (Utf8.encode "New".toList)) := by cbv
  have hbelow := h .climbing (SiteOptions.climbing.workspace .withOutsiders) _ _ (by decide) (by decide) rfl rfl rfl
    ["about.html".toList] _ hwritten (by decide)
  exact absurd hbelow (by decide)

end Inlay

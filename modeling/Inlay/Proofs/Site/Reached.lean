import Inlay.Proofs.Site.Strict

/-!
# The pages that a build has reached

A build goes from page to page on one disk and with one memory of the templates. Each page is taken up on the
workspace that the pages before it have left behind, and none of them changes more than its destination and the
directories above it. So what is written for a page stays, unless a later page is written there.

* `Site.Truthful` — a workspace that tells of no template that is not there.
* `Site.Touches` — what taking pages may change.
* `Site.opening` — what a build does before the first page.
* `Site.reached` — the workspace on which a build takes up a page.
* `Site.Reaches` — how a build comes to a page, and goes on behind it.

Main statements: `Site.touches_run_pages` (pages touch their destinations only), `Site.reaches_of_run_build` (a build
that returns has reached each of its pages).
-/

namespace Inlay

namespace Site

open Disk DiskAction

variable {o : SiteOptions} {page : SitePage} {w w' : Workspace}

/-! ## Templates -/

/-- The workspace never tells of a template that is not on its disk. -/
structure Truthful (o : SiteOptions) (w : Workspace) : Prop where
  directory : w.catalogue.directory = o.components
  extension : w.catalogue.extension = o.extension
  known : ∀ {name}, w.lookups.contains name = .ok true → HasTemplate o w.disk name

theorem Truthful.templateFile (h : Truthful o w) : w.catalogue.templateFile = o.catalogue.templateFile :=
  Catalogue.templateFile_congr h.directory h.extension

/-- What the disk answers is the truth. -/
theorem hasTemplate_of_supply (hfile : w.catalogue.templateFile = o.catalogue.templateFile) {name : Text}
    (h : w.supply.contains name = .ok true) : HasTemplate o w.disk name := by
  unfold HasTemplate
  rw [← hfile]
  exact Workspace.supply_contains_eq_ok_iff.mp h

/-- A template that was there is there still, on a disk that keeps its files. -/
theorem Truthful.next (h : Truthful o w) (hkeeps : w.disk.Keeps w'.disk) (hrecalls : w.Recalls w'.catalogue) :
    Truthful o w' := by
  have hfile := hrecalls.templateFile.trans h.templateFile
  refine ⟨hrecalls.directory.trans h.directory, hrecalls.extension.trans h.extension, fun {name} hc => ?_⟩
  rcases Workspace.contains_cases hc with hr | hc
  · exact hkeeps.isFile (h.known (hrecalls.existence hr))
  · exact hasTemplate_of_supply hfile hc

/-- A workspace that remembers nothing asks the disk. -/
theorem Truthful.begin (hw : w.catalogue = o.catalogue) : Truthful o w := by
  refine ⟨by rw [hw]; rfl, by rw [hw]; rfl, fun {name} hc => ?_⟩
  rw [(Workspace.reliable_of_catalogue hw).lookups] at hc
  exact hasTemplate_of_supply (by rw [hw]) hc

/-! ## All pages -/

/-- Taking pages from `w` to `w'` touches their destinations only, and leads away from no truth. -/
structure Touches (o : SiteOptions) (pages : List SitePage) (w w' : Workspace) : Prop where
  keeps : w.disk.Keeps w'.disk
  alters : w.disk.Alters (fun _ => True) (fun k => ∃ page ∈ pages, k = w.disk.locate page.destination) w'.disk
  truthful : Truthful o w → Truthful o w'

theorem Touches.refl (pages : List SitePage) (w : Workspace) : Touches o pages w w := ⟨.refl _, .refl _ _ _, id⟩

theorem Touches.cons {rest : List SitePage} {w₁ w₂ : Workspace} (h : Touches o [page] w w₁)
    (hrest : Touches o rest w₁ w₂) : Touches o (page :: rest) w w₂ := by
  refine ⟨h.keeps.trans hrest.keeps, (h.alters.mono (fun _ => id) ?_).trans
    (hrest.alters.mono (fun _ => id) ?_), fun ht => hrest.truthful (h.truthful ht)⟩
  · rintro k ⟨other, hmem, rfl⟩
    exact ⟨page, List.mem_cons_self, by rw [List.mem_singleton.mp hmem]⟩
  · rintro k ⟨other, hmem, rfl⟩
    exact ⟨other, List.mem_cons_of_mem _ hmem, by rw [h.keeps.locate]⟩

/-- A file that is not at a destination can be read as before. -/
theorem Touches.readBytes {pages : List SitePage} (h : Touches o pages w w') {p : Path} {content : Bytes}
    (hp : ∀ page ∈ pages, w.disk.locate page.destination ≠ w.disk.locate p)
    (hread : w.disk.readBytes p = .ok content) : w'.disk.readBytes p = .ok content := by
  obtain ⟨ho, hn⟩ := readBytes_eq_ok_iff.mp hread
  refine readBytes_eq_ok_iff.mpr ⟨h.keeps.opens ho, ?_⟩
  rw [h.keeps.locate]
  exact (h.alters.file_iff fun ⟨page, hmem, heq⟩ => hp page hmem heq.symm).mpr hn

/-- A page touches its destination only, whatever becomes of it. -/
theorem touches_buildPage {r : Except Failure PageOutcome} (h : (buildPage o page).run.run w = (r, w')) :
    Touches o [page] w w' := by
  by_cases hc : 1 ≤ o.ceiling
  · obtain ⟨result, w₁, hrun, hends, hrecalls⟩ := run_buildPage hc page w
    obtain rfl := (Prod.ext_iff.mp (h.symm.trans hrun)).2
    refine ⟨hends.keeps, hends.alters.mono (fun _ _ => trivial) ?_, fun ht => ht.next hends.keeps hrecalls⟩
    rintro k ⟨-, rfl⟩
    exact ⟨page, List.mem_cons_self, rfl⟩
  · obtain ⟨log, hrun⟩ := run_buildPage_of_low hc page w
    obtain rfl := (Prod.ext_iff.mp (h.symm.trans hrun)).2
    exact ⟨.refl _, .refl _ _ _, fun ht => ht.next (.refl _) (w.learns_tell log).recalls⟩

/-- **Pages touch their destinations only**, also where one of them ends the build. -/
theorem touches_run_pages {pages : List SitePage} {r : Except Failure (List PageOutcome)}
    (h : (pages.mapM (buildPage o)).run.run w = (r, w')) : Touches o pages w w' := by
  induction pages generalizing w r with
  | nil =>
    cases h
    exact .refl _ _
  | cons page rest ih =>
    rw [run_mapM_cons] at h
    split at h
    · rename_i first w₁ hfirst
      have hpage := touches_buildPage hfirst
      split at h
      · rename_i others w₂ hrest
        cases h
        exact hpage.cons (ih hrest)
      · rename_i f w₂ hrest
        cases h
        exact hpage.cons (ih hrest)
    · rename_i f w₁ hfirst
      cases h
      exact (touches_buildPage hfirst).cons (.refl rest w')

/-! ## The whole build -/

/-- What a build does before the first page. -/
def opening (o : SiteOptions) : Action (List SitePage) := do
  Action.tell .buildStarted
  if o.clean then cleanOutput o
  Action.onDisk (makeDirectories o.output)
  collect o

/-- The workspace on which a build takes up the page behind the pages `before`. -/
def reached (o : SiteOptions) (w : Workspace) (before : List SitePage) : Workspace :=
  ((before.mapM (buildPage o)).run.run ((opening o).run.run w).2).2

theorem build_eq_opening (o : SiteOptions) : build o = (do
    let outcomes ← (← opening o).mapM (buildPage o)
    Action.tell .buildFinished
    return report o outcomes) := by
  rw [build_eq, buildAll_eq]
  unfold opening
  cases o.clean with
  | false => simp only [Bool.false_eq_true, if_false, bind_assoc]
  | true => simp only [if_true, bind_assoc]

/-- A build that returns has found its pages on the disk that it has prepared. -/
theorem eq_of_run_opening {collected : List SitePage} (hw : w.catalogue = o.catalogue)
    (h : (opening o).run.run w = (.ok collected, w')) :
    collected = found o w.disk ∧ w'.disk = prepared o w.disk ∧ Truthful o w' := by
  obtain ⟨-, w₀, hdisk, hcatalogue, h⟩ := exists_of_run_begin h
  obtain ⟨rfl, hdisk', hrecalls⟩ := eq_of_run_collect h
  refine ⟨by rw [hdisk]; rfl, hdisk'.trans hdisk, ?_⟩
  exact (Truthful.begin (hcatalogue.trans hw)).next (hdisk' ▸ .refl _) hrecalls

/-- How a build that returns with `report` and leaves `w'` behind comes to the page behind the pages `before`, and
goes on with the pages `after`: the page ends with `outcome` and leaves `v` behind, and files are read as they were
unless a page is written there. -/
structure Reaches (o : SiteOptions) (w : Workspace) (before : List SitePage) (page : SitePage)
    (after : List SitePage) (outcome : PageOutcome) (v : Workspace) (report : BuildReport) (w' : Workspace) :
    Prop where
  truthful : Truthful o (reached o w before)
  earlier : ∀ {p content}, (∀ other ∈ before, w.disk.locate other.destination ≠ w.disk.locate p) →
    (prepared o w.disk).readBytes p = .ok content → (reached o w before).disk.readBytes p = .ok content
  taken : (buildPage o page).run.run (reached o w before) = (.ok outcome, v)
  told : outcome.expansion? = none → outcome.page.text ∈ report.failedPages
  later : ∀ {p content}, (∀ other ∈ after, w.disk.locate other.destination ≠ w.disk.locate p) →
    v.disk.readBytes p = .ok content → w'.disk.readBytes p = .ok content

/-- **A build that returns has reached each of its pages.** -/
theorem reaches_of_run_build {report : BuildReport} {before after : List SitePage} (hw : w.catalogue = o.catalogue)
    (hrun : (build o).run.run w = (.ok report, w')) (hpage : found o w.disk = before ++ page :: after) :
    ∃ outcome v, Reaches o w before page after outcome v report w' := by
  rw [build_eq_opening] at hrun
  obtain ⟨collected, w₁, hopening, hrun⟩ := exists_of_run_bind hrun
  obtain ⟨rfl, hdisk, htruthful⟩ := eq_of_run_opening hw hopening
  obtain ⟨outcomes, w₂, htaken, hrun⟩ := exists_of_run_bind hrun
  cases hrun
  rw [hpage] at htaken
  obtain ⟨firsts, outcome, others, v, v', rfl, hfirsts, houtcome, hothers⟩ := exists_of_run_mapM_append htaken
  have hv : reached o w before = v := by
    unfold reached
    rw [hopening, hfirsts]
  have hbefore := touches_run_pages hfirsts
  have hafter := touches_run_pages hothers
  have hlocate : w₁.disk.locate = w.disk.locate := by
    rw [hdisk]
    exact (locate_congr (gains_prepared o w.disk).working).trans (locate_cleaned o w.disk)
  have hlocate' : v'.disk.locate = w.disk.locate :=
    ((touches_buildPage houtcome).keeps.locate.trans hbefore.keeps.locate).trans hlocate
  refine ⟨outcome, v', hv ▸ hbefore.truthful htruthful, fun hp hread => ?_, hv ▸ houtcome, fun hnone => ?_,
    fun hp hread => ?_⟩
  · rw [hv]
    exact hbefore.readBytes (by rwa [hlocate]) (hdisk ▸ hread)
  · have hmem : outcome ∈ firsts ++ outcome :: others := List.mem_append_right _ List.mem_cons_self
    exact List.mem_map.mpr ⟨outcome, List.mem_filter.mpr ⟨hmem, by rw [hnone]; rfl⟩, rfl⟩
  · show (w₂.hear .buildFinished).disk.readBytes _ = _
    rw [w₂.disk_hear]
    exact hafter.readBytes (by rwa [hlocate']) hread

end Site

end Inlay

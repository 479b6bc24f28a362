import Inlay.Job.Basic

/-!
# The stages of a job

A job is checked, then the site is built, then the account of the build is shown. Each stage may end the
job with exit code one.

* `Job.check` — finds the directories and refuses a request that cannot be met or would remove the
  pages.
* `Job.build` — builds the site.
* `Job.conclude` — shows the account and tells success from failure.
* `Stage`, `Job.run` — any sequence of stages.
-/

namespace Inlay

open StageAction

namespace Job

/-- Whether emptying the output directory would remove the pages: the pages lie in it or are it. The two paths are
resolved before they are compared, which on a disk without links is to normalise them. -/
def removesPages (pages output : Path) (disk : Disk) : Except DiskError Bool := do
  return (← disk.normalize output).isPrefixOf (← disk.normalize pages)

/-- The directory that a name means, seen from the input directory. -/
def inside (job : Job) (name : Text) : Path := (job.input.getD .here).join (.ofText name)

/-- The output directory. -/
def target (job : Job) : Path := job.output.getD .here

/-- Tells the program's title to who wants details, and that the check begins. -/
def announce (job : Job) : StageAction Unit := do
  if 2 ≤ job.verbosity then
    tell .banner
  tell .checkStarted

/-- Finds the directory of the pages, which must be there. -/
def findPages (job : Job) : StageAction Path := do
  let pages := job.inside (← demand .directoryName job.pagesName)
  if !(← lift (Action.ask (·.isDirectory pages))) then
    refuse s!"Error: Pages directory not found: {pages.string}"
  tell (.pagesDirectory pages)
  return pages

/-- Finds the directory of the components, which may be missing. -/
def findComponents (job : Job) : StageAction Path := do
  let components := job.inside (← demand .directoryName job.componentsName)
  if ← lift (Action.ask (·.isDirectory components)) then
    tell (.componentsDirectory components)
  else
    tell (.componentsMissing components)
  return components

/-- Refuses a job that allows no pass. -/
def requirePass (job : Job) : StageAction Unit := do
  let ceiling ← demand .ceiling job.ceiling
  if ceiling < 1 then
    refuse s!"Error: --maxIterations must be at least 1, got {ceiling}"

/-- Refuses a job that would remove its pages. -/
def protect (job : Job) (pages : Path) : StageAction Unit := do
  if job.clean then
    if ← lift (Action.ask (removesPages pages job.target)) then
      refuse s!"Error: refusing to clean {job.target.string}: it contains the pages directory"

/-- Finds the directories of the job and refuses a request that cannot be met. -/
def check (job : Job) : StageAction Job := do
  announce job
  let pages ← findPages job
  let components ← findComponents job
  requirePass job
  protect job pages
  tell (.outputDirectory job.target)
  return { job with
    pages := pages.text, components := components.text, site := job.target.text, checked := true }

/-- What the build of a checked job is asked to do. The check has seen to it that there is a ceiling; what a
template file is called, which tags are native and whether templates are remembered is for the settings to say. -/
def siteOptions (job : Job) : SiteOptions where
  pages := .ofText job.pages
  components := .ofText job.components
  output := .ofText job.site
  pageGlob := job.pageGlob
  extension := job.settings.extension
  native := job.settings.native
  ceiling := job.ceiling.getD 0
  remembering := job.settings.remembering
  clean := job.clean
  strict := job.strict

/-- Builds the site. A failure that no page accounts for ends the job. -/
def build (job : Job) : StageAction Job := do
  tell .buildingPages
  let options := job.siteOptions
  modify fun t => { t with workspace := { t.workspace with catalogue := options.catalogue } }
  match ← attempt (Site.build options) with
  | .ok report => return { job with report := some report }
  | .error failure => refuse s!"Build error: {failure.message}"

/-- Shows the account of the build and ends the job if the build has not succeeded. -/
def conclude (job : Job) : StageAction Job := do
  match job.report with
  | none => refuse "Error: Build failed"
  | some report =>
    tell (.pagesBuilt report.pageCount)
    tell (.componentsReplaced report.componentCount)
    tell (.outputWritten report.outputDirectory)
    tell .timeTaken
    report.failedPages.forM fun page => complain s!"Error: could not build {page.string}"
    report.skippedTags.forM fun (page, names) => tell (.tagsLeft page names)
    report.ceilingPages.forM fun page => tell (.ceilingReached page)
    if !report.succeeded then
      refuse "Error: Build completed with errors"
    tell .succeeded
    return job

end Job

/-- The stages of a job. -/
inductive Stage where
  | check
  | build
  | conclude
  deriving DecidableEq, Repr

namespace Stage

/-- The stages of a whole job, in order. -/
def all : List Stage := [check, build, conclude]

/-- What a stage does. -/
def perform : Stage → Job → StageAction Job
  | check => Job.check
  | build => Job.build
  | conclude => Job.conclude

end Stage

/-- Takes a job through stages, one after the other. -/
def Job.run (stages : List Stage) (job : Job) : StageAction Job :=
  stages.foldlM (fun job stage => stage.perform job) job

end Inlay

import Inlay.Site.Basic

/-!
# Building a site

A build empties the output directory if it is asked to, collects the pages, and takes them one after
the other. A page whose files cannot be used is given up; the others are still built. The disk has neither links
nor permissions, so emptying spares no entry as a link, and files cannot be used only for what stands in their way
or for the length of their paths.

* `Site.pages` — the pages of a site.
* `Site.expandPage`, `Site.writePage`, `Site.buildPage` — the steps for one page.
* `Site.cleanOutput` — empties the output directory.
* `Site.build` — the whole, with `Site.report` as its account.

Main statement: `Site.succeeded_report` (a build succeeds if no page was given up and, when it is strict,
no page is left with component tags).
-/

namespace Inlay

/-- How a page ended: given up, or written with the given account. -/
structure PageOutcome where
  page : Path
  expansion? : Option Expansion
  deriving Repr

namespace Site

/-- The file that the page from `source` goes to. -/
def destination (o : SiteOptions) (source : Path) : Action Path :=
  match o.destination? source with
  | some path => pure path
  | none => throw (.outside source o.pages)

/-- The pages of the site, in the order of their files. -/
def pages (o : SiteOptions) : Action (List SitePage) := do
  match o.glob with
  | .error e => throw (.badGlob e)
  | .ok glob =>
    let sources ← Action.ask fun disk => filesBelow disk o.pages glob
    Action.tell (.pagesFound sources.length o.pages)
    sources.mapM fun source => return { source, destination := ← destination o source }

/-- Expands the component tags of a page. -/
def expandPage (o : SiteOptions) (page : SitePage) : Action (Expansion × SitePage) := do
  match Draft.passesAllowed o.ceiling with
  | .error failure => throw failure
  | .ok ceiling =>
    match ← PageAction.runOn { content := page.content } (Draft.expand o.native ceiling) with
    | (.error failure, _) => throw failure
    | (.ok expansion, _) =>
      expansion.skipped.forM fun name => Action.tell (.tagLeft name page.source)
      return (expansion, { page with content := expansion.content })

/-- Writes a page to its file, with the directories above it. -/
def writePage (page : SitePage) : Action Unit := do
  Action.onDisk (DiskAction.makeDirectories page.destination.parent)
  Action.writeText page.destination page.content

/-- Reads, expands and writes a page. -/
def processPage (o : SiteOptions) (page : SitePage) : Action Expansion := do
  let text ← Action.readText page.source
  let (expansion, page) ← expandPage o { page with content := text }
  writePage page
  return expansion

/-- Builds a page, or gives it up when its files cannot be used. -/
def buildPage (o : SiteOptions) (page : SitePage) : Action PageOutcome := do
  Action.tell (.pageStarted page.source)
  let done ← tryCatch (some <$> processPage o page) fun failure => do
    if failure.concernsFile then
      Action.tell (.pageFailed page.source failure)
      return none
    else
      throw failure
  if let some expansion := done then
    Action.tell (.pageExpanded expansion.replacements)
    Action.tell (.pageWritten page.destination)
  return ⟨page.source, done⟩

/-- Removes everything in the output directory, if there is one. -/
def cleanOutput (o : SiteOptions) : Action Unit := do
  if ← Action.ask (·.exists? o.output) then
    Action.tell (.cleaning o.output)
    Action.onDisk (DiskAction.emptyDirectory o.output)

/-- The account of a build with the given outcomes. -/
def report (o : SiteOptions) (outcomes : List PageOutcome) : BuildReport :=
  let failed := outcomes.filter (·.expansion?.isNone)
  let written := outcomes.filterMap fun outcome =>
    outcome.expansion?.map fun expansion => (outcome.page.text, expansion)
  let skipped := written.filter fun w => !w.2.skipped.isEmpty
  let stopped := written.filter fun w => w.2.ceilingReached
  { succeeded := failed.isEmpty && (!o.strict || (skipped.isEmpty && stopped.isEmpty))
    pageCount := written.length
    componentCount := written.foldl (fun count w => count + w.2.replacements) 0
    failedPages := failed.map (·.page.text)
    skippedTags := skipped.map fun w => (w.1, w.2.skipped)
    ceilingPages := stopped.map (·.1)
    outputDirectory := o.output.text }

/-- Builds the site. -/
def build (o : SiteOptions) : Action BuildReport := do
  Action.tell .buildStarted
  if o.clean then cleanOutput o
  Action.onDisk (DiskAction.makeDirectories o.output)
  Action.tell (.componentsFound (← Catalogue.names))
  let outcomes ← (← pages o).mapM (buildPage o)
  Action.tell .buildFinished
  return report o outcomes

theorem succeeded_report (o : SiteOptions) (outcomes : List PageOutcome) :
    (report o outcomes).succeeded = true ↔
      (report o outcomes).failedPages = [] ∧
        (o.strict = true → (report o outcomes).skippedTags = [] ∧
          (report o outcomes).ceilingPages = []) := by
  simp only [report, List.map_eq_nil_iff, Bool.and_eq_true, List.isEmpty_iff]
  cases o.strict <;> simp only [Bool.not_true, Bool.not_false, Bool.false_or, Bool.true_or,
    Bool.and_eq_true, List.isEmpty_iff, and_true, forall_const, reduceCtorEq, false_implies]

end Site

end Inlay

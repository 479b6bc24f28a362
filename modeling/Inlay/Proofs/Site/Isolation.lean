import Inlay.Proofs.Site.Page
import Inlay.Proofs.Site.Stage

/-!
# Pages do not disturb each other

The pages of a build are taken one after the other, on one disk and with one memory of the templates. Still
each page that is written becomes what it expands to by itself, on the disk as it was in the beginning, and a
page that is given up leaves its destination as it was. As the disk has no links, two paths lead to one place
only if they are normalised to one location.

* `Site.alone?` — the account of a page that is expanded by itself.
* `Site.accounts` — the accounts of the pages that are not given up.
* `Site.Underway` — what holds while the pages are taken.
* `Site.Isolated` — the pages of a build have not disturbed each other.

Main statements: `Site.alone?_of_shelters` (a page by itself depends on its text and the components alone),
`Site.Underway.next` (a page keeps the build under way), `Site.run_pages_alone` (what the pages become, and what
else they change), `build_isolates`.
-/

namespace Inlay

open Markup

namespace Site

open Disk DiskAction

variable {o : SiteOptions} {d : Disk} {page : SitePage} {w w' : Workspace}

/-- The account of a page that is expanded by itself: its text, and the templates, as they are on the disk. -/
def alone? (o : SiteOptions) (d : Disk) (page : SitePage) : Option Expansion :=
  (d.textAt? (d.locate page.source)).bind fun text =>
    ((o.workspace d).expand o.native o.ceiling.toNat text).toOption

/-- Where the files among the components are the same, the templates of a later disk answer as those of an
earlier one, or fail. -/
theorem supply_below_of_shelters (hd : d.IsTree) (hext : Path.upward ∉ (Path.ofText o.extension).names)
    (hs : d.Shelters w.disk o.components) (hdirectory : w.catalogue.directory = o.components)
    (hextension : w.catalogue.extension = o.extension) : w.supply.Below (o.workspace d).supply := by
  have hfile : w.catalogue.templateFile = o.catalogue.templateFile :=
    Catalogue.templateFile_congr hdirectory hextension
  constructor
  · intro name answer hname hc
    obtain ⟨tail, hne, hlevel, hjoin⟩ := o.catalogue.templateFile_eq_join hname hext
    rw [Workspace.supply_contains_eq_ok_iff, hfile, hjoin] at hc
    rw [Workspace.supply_contains_eq_ok_iff]
    exact (congrArg d.isFile hjoin).trans (hs.isFile hd hlevel hne hc)
  · intro name text hname hl
    obtain ⟨tail, -, hlevel, hjoin⟩ := o.catalogue.templateFile_eq_join hname hext
    rw [Workspace.supply_load_eq_ok_iff, hfile, hjoin] at hl
    obtain ⟨content, t, hbytes, hdecode, rfl⟩ := readText_eq_ok_iff.mp hl
    rw [Workspace.supply_load_eq_ok_iff]
    exact (congrArg d.readText hjoin).trans
      (readText_eq_ok_iff.mpr ⟨content, t, hs.readBytes hd hlevel hbytes, hdecode, rfl⟩)

/-- A page by itself expands as the templates on the disk say. -/
theorem alone?_eq_some_iff {e : Expansion} :
    alone? o d page = some e ↔ ∃ text, d.textAt? (d.locate page.source) = some text ∧
      (o.workspace d).supply.expand o.native o.ceiling.toNat text = .ok e := by
  have hforgetful : (o.workspace d).Reliable := Workspace.reliable_of_catalogue rfl
  unfold alone?
  rw [Option.bind_eq_some_iff]
  refine exists_congr fun text => and_congr_right fun _ => ?_
  rw [Workspace.expand_eq hforgetful]
  cases (o.workspace d).supply.expand o.native o.ceiling.toNat text <;> simp [Except.toOption]

/-- The account of a page by itself depends on its text and the components alone. -/
theorem alone?_of_shelters {d' : Disk} (hd : d.IsTree) (hc : 1 ≤ o.ceiling)
    (hext : Path.upward ∉ (Path.ofText o.extension).names) (hs : d.Shelters d' o.components)
    (htext : d'.textAt? (d'.locate page.source) = d.textAt? (d.locate page.source)) {e : Expansion}
    (h : alone? o d' page = some e) : alone? o d page = some e := by
  obtain ⟨text, ht, he⟩ := alone?_eq_some_iff.mp h
  have hbelow : (o.workspace d').supply.Below (o.workspace d).supply :=
    supply_below_of_shelters hd hext hs rfl rfl
  exact alone?_eq_some_iff.mpr ⟨text, htext ▸ ht, hbelow.expand (by omega) he⟩

/-! ## One page after the other -/

/-- What holds while the pages are taken: the disk has changed at destinations and by directories on the way
to them only, and what a template is known to be it was in the beginning. -/
structure Underway (o : SiteOptions) (d : Disk) (w : Workspace) : Prop where
  keeps : (cleaned o d).Keeps w.disk
  alters : (cleaned o d).Alters (Leads o d) (Receives o d) w.disk
  directory : w.catalogue.directory = o.components
  extension : w.catalogue.extension = o.extension
  below : w.lookups.Below (o.workspace d).supply

/-- A build is under way once the output directory is there, whatever it then looks up. -/
theorem Underway.begin (h : Stage o d) (hdisk : w.disk = prepared o d) (hcatalogue : w.catalogue = o.catalogue)
    (hdisk' : w'.disk = w.disk) (hrecalls : w.Recalls w'.catalogue) : Underway o d w' := by
  have hgains := gains_prepared o d
  have hkeeps : (cleaned o d).Keeps w'.disk := by
    rw [hdisk', hdisk]
    exact hgains.keeps
  have halters : (cleaned o d).Alters (Leads o d) (Receives o d) w'.disk := by
    rw [hdisk', hdisk]
    exact (hgains.mono fun _ => .inl).alters _
  have hdirectory : w'.catalogue.directory = o.components := by rw [hrecalls.directory, hcatalogue]; rfl
  have hextension : w'.catalogue.extension = o.extension := by rw [hrecalls.extension, hcatalogue]; rfl
  have hs := h.shelters halters hkeeps
  refine ⟨hkeeps, halters, hdirectory, hextension, hrecalls.below ?_
    (supply_below_of_shelters h.tree h.steady.extension hs hdirectory hextension)⟩
  rw [(Workspace.reliable_of_catalogue hcatalogue).lookups]
  exact supply_below_of_shelters h.tree h.steady.extension (hdisk' ▸ hs) (by rw [hcatalogue]; rfl)
    (by rw [hcatalogue]; rfl)

section

variable (hw : Underway o d w)

include hw

theorem Underway.locate : w.disk.locate = d.locate :=
  (locate_congr hw.alters.working).trans (locate_cleaned o d)

theorem Underway.onWay (p : Path) : OnWay w.disk p = OnWay d p :=
  onWay_congr (hw.alters.working.trans (working_cleaned o d))

variable {r : Except Failure Expansion} (hends : Ends o page w.disk w.lookups r w'.disk)

include hends

/-- **A page keeps the build under way**, whatever becomes of it. -/
theorem Underway.next (h : Stage o d) (hp : page ∈ found o d) (hrecalls : w.Recalls w'.catalogue) :
    Underway o d w' := by
  have hkeeps := hw.keeps.trans hends.keeps
  have halters : (cleaned o d).Alters (Leads o d) (Receives o d) w'.disk := by
    refine hw.alters.trans (hends.alters.mono ?_ ?_)
    · intro k hk
      rw [hw.onWay] at hk
      exact .inr ⟨page, hp, hk⟩
    · rintro k ⟨-, rfl⟩
      exact ⟨page, hp, by rw [hw.locate]⟩
  have hdirectory := hrecalls.directory.trans hw.directory
  have hextension := hrecalls.extension.trans hw.extension
  exact ⟨hkeeps, halters, hdirectory, hextension, hrecalls.below hw.below
    (supply_below_of_shelters h.tree h.steady.extension (h.shelters halters hkeeps) hdirectory hextension)⟩

end

/-- A page that is written has the account that it has by itself. -/
theorem Underway.alone (hw : Underway o d w) (h : Stage o d) (hc : 1 ≤ o.ceiling) (hp : page ∈ found o d)
    {e : Expansion} {d' : Disk} (hends : Ends o page w.disk w.lookups (.ok e) d') :
    alone? o d page = some e := by
  obtain ⟨text, hread, he⟩ := hends.accounted
  exact alone?_eq_some_iff.mpr ⟨text, h.textAt?_source hw.alters hp hread, hw.below.expand (by omega) he⟩

/-- What becomes of a page is told by its source and, if it is written, its account. -/
theorem eq_of_outcome {r : Except Failure Expansion} {result : PageOutcome} (h : outcome page r = .ok result) :
    result = ⟨page.source, r.toOption⟩ := by
  cases r with
  | ok e =>
    cases h
    rfl
  | error f =>
    unfold outcome at h
    dsimp only at h
    split at h
    · cases h
      rfl
    · cases h

/-- The pages are taken from the disk `d₁` to the disk `d'` with the given results: a page with an account
has it by itself and is written so, and nothing else changes but by directories on the way to a page. -/
structure Takes (o : SiteOptions) (d : Disk) (pages : List SitePage) (result : SitePage → Option Expansion)
    (d₁ d' : Disk) : Prop where
  written : ∀ page ∈ pages, ∀ e, result page = some e → alone? o d page = some e ∧
    d'.node? (d.locate page.destination) = some (.file (Utf8.encode e.content))
  alters : d₁.Alters (fun k => ∃ page ∈ pages, OnWay d page.destination.parent k)
    (fun k => ∃ page ∈ pages, result page ≠ none ∧ k = d.locate page.destination) d'

/-- What becomes of the first page stays so while the others are taken. -/
theorem Takes.cons (h : Stage o d) (hc : 1 ≤ o.ceiling) (hw : Underway o d w) {rest : List SitePage}
    (hsub : ∀ p ∈ page :: rest, p ∈ found o d) (hnew : page ∉ rest) {r : Except Failure Expansion} {d₁ d' : Disk}
    (hends : Ends o page w.disk w.lookups r d₁) {result : SitePage → Option Expansion}
    (hrest : Takes o d rest result d₁ d') :
    Takes o d (page :: rest) (fun p => if p = page then r.toOption else result p) w.disk d' := by
  have hpage := hsub page List.mem_cons_self
  have hother : ∀ p ∈ rest, p ≠ page := fun p hp heq => hnew (heq ▸ hp)
  refine ⟨fun p hp e he => ?_, ?_⟩
  · rcases List.mem_cons.mp hp with rfl | hp
    · rw [if_pos rfl] at he
      cases r with
      | error f => cases he
      | ok e' =>
        cases he
        refine ⟨hw.alone h hc hpage hends, ?_⟩
        have hwritten := hends.node?_destination
        rw [hw.locate] at hwritten
        -- No later page has this destination, and what is there is no place for a new directory.
        have hclear : ¬ ∃ q ∈ rest, result q ≠ none ∧ d.locate p.destination = d.locate q.destination :=
          fun ⟨q, hq, _, heq⟩ =>
            hnew (h.eq_of_locate_destination hpage (hsub q (List.mem_cons_of_mem _ hq)) heq ▸ hq)
        rcases hrest.alters.node? _ hclear with heq | ⟨hnone, -⟩
        · rw [heq, hwritten]
        · rw [hwritten] at hnone
          cases hnone
    · rw [if_neg (hother p hp)] at he
      exact hrest.written p hp e he
  · refine (hends.alters.mono ?_ ?_).trans (hrest.alters.mono ?_ ?_)
    · intro k hk
      rw [hw.onWay] at hk
      exact ⟨page, List.mem_cons_self, hk⟩
    · rintro k ⟨⟨e, rfl⟩, rfl⟩
      exact ⟨page, List.mem_cons_self, by rw [if_pos rfl]; exact nofun, by rw [hw.locate]⟩
    · rintro k ⟨p, hp, hk⟩
      exact ⟨p, List.mem_cons_of_mem _ hp, hk⟩
    · rintro k ⟨p, hp, hne, hk⟩
      exact ⟨p, List.mem_cons_of_mem _ hp, by rwa [if_neg (hother p hp)], hk⟩

/-- **The pages of a run become what each becomes by itself.** -/
theorem run_pages_alone (h : Stage o d) (hc : 1 ≤ o.ceiling) {pages : List SitePage}
    {outcomes : List PageOutcome} (hsub : ∀ p ∈ pages, p ∈ found o d) (hnodup : pages.Nodup)
    (hw : Underway o d w) (hrun : (pages.mapM (buildPage o)).run.run w = (.ok outcomes, w')) :
    ∃ result, outcomes = pages.map (fun p => ⟨p.source, result p⟩) ∧
      Takes o d pages result w.disk w'.disk := by
  -- What the pages taken so far have changed and what is remembered of the templates is in `Underway`.
  induction pages generalizing w outcomes with
  | nil =>
    cases hrun
    exact ⟨fun _ => none, rfl, nofun, .refl _ _ _⟩
  | cons page rest ih =>
    obtain ⟨hnew, hnodup⟩ := List.nodup_cons.mp hnodup
    obtain ⟨r, w₁, hpage, hends, hrecalls⟩ := run_buildPage hc page w
    rw [run_mapM_cons, hpage] at hrun
    cases hout : outcome page r with
    | error f => rw [hout] at hrun; cases hrun
    | ok first =>
      rw [hout] at hrun
      dsimp only at hrun
      obtain rfl := eq_of_outcome hout
      cases hrest : (rest.mapM (buildPage o)).run.run w₁ with
      | mk others w₂ =>
        rw [hrest] at hrun
        cases others with
        | error f => cases hrun
        | ok others =>
          cases hrun
          obtain ⟨result, rfl, htakes⟩ := ih (fun p hp => hsub p (List.mem_cons_of_mem _ hp)) hnodup
            (hw.next hends h (hsub page List.mem_cons_self) hrecalls) hrest
          refine ⟨_, ?_, htakes.cons h hc hw hsub hnew hends⟩
          rw [List.map_cons, if_pos rfl]
          refine congrArg _ (List.map_congr_left fun p hp => ?_)
          rw [if_neg fun heq : p = page => hnew (heq ▸ hp)]

/-! ## The whole build -/

/-- What begins like a build and ends well has made the output directory, and goes on from there. -/
theorem exists_of_run_begin {α : Type} {next : Action α} {a : α}
    (h : (do
      Action.tell .buildStarted
      if o.clean then cleanOutput o
      Action.onDisk (makeDirectories o.output)
      next : Action α).run.run w = (.ok a, w')) :
    (prepared o w.disk).isDirectory o.output = .ok true ∧ ∃ w₀, w₀.disk = prepared o w.disk ∧
      w₀.catalogue = w.catalogue ∧ next.run.run w₀ = (.ok a, w') := by
  have hmade : ∀ log, (do Action.onDisk (makeDirectories o.output); next : Action α).run.run
      { w with disk := cleaned o w.disk, events := log } = (.ok a, w') →
      (prepared o w.disk).isDirectory o.output = .ok true ∧ ∃ w₀, w₀.disk = prepared o w.disk ∧
        w₀.catalogue = w.catalogue ∧ next.run.run w₀ = (.ok a, w') := by
    intro log h
    obtain ⟨_, w₁, hmake, h⟩ := exists_of_run_bind h
    rw [run_onDisk] at hmake
    cases hrun : (makeDirectories o.output).run.run (cleaned o w.disk) with
    | mk r d₁ =>
      simp only [hrun] at hmake
      cases r with
      | error e => cases hmake
      | ok u =>
        cases hmake
        obtain rfl : prepared o w.disk = d₁ := by
          unfold prepared
          rw [hrun]
        exact ⟨isDirectory_makeDirectories hrun, ⟨_, w.catalogue, log, w.reader⟩, rfl, rfl, h⟩
  obtain ⟨first, hfirst⟩ := w.exists_hear_eq .buildStarted
  rw [run_bind, run_tell, hfirst] at h
  dsimp only at h
  cases hclean : o.clean with
  | false =>
    rw [hclean, if_neg Bool.false_ne_true] at h
    refine hmade first ?_
    unfold cleaned
    rw [hclean]
    exact h
  | true =>
    rw [hclean, if_pos rfl] at h
    obtain ⟨_, w₁, hemptied, h⟩ := exists_of_run_bind h
    obtain ⟨log, hlog⟩ := after_cleanOutput o { w with events := first }
    rw [hemptied] at hlog
    refine hmade log ?_
    unfold cleaned
    rw [hclean, if_pos rfl]
    exact (congrArg _ hlog.symm).trans h

/-- A build that returns has made the output directory, and goes on from there. -/
theorem exists_of_run_build {report : BuildReport} (h : (build o).run.run w = (.ok report, w')) :
    (prepared o w.disk).isDirectory o.output = .ok true ∧ ∃ w₀, w₀.disk = prepared o w.disk ∧
      w₀.catalogue = w.catalogue ∧ (buildAll o).run.run w₀ = (.ok report, w') := by
  rw [build_eq] at h
  exact exists_of_run_begin h

/-- The account of a build whose pages have the given results. -/
theorem report_of_results (o : SiteOptions) (pages : List SitePage) (result : SitePage → Option Expansion)
    {written : List (Text × Expansion)}
    (hwritten : pages.filterMap (fun p => (result p).map (p.source.text, ·)) = written)
    {r : BuildReport} (hr : report o (pages.map fun p => ⟨p.source, result p⟩) = r) :
    r.failedPages = (pages.filter fun p => (result p).isNone).map (·.source.text) ∧
    r.pageCount = written.length ∧
    r.componentCount = (written.map fun a => (a.2.replacements : Int)).sum ∧
    r.skippedTags = (written.filter fun a => !a.2.skipped.isEmpty).map (fun a => (a.1, a.2.skipped)) ∧
    r.ceilingPages = (written.filter (·.2.ceilingReached)).map (·.1) := by
  subst hwritten hr
  unfold report
  simp only [List.filter_map, List.map_map, List.filterMap_map, Function.comp_def]
  refine ⟨trivial, trivial, ?_, trivial, trivial⟩
  rw [← List.foldl_map, ← List.sum_eq_foldl]

/-- The accounts of the pages that are not given up, each page expanded by itself. -/
def accounts (o : SiteOptions) (d : Disk) (failed : List Text) : List (Text × Expansion) :=
  (found o d).filterMap fun page =>
    if page.source.text ∈ failed then none else (alone? o d page).map (page.source.text, ·)

/-- The pages of a build that began on the disk `d` and ended on the disk `d'` have not disturbed each other,
nor anything else. -/
structure Isolated (o : SiteOptions) (d d' : Disk) (report : BuildReport) : Prop where
  /-- A page that is written holds what it expands to by itself. -/
  written : ∀ page ∈ found o d, page.source.text ∉ report.failedPages → ∃ e, alone? o d page = some e ∧
    d'.node? (d.locate page.destination) = some (.file (Utf8.encode e.content))
  /-- A page that is given up leaves its destination as it was. -/
  failed : ∀ page ∈ found o d, page.source.text ∈ report.failedPages →
    d'.node? (d.locate page.destination) = (cleaned o d).node? (d.locate page.destination)
  failedPages : report.failedPages.Sublist ((found o d).map (·.source.text))
  pageCount : report.pageCount + report.failedPages.length = (found o d).length
  componentCount : report.componentCount =
    ((accounts o d report.failedPages).map fun a => (a.2.replacements : Int)).sum
  skippedTags : report.skippedTags =
    ((accounts o d report.failedPages).filter fun a => !a.2.skipped.isEmpty).map fun a => (a.1, a.2.skipped)
  ceilingPages : report.ceilingPages =
    ((accounts o d report.failedPages).filter (·.2.ceilingReached)).map (·.1)
  /-- Beside the written pages there are only new directories, on the way to the pages. -/
  frame : ∀ l, (∀ page ∈ found o d, page.source.text ∉ report.failedPages → l ≠ d.locate page.destination) →
    d'.node? l = (cleaned o d).node? l ∨
      (cleaned o d).node? l = none ∧ d'.node? l = some .directory ∧ Leads o d l
  /-- Emptying leaves nothing in the output directory. -/
  swept : o.clean = true → ∀ l, isBelow (d.locate o.output) l = true → (cleaned o d).node? l = none
  /-- Emptying leaves everything as it was elsewhere, and without emptying nothing is removed. -/
  spared : ∀ l, o.clean = false ∨ isBelow (d.locate o.output) l = false → (cleaned o d).node? l = d.node? l

/-- **What else there is on the disk makes no difference to a page**: two builds that find it with the same text
and the same components, and both write it, write the same. -/
theorem Isolated.destination_eq {d' d₁ d₁' : Disk} {r r₁ : BuildReport} (h : Isolated o d d' r)
    (h₁ : Isolated o d₁ d₁' r₁) (hd : d.IsTree) (hc : 1 ≤ o.ceiling)
    (hext : Path.upward ∉ (Path.ofText o.extension).names) (hs : d.Shelters d₁ o.components)
    (htext : d₁.textAt? (d₁.locate page.source) = d.textAt? (d.locate page.source)) (hp : page ∈ found o d)
    (hp₁ : page ∈ found o d₁) (hwritten : page.source.text ∉ r.failedPages)
    (hwritten₁ : page.source.text ∉ r₁.failedPages) :
    d₁'.node? (d₁.locate page.destination) = d'.node? (d.locate page.destination) := by
  obtain ⟨e, he, hn⟩ := h.written page hp hwritten
  obtain ⟨e₁, he₁, hn₁⟩ := h₁.written page hp₁ hwritten₁
  obtain rfl : e₁ = e := Option.some.inj ((alone?_of_shelters hd hc hext hs htext he₁).symm.trans he)
  rw [hn, hn₁]

/-- Which page was given up can be told from the texts of the sources. -/
theorem mem_failed_iff (h : Stage o d) (hpages : o.pages.Written) {result : SitePage → Option Expansion}
    (hp : page ∈ found o d) :
    page.source.text ∈ ((found o d).filter fun p => (result p).isNone).map (·.source.text) ↔
      result page = none := by
  have hwritten : ∀ p ∈ found o d, p.source.Written := by
    intro p hp
    obtain ⟨names, hplaced⟩ := h.exists_placed hp
    rw [hplaced.source]
    exact hpages.join hplaced.downward.written
  constructor
  · intro hmem
    obtain ⟨other, hother, htext⟩ := List.mem_map.mp hmem
    obtain ⟨ho, hnone⟩ := List.mem_filter.mp hother
    have hsource := (hwritten other ho).text_inj (hwritten page hp) htext
    rw [← List.inj_on_of_nodup_map h.nodup_found ho hp hsource]
    exact Option.isNone_iff_eq_none.mp hnone
  · intro hnone
    exact List.mem_map.mpr ⟨page, List.mem_filter.mpr ⟨hp, Option.isNone_iff_eq_none.mpr hnone⟩, rfl⟩

/-- What is kept of a list and what is not are the list. -/
theorem length_filterMap_add {α β : Type} (f : α → Option β) (as : List α) :
    (as.filterMap f).length + (as.filter fun a => (f a).isNone).length = as.length := by
  induction as with
  | nil => rfl
  | cons a rest ih => cases hf : f a <;> simp [hf] <;> omega

/-- The pages of a build that takes them all have not disturbed each other. -/
theorem Takes.isolated (h : Stage o d) (hpages : o.pages.Written) {result : SitePage → Option Expansion} {d' : Disk}
    (htakes : Takes o d (found o d) result (prepared o d) d') :
    Isolated o d d' (report o ((found o d).map fun p => ⟨p.source, result p⟩)) := by
  generalize hr : report o ((found o d).map fun p => ⟨p.source, result p⟩) = r
  obtain ⟨hfailed, hcount, hcomponents, hskipped, hceiling⟩ := report_of_results o (found o d) result rfl hr
  have hgiven : ∀ p ∈ found o d, p.source.text ∈ r.failedPages ↔ result p = none := fun p hp => by
    rw [hfailed]
    exact mem_failed_iff h hpages hp
  have haccounts : (found o d).filterMap (fun p => (result p).map (p.source.text, ·)) =
      accounts o d r.failedPages := by
    refine List.filterMap_congr fun p hp => ?_
    cases hres : result p with
    | none => rw [if_pos ((hgiven p hp).mpr hres), Option.map_none]
    | some e =>
      rw [if_neg ((hgiven p hp).not.mpr (by rw [hres]; exact nofun)), (htakes.written p hp e hres).1]
  have hlength := length_filterMap_add (fun p => (result p).map (p.source.text, ·)) (found o d)
  simp only [Option.isNone_map] at hlength
  have halters : (cleaned o d).Alters (Leads o d)
      (fun k => ∃ page ∈ found o d, result page ≠ none ∧ k = d.locate page.destination) d' :=
    (((gains_prepared o d).mono fun _ => .inl).alters _).trans (htakes.alters.mono (fun _ => .inr) fun _ => id)
  rw [haccounts] at hcount hcomponents hskipped hceiling hlength
  refine ⟨fun p hp hnot => ?_, fun p hp hmem => ?_, ?_, ?_, hcomponents, hskipped, hceiling, fun l hl => ?_,
    fun hclean l => h.swept hclean, fun l hl => ?_⟩
  · obtain ⟨e, hres⟩ := Option.ne_none_iff_exists'.mp ((hgiven p hp).not.mp hnot)
    exact ⟨e, htakes.written p hp e hres⟩
  · have hclear : ¬ ∃ q ∈ found o d, result q ≠ none ∧ d.locate p.destination = d.locate q.destination :=
      fun ⟨q, hq, hne, heq⟩ => hne (h.eq_of_locate_destination hp hq heq ▸ (hgiven p hp).mp hmem)
    rcases halters.node? _ hclear with heq | ⟨hnone, -, hleads⟩
    · exact heq
    · rw [h.directory_of_destination hp hleads] at hnone
      cases hnone
  · rw [hfailed]
    exact List.filter_sublist.map _
  · have hlost := congrArg List.length hfailed
    rw [List.length_map] at hlost
    omega
  · exact halters.node? l fun ⟨p, hp, hne, heq⟩ => hl p hp ((hgiven p hp).not.mpr hne) heq
  · rcases node?_cleaned o d l with heq | ⟨hclean, hbelow, -⟩
    · exact heq
    · rw [hclean, hbelow] at hl
      simp at hl

end Site

/-- **Pages do not disturb each other**: a build that returns has written each page as it is by itself or given
it up, and changed nothing else that was there. -/
theorem build_isolates {o : SiteOptions} {w w' : Workspace} {report : BuildReport} (hd : w.disk.IsTree)
    (hw : w.catalogue = o.catalogue) (hc : 1 ≤ o.ceiling) (hpages : o.pages.Written) (houtput : o.output.Written)
    (hglob : ∀ t ∈ o.pageGlob, Path.upward ∉ (Path.ofText t).names) (hsteady : Site.Steady o w.disk)
    (hapart : Site.Apart o w.disk) (hrun : (Site.build o).run.run w = (.ok report, w')) :
    Site.Isolated o w.disk w'.disk report := by
  obtain ⟨hmade, w₀, hdisk, hcatalogue, hall⟩ := Site.exists_of_run_build hrun
  have hdown := Site.isDownward_of_pageGlob hglob
  have h : Site.Stage o w.disk := ⟨hd, houtput, hdown, hsteady, hapart, hmade⟩
  rw [hw] at hcatalogue
  rcases Site.run_buildAll w₀ (hdisk ▸ h.isTree_prepared) hdown with
    ⟨-, f, w₁, hfails⟩ | ⟨-, w₁, hdisk₁, hrecalls, hpagesRun⟩
  · rw [hfails] at hall
    cases hall
  · rw [hpagesRun, hdisk] at hall
    have hunder := Site.Underway.begin h hdisk hcatalogue hdisk₁ hrecalls
    cases htaken : ((Site.discovered o (Site.prepared o w.disk)).mapM (Site.buildPage o)).run.run w₁ with
    | mk r w₂ =>
      rw [htaken] at hall
      cases r with
      | error f => cases hall
      | ok outcomes =>
        cases hall
        obtain ⟨result, rfl, htakes⟩ := Site.run_pages_alone h hc (fun _ => id) h.nodup_found.of_map hunder htaken
        rw [hdisk₁, hdisk] at htakes
        rw [w₂.disk_hear]
        exact htakes.isolated h hpages

/-- A site that empties its output directory. -/
def SiteOptions.renewed : SiteOptions := { SiteOptions.usual with clean := true }

/-- A disk with a page, a page that holds no text, a component, and something in the output directory. -/
def Disk.withSpoiltPage : Disk :=
  (Disk.holding [("src/pages/a.html".toList, "<card>Hi</card>".toList), ("src/pages/b.html".toList, []),
    ("src/components/card/card.html".toList, "<p><slot/></p>".toList),
    ("public/old/a.html".toList, "old".toList)]).put
      ["src".toList, "pages".toList, "b.html".toList] (.file [0xFF])

set_option maxRecDepth 20000 in
/-- The page that holds no text is given up, and the other one is what it expands to by itself. -/
theorem build_isolates_renewed :
    Site.Steady .renewed .withSpoiltPage ∧ Site.Apart .renewed .withSpoiltPage ∧ ∃ report w',
      (Site.build .renewed).run.run (SiteOptions.renewed.workspace .withSpoiltPage) = (.ok report, w') ∧
        report.failedPages = ["src/pages/b.html".toList] ∧
        Site.Isolated .renewed .withSpoiltPage w'.disk report := by
  have hfound : Site.found .renewed .withSpoiltPage =
      [⟨.ofText "src/pages/a.html".toList, .ofText "public/a.html".toList, []⟩,
        ⟨.ofText "src/pages/b.html".toList, .ofText "public/b.html".toList, []⟩] := by cbv
  have hsteady : Site.Steady .renewed .withSpoiltPage :=
    ⟨Disk.settled_of_not_mem (by decide), Disk.settled_of_not_mem (by decide),
      fun _ hin => absurd hin (by decide), by decide⟩
  have hapart : Site.Apart .renewed .withSpoiltPage := by
    refine ⟨by rw [hfound]; decide, by rw [hfound]; decide, fun _ l hl _ hpre => ?_⟩
    rcases List.prefix_or_prefix_of_prefix (Disk.isBelow_iff.mp hl).1 hpre with hin | hin
    · exact absurd hin (by decide)
    · exact absurd hin (by decide)
  have hreport : ((Site.build .renewed).run.run (SiteOptions.renewed.workspace .withSpoiltPage)).1 =
      .ok ⟨false, 1, 1, ["src/pages/b.html".toList], [], [], "public".toList⟩ := by cbv
  cases hr : (Site.build .renewed).run.run (SiteOptions.renewed.workspace .withSpoiltPage) with
  | mk r w' =>
    rw [hr] at hreport
    obtain rfl := hreport
    exact ⟨hsteady, hapart, _, w', rfl, rfl,
      build_isolates (by decide) rfl (by decide) (by decide) (by decide) (by decide) hsteady hapart hr⟩

/-- A site whose components are looked for through a directory that only a page makes. -/
def SiteOptions.roundabout : SiteOptions :=
  { SiteOptions.usual with components := .ofText "public/blog/../../src/components".toList }

/-- A disk with a page in a directory, a page with a component tag, and the component. -/
def Disk.withBlog : Disk :=
  .holding [("src/pages/blog/a.html".toList, "A".toList), ("src/pages/z.html".toList, "<card>Hi</card>".toList),
    ("src/components/card/card.html".toList, "<p><slot/></p>".toList)]

set_option maxRecDepth 20000 in
/-- The page `z.html` by itself has no components; behind `blog/a.html` it has one. -/
theorem not_build_isolates :
    ¬ ∀ (o : SiteOptions) (w w' : Workspace) (report : BuildReport), w.disk.IsTree →
      w.catalogue = o.catalogue → 1 ≤ o.ceiling → o.pages.Written → o.output.Written →
      (∀ t ∈ o.pageGlob, Path.upward ∉ (Path.ofText t).names) → Site.Apart o w.disk →
      (Site.build o).run.run w = (.ok report, w') → Site.Isolated o w.disk w'.disk report := by
  intro h
  have hfound : Site.found .roundabout .withBlog =
      [⟨.ofText "src/pages/blog/a.html".toList, .ofText "public/blog/a.html".toList, []⟩,
        ⟨.ofText "src/pages/z.html".toList, .ofText "public/z.html".toList, []⟩] := by cbv
  have hapart : Site.Apart .roundabout .withBlog :=
    ⟨by rw [hfound]; decide, by rw [hfound]; decide, fun hclean => absurd hclean (by decide)⟩
  have hreport : ((Site.build .roundabout).run.run (SiteOptions.roundabout.workspace .withBlog)).1 =
      .ok ⟨true, 2, 1, [], [], [], "public".toList⟩ := by cbv
  have halone : ((Site.accounts .roundabout .withBlog []).map fun a => (a.2.replacements : Int)).sum = 0 := by
    cbv
  cases hr : (Site.build .roundabout).run.run (SiteOptions.roundabout.workspace .withBlog) with
  | mk r w' =>
    rw [hr] at hreport
    obtain rfl := hreport
    have hcount : (1 : Int) =
        ((Site.accounts .roundabout .withBlog []).map fun a => (a.2.replacements : Int)).sum :=
      (h .roundabout _ w' _ (by decide) rfl (by decide) (by decide) (by decide) (by decide) hapart
        hr).componentCount
    exact absurd (hcount.trans halone) (by decide)

end Inlay

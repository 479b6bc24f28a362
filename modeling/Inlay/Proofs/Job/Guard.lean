import Inlay.Proofs.Job.Check

/-!
# What a clean build removes

A job that asks for a clean build empties its output directory. The check refuses the job if the directory
of the pages lies in the output directory. As there are no links, the directories are resolved for that by
normalising their paths.

* `Job.Accepted` — what a check has found out about the job that it lets pass.

Main statements: `Job.accepted_of_check`, `clean_keeps_sources` (the sources outside the output directory
stay), `clean_removes_sources` (those inside it do not, and the check lets them lie there).
-/

namespace Inlay

namespace Job

variable {job job' : Job} {t t' : Terminal}

/-- What a check has found out about a job that it lets pass: the directories, and that the directory of
the pages does not lie in an output directory that is to be emptied. -/
structure Accepted (job job' : Job) (d : Disk) : Prop where
  clean : job'.clean = job.clean
  site : job'.site = (job.output.getD .here).text
  pages : ∃ name, job.pagesName = some name ∧
    job'.pages = ((job.input.getD .here).join (.ofText name)).text ∧
    d.isDirectory ((job.input.getD .here).join (.ofText name)) = .ok true ∧
    (job.clean = true →
      removesPages ((job.input.getD .here).join (.ofText name)) (job.output.getD .here) d = .ok false)
  components : ∃ name, job.componentsName = some name ∧
    job'.components = ((job.input.getD .here).join (.ofText name)).text

theorem accepted_of_check (h : (check job).run.run t = (.ok job', t')) :
    t'.workspace.disk = t.workspace.disk ∧ Accepted job job' t.workspace.disk := by
  obtain ⟨r, t₁, hrun, hdisk, hok, -⟩ := decides_check job t
  rw [h] at hrun
  cases hrun
  obtain ⟨pagesName, componentsName, ceiling, hpermitted, rfl⟩ := (hok job').mp rfl
  exact ⟨hdisk, rfl, rfl, ⟨pagesName, hpermitted.hasPagesName, rfl, hpermitted.pages, hpermitted.apart⟩,
    ⟨componentsName, hpermitted.hasComponentsName, rfl⟩⟩

/-- The options of an accepted job name its directories. -/
theorem Accepted.siteOptions {d : Disk} (h : Accepted job job' d) (hinput : ∀ p ∈ job.input, p.Written)
    (houtput : ∀ p ∈ job.output, p.Written) :
    job'.siteOptions.output = job.output.getD .here ∧
      ∃ name, job.pagesName = some name ∧
        job'.siteOptions.pages = (job.input.getD .here).join (.ofText name) ∧
        (job.clean = true → removesPages job'.siteOptions.pages job'.siteOptions.output d = .ok false) := by
  have hhere : Path.here.Written := fun _ hname => nomatch hname
  have hin : (job.input.getD .here).Written := by
    cases hi : job.input with
    | none => exact hhere
    | some p => exact hinput p hi
  have hout : (job.output.getD .here).Written := by
    cases ho : job.output with
    | none => exact hhere
    | some p => exact houtput p ho
  obtain ⟨name, hname, hpages, -, hguard⟩ := h.pages
  have ho : job'.siteOptions.output = job.output.getD .here := by
    unfold Job.siteOptions
    rw [h.site, Path.ofText_text hout]
  have hp : job'.siteOptions.pages = (job.input.getD .here).join (.ofText name) := by
    unfold Job.siteOptions
    rw [hpages, Path.ofText_text (hin.join (Path.written_ofText name))]
  refine ⟨ho, name, hname, hp, fun hc => ?_⟩
  rw [ho, hp]
  exact hguard hc

theorem not_prefix_of_removesPages {pages output : Path} {d : Disk}
    (h : removesPages pages output d = .ok false) : ¬ d.locate output <+: d.locate pages := by
  unfold removesPages at h
  cases ho : d.normalize output with
  | error e => rw [ho] at h; cases h
  | ok lo =>
    cases hp : d.normalize pages with
    | error e => rw [ho, hp] at h; cases h
    | ok lp =>
      rw [ho, hp] at h
      obtain ⟨-, rfl⟩ := Disk.normalize_eq_ok_iff.mp ho
      obtain ⟨-, rfl⟩ := Disk.normalize_eq_ok_iff.mp hp
      have h : (d.locate output).isPrefixOf (d.locate pages) = false := Except.ok.inj h
      rw [← List.isPrefixOf_iff_prefix, h]
      exact Bool.false_ne_true

end Job

/-- **A clean build that the check lets pass keeps the sources outside its output directory**: the pages do
not lie in it, and what lies elsewhere stays. So no page is lost unless the output directory lies among
the pages. -/
theorem clean_keeps_sources {job job' : Job} {t t' : Terminal} (hinput : ∀ p ∈ job.input, p.Written)
    (houtput : ∀ p ∈ job.output, p.Written) (hclean : job.clean = true)
    (hcheck : (Job.check job).run.run t = (.ok job', t')) :
    let o := job'.siteOptions
    let d := t.workspace.disk
    let after := ((Site.cleanOutput o).run.run t'.workspace).2.disk
    ¬ d.locate o.output <+: d.locate o.pages ∧
    (∀ l content, d.locate o.pages <+: l ∨ d.locate o.components <+: l →
      Disk.isBelow (d.locate o.output) l = false → d.node? l = some (.file content) →
        after.node? l = some (.file content)) ∧
    (¬ d.locate o.pages <+: d.locate o.output → ∀ l content, d.locate o.pages <+: l →
      d.node? l = some (.file content) → after.node? l = some (.file content)) := by
  intro o d after
  obtain ⟨hdisk, haccepted⟩ := Job.accepted_of_check hcheck
  obtain ⟨-, _, -, -, hguard⟩ := haccepted.siteOptions hinput houtput
  have hapart : ¬ d.locate o.output <+: d.locate o.pages := Job.not_prefix_of_removesPages (hguard hclean)
  have hstays : ∀ l content, Disk.isBelow (d.locate o.output) l = false →
      d.node? l = some (.file content) → after.node? l = some (.file content) := by
    intro l content hb hn
    have hafter : after = d.emptied o.output := by
      show ((Site.cleanOutput o).run.run t'.workspace).2.disk = _
      rw [Site.disk_cleanOutput, hdisk]
    rw [hafter, Disk.node?_emptied_of_not_below hb, hn]
  refine ⟨hapart, fun l content _ => hstays l content, fun hbeside l content hl => hstays l content ?_⟩
  -- A file among the pages and in the output directory would lie below both, one of which holds the other.
  rw [Bool.eq_false_iff]
  intro hb
  rcases List.prefix_or_prefix_of_prefix (Disk.isBelow_iff.mp hb).1 hl with h | h
  · exact hapart h
  · exact hbeside h

/-- A site in the working directory that is to be built clean. -/
def cleanJob (components output : Text) : Job where
  input := some .here
  output := some (.ofText output)
  componentsName := some components
  clean := true

/-- A terminal with a fresh catalogue in front of a disk. -/
def Terminal.on (d : Disk) : Terminal where
  workspace := { disk := d, catalogue := { directory := .here } }

set_option maxRecDepth 20000 in
theorem clean_keeps_sources_of_site :
    ∃ job' t', (Job.check (cleanJob "src/components".toList "public".toList)).run.run
        (.on (.holding [("src/pages/index.html".toList, "Hi".toList), ("public/old.html".toList, [])])) =
          (.ok job', t') ∧
      ((Site.cleanOutput job'.siteOptions).run.run t'.workspace).2.disk.node?
        ["src".toList, "pages".toList, "index.html".toList] = some (.file (Utf8.encode "Hi".toList)) := by
  obtain ⟨job', t', hcheck⟩ : ∃ job' t',
      (Job.check (cleanJob "src/components".toList "public".toList)).run.run
        (.on (.holding [("src/pages/index.html".toList, "Hi".toList), ("public/old.html".toList, [])])) =
          (.ok job', t') := ⟨_, _, rfl⟩
  have hwritten : ∀ q : Path, q.Written → ∀ p ∈ some q, p.Written := fun _ hq _ hp => by
    cases hp
    exact hq
  have hinput := hwritten .here (by decide)
  have houtput := hwritten (.ofText "public".toList) (Path.written_ofText _)
  have h := clean_keeps_sources hinput houtput rfl hcheck
  obtain ⟨ho, name, hname, hp, -⟩ := (Job.accepted_of_check hcheck).2.siteOptions hinput houtput
  obtain rfl : "src/pages".toList = name := Option.some.inj hname
  dsimp only at h
  rw [ho, hp] at h
  exact ⟨job', t', hcheck, h.2.1 _ _ (.inl (by decide)) (by decide) (by decide)⟩

/-- The files below one of the directories of a site are all there once an accepted job has emptied its output
directory. -/
def Job.CleanKeeps (directory : SiteOptions → Path) : Prop :=
  ∀ (job job' : Job) (t t' : Terminal), job.clean = true → (Job.check job).run.run t = (.ok job', t') →
    ∀ l content, t.workspace.disk.locate (directory job'.siteOptions) <+: l →
      t.workspace.disk.node? l = some (.file content) →
        ((Site.cleanOutput job'.siteOptions).run.run t'.workspace).2.disk.node? l = some (.file content)

set_option maxRecDepth 20000 in
/-- The check does not ask where the components lie, nor whether the output lies among the pages. -/
theorem clean_removes_sources :
    ¬ Job.CleanKeeps SiteOptions.components ∧ ¬ Job.CleanKeeps SiteOptions.pages := by
  constructor
  · intro h
    have hgone := h (cleanJob "public/components".toList "public".toList) _
      (.on (.holding [("src/pages/index.html".toList, "<card>Hi</card>".toList),
        ("public/components/card/card.html".toList, "<p><slot/></p>".toList)])) _ rfl rfl
      ["public".toList, "components".toList, "card".toList, "card.html".toList] _ (by decide) rfl
    exact absurd hgone (by decide)
  · intro h
    have hgone := h (cleanJob "src/components".toList "src/pages/blog".toList) _
      (.on (.holding [("src/pages/index.html".toList, "Hi".toList),
        ("src/pages/blog/post.html".toList, "Post".toList)])) _ rfl rfl
      ["src".toList, "pages".toList, "blog".toList, "post.html".toList] _ (by decide) rfl
    exact absurd hgone (by decide)

end Inlay

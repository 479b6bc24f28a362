import Inlay.Proofs.Job.Check
import Inlay.Proofs.Site.Alike
import Inlay.Proofs.Site.Discovery

/-!
# How a job ends

A job goes through its stages to the end if the check permits it, the build returns, and the account of the build has
nothing to object to. Otherwise one of the stages ends it: with exit code one, or by a failure that none of them
handles. A job that the check ends has changed no file.

* `Job.Built` — what a build has to come to for its job to end well.

Main statements: `Job.build_cases` and `Job.decides_conclude` (the stages behind the check), `Job.ends_build` (what they
come to together), `job_ends`.
-/

namespace Inlay

namespace StageAction

variable {α β : Type}

theorem run_attempt (step : Action α) (t : Terminal) :
    (attempt step).run.run t =
      (.ok (step.run.run t.workspace).1, { t with workspace := (step.run.run t.workspace).2 }) := rfl

namespace Decides

/-- A step that always ends well leaves the decision to the next one. -/
theorem andThen {step : StageAction Unit} {next : Unit → StageAction β} {P : Disk → β → Prop}
    (h : Decides step fun _ _ => True) (hnext : Decides (next ()) P) : Decides (step >>= next) P :=
  (h.bind fun _ => hnext).congr fun _ _ => by simp

theorem complain (line : String) : Decides (StageAction.complain line) fun _ _ => True :=
  fun t => ⟨.ok (), { t with errors := t.errors ++ line ++ "\n" }, rfl, rfl, by simp, nofun⟩

theorem forM {step : α → StageAction Unit} (h : ∀ a, Decides (step a) fun _ _ => True) (as : List α) :
    Decides (as.forM step) fun _ _ => True := by
  induction as with
  | nil => exact (pure ()).congr fun d _ => by simp
  | cons a as ih => exact (h a).andThen ih

end Decides

end StageAction

/-! ## Builds from the same disk -/

/-- Two workspaces with the same disk and the same catalogue are not told apart. -/
theorem heedless_same : Heedless fun w v : Workspace => v.disk = w.disk ∧ v.catalogue = w.catalogue where
  disk h := h.1
  catalogue h := h.2
  change _ _ _ := ⟨rfl, rfl⟩
  hear := fun ⟨hd, hc⟩ _ _ => by simp [hd, hc]

/-- A build that returns gives an account of its pages. -/
theorem Site.exists_report {o : SiteOptions} {w w' : Workspace} {r : BuildReport}
    (h : (build o).run.run w = (.ok r, w')) : ∃ outcomes, r = report o outcomes := by
  have hrest : ∀ {w₁}, (do Action.onDisk (DiskAction.makeDirectories o.output); buildAll o).run.run w₁ = (.ok r, w') →
      ∃ outcomes, r = report o outcomes := by
    intro w₁ h
    obtain ⟨_, w₂, -, h⟩ := exists_of_run_bind h
    obtain ⟨outcomes, -, -, -, -, -, -, hr⟩ := exists_of_run_buildAll h
    exact ⟨outcomes, hr⟩
  rw [build_eq] at h
  obtain ⟨_, w₁, -, h⟩ := exists_of_run_bind h
  dsimp only at h
  split at h
  · obtain ⟨_, w₂, -, h⟩ := exists_of_run_bind h
    exact hrest h
  · exact hrest h

namespace Job

open StageAction

variable {job job' : Job} {t t' : Terminal}

/-! ## The stages behind the check -/

/-- The build of the job returns on the disk, with the given account, which has nothing to object to: no page is given
up and, where the job is strict, no component tag is left and no page has used up its passes. -/
structure Built (job : Job) (d : Disk) (r : BuildReport) : Prop where
  returns : ∃ w', (Site.build job.siteOptions).run.run (job.siteOptions.workspace d) = (.ok r, w')
  failedPages : r.failedPages = []
  strict : job.strict = true → r.skippedTags = [] ∧ r.ceilingPages = []

/-- A build begins with a catalogue of its own. -/
theorem run_build (job : Job) (t : Terminal) :
    (build job).run.run t =
      match (Site.build job.siteOptions).run.run
        { t.workspace.hear .buildingPages with catalogue := job.siteOptions.catalogue } with
      | (.ok r, w) => (.ok { job with report := some r }, { t with workspace := w })
      | (.error f, w) =>
        (.error (.exit 1), { t with workspace := w, errors := t.errors ++ s!"Build error: {f.message}" ++ "\n" }) := by
  unfold build StageAction.tell
  rw [run_bind, run_lift, run_tell]
  dsimp only
  rw [run_bind]
  show (attempt (Site.build job.siteOptions) >>= _).run.run _ = _
  rw [run_bind, run_attempt]
  dsimp only
  rcases (Site.build job.siteOptions).run.run
    { t.workspace.hear .buildingPages with catalogue := job.siteOptions.catalogue } with ⟨_ | _, w⟩ <;> rfl

/-- **A build returns its account, or ends the job with exit code one**, as it does where nothing has been told yet. -/
theorem build_cases (job : Job) (t : Terminal) :
    (∃ r w' t', (Site.build job.siteOptions).run.run (job.siteOptions.workspace t.workspace.disk) = (.ok r, w') ∧
      (build job).run.run t = (.ok { job with report := some r }, t')) ∨
    (∃ f w' t', (Site.build job.siteOptions).run.run (job.siteOptions.workspace t.workspace.disk) = (.error f, w') ∧
      (build job).run.run t = (.error (.exit 1), t')) := by
  obtain ⟨result, w', v', hw, hv, -⟩ := @Site.alike_build _ heedless_same job.siteOptions
    (job.siteOptions.workspace t.workspace.disk)
    { t.workspace.hear .buildingPages with catalogue := job.siteOptions.catalogue } ⟨t.workspace.disk_hear _, rfl⟩
  have hrun := run_build job t
  rw [hv] at hrun
  cases result with
  | ok r => exact .inl ⟨r, w', _, hw, hrun⟩
  | error f => exact .inr ⟨f, w', _, hw, hrun⟩

/-- **The account is shown, and the job ends with exit code one unless the build has succeeded.** -/
theorem decides_conclude (job : Job) : Decides (conclude job) fun _ job' =>
    ∃ r, job.report = some r ∧ r.succeeded = true ∧ job' = job := by
  unfold conclude
  cases job.report with
  | none => exact (Decides.refuse _).congr fun d job' => by simp
  | some r =>
    refine (Decides.tell _).andThen <| (Decides.tell _).andThen <| (Decides.tell _).andThen <|
      (Decides.tell _).andThen <| (Decides.forM (fun _ => .complain _) _).andThen <|
      (Decides.forM (fun _ => .tell _) _).andThen <| (Decides.forM (fun _ => .tell _) _).andThen <|
      (((Decides.refuse _).bind fun _ => (Decides.tell _).bind fun _ => .pure job).ite
        ((Decides.tell _).bind fun _ => .pure job)).congr fun d job' => ?_
    cases hs : r.succeeded with
    | false => simp [hs]
    | true => simpa [hs] using eq_comm

/-! ## All stages -/

theorem run_all (job : Job) :
    job.run Stage.all = (do
      let job ← check job
      build job >>= conclude) := by
  unfold run Stage.all
  simp only [List.foldlM_cons, List.foldlM_nil, bind_pure]
  rfl

/-- Where the build returns, its account decides. -/
theorem built_iff {d : Disk} {r r' : BuildReport} {w' : Workspace}
    (h : (Site.build job.siteOptions).run.run (job.siteOptions.workspace d) = (.ok r, w')) :
    job.Built d r' ↔ r = r' ∧ r.succeeded = true := by
  obtain ⟨outcomes, hr⟩ := Site.exists_report h
  rw [hr, Site.succeeded_report, ← hr]
  constructor
  · rintro ⟨⟨w'', hreturns⟩, hfailed, hstrict⟩
    cases h.symm.trans hreturns
    exact ⟨rfl, hfailed, hstrict⟩
  · rintro ⟨rfl, hfailed, hstrict⟩
    exact ⟨⟨w', h⟩, hfailed, hstrict⟩

/-- **Behind the check, the build and its account decide** how the job ends. -/
theorem ends_build (job : Job) (t : Terminal) :
    ∃ ended t', (build job >>= conclude).run.run t = (ended, t') ∧
      (∀ job', ended = .ok job' ↔
        ∃ r, job.Built t.workspace.disk r ∧ job' = { job with report := some r }) ∧
      ∀ code, ended = .error (.exit code) → code = 1 := by
  rw [run_bind]
  rcases build_cases job t with ⟨r, w', t₁, hreturns, hbuild⟩ | ⟨f, w', t₁, hfails, hbuild⟩
  · obtain ⟨ended, t₂, hconclude, -, hok, hexit⟩ := decides_conclude { job with report := some r } t₁
    refine ⟨ended, t₂, by rw [hbuild]; exact hconclude, fun job' => ?_, hexit⟩
    simp only [hok, built_iff hreturns]
    constructor
    · rintro ⟨r', hr', hsucceeded, rfl⟩
      cases hr'
      exact ⟨r, ⟨rfl, hsucceeded⟩, rfl⟩
    · rintro ⟨_, ⟨rfl, hsucceeded⟩, rfl⟩
      exact ⟨r, rfl, hsucceeded, rfl⟩
  · refine ⟨.error (.exit 1), t₁, by rw [hbuild], fun job' => ⟨nofun, fun ⟨r, hbuilt, _⟩ => ?_⟩, fun code h => ?_⟩
    · obtain ⟨w'', hreturns⟩ := hbuilt.returns
      cases hfails.symm.trans hreturns
    · cases h
      rfl

/-- The directories of a permitted job are told by the job, so only the account of its build is open. -/
theorem Permitted.ends_iff {pagesName componentsName : Text} {ceiling : Int} {d : Disk}
    (h : job.Permitted pagesName componentsName ceiling d) :
    (∃ pagesName componentsName ceiling r, job.Permitted pagesName componentsName ceiling d ∧
      (job.located pagesName componentsName).Built d r ∧
      job' = { job.located pagesName componentsName with report := some r }) ↔
    ∃ r, (job.located pagesName componentsName).Built d r ∧
      job' = { job.located pagesName componentsName with report := some r } := by
  constructor
  · rintro ⟨_, _, _, r, h', hbuilt, rfl⟩
    obtain rfl := Option.some.inj (h'.hasPagesName.symm.trans h.hasPagesName)
    obtain rfl := Option.some.inj (h'.hasComponentsName.symm.trans h.hasComponentsName)
    exact ⟨r, hbuilt, rfl⟩
  · rintro ⟨r, hbuilt, rfl⟩
    exact ⟨pagesName, componentsName, ceiling, r, h, hbuilt, rfl⟩

end Job

/-- **A job ends well exactly if** the check permits it, the build returns, and its account has nothing to object to:
no page is given up and, where the job is strict, no component tag is left and no page has used up its passes. Where it
exits early, it does so with code one. Where the check ends it, by exiting or by a failure, no file has changed. -/
theorem job_ends (job : Job) (t : Terminal) :
    (∀ job', (∃ t', (job.run Stage.all).run.run t = (.ok job', t')) ↔
      ∃ pagesName componentsName ceiling r, job.Permitted pagesName componentsName ceiling t.workspace.disk ∧
        (job.located pagesName componentsName).Built t.workspace.disk r ∧
        job' = { job.located pagesName componentsName with report := some r }) ∧
    (∀ code t', (job.run Stage.all).run.run t = (.error (.exit code), t') → code = 1) ∧
    (∀ stop t', (Job.check job).run.run t = (.error stop, t') →
      (job.run Stage.all).run.run t = (.error stop, t') ∧ t'.workspace.disk = t.workspace.disk) := by
  rw [Job.run_all, run_bind]
  obtain ⟨checked, t₁, hcheck, hdisk, hok, hexit⟩ := Job.decides_check job t
  rw [hcheck]
  cases checked with
  | error stop =>
    refine ⟨fun job' => ⟨nofun, ?_⟩, fun code t' h => ?_, fun stop' t' h => ?_⟩
    · rintro ⟨pagesName, componentsName, ceiling, _, hpermitted, -, -⟩
      cases (hok _).mpr ⟨pagesName, componentsName, ceiling, hpermitted, rfl⟩
    · cases h
      exact hexit code rfl
    · cases h
      exact ⟨rfl, hdisk⟩
  | ok located =>
    obtain ⟨pagesName, componentsName, ceiling, hpermitted, rfl⟩ := (hok located).mp rfl
    obtain ⟨ended, t₂, hrest, hok', hexit'⟩ := Job.ends_build (job.located pagesName componentsName) t₁
    rw [hdisk] at hok'
    dsimp only
    rw [hrest]
    refine ⟨fun job' => ?_, fun code t' h => ?_, fun stop t' h => nomatch (Prod.mk.inj h).1⟩
    · rw [hpermitted.ends_iff, ← hok']
      exact ⟨fun ⟨_, h⟩ => (Prod.mk.inj h).1, fun h => ⟨t₂, by rw [h]⟩⟩
    · cases h
      exact hexit' code rfl

end Inlay

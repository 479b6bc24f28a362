import Inlay.Job.Stage
import Inlay.Proofs.Site.Emptying

/-!
# The check of a job

A check looks at the disk, tells what it finds, and lets the job pass or ends it. It changes no file.

* `StageAction.Decides` — a step that changes no file and ends well with exactly the values that a predicate
  tells of the disk; where it exits, it does so with code one.
* `Job.located` — the job with the directories that a check finds.
* `Job.Permitted` — what a job needs to pass.

Main statement: `Job.decides_check` (a check lets exactly the permitted jobs pass).
-/

namespace Inlay

namespace StageAction

variable {α β : Type}

theorem run_lift (step : Action α) (t : Terminal) :
    (lift step).run.run t =
      match step.run.run t.workspace with
      | (.ok a, w) => (.ok a, { t with workspace := w })
      | (.error f, w) => (.error (.failure f), { t with workspace := w }) := by
  unfold lift attempt
  rw [run_bind, run_get_bind]
  cases step.run.run t.workspace with
  | mk r w => cases r <;> rfl

/-- However the step ends, no file has changed. It ends well with exactly the values that `P` tells of the disk,
and it exits with no code but one. -/
def Decides (step : StageAction α) (P : Disk → α → Prop) : Prop :=
  ∀ t : Terminal, ∃ r t', step.run.run t = (r, t') ∧ t'.workspace.disk = t.workspace.disk ∧
    (∀ a, r = .ok a ↔ P t.workspace.disk a) ∧ ∀ code, r = .error (.exit code) → code = 1

namespace Decides

variable {step : StageAction α} {P P' : Disk → α → Prop}

theorem congr (h : Decides step P) (hP : ∀ d a, P d a ↔ P' d a) : Decides step P' := by
  intro t
  obtain ⟨r, t', hrun, hdisk, hok, hexit⟩ := h t
  exact ⟨r, t', hrun, hdisk, fun a => (hok a).trans (hP _ a), hexit⟩

theorem pure (a : α) : Decides (Pure.pure a) fun _ b => a = b :=
  fun t => ⟨.ok a, t, rfl, rfl, fun b => by simp, nofun⟩

theorem tell (e : Event) : Decides (StageAction.tell e) fun _ _ => True :=
  fun t => ⟨.ok (), { t with workspace := t.workspace.hear e }, rfl, t.workspace.disk_hear e, by simp, nofun⟩

theorem refuse (line : String) : Decides (StageAction.refuse line : StageAction α) fun _ _ => False := by
  refine fun t => ⟨_, _, rfl, rfl, by simp, fun code h => ?_⟩
  cases h
  rfl

theorem demand (value : AbsentValue) (found : Option α) :
    Decides (StageAction.demand value found) fun _ a => found = some a := by
  intro t
  cases found with
  | none => exact ⟨_, t, rfl, rfl, by simp, nofun⟩
  | some b => exact ⟨_, t, rfl, rfl, by simp, nofun⟩

theorem ask (question : Disk → Except DiskError α) :
    Decides (lift (Action.ask question)) fun d a => question d = .ok a := by
  intro t
  rw [run_lift, run_ask]
  cases hq : question t.workspace.disk with
  | error e => exact ⟨_, t, rfl, rfl, by simp [hq], nofun⟩
  | ok b => exact ⟨_, t, rfl, rfl, by simp [hq], nofun⟩

theorem bind {next : α → StageAction β} {Q : α → Disk → β → Prop} (h : Decides step P)
    (hnext : ∀ a, Decides (next a) (Q a)) : Decides (step >>= next) fun d b => ∃ a, P d a ∧ Q a d b := by
  intro t
  obtain ⟨r, t₁, hrun, hdisk, hok, hexit⟩ := h t
  rw [run_bind, hrun]
  cases r with
  | error stop =>
    refine ⟨.error stop, t₁, rfl, hdisk, fun b => ⟨nofun, fun ⟨a, ha, _⟩ => ?_⟩, fun code h => ?_⟩
    · cases (hok a).mpr ha
    · cases h
      exact hexit code rfl
  | ok a =>
    obtain ⟨r', t₂, hrun', hdisk', hok', hexit'⟩ := hnext a t₁
    refine ⟨r', t₂, hrun', hdisk'.trans hdisk, fun b => ?_, hexit'⟩
    rw [hok' b, hdisk]
    constructor
    · exact fun hb => ⟨a, (hok a).mp rfl, hb⟩
    · rintro ⟨a', ha', hb⟩
      cases (hok a').mpr ha'
      exact hb

theorem ite {c : Prop} {_ : Decidable c} {other : StageAction α} (h : Decides step P) (h' : Decides other P') :
    Decides (if c then step else other) fun d a => if c then P d a else P' d a := by
  split
  · exact h
  · exact h'

end Decides

end StageAction

namespace Job

open StageAction

variable {job : Job} {pagesName componentsName : Text} {ceiling : Int} {d : Disk}

/-- The job with its directories, which its check has found. -/
def located (job : Job) (pagesName componentsName : Text) : Job :=
  { job with
    pages := (job.inside pagesName).text
    components := (job.inside componentsName).text
    site := job.target.text
    checked := true }

/-- What a job needs to pass on a disk: its values are there, no path that is looked up is refused, the directory
of the pages is there and does not lie in an output directory that is to be emptied, and a pass is allowed. -/
structure Permitted (job : Job) (pagesName componentsName : Text) (ceiling : Int) (d : Disk) : Prop where
  hasPagesName : job.pagesName = some pagesName
  hasComponentsName : job.componentsName = some componentsName
  hasCeiling : job.ceiling = some ceiling
  pages : d.isDirectory (job.inside pagesName) = .ok true
  components : ∃ found, d.isDirectory (job.inside componentsName) = .ok found
  allowed : 1 ≤ ceiling
  apart : job.clean = true → removesPages (job.inside pagesName) job.target d = .ok false

theorem decides_announce (job : Job) : Decides (announce job) fun _ _ => True :=
  (((Decides.tell _).bind fun _ => .tell _).ite (.tell _)).congr fun d a => by simp

theorem decides_findPages (job : Job) : Decides (findPages job) fun d pages =>
    ∃ name, job.pagesName = some name ∧ d.isDirectory (job.inside name) = .ok true ∧ pages = job.inside name := by
  refine ((Decides.demand _ _).bind fun name => (Decides.ask _).bind fun found =>
    ((Decides.refuse _).bind fun _ => (Decides.tell _).bind fun _ => .pure _).ite
      ((Decides.tell _).bind fun _ => .pure _)).congr fun d pages => exists_congr fun name => ?_
  refine and_congr_right fun _ => ?_
  constructor
  · rintro ⟨found, hfound, h⟩
    cases found with
    | false => simp at h
    | true =>
      obtain ⟨_, -, hpages⟩ := h
      exact ⟨hfound, hpages.symm⟩
  · rintro ⟨hfound, rfl⟩
    exact ⟨true, hfound, by simp⟩

theorem decides_findComponents (job : Job) : Decides (findComponents job) fun d components =>
    ∃ name found, job.componentsName = some name ∧ d.isDirectory (job.inside name) = .ok found ∧
      components = job.inside name := by
  refine ((Decides.demand _ _).bind fun name => (Decides.ask _).bind fun found =>
    ((Decides.tell _).bind fun _ => .pure _).ite ((Decides.tell _).bind fun _ => .pure _)).congr
      fun d components => exists_congr fun name => ?_
  -- What is told of the components makes no difference.
  simp [eq_comm]

theorem decides_requirePass (job : Job) : Decides (requirePass job) fun _ _ =>
    ∃ ceiling, job.ceiling = some ceiling ∧ 1 ≤ ceiling := by
  refine ((Decides.demand _ _).bind fun ceiling => (Decides.refuse _).ite (.pure _)).congr
    fun d _ => exists_congr fun ceiling => and_congr_right fun _ => ?_
  by_cases h : ceiling < 1
  · simp [h, Int.not_le.mpr h]
  · simp [h, Int.not_lt.mp h]

theorem decides_protect (job : Job) (pages : Path) : Decides (protect job pages) fun d _ =>
    job.clean = true → removesPages pages job.target d = .ok false := by
  refine (((Decides.ask _).bind fun removes => (Decides.refuse _).ite (.pure _)).ite (.pure _)).congr fun d _ => ?_
  by_cases hclean : job.clean = true
  · simp [hclean]
  · simp [hclean]

/-- **A check changes no file and lets exactly the permitted jobs pass**, with their directories. -/
theorem decides_check (job : Job) :
    Decides (check job) fun d job' => ∃ pagesName componentsName ceiling,
      job.Permitted pagesName componentsName ceiling d ∧ job' = job.located pagesName componentsName := by
  refine ((decides_announce job).bind fun _ => (decides_findPages job).bind fun pages =>
    (decides_findComponents job).bind fun components => (decides_requirePass job).bind fun _ =>
    (decides_protect job pages).bind fun _ => (Decides.tell _).bind fun _ => .pure _).congr fun d job' => ?_
  constructor
  · rintro ⟨_, -, pages, ⟨pagesName, hpagesName, hpages, rfl⟩, components,
      ⟨componentsName, found, hcomponentsName, hfound, rfl⟩, _, ⟨ceiling, hceiling, hallowed⟩, _, hapart, _, -, rfl⟩
    exact ⟨pagesName, componentsName, ceiling,
      ⟨hpagesName, hcomponentsName, hceiling, hpages, ⟨found, hfound⟩, hallowed, hapart⟩, rfl⟩
  · rintro ⟨pagesName, componentsName, ceiling, h, rfl⟩
    obtain ⟨found, hfound⟩ := h.components
    exact ⟨(), trivial, _, ⟨pagesName, h.hasPagesName, h.pages, rfl⟩, _,
      ⟨componentsName, found, h.hasComponentsName, hfound, rfl⟩, (), ⟨ceiling, h.hasCeiling, h.allowed⟩, (),
      h.apart, (), trivial, rfl⟩

end Job

end Inlay

import Inlay.Proofs.Page.Return
import Inlay.Proofs.Site.Emptying

/-!
# The build of a page

A page is read, expanded and written, and may fail in each of the steps. A failure over the use of a file
gives up the page, and every other one ends the build.

* `Site.Ends` — how the work on a page ends, and the disk that it leaves behind.

Main statements: `Site.run_processPage`, `Site.run_buildPage` (how a page ends, and what is remembered
afterwards), `Site.Ends.keeps` (the work on a page removes nothing), `Site.Ends.alters` and
`Site.Ends.readBytes_destination` (what it changes, and what is read there).
-/

namespace Inlay

namespace Site

variable {o : SiteOptions} {page : SitePage}

/-- How the work on a page ends that is begun on the disk `d` with the lookups `s`, and the disk that it
leaves behind. -/
inductive Ends (o : SiteOptions) (page : SitePage) (d : Disk) (s : Supply) :
    Except Failure Expansion → Disk → Prop
  | unread {f : Failure} : d.readText page.source = .error f → Ends o page d s (.error f) d
  | unexpanded {text : Text} {f : Failure} : d.readText page.source = .ok text →
      s.expand o.native o.ceiling.toNat text = .error f → Ends o page d s (.error f) d
  | unplaced {text : Text} {e : Expansion} {cause : DiskError} {d' : Disk} :
      d.readText page.source = .ok text → s.expand o.native o.ceiling.toNat text = .ok e →
      (DiskAction.makeDirectories page.destination.parent).run.run d = (.error cause, d') →
      Ends o page d s (.error (.disk cause)) d'
  | unwritten {text : Text} {e : Expansion} {cause : DiskError} {d₁ d' : Disk} :
      d.readText page.source = .ok text → s.expand o.native o.ceiling.toNat text = .ok e →
      (DiskAction.makeDirectories page.destination.parent).run.run d = (.ok (), d₁) →
      (DiskAction.writeBytes page.destination (Utf8.encode e.content)).run.run d₁ = (.error cause, d') →
      Ends o page d s (.error (.disk cause)) d'
  | written {text : Text} {e : Expansion} {d₁ d' : Disk} :
      d.readText page.source = .ok text → s.expand o.native o.ceiling.toNat text = .ok e →
      (DiskAction.makeDirectories page.destination.parent).run.run d = (.ok (), d₁) →
      (DiskAction.writeBytes page.destination (Utf8.encode e.content)).run.run d₁ = (.ok (), d') →
      Ends o page d s (.ok e) d'

theorem run_runOn {α : Type} (draft : Draft) (step : PageAction α) (w : Workspace) :
    (PageAction.runOn draft step).run.run w =
      (.ok ((step.run.run ⟨draft, w⟩).1, (step.run.run ⟨draft, w⟩).2.draft),
        (step.run.run ⟨draft, w⟩).2.workspace) := rfl

theorem run_forM_tell (events : Text → Event) (names : List Text) (w : Workspace) :
    ∃ log, (names.forM fun name => Action.tell (events name)).run.run w =
      (.ok (), { w with events := log }) := by
  induction names generalizing w with
  | nil => exact ⟨w.events, rfl⟩
  | cons name rest ih =>
    obtain ⟨first, hfirst⟩ := w.exists_hear_eq (events name)
    obtain ⟨log, h⟩ := ih { w with events := first }
    refine ⟨log, ?_⟩
    rw [List.forM_eq_forM, List.forM_cons, run_bind, run_tell, hfirst]
    exact h

/-- How an expansion of a page ends on a workspace, which only learns from it. -/
theorem run_expandPage (hc : 1 ≤ o.ceiling) (page : SitePage) (w : Workspace) :
    ∃ w', w.Learns w' ∧ (expandPage o page).run.run w =
      ((w.lookups.expand o.native o.ceiling.toNat page.content).map fun e =>
        (e, { page with content := e.content }), w') := by
  obtain ⟨w₁, hl, h⟩ := Draft.answers_expand w.lookups o.native o.ceiling.toNat page.content w rfl
  have hpasses : Draft.passesAllowed o.ceiling = .ok o.ceiling.toNat := by
    unfold Draft.passesAllowed
    rw [if_neg (by omega)]
  unfold expandPage
  rw [hpasses]
  dsimp only
  rw [run_bind, run_runOn]
  cases he : w.lookups.expand o.native o.ceiling.toNat page.content with
  | error f =>
    rw [he] at h
    obtain ⟨draft, h⟩ := h
    rw [h]
    exact ⟨w₁, hl, rfl⟩
  | ok e =>
    rw [he] at h
    rw [h]
    dsimp only
    obtain ⟨log, hlog⟩ := run_forM_tell (Event.tagLeft · page.source) e.skipped w₁
    refine ⟨_, hl.trans (w₁.learns_tell log), ?_⟩
    rw [run_bind, hlog]
    rfl

/-- The work on a page ends in one of the five ways. -/
theorem run_processPage (hc : 1 ≤ o.ceiling) (page : SitePage) (w : Workspace) :
    ∃ r w', (processPage o page).run.run w = (r, w') ∧ Ends o page w.disk w.lookups r w'.disk ∧
      w.Recalls w'.catalogue := by
  unfold processPage
  rw [run_bind, run_readText]
  cases hread : w.disk.readText page.source with
  | error f => exact ⟨_, _, rfl, .unread hread, (Workspace.Learns.refl w).recalls⟩
  | ok text =>
    dsimp only
    obtain ⟨w₁, hl, hexpand⟩ := run_expandPage hc { page with content := text } w
    rw [run_bind, hexpand]
    cases he : w.lookups.expand o.native o.ceiling.toNat text with
    | error f =>
      refine ⟨_, _, rfl, ?_, hl.recalls⟩
      rw [hl.disk]
      exact .unexpanded hread he
    | ok e =>
      dsimp only [Except.map]
      unfold writePage Action.writeText
      rw [run_bind, run_bind, run_onDisk, hl.disk]
      dsimp only
      cases hmake : (DiskAction.makeDirectories page.destination.parent).run.run w.disk with
      | mk r₁ d₁ =>
        cases r₁ with
        | error cause => exact ⟨_, _, rfl, .unplaced hread he hmake, hl.recalls⟩
        | ok u =>
          dsimp only
          rw [run_onDisk]
          cases hwrite : (DiskAction.writeBytes page.destination (Utf8.encode e.content)).run.run d₁ with
          | mk r₂ d₂ =>
            cases r₂ with
            | error cause => exact ⟨_, _, rfl, .unwritten hread he hmake hwrite, hl.recalls⟩
            | ok u => exact ⟨_, _, rfl, .written hread he hmake hwrite, hl.recalls⟩

/-- What becomes of the result of the work on a page. -/
def outcome (page : SitePage) : Except Failure Expansion → Except Failure PageOutcome
  | .ok e => .ok ⟨page.source, some e⟩
  | .error f => if f.concernsFile then .ok ⟨page.source, none⟩ else .error f

/-- The build of a page tells more than the work on it, and gives up the page instead of failing over the use of a
file. -/
theorem run_buildPage_of_process {r : Except Failure Expansion} {w w₁ : Workspace}
    (h : (processPage o page).run.run (w.hear (.pageStarted page.source)) = (r, w₁)) :
    ∃ log, (buildPage o page).run.run w = (outcome page r, { w₁ with events := log }) := by
  unfold buildPage
  rw [run_bind, run_tell]
  dsimp only
  rw [run_bind, run_tryCatch, run_map, h]
  cases r with
  | ok e =>
    obtain ⟨first, hfirst⟩ := w₁.exists_hear_eq (.pageExpanded e.replacements)
    obtain ⟨log, hlog⟩ := ({ w₁ with events := first } : Workspace).exists_hear_eq (.pageWritten page.destination)
    refine ⟨log, ?_⟩
    dsimp only [Except.map, outcome]
    rw [run_bind, run_tell, hfirst]
    dsimp only
    rw [run_bind, run_tell, hlog]
    rfl
  | error f =>
    dsimp only [Except.map, outcome]
    cases hf : f.concernsFile with
    | true =>
      obtain ⟨log, hlog⟩ := w₁.exists_hear_eq (.pageFailed page.source f)
      refine ⟨log, ?_⟩
      rw [if_pos rfl, run_bind, run_tell, hlog]
      rfl
    | false => exact ⟨w₁.events, rfl⟩

/-- **The build of a page ends as the work on it does**, except that a failure over the use of a file gives up
the page. -/
theorem run_buildPage (hc : 1 ≤ o.ceiling) (page : SitePage) (w : Workspace) :
    ∃ r w', (buildPage o page).run.run w = (outcome page r, w') ∧ Ends o page w.disk w.lookups r w'.disk ∧
      w.Recalls w'.catalogue := by
  obtain ⟨r, w₁, hrun, hends, hrecalls⟩ :=
    run_processPage hc page (w.hear (.pageStarted page.source))
  obtain ⟨log, hbuild⟩ := run_buildPage_of_process hrun
  rw [w.disk_hear, (w.learns_hear _).lookups] at hends
  exact ⟨r, _, hbuild, hends, (w.learns_hear _).recalls_of hrecalls⟩

/-- Where no pass is allowed, no page is written. -/
theorem run_buildPage_of_low (hlow : ¬ 1 ≤ o.ceiling) (page : SitePage) (w : Workspace) :
    ∃ log, (buildPage o page).run.run w =
      (outcome page (.error (match w.disk.readText page.source with
        | .error f => f
        | .ok _ => .ceilingTooLow o.ceiling)), { w with events := log }) := by
  have hpasses : Draft.passesAllowed o.ceiling = .error (.ceilingTooLow o.ceiling) := by
    unfold Draft.passesAllowed
    rw [if_pos (by omega)]
  have hprocess : ∀ w₁ : Workspace, (processPage o page).run.run w₁ =
      (.error (match w₁.disk.readText page.source with
        | .error f => f
        | .ok _ => .ceilingTooLow o.ceiling), w₁) := by
    intro w₁
    unfold processPage expandPage
    rw [hpasses, run_bind, run_readText]
    cases w₁.disk.readText page.source <;> rfl
  obtain ⟨first, hfirst⟩ := w.exists_hear_eq (.pageStarted page.source)
  obtain ⟨log, hbuild⟩ := run_buildPage_of_process (hprocess (w.hear (.pageStarted page.source)))
  rw [hfirst] at hbuild
  exact ⟨log, hbuild⟩

/-- The work on a page removes no directory, and leaves a file wherever there was one. -/
theorem Ends.keeps {d d' : Disk} {s : Supply} {r : Except Failure Expansion} (h : Ends o page d s r d') :
    d.Keeps d' := by
  cases h with
  | unread => exact .refl _
  | unexpanded => exact .refl _
  | unplaced _ _ hmake => exact (DiskAction.gains_makeDirectories hmake).keeps
  | unwritten _ _ hmake hwrite =>
    have hkeeps := (DiskAction.gains_makeDirectories hmake).keeps
    rcases DiskAction.writeBytes_cases hwrite with ⟨hr, -⟩ | ⟨_, -, rfl, -⟩
    · cases hr
    · exact hkeeps
  | written _ _ hmake hwrite =>
    have hkeeps := (DiskAction.gains_makeDirectories hmake).keeps
    rcases DiskAction.writeBytes_cases hwrite with ⟨-, -, hfree, rfl⟩ | ⟨_, hr, -⟩
    · exact hkeeps.trans (.put_file (Disk.ne_nil_of_not_directory hfree) hfree)
    · cases hr

/-- The work on a page touches the destination at most, and adds directories on the way to it. -/
theorem Ends.alters {d d' : Disk} {s : Supply} {r : Except Failure Expansion} (h : Ends o page d s r d') :
    d.Alters (DiskAction.OnWay d page.destination.parent)
      (fun k => (∃ e, r = .ok e) ∧ k = d.locate page.destination) d' := by
  cases h with
  | unread => exact .refl _ _ _
  | unexpanded => exact .refl _ _ _
  | unplaced _ _ hmake => exact (DiskAction.gains_makeDirectories hmake).alters _
  | unwritten _ _ hmake hwrite =>
    rcases DiskAction.writeBytes_cases hwrite with ⟨hr, -⟩ | ⟨_, -, rfl, -⟩
    · cases hr
    · exact (DiskAction.gains_makeDirectories hmake).alters _
  | written _ _ hmake hwrite =>
    have hgains := DiskAction.gains_makeDirectories hmake
    rcases DiskAction.writeBytes_cases hwrite with ⟨-, -, hfree, rfl⟩ | ⟨_, hr, -⟩
    · refine .trans (hgains.alters _) (.put (Disk.ne_nil_of_not_directory hfree) _ ⟨⟨_, rfl⟩, ?_⟩)
      rw [Disk.locate_congr hgains.working]
    · cases hr

/-- A page that is written holds what the page expands to. -/
theorem Ends.node?_destination {d d' : Disk} {s : Supply} {e : Expansion} (h : Ends o page d s (.ok e) d') :
    d'.node? (d.locate page.destination) = some (.file (Utf8.encode e.content)) := by
  cases h with
  | written _ _ hmake hwrite =>
    rcases DiskAction.writeBytes_cases hwrite with ⟨-, -, hfree, rfl⟩ | ⟨_, hr, -⟩
    · rw [Disk.locate_congr (DiskAction.gains_makeDirectories hmake).working] at hfree ⊢
      rw [Disk.node?_put _ (Disk.ne_nil_of_not_directory hfree), if_pos rfl]
    · cases hr

/-- A page that is written can be read where it was written. -/
theorem Ends.readBytes_destination {d d' : Disk} {s : Supply} {e : Expansion} (h : Ends o page d s (.ok e) d') :
    d'.readBytes page.destination = .ok (Utf8.encode e.content) := by
  refine Disk.readBytes_eq_ok_iff.mpr ⟨?_, by rw [h.keeps.locate]; exact h.node?_destination⟩
  cases h with
  | written _ _ _ hwrite =>
    rcases DiskAction.writeBytes_cases hwrite with ⟨-, ho, hfree, rfl⟩ | ⟨_, hr, -⟩
    · exact (Disk.Keeps.put_file (Disk.ne_nil_of_not_directory hfree) hfree).opens ho
    · cases hr

/-- A page that is written has been read, and has its account from the lookups. -/
theorem Ends.accounted {d d' : Disk} {s : Supply} {e : Expansion} (h : Ends o page d s (.ok e) d') :
    ∃ text, d.readText page.source = .ok text ∧ s.expand o.native o.ceiling.toNat text = .ok e := by
  cases h with
  | written hread he _ _ => exact ⟨_, hread, he⟩

end Site

end Inlay

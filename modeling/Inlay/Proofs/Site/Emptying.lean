import Inlay.Site.Build
import Inlay.Proofs.Page.Supply
import Inlay.Proofs.Disk.Change

/-!
# Emptying the output directory

A disk has no links and no permissions, so the test whether an entry is a link comes down to nothing: every entry of
the output directory is removed, with all that lies below it.

* `run_tell`, `run_onDisk` — the steps of a run that tell an event and that change the disk.

Main statement: `Site.after_cleanOutput` (what is removed is what lies below the output directory).
-/

namespace Inlay

theorem run_tell (e : Event) (w : Workspace) :
    (Action.tell e).run.run w = (.ok (), w.hear e) := rfl

theorem run_onDisk (change : DiskAction Unit) (w : Workspace) :
    (Action.onDisk change).run.run w =
      match change.run.run w.disk with
      | (.ok (), d) => (.ok (), { w with disk := d })
      | (.error e, d) => (.error (.disk e), { w with disk := d }) := by
  unfold Action.onDisk
  rw [run_get_bind]
  cases change.run.run w.disk with
  | mk r d => cases r <;> rfl

namespace Site

/-- However the emptying ends, it leaves the disk without what lies below the output directory, and changes
nothing else but the log. -/
theorem after_cleanOutput (o : SiteOptions) (w : Workspace) :
    ∃ log, ((cleanOutput o).run.run w).2 = { w with disk := w.disk.emptied o.output, events := log } := by
  unfold cleanOutput
  rw [run_bind, run_ask]
  have hself : w.disk.exists? o.output ≠ .ok true → w.disk.emptied o.output = w.disk :=
    fun hne => Disk.emptied_eq_self fun hd => hne (Disk.exists?_of_isDirectory hd)
  match he : w.disk.exists? o.output with
  | .error e =>
    rw [hself (by rw [he]; exact nofun)]
    exact ⟨w.events, rfl⟩
  | .ok false =>
    rw [hself (by rw [he]; exact nofun)]
    exact ⟨w.events, rfl⟩
  | .ok true =>
    obtain ⟨log, hlog⟩ := w.exists_hear_eq (.cleaning o.output)
    refine ⟨log, ?_⟩
    dsimp only [Except.mapError]
    rw [if_pos rfl, run_bind, run_tell, hlog]
    dsimp only
    rw [run_onDisk, ← DiskAction.disk_emptyDirectory]
    dsimp only
    cases (DiskAction.emptyDirectory o.output).run.run w.disk with
    | mk r d => cases r <;> rfl

theorem disk_cleanOutput (o : SiteOptions) (w : Workspace) :
    ((cleanOutput o).run.run w).2.disk = w.disk.emptied o.output := by
  obtain ⟨log, h⟩ := after_cleanOutput o w
  rw [h]

end Site

end Inlay

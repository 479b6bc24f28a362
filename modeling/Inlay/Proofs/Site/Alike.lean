import Inlay.Proofs.Page.Alike
import Inlay.Proofs.Site.Emptying

/-!
# Builds that run alike

A run asks the disk, changes it, remembers, and tells; what it has told, and to whom, it never asks. So two runs that
begin on the same disk and with the same catalogue end in the same way, whoever listens.

* `Heedless` — a relation of workspaces with the same disk and the same catalogue, which is kept when both change in
  the same way and when both tell the same.

Main statements: `Heedless.consults` (an expansion keeps such a relation), `Site.alike_build` (so does a build).
-/

namespace Inlay

open Markup

variable {α β : Type} {R : Workspace → Workspace → Prop}

/-- The relation `R` has the same disk and the same catalogue on both sides, and is kept by steps that treat both
sides in the same way. -/
structure Heedless (R : Workspace → Workspace → Prop) : Prop where
  disk : ∀ {w v}, R w v → v.disk = w.disk
  catalogue : ∀ {w v}, R w v → v.catalogue = w.catalogue
  change : ∀ {w v}, R w v → ∀ d c,
    R { w with disk := d, catalogue := c } { v with disk := d, catalogue := c }
  hear : ∀ {w v}, R w v → ∀ {e : Event}, e.isNote = false → R (w.hear e) (v.hear e)

/-! ## Steps one after the other -/

namespace Action.Alike

variable {step : Action α}

theorem bind {next : α → Action β} (h : Action.Alike R step) (hnext : ∀ a, Action.Alike R (next a)) :
    Action.Alike R (step >>= next) := by
  intro w v hR
  obtain ⟨result, w₁, v₁, hw, hv, hR₁⟩ := h hR
  cases result with
  | error f => exact ⟨.error f, w₁, v₁, by rw [run_bind, hw], by rw [run_bind, hv], hR₁⟩
  | ok a =>
    obtain ⟨result, w₂, v₂, hw', hv', hR₂⟩ := hnext a hR₁
    exact ⟨result, w₂, v₂, by rw [run_bind, hw]; exact hw', by rw [run_bind, hv]; exact hv', hR₂⟩

theorem throw (f : Failure) : Action.Alike R (throw f : Action α) :=
  fun w v hR => ⟨.error f, w, v, rfl, rfl, hR⟩

theorem map (f : α → β) (h : Action.Alike R step) : Action.Alike R (f <$> step) := by
  rw [← bind_pure_comp]
  exact h.bind fun a => .pure (f a)

theorem tryCatch {handle : Failure → Action α} (h : Action.Alike R step)
    (hhandle : ∀ f, Action.Alike R (handle f)) : Action.Alike R (tryCatch step handle) := by
  intro w v hR
  obtain ⟨result, w₁, v₁, hw, hv, hR₁⟩ := h hR
  cases result with
  | ok a => exact ⟨.ok a, w₁, v₁, by rw [run_tryCatch, hw], by rw [run_tryCatch, hv], hR₁⟩
  | error f =>
    obtain ⟨result, w₂, v₂, hw', hv', hR₂⟩ := hhandle f hR₁
    exact ⟨result, w₂, v₂, by rw [run_tryCatch, hw]; exact hw', by rw [run_tryCatch, hv]; exact hv', hR₂⟩

theorem mapM {step : α → Action β} (h : ∀ a, Action.Alike R (step a)) (as : List α) :
    Action.Alike R (as.mapM step) := by
  induction as with
  | nil => exact .pure []
  | cons a as ih =>
    rw [List.mapM_cons]
    exact (h a).bind fun b => ih.bind fun bs => .pure (b :: bs)

theorem filterM {step : α → Action Bool} (h : ∀ a, Action.Alike R (step a)) (as : List α) :
    Action.Alike R (as.filterM step) := by
  induction as with
  | nil => exact .pure []
  | cons a as ih =>
    rw [filterM_cons]
    exact (h a).bind fun b => ih.bind fun kept => .pure _

theorem forM {step : α → Action Unit} (h : ∀ a, Action.Alike R (step a)) (as : List α) :
    Action.Alike R (as.forM step) := by
  induction as with
  | nil => exact .pure ()
  | cons a as ih => exact (h a).bind fun _ => ih

/-- A step that looks at its workspace runs alike if it does whatever it sees, and sees the same on both sides. -/
theorem get_bind {next : Workspace → Action β} (hsame : ∀ {w v}, R w v → next v = next w)
    (h : ∀ w, Action.Alike R (next w)) : Action.Alike R (get >>= next) := by
  intro w v hR
  obtain ⟨result, w', v', hw, hv, hR'⟩ := h w hR
  exact ⟨result, w', v', hw, by rw [run_get_bind, hsame hR]; exact hv, hR'⟩

theorem runOn {step : PageAction α} {P : α → Prop} (h : PageAction.Alike R step P) (draft : Draft) :
    Action.Alike R (PageAction.runOn draft step) := by
  intro w v hR
  obtain ⟨result, draft', w', v', hw, hv, hR', -⟩ := h draft hR
  refine ⟨.ok (result, draft'), w', v', ?_, ?_, hR'⟩
  · unfold PageAction.runOn
    rw [run_get_bind, hw]
    rfl
  · unfold PageAction.runOn
    rw [run_get_bind, hv]
    rfl

end Action.Alike

/-! ## What a run does -/

namespace Heedless

variable (h : Heedless R)

include h

theorem ask (question : Disk → Except DiskError α) : Action.Alike R (Action.ask question) := by
  intro w v hR
  exact ⟨_, w, v, run_ask question w, by rw [run_ask, h.disk hR], hR⟩

theorem readText (file : Path) : Action.Alike R (Action.readText file) := by
  intro w v hR
  exact ⟨_, w, v, run_readText file w, by rw [run_readText, h.disk hR], hR⟩

theorem onDisk (change : DiskAction Unit) : Action.Alike R (Action.onDisk change) := by
  intro w v hR
  rw [run_onDisk, run_onDisk, h.disk hR]
  rcases change.run.run w.disk with ⟨_ | _, d⟩ <;>
    exact ⟨_, _, _, rfl, rfl, by simpa only [h.catalogue hR] using h.change hR d w.catalogue⟩

theorem tell {e : Event} (he : e.isNote = false) : Action.Alike R (Action.tell e) :=
  fun w v hR => ⟨.ok (), w.hear e, v.hear e, rfl, rfl, h.hear hR he⟩

theorem update (change : Catalogue → Catalogue) : Action.Alike R (Catalogue.update change) := by
  intro w v hR
  refine ⟨.ok (), _, _, rfl, rfl, ?_⟩
  simpa only [h.disk hR, h.catalogue hR] using h.change hR w.disk (change w.catalogue)

theorem contains (name : Text) : Action.Alike R (Catalogue.contains name) := by
  refine .get_bind (fun hR => by simp only [h.catalogue hR]) fun w => ?_
  dsimp only
  split
  · exact .pure _
  · exact (h.ask _).bind fun _ => (h.update _).bind fun _ => .pure _

theorem load (name : Text) : Action.Alike R (Catalogue.load name) := by
  refine .get_bind (fun hR => by simp only [h.catalogue hR]) fun w => ?_
  dsimp only
  split
  · exact .pure _
  · refine (h.contains name).bind fun found => ?_
    split
    · exact (h.readText _).bind fun _ => (h.tell rfl).bind fun _ => (h.update _).bind fun _ => .pure _
    · exact .throw _

/-- **An expansion keeps a heedless relation.** -/
theorem consults (native : NativeSet) : Consults R native where
  contains _ := h.contains _
  load _ := h.load _
  tell he := h.tell he

theorem names : Action.Alike R Catalogue.names := by
  refine .get_bind (fun hR => by simp only [h.catalogue hR]) fun w => ?_
  refine (h.ask _).bind fun there => ?_
  split
  · refine (h.ask _).bind fun listed => .filterM (fun name => (h.ask _).bind fun isDirectory => ?_) listed
    split
    · exact h.contains name
    · exact .pure false
  · exact .pure []

end Heedless

namespace Site

variable (h : Heedless R) (o : SiteOptions)

include h

theorem alike_pages : Action.Alike R (pages o) := by
  unfold pages
  split
  · exact .throw _
  · refine (h.ask _).bind fun sources => (h.tell rfl).bind fun _ => .mapM (fun source => ?_) sources
    refine .bind ?_ fun destination => .pure _
    unfold destination
    split
    · exact .pure _
    · exact .throw _

theorem alike_processPage (page : SitePage) : Action.Alike R (processPage o page) := by
  refine (h.readText _).bind fun text => .bind ?_ fun (expansion, page) =>
    .bind ((h.onDisk _).bind fun _ => h.onDisk _) fun _ => .pure expansion
  unfold expandPage
  split
  · exact .throw _
  · refine .bind (.runOn (Draft.alike_expand (h.consults o.native) _) _) fun (result, draft) => ?_
    cases result with
    | error f => exact .throw f
    | ok e => exact .bind (.forM (fun _ => h.tell rfl) _) fun _ => .pure _

theorem alike_buildPage (page : SitePage) : Action.Alike R (buildPage o page) := by
  refine (h.tell rfl).bind fun _ => .bind ?_ fun done => ?_
  · refine .tryCatch (.map some (alike_processPage h o page)) fun f => ?_
    split
    · exact (h.tell rfl).bind fun _ => .pure none
    · exact .throw f
  · cases done with
    | none => exact .pure _
    | some e => exact (h.tell rfl).bind fun _ => (h.tell rfl).bind fun _ => .pure _

theorem alike_cleanOutput : Action.Alike R (cleanOutput o) := by
  refine (h.ask _).bind fun there => ?_
  split
  · exact (h.tell rfl).bind fun _ => h.onDisk _
  · exact .pure ()

/-- **A build keeps a heedless relation**: it ends in the same way on both sides. -/
theorem alike_build : Action.Alike R (build o) := by
  have hrest := (h.onDisk (DiskAction.makeDirectories o.output)).bind fun _ => h.names.bind fun names =>
    (h.tell (e := .componentsFound names) rfl).bind fun _ => (alike_pages h o).bind fun collected =>
      (Action.Alike.mapM (alike_buildPage h o) collected).bind fun outcomes =>
        (h.tell (e := .buildFinished) rfl).bind fun _ => .pure (report o outcomes)
  refine (h.tell rfl).bind fun _ => ?_
  dsimp only
  split
  · exact (alike_cleanOutput h o).bind fun _ => hrest
  · exact hrest

end Site

end Inlay

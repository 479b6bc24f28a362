import Inlay.Proofs.Catalogue.Snapshot
import Inlay.Proofs.Page.Alike
import Inlay.Proofs.Page.Passes

/-!
# Remembering is invisible

As long as the files stay as they are, a catalogue that remembers answers as one that does not. Only the loading of a
template is told once by the one, and each time by the other.

* `Event.isLoading`, `Log.quiet` — the telling of a template that is loaded, and a log without it.
* `Workspace.Visited` — what calls and expansions make of a workspace, on the same files.
* `Workspace.Agrees` — two workspaces that answer alike, and have told the same since two others, but for templates
  loaded.

Main statements: `Workspace.Visited.learns` (a visit changes no answer), `Workspace.consults_agrees` (what an expansion
asks and tells keeps the agreement), `expand_of_visited`.
-/

namespace Inlay

open Markup

/-- Whether the event tells that a template has been loaded. -/
def Event.isLoading : Event → Bool
  | .templateLoaded .. => true
  | _ => false

/-- The log without the templates loaded. -/
def Log.quiet (log : Log) : Log := log.filter fun e => !e.isLoading

theorem Log.quiet_append (log log' : Log) : (log ++ log').quiet = log.quiet ++ log'.quiet :=
  List.filter_append ..

theorem Log.quiet_reverse (log : Log) : Log.quiet log.reverse = log.quiet.reverse :=
  List.filter_reverse ..

namespace Workspace

variable {w v w' v' : Workspace}

/-- What calls and expansions make of the workspace `w`. No file changes meanwhile. -/
inductive Visited (w : Workspace) : Workspace → Prop
  | start : Visited w w
  | call {v : Workspace} (h : Visited w v) (c : Call) : Visited w (v.call c).2
  | expand {v : Workspace} (h : Visited w v) (native : NativeSet) (ceiling : Nat) (page : Text) :
      Visited w ((Draft.expand native ceiling).run.run ⟨{ content := page }, v⟩).2.workspace

/-- A call only teaches the workspace. -/
theorem learns_call (w : Workspace) (c : Call) : w.Learns (w.call c).2 := by
  cases c with
  | contains name =>
    obtain ⟨w', hl, h⟩ := answers_contains w.lookups name w rfl
    rwa [call, h]
  | load name =>
    obtain ⟨w', hl, h⟩ := answers_load w.lookups name w rfl
    rwa [call, h]
  | names =>
    obtain ⟨w', hl, h⟩ := run_names w
    rwa [call, h]

/-- An expansion only teaches the workspace. -/
theorem learns_expand (w : Workspace) (native : NativeSet) (ceiling : Nat) (page : Text) :
    w.Learns ((Draft.expand native ceiling).run.run ⟨{ content := page }, w⟩).2.workspace := by
  obtain ⟨w', hl, h⟩ := Draft.answers_expand w.lookups native ceiling page w rfl
  cases he : w.lookups.expand native ceiling page with
  | error f =>
    rw [he] at h
    obtain ⟨d, h⟩ := h
    rwa [h]
  | ok e =>
    rw [he] at h
    dsimp only [Except.map] at h
    rwa [h]

/-- **A visit changes no answer.** -/
theorem Visited.learns (h : w.Visited v) : w.Learns v := by
  induction h with
  | start => exact .refl w
  | call _ c ih => exact ih.trans (learns_call _ c)
  | expand _ native ceiling page ih => exact ih.trans (learns_expand _ native ceiling page)

theorem reliable_afresh (w : Workspace) (remembering : Bool) : (w.afresh remembering).Reliable :=
  reliable_of_forgetful rfl rfl

/-- At the beginning, a catalogue that remembers answers as one that does not. -/
theorem lookups_afresh (w : Workspace) (remembering : Bool) : (w.afresh remembering).lookups = w.supply :=
  (reliable_afresh w remembering).lookups

/-- The workspaces `w` and `v` answer alike and have the same reader, and what they have told since `w₀` and `v₀` is
the same but for templates loaded. -/
structure Agrees (w₀ v₀ w v : Workspace) : Prop where
  lookups : v.lookups = w.lookups
  reader : v.reader = w.reader
  told : ∃ told told', w.events = told ++ w₀.events ∧ v.events = told' ++ v₀.events ∧
    Log.quiet told' = Log.quiet told

/-- Steps that only teach and tell of templates loaded keep the agreement. -/
theorem Agrees.of_learns {w₀ v₀ : Workspace} (h : Agrees w₀ v₀ w v) (hw : w.Learns w') (hv : v.Learns v')
    (htw : ∃ told, w'.events = told ++ w.events ∧ Log.quiet told = [])
    (htv : ∃ told, v'.events = told ++ v.events ∧ Log.quiet told = []) : Agrees w₀ v₀ w' v' := by
  obtain ⟨told, told', hwe, hve, htold⟩ := h.told
  obtain ⟨more, hwe', hmore⟩ := htw
  obtain ⟨more', hve', hmore'⟩ := htv
  refine ⟨?_, ?_, more ++ told, more' ++ told', ?_, ?_, ?_⟩
  · rw [hv.lookups, hw.lookups, h.lookups]
  · rw [hv.reader, hw.reader, h.reader]
  · rw [hwe', hwe, List.append_assoc]
  · rw [hve', hve, List.append_assoc]
  · rw [Log.quiet_append, Log.quiet_append, hmore, hmore', htold]

/-- Asking whether there is a template tells nothing. -/
theorem events_of_run_contains {name : Text} {answer : Except Failure Bool}
    (h : (Catalogue.contains name).run.run w = (answer, w')) : w'.events = w.events := by
  rw [run_contains] at h
  split at h
  · cases h
    rfl
  · split at h <;> cases h <;> rfl

/-- Loading a template tells of nothing else. -/
theorem told_of_run_load {name : Text} {answer : Except Failure Text}
    (h : (Catalogue.load name).run.run w = (answer, w')) :
    ∃ told, w'.events = told ++ w.events ∧ Log.quiet told = [] := by
  rw [run_load] at h
  split at h
  · cases h
    exact ⟨[], rfl, rfl⟩
  · rcases hfirst : (Catalogue.contains name).run.run w with ⟨found, w₁⟩
    have hevents := events_of_run_contains hfirst
    rw [hfirst] at h
    match found, h with
    | .error f, h =>
      cases h
      exact ⟨[], hevents, rfl⟩
    | .ok false, h =>
      cases h
      exact ⟨[], hevents, rfl⟩
    | .ok true, h =>
      dsimp only at h
      split at h
      · cases h
        exact ⟨[], hevents, rfl⟩
      · cases h
        refine ⟨_, by rw [← hevents]; exact w₁.events_hear _, List.filter_eq_nil_iff.mpr fun e he => ?_⟩
        obtain rfl := List.mem_singleton.mp (List.mem_filter.mp he).1
        exact Bool.false_ne_true

/-- **Everything that an expansion asks and tells keeps the agreement.** -/
theorem consults_agrees (w₀ v₀ : Workspace) (native : NativeSet) : Consults (Agrees w₀ v₀) native := by
  constructor
  case contains =>
    intro name _ w v h
    obtain ⟨w', hw, hrw⟩ := answers_contains w.lookups name w rfl
    obtain ⟨v', hv, hrv⟩ := answers_contains w.lookups name v h.lookups
    exact ⟨_, w', v', hrw, hrv, h.of_learns hw hv ⟨[], events_of_run_contains hrw, rfl⟩
      ⟨[], events_of_run_contains hrv, rfl⟩⟩
  case load =>
    intro name _ w v h
    obtain ⟨w', hw, hrw⟩ := answers_load w.lookups name w rfl
    obtain ⟨v', hv, hrv⟩ := answers_load w.lookups name v h.lookups
    exact ⟨_, w', v', hrw, hrv, h.of_learns hw hv (told_of_run_load hrw) (told_of_run_load hrv)⟩
  case tell =>
    intro e _ w v h
    obtain ⟨told, told', hw, hv, htold⟩ := h.told
    refine ⟨.ok (), w.hear e, v.hear e, rfl, rfl, ?_, ?_, Log.visible w.reader [e] ++ told,
      Log.visible w.reader [e] ++ told', ?_, ?_, ?_⟩
    · rw [(v.learns_hear e).lookups, (w.learns_hear e).lookups, h.lookups]
    · rw [v.reader_hear, w.reader_hear, h.reader]
    · rw [w.events_hear, hw, List.append_assoc]
    · rw [v.events_hear, hv, h.reader, List.append_assoc]
    · rw [Log.quiet_append, Log.quiet_append, htold]

end Workspace

/-- **Remembering is invisible**: on the same files, whatever has been looked up and expanded before, an expansion
over a catalogue that remembers ends as over one that does not, with the same account and the same page or with the
same failure, and tells the same but for templates loaded. -/
theorem expand_of_visited {w u v : Workspace} (hu : (w.afresh false).Visited u) (hv : (w.afresh true).Visited v)
    (native : NativeSet) (ceiling : Nat) (page : Text) :
    ∃ result draft u' v' told told',
      (Draft.expand native ceiling).run.run ⟨{ content := page }, u⟩ = (result, ⟨draft, u'⟩) ∧
      (Draft.expand native ceiling).run.run ⟨{ content := page }, v⟩ = (result, ⟨draft, v'⟩) ∧
      u'.log = u.log ++ told ∧ v'.log = v.log ++ told' ∧ Log.quiet told' = Log.quiet told := by
  have hsame : v.lookups = u.lookups := by
    rw [hv.learns.lookups, hu.learns.lookups, Workspace.lookups_afresh, Workspace.lookups_afresh]
  have hreader : v.reader = u.reader := by
    rw [hv.learns.reader, hu.learns.reader]
    rfl
  have hstart : Workspace.Agrees u v u v := ⟨hsame, hreader, [], [], rfl, rfl, rfl⟩
  obtain ⟨result, draft, u', v', hru, hrv, hagrees, -⟩ :=
    Draft.alike_expand (Workspace.consults_agrees u v native) ceiling { content := page } hstart
  obtain ⟨told, told', htu, htv, htold⟩ := hagrees.told
  refine ⟨result, draft, u', v', told.reverse, told'.reverse, hru, hrv, ?_, ?_, ?_⟩
  · rw [Workspace.log, htu, List.reverse_append]
    rfl
  · rw [Workspace.log, htv, List.reverse_append]
    rfl
  · rw [Log.quiet_reverse, Log.quiet_reverse, htold]

set_option maxRecDepth 10000 in
/-- A page with a card, on a catalogue that does not remember, and on one that a call and an expansion have taught
the card: only the first loads it. -/
theorem expand_of_visited_card :
    let w := Workspace.holding [("card".toList, "<p><slot/></p>".toList)]
    let page := "<card>a</card>".toList
    let u := w.afresh false
    let asked := ((w.afresh true).call (.contains "card".toList)).2
    let v := ((Draft.expand .html 5).run.run ⟨{ content := page }, asked⟩).2.workspace
    u.Visited u ∧ (w.afresh true).Visited v ∧ v.catalogue.recalledText "card".toList = some "<p><slot/></p>".toList ∧
    ∃ draft u' v' told told',
      (Draft.expand .html 9).run.run ⟨{ content := page }, u⟩ =
        (.ok ⟨"<p>a</p>".toList, 2, 1, [], false⟩, ⟨draft, u'⟩) ∧
      (Draft.expand .html 9).run.run ⟨{ content := page }, v⟩ =
        (.ok ⟨"<p>a</p>".toList, 2, 1, [], false⟩, ⟨draft, v'⟩) ∧
      u'.log = u.log ++ told ∧ v'.log = v.log ++ told' ∧ Log.quiet told' = Log.quiet told := by
  intro w page u asked v
  have hu : u.Visited u := .start
  have hv : (w.afresh true).Visited v := .expand (.call .start (.contains "card".toList)) .html 5 page
  refine ⟨hu, hv, by unfold v asked w page; cbv, ?_⟩
  obtain ⟨result, draft, u', v', told, told', hru, hrv, hlogs⟩ := @expand_of_visited w u v hu hv .html 9 page
  have hresult : u.expand .html 9 page = .ok ⟨"<p>a</p>".toList, 2, 1, [], false⟩ := by
    unfold u w page
    cbv
  unfold Workspace.expand at hresult
  rw [hru] at hresult
  obtain rfl := hresult
  exact ⟨draft, u', v', told, told', hru, hrv, hlogs⟩

end Inlay

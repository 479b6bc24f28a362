import Inlay.Proofs.Site.Alike

/-!
# Whoever reads the log

A run tells more to a reader with a higher verbosity, and does nothing else for it: what comes of an expansion or of a
build is the same for every reader, and for none. What a reader sees can be told from the labels in the whole log.

* `Event.isShown` — whether an event with its label is meant for a reader.
* `Workspace.followedBy` — a workspace with a new log and a given reader.
* `Workspace.seenBy` — a workspace with the part of its log that a reader sees.

Main statements: `Event.isHeard_eq_isShown` (the labels tell the levels), `Workspace.heedless_seenBy` (no step heeds
its reader), `run_of_reader`.
-/

namespace Inlay

open Markup

/-! ## Levels and labels -/

namespace Event

variable {e : Event}

/-- Whether an event is meant for a reader, by its label: information and warnings from verbosity one, debugging from
two, tracing from three. -/
def isShown (reader : Option Int) (e : Event) : Bool :=
  match reader with
  | none => false
  | some verbosity =>
    match e.severity with
    | .info | .warning => 1 ≤ verbosity
    | .debug => 2 ≤ verbosity
    | .trace => 3 ≤ verbosity

/-- Whether a message begins in another way than a warning. -/
def opensPlainly (s : String) : Bool := s.toList.head?.any (· ≠ 'W')

theorem opensPlainly_append {s : String} (h : opensPlainly s = true) (t : String) :
    opensPlainly (s ++ t) = true := by
  unfold opensPlainly at *
  rw [String.toList_append, List.head?_append]
  cases hs : s.toList.head? with
  | none =>
    rw [hs] at h
    cases h
  | some c =>
    rw [hs] at h
    exact h

theorem not_isPrefixOf_of_opensPlainly {s : String} (h : opensPlainly s = true) :
    warningMark.isPrefixOf s.toList = false := by
  unfold opensPlainly at h
  cases hs : s.toList with
  | nil => rfl
  | cons c rest =>
    rw [hs] at h
    have hc : c ≠ 'W' := by simpa using h
    have hmark : warningMark = 'W' :: "arning:".toList := by decide
    rw [hmark, List.isPrefixOf, beq_false_of_ne hc.symm, Bool.false_and]

/-- What is told above the first level does not begin as a warning, whatever names and paths it holds. -/
theorem not_warning (he : e.isNote = false) (hlevel : e.level ≠ 1) :
    warningMark.isPrefixOf e.message.toList = false := by
  refine not_isPrefixOf_of_opensPlainly ?_
  cases e
  case note => cases he
  all_goals first
    | exact absurd rfl hlevel
    | (dsimp only [message, title]
       repeat refine opensPlainly_append ?_ _
       decide)

theorem level_cases (he : e.isNote = false) : e.level = 1 ∨ e.level = 2 ∨ e.level = 3 := by
  cases e
  case note => cases he
  all_goals simp [level]

/-- **The labels tell the levels**: a reader sees what its label is meant for. -/
theorem isHeard_eq_isShown (he : e.isNote = false) (reader : Option Int) : e.isHeard reader = e.isShown reader := by
  cases reader with
  | none => rfl
  | some verbosity =>
    unfold isHeard isShown severity
    rcases level_cases he with hlevel | hlevel | hlevel
    · rw [hlevel]
      cases warningMark.isPrefixOf e.message.toList <;> rfl
    · rw [hlevel, not_warning he (by rw [hlevel]; decide)]
      rfl
    · rw [hlevel, not_warning he (by rw [hlevel]; decide)]
      rfl

theorem isHeard_of_three (he : e.isNote = false) : e.isHeard (some 3) = true := by
  unfold isHeard
  rcases level_cases he with hlevel | hlevel | hlevel <;> rw [hlevel] <;> rfl

end Event

/-! ## What a reader sees of a run -/

namespace Workspace

/-- The workspace with nothing told yet, and with the given reader. -/
def followedBy (w : Workspace) (reader : Option Int) : Workspace := { w with events := [], reader }

/-- The workspace with what the given reader sees of its log. -/
def seenBy (w : Workspace) (reader : Option Int) : Workspace :=
  { w with events := w.events.filter (·.isShown reader), reader }

theorem hear_seenBy {w : Workspace} {e : Event} (hw : w.reader = some 3) (he : e.isNote = false)
    (reader : Option Int) : (w.seenBy reader).hear e = (w.hear e).seenBy reader := by
  unfold hear
  rw [hw, e.isHeard_of_three he, if_pos rfl, show (w.seenBy reader).reader = reader from rfl,
    e.isHeard_eq_isShown he]
  unfold seenBy
  rw [List.filter_cons]
  split <;> rfl

/-- **No step heeds its reader**: what a reader of verbosity three sees of all that is told, and what another reader
sees, stay in step. -/
theorem heedless_seenBy (reader : Option Int) :
    Heedless fun w v : Workspace => w.reader = some 3 ∧ v = w.seenBy reader where
  disk := by
    rintro w _ ⟨-, rfl⟩
    rfl
  catalogue := by
    rintro w _ ⟨-, rfl⟩
    rfl
  change := by
    rintro w _ ⟨hw, rfl⟩ d c
    exact ⟨hw, rfl⟩
  hear := by
    rintro w _ ⟨hw, rfl⟩ e he
    exact ⟨(w.reader_hear e).trans hw, hear_seenBy hw he reader⟩

end Workspace

/-- **The verbosity makes no difference but to the log**: each expansion and each build ends in the same way for every
reader, with the same page, the same files and the same memory, and the reader sees of it exactly the entries of the
whole log whose label is meant for its verbosity, in order. -/
theorem run_of_reader (w : Workspace) :
    (∀ (native : NativeSet) (ceiling : Nat) (page : Draft), ∃ result draft full,
      (Draft.expand native ceiling).run.run ⟨page, w.followedBy (some 3)⟩ = (result, ⟨draft, full⟩) ∧
      ∀ reader, ∃ seen, (Draft.expand native ceiling).run.run ⟨page, w.followedBy reader⟩ = (result, ⟨draft, seen⟩) ∧
        seen.disk = full.disk ∧ seen.catalogue = full.catalogue ∧ seen.log = full.log.filter (·.isShown reader)) ∧
    ∀ o : SiteOptions, ∃ result full,
      (Site.build o).run.run (w.followedBy (some 3)) = (result, full) ∧
      ∀ reader, ∃ seen, (Site.build o).run.run (w.followedBy reader) = (result, seen) ∧
        seen.disk = full.disk ∧ seen.catalogue = full.catalogue ∧ seen.log = full.log.filter (·.isShown reader) := by
  constructor
  · intro native ceiling page
    rcases hfull : (Draft.expand native ceiling).run.run ⟨page, w.followedBy (some 3)⟩ with ⟨result, draft, full⟩
    refine ⟨result, draft, full, rfl, fun reader => ?_⟩
    obtain ⟨_, _, _, _, hfull', hseen, ⟨-, rfl⟩, -⟩ :=
      Draft.alike_expand ((Workspace.heedless_seenBy reader).consults native) ceiling page
        (w := w.followedBy (some 3)) (v := w.followedBy reader) ⟨rfl, rfl⟩
    cases hfull.symm.trans hfull'
    exact ⟨_, hseen, rfl, rfl, List.filter_reverse.symm⟩
  · intro o
    rcases hfull : (Site.build o).run.run (w.followedBy (some 3)) with ⟨result, full⟩
    refine ⟨result, full, rfl, fun reader => ?_⟩
    obtain ⟨_, _, _, hfull', hseen, -, rfl⟩ :=
      @Site.alike_build _ (Workspace.heedless_seenBy reader) o (w.followedBy (some 3)) (w.followedBy reader) ⟨rfl, rfl⟩
    cases hfull.symm.trans hfull'
    exact ⟨_, hseen, rfl, rfl, List.filter_reverse.symm⟩

end Inlay

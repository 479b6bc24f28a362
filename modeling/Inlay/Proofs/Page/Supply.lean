import Inlay.Page.Expansion
import Inlay.Proofs.Run

/-!
# What the lookups of templates answer

An expansion uses the disk for two questions only: whether there is a template for a name, and what
it holds. The answers do not change during a run, and a catalogue that remembers gives the same ones
as the disk, as long as what it remembers came from that disk.

* `Supply` — the answers to the two questions, name by name.
* `Workspace.supply` — the answers of a workspace's disk, asked without memory.
* `Workspace.lookups` — the answers that a run on the workspace gets, remembered or from the disk.
* `Workspace.Reliable` — what the catalogue remembers is what the disk answers.
* `Workspace.holding` — a workspace made from a table of templates.
* `Workspace.Learns` — what a step that only looks up and tells may change.
* `Workspace.Recalls` — a catalogue that remembers what a workspace answers.
* `Action.Answers` — on every workspace with the given lookups a step ends as stated and leaves behind
  nothing but learning.

Main statements: `answers_contains` and `answers_load` (the catalogue's answers are the lookups, and asking
does not change them), `Workspace.Reliable.lookups` (on a reliable workspace they are the disk's),
`Workspace.reliable_of_forgetful` (a fresh catalogue is reliable).
-/

namespace Inlay

/-- What the lookups of component templates answer. -/
@[ext]
structure Supply where
  contains : Text → Except Failure Bool
  load : Text → Except Failure Text

/-- The text of a file, its line ends unified. -/
def Disk.readText (d : Disk) (file : Path) : Except Failure Text :=
  match d.readBytes file with
  | .error e => .error (.disk e)
  | .ok bytes =>
    match Utf8.decode bytes with
    | .ok t => .ok (Text.unifyLineEnds t)
    | .error fault => .error (.undecodable fault)

theorem Disk.readText_eq_ok_iff {d : Disk} {file : Path} {text : Text} :
    d.readText file = .ok text ↔ ∃ content t, d.readBytes file = .ok content ∧
      Utf8.decode content = .ok t ∧ text = Text.unifyLineEnds t := by
  unfold readText
  cases d.readBytes file with
  | error e => simp
  | ok content => cases hd : Utf8.decode content <;> simp [hd, eq_comm]

namespace Catalogue

/-- Where the templates lie is told by the directory and the extension. -/
theorem templateFile_congr {c c' : Catalogue} (hdirectory : c.directory = c'.directory)
    (hextension : c.extension = c'.extension) : c.templateFile = c'.templateFile := by
  funext name
  unfold templateFile
  rw [hdirectory, hextension]

/-- What is put in front of a table is found under its own name, and nothing else is found there. -/
theorem lookup_cons_eq_ite {α : Type} (name other : Text) (a : α) (table : List (Text × α)) :
    ((name, a) :: table).lookup other = if other = name then some a else table.lookup other := by
  rw [List.lookup_cons]
  by_cases h : other = name
  · rw [if_pos h, beq_iff_eq.mpr h]
  · rw [if_neg h, beq_eq_false_iff_ne.mpr h]

theorem recalled_remember (c : Catalogue) (name other : Text) (answer : Bool) :
    (c.remember name answer).recalled other =
      if c.remembering ∧ other = name then some answer else c.recalled other := by
  unfold Catalogue.remember Catalogue.recalled
  cases hr : c.remembering with
  | false => simp [hr]
  | true => simp [lookup_cons_eq_ite]

theorem recalledText_rememberText (c : Catalogue) (name other text : Text) :
    (c.rememberText name text).recalledText other =
      if c.remembering ∧ other = name then some text else c.recalledText other := by
  unfold Catalogue.rememberText Catalogue.recalledText
  cases hr : c.remembering with
  | false => simp [hr]
  | true => simp [lookup_cons_eq_ite]

end Catalogue

namespace Workspace

/-- The answers of the disk, asked without memory. -/
def supply (w : Workspace) : Supply where
  contains name := (w.disk.isFile (w.catalogue.templateFile name)).mapError .disk
  load name :=
    match w.disk.isFile (w.catalogue.templateFile name) with
    | .error e => .error (.disk e)
    | .ok false => .error (.noComponent name (w.catalogue.templateFile name))
    | .ok true => w.disk.readText (w.catalogue.templateFile name)

/-- What the catalogue remembers is what the disk answers. -/
structure Reliable (w : Workspace) : Prop where
  existence : ∀ {name answer}, w.catalogue.recalled name = some answer →
    w.supply.contains name = .ok answer
  templates : ∀ {name text}, w.catalogue.recalledText name = some text →
    w.supply.load name = .ok text

/-- A catalogue that remembers nothing, such as a fresh one, is reliable. -/
theorem reliable_of_forgetful {w : Workspace} (he : w.catalogue.existence = [])
    (ht : w.catalogue.templates = []) : w.Reliable := by
  constructor
  · intro name answer h
    simp [Catalogue.recalled, he] at h
  · intro name text h
    simp [Catalogue.recalledText, ht] at h

/-- A workspace whose disk holds the given templates and nothing else, with a fresh catalogue. -/
def holding (templates : List (Text × Text)) : Workspace where
  disk :=
    { working := []
      entries := (["site".toList], .directory) :: templates.flatMap fun t =>
        [(["site".toList, t.1], .directory),
          (["site".toList, t.1, t.1 ++ ".html".toList], .file (Utf8.encode t.2))] }
  catalogue := { directory := ⟨.working, ["site".toList]⟩ }

theorem reliable_holding (templates : List (Text × Text)) : (holding templates).Reliable :=
  reliable_of_forgetful rfl rfl

/-- Whether the catalogue knows of a template: what it remembers, and else what the disk answers. -/
def knows (w : Workspace) (name : Text) : Except Failure Bool :=
  match w.catalogue.recalled name with
  | some answer => .ok answer
  | none => w.supply.contains name

/-- The answers that a run on the workspace gets: what the catalogue remembers, and else what the disk
answers. -/
def lookups (w : Workspace) : Supply where
  contains := w.knows
  load name :=
    match w.catalogue.recalledText name with
    | some text => .ok text
    | none =>
      match w.knows name with
      | .error f => .error f
      | .ok false => .error (.noComponent name (w.catalogue.templateFile name))
      | .ok true => w.disk.readText (w.catalogue.templateFile name)

variable {w w₁ w₂ : Workspace} {name text : Text} {answer : Bool}

theorem supply_contains_eq_ok_iff :
    w.supply.contains name = .ok answer ↔
      w.disk.isFile (w.catalogue.templateFile name) = .ok answer := by
  unfold supply
  dsimp only
  cases w.disk.isFile (w.catalogue.templateFile name) <;> simp [Except.mapError]

theorem knows_of_recalled (h : w.catalogue.recalled name = some answer) : w.knows name = .ok answer := by
  unfold knows
  rw [h]

theorem knows_of_not_recalled (h : w.catalogue.recalled name = none) :
    w.knows name = w.supply.contains name := by
  unfold knows
  rw [h]

/-- An answer is remembered, or it is the disk's. -/
theorem contains_cases (h : w.lookups.contains name = .ok answer) :
    w.catalogue.recalled name = some answer ∨ w.supply.contains name = .ok answer := by
  cases hr : w.catalogue.recalled name with
  | some recalled =>
    have hknows : w.lookups.contains name = .ok recalled := knows_of_recalled hr
    rw [hknows] at h
    exact .inl (congrArg some (Except.ok.inj h))
  | none => exact .inr ((knows_of_not_recalled hr).symm.trans h)

/-- What is remembered is no failure. -/
theorem supply_contains_of_error {f : Failure} (h : w.lookups.contains name = .error f) :
    w.supply.contains name = .error f := by
  cases hr : w.catalogue.recalled name with
  | some recalled => cases (knows_of_recalled hr).symm.trans h
  | none => exact (knows_of_not_recalled hr).symm.trans h

theorem load_of_recalledText (h : w.catalogue.recalledText name = some text) :
    w.lookups.load name = .ok text := by
  unfold lookups
  simp only [h]

/-- A text that is not remembered is read where a template is known of. -/
theorem load_of_not_recalledText (h : w.catalogue.recalledText name = none) :
    w.lookups.load name =
      match w.knows name with
      | .error f => .error f
      | .ok false => .error (.noComponent name (w.catalogue.templateFile name))
      | .ok true => w.disk.readText (w.catalogue.templateFile name) := by
  unfold lookups
  simp only [h]

/-- On a reliable workspace the answers are the disk's. -/
theorem Reliable.lookups (hw : w.Reliable) : w.lookups = w.supply := by
  have hknows : w.knows = w.supply.contains := by
    funext name
    cases hr : w.catalogue.recalled name with
    | none => exact knows_of_not_recalled hr
    | some answer => rw [knows_of_recalled hr, hw.existence hr]
  have hload : w.lookups.load = w.supply.load := by
    funext name
    cases ht : w.catalogue.recalledText name with
    | some text => rw [load_of_recalledText ht, hw.templates ht]
    | none =>
      rw [load_of_not_recalledText ht, hknows]
      unfold supply
      dsimp only
      cases w.disk.isFile (w.catalogue.templateFile name) with
      | error e => rfl
      | ok answer => cases answer <;> rfl
  exact Supply.ext hknows hload

/-- The workspace `w'` differs from `w` only in what has been told and remembered, and what is remembered
is what `w` answers. The same reader follows both. -/
structure Learns (w w' : Workspace) : Prop where
  disk : w'.disk = w.disk
  directory : w'.catalogue.directory = w.catalogue.directory
  extension : w'.catalogue.extension = w.catalogue.extension
  lookups : w'.lookups = w.lookups
  reader : w'.reader = w.reader

namespace Learns

theorem refl (w : Workspace) : w.Learns w := ⟨rfl, rfl, rfl, rfl, rfl⟩

theorem trans (h₁ : w.Learns w₁) (h₂ : w₁.Learns w₂) : w.Learns w₂ :=
  ⟨h₂.disk.trans h₁.disk, h₂.directory.trans h₁.directory, h₂.extension.trans h₁.extension,
    h₂.lookups.trans h₁.lookups, h₂.reader.trans h₁.reader⟩

end Learns

theorem learns_tell (w : Workspace) (events : Log) : w.Learns { w with events := events } :=
  ⟨rfl, rfl, rfl, rfl, rfl⟩

theorem learns_hear (w : Workspace) (e : Event) : w.Learns (w.hear e) := by
  obtain ⟨log, h⟩ := w.exists_hear_eq e
  rw [h]
  exact w.learns_tell log

/-- A catalogue that remembers more learns, if what it remembers is what the workspace answers. -/
theorem learns_of_recalled {c : Catalogue} (hdirectory : c.directory = w.catalogue.directory)
    (hextension : c.extension = w.catalogue.extension)
    (hexistence : ∀ name, c.recalled name = w.catalogue.recalled name ∨
      ∃ answer, w.knows name = .ok answer ∧ c.recalled name = some answer)
    (htemplates : ∀ name, c.recalledText name = w.catalogue.recalledText name ∨
      ∃ text, w.lookups.load name = .ok text ∧ c.recalledText name = some text) :
    w.Learns { w with catalogue := c } := by
  have hfile := Catalogue.templateFile_congr hdirectory hextension
  have hsupply : ({ w with catalogue := c } : Workspace).supply = w.supply := by
    unfold supply
    rw [hfile]
  have hknows : ({ w with catalogue := c } : Workspace).knows = w.knows := by
    funext name
    rcases hexistence name with h | ⟨answer, ha, h⟩
    · unfold knows
      rw [hsupply, h]
    · rw [ha]
      exact knows_of_recalled h
  refine ⟨rfl, hdirectory, hextension, Supply.ext hknows (funext fun name => ?_), rfl⟩
  rcases htemplates name with h | ⟨text, ht, h⟩
  · unfold lookups
    dsimp only
    rw [hknows, hfile, h]
  · rw [ht]
    exact load_of_recalledText h

theorem learns_remember (h : w.knows name = .ok answer) :
    w.Learns { w with catalogue := w.catalogue.remember name answer } := by
  refine learns_of_recalled ?_ ?_ (fun other => ?_) (fun other => .inl ?_)
  · unfold Catalogue.remember
    split <;> rfl
  · unfold Catalogue.remember
    split <;> rfl
  · rw [Catalogue.recalled_remember]
    split
    · rename_i hother
      obtain ⟨-, rfl⟩ := hother
      exact .inr ⟨answer, h, rfl⟩
    · exact .inl rfl
  · unfold Catalogue.remember
    split <;> rfl

theorem learns_rememberText (h : w.lookups.load name = .ok text) :
    w.Learns { w with catalogue := w.catalogue.rememberText name text } := by
  refine learns_of_recalled ?_ ?_ (fun other => .inl ?_) (fun other => ?_)
  · unfold Catalogue.rememberText
    split <;> rfl
  · unfold Catalogue.rememberText
    split <;> rfl
  · unfold Catalogue.rememberText
    split <;> rfl
  · rw [Catalogue.recalledText_rememberText]
    split
    · rename_i hother
      obtain ⟨-, rfl⟩ := hother
      exact .inr ⟨text, h, rfl⟩
    · exact .inl rfl

/-- The catalogue has the directory and the extension of the workspace's, and what it remembers is what the
workspace answers. -/
structure Recalls (w : Workspace) (c : Catalogue) : Prop where
  directory : c.directory = w.catalogue.directory
  extension : c.extension = w.catalogue.extension
  existence : ∀ {name answer}, c.recalled name = some answer → w.lookups.contains name = .ok answer
  templates : ∀ {name text}, c.recalledText name = some text → w.lookups.load name = .ok text

theorem Learns.recalls (h : w.Learns w₁) : w.Recalls w₁.catalogue where
  directory := h.directory
  extension := h.extension
  existence hr := h.lookups ▸ knows_of_recalled hr
  templates hr := h.lookups ▸ load_of_recalledText hr

/-- What a workspace recalls that has learned, the workspace before recalls. -/
theorem Learns.recalls_of {c : Catalogue} (h : w.Learns w₁) (hc : w₁.Recalls c) : w.Recalls c where
  directory := hc.directory.trans h.directory
  extension := hc.extension.trans h.extension
  existence hr := h.lookups ▸ hc.existence hr
  templates hr := h.lookups ▸ hc.templates hr

theorem Recalls.templateFile {c : Catalogue} (h : w.Recalls c) : c.templateFile = w.catalogue.templateFile :=
  Catalogue.templateFile_congr h.directory h.extension

end Workspace

/-! ## Questions -/

theorem run_ask {α : Type} (question : Disk → Except DiskError α) (w : Workspace) :
    (Action.ask question).run.run w = ((question w.disk).mapError .disk, w) := by
  unfold Action.ask
  rw [run_get_bind]
  cases question w.disk <;> rfl

theorem run_readText (file : Path) (w : Workspace) :
    (Action.readText file).run.run w = (w.disk.readText file, w) := by
  unfold Action.readText Disk.readText
  rw [run_bind, run_ask]
  cases w.disk.readBytes file with
  | error e => rfl
  | ok bytes =>
    simp only [Except.mapError]
    cases Utf8.decode bytes <;> rfl

/-! ## Steps that only look up and tell -/

namespace Action

variable {α : Type} {s : Supply}

/-- On every workspace with the lookups `s` the step ends with `result` and leaves behind nothing but
learning. -/
def Answers (s : Supply) (step : Action α) (result : Except Failure α) : Prop :=
  ∀ w : Workspace, w.lookups = s → ∃ w' : Workspace, w.Learns w' ∧ step.run.run w = (result, w')

theorem Answers.pure (a : α) : Answers s (Pure.pure a) (.ok a) :=
  fun w _ => ⟨w, .refl w, rfl⟩

theorem Answers.tell (e : Event) : Answers s (Action.tell e) (.ok ()) :=
  fun w _ => ⟨w.hear e, w.learns_hear e, rfl⟩

end Action

/-- The catalogue knows of a template exactly when the lookups do. -/
theorem answers_contains (s : Supply) (name : Text) :
    Action.Answers s (Catalogue.contains name) (s.contains name) := by
  intro w hs
  subst hs
  unfold Catalogue.contains
  rw [run_get_bind]
  dsimp only
  cases hr : w.catalogue.recalled name with
  | some answer =>
    exact ⟨w, .refl w, by rw [show w.lookups.contains name = _ from Workspace.knows_of_recalled hr]; rfl⟩
  | none =>
    have hsupply : w.lookups.contains name = _ := Workspace.knows_of_not_recalled hr
    simp only [run_bind, run_ask]
    cases hf : w.disk.isFile (w.catalogue.templateFile name) with
    | error e =>
      exact ⟨w, .refl w, by rw [hsupply]; simp only [Workspace.supply, hf, Except.mapError]⟩
    | ok answer =>
      have ha : w.lookups.contains name = .ok answer := by
        rw [hsupply, Workspace.supply_contains_eq_ok_iff, hf]
      exact ⟨_, Workspace.learns_remember ha, by rw [ha]; rfl⟩

/-- What the catalogue loads is what the lookups hold. -/
theorem answers_load (s : Supply) (name : Text) :
    Action.Answers s (Catalogue.load name) (s.load name) := by
  intro w hs
  subst hs
  unfold Catalogue.load
  rw [run_get_bind]
  dsimp only
  cases hr : w.catalogue.recalledText name with
  | some text => exact ⟨w, .refl w, by rw [Workspace.load_of_recalledText hr, run_pure]⟩
  | none =>
    have hload := Workspace.load_of_not_recalledText hr
    obtain ⟨w₁, hl, h₁⟩ : ∃ w₁, w.Learns w₁ ∧ (Catalogue.contains name).run.run w = (w.knows name, w₁) :=
      answers_contains w.lookups name w rfl
    simp only [run_bind, h₁]
    cases hc : w.knows name with
    | error f => exact ⟨w₁, hl, by rw [hload, hc]⟩
    | ok answer =>
      rw [hc] at hload
      cases answer with
      | false => exact ⟨w₁, hl, by rw [hload]; rfl⟩
      | true =>
        simp only [if_true, run_bind, run_readText, hl.disk]
        cases ht : w.disk.readText (w.catalogue.templateFile name) with
        | error f => exact ⟨w₁, hl, by rw [hload, ht]⟩
        | ok text =>
          have hl₂ := hl.trans (w₁.learns_hear (.templateLoaded name (w.catalogue.templateFile name)))
          have htext := hl₂.lookups ▸ hload.trans ht
          refine ⟨_, hl₂.trans (Workspace.learns_rememberText htext), ?_⟩
          rw [hload, ht]
          rfl

end Inlay

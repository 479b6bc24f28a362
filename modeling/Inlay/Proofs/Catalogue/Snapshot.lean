import Inlay.Proofs.Site.Discovery

/-!
# A catalogue that remembers is a snapshot, name by name

Whether there is a template for a name, and what it holds, are remembered apart from each other: the one by every
lookup that the disk answers, the other only when a text has been read. In between the files may change in any
way. Still the replies of one catalogue never contradict each other.

* `Call`, `Reply` — a call of a catalogue, and what it comes back with.
* `Workspace.replies` — the replies to calls each of which finds a disk of its own.
* `Catalogue.Coherent` — a text is remembered only of a template that is known of.
* `Catalogue.Retains` — what is remembered stays remembered.
* `Catalogue.Governs`, `Catalogue.Holds` — a reply that follows from what is remembered, and one that is
  remembered.
* `Catalogue.Frozen` — replies that agree with each other about each name.

Main statements: `Workspace.call_spec` (one call), `Workspace.exists_holding` and `Workspace.exists_governing` (all
calls), `replies_frozen`.
-/

namespace Inlay

/-- A call of a catalogue. -/
inductive Call where
  | contains (name : Text)
  | load (name : Text)
  | names
  deriving DecidableEq, Repr

/-- What a call has come back with. -/
inductive Reply where
  | contains (name : Text) (answer : Except Failure Bool)
  | load (name : Text) (answer : Except Failure Text)
  | names (answer : Except Failure (List Text))

namespace Workspace

/-- The same workspace with a catalogue that has looked up nothing yet. -/
def afresh (w : Workspace) (remembering : Bool) : Workspace :=
  { w with
    catalogue := { directory := w.catalogue.directory, extension := w.catalogue.extension, remembering } }

/-- A call, with its reply. -/
def call (w : Workspace) : Call → Reply × Workspace
  | .contains name => ((Catalogue.contains name).run.run w).map (.contains name) id
  | .load name => ((Catalogue.load name).run.run w).map (.load name) id
  | .names => (Catalogue.names.run.run w).map .names id

/-- The replies to calls, each of which finds the disk that stands beside it: between two calls files may have been
written and removed in any way. -/
def replies (w : Workspace) : List (Disk × Call) → List Reply
  | [] => []
  | (d, c) :: rest => (({ w with disk := d }).call c).1 :: (({ w with disk := d }).call c).2.replies rest

end Workspace

/-! ## What is remembered -/

namespace Catalogue

/-- The catalogue remembers, and a text only of a template that it knows of. -/
structure Coherent (c : Catalogue) : Prop where
  remembering : c.remembering = true
  known : ∀ {name text}, c.recalledText name = some text → c.recalled name = some true

/-- What `c` remembers, `c'` remembers too. -/
structure Retains (c c' : Catalogue) : Prop where
  templateFile : c'.templateFile = c.templateFile
  remembering : c'.remembering = c.remembering
  existence : ∀ {name answer}, c.recalled name = some answer → c'.recalled name = some answer
  templates : ∀ {name text}, c.recalledText name = some text → c'.recalledText name = some text
  coherent : c.Coherent → c'.Coherent

/-- The reply follows from what is remembered, if anything is remembered about it. -/
def Governs (c : Catalogue) : Reply → Prop
  | .contains name answer => ∀ b, c.recalled name = some b → answer = .ok b
  | .load name answer =>
    (∀ text, c.recalledText name = some text → answer = .ok text) ∧
      (c.recalled name = some false → answer = .error (.noComponent name (c.templateFile name)))
  | .names _ => True

/-- What the reply tells is remembered. -/
def Holds (c : Catalogue) : Reply → Prop
  | .contains name answer => ∀ b, answer = .ok b → c.recalled name = some b
  | .load name answer => ∀ text, answer = .ok text → c.recalledText name = some text
  | .names answer => ∀ listed, answer = .ok listed → ∀ name ∈ listed, c.recalled name = some true

variable {c c' c'' : Catalogue} {name text : Text} {answer : Bool}

theorem coherent_afresh (w : Workspace) : (w.afresh true).catalogue.Coherent where
  remembering := rfl
  known h := by cases h

namespace Retains

theorem refl (c : Catalogue) : c.Retains c := ⟨rfl, rfl, id, id, id⟩

theorem trans (h : c.Retains c') (h' : c'.Retains c'') : c.Retains c'' where
  templateFile := h'.templateFile.trans h.templateFile
  remembering := h'.remembering.trans h.remembering
  existence hr := h'.existence (h.existence hr)
  templates hr := h'.templates (h.templates hr)
  coherent hc := h'.coherent (h.coherent hc)

/-- What is remembered governs the reply from the beginning on. -/
theorem governs {r : Reply} (h : c.Retains c') (hr : c'.Governs r) : c.Governs r := by
  cases r with
  | contains name answer => exact fun b hb => hr b (h.existence hb)
  | load name answer =>
    obtain ⟨htext, hdenied⟩ := hr
    refine ⟨fun text ht => htext text (h.templates ht), fun hf => ?_⟩
    rw [hdenied (h.existence hf), h.templateFile]
  | names answer => trivial

/-- What a reply has told stays remembered. -/
theorem holds {r : Reply} (h : c.Retains c') (hr : c.Holds r) : c'.Holds r := by
  cases r with
  | contains name answer => exact fun b hb => h.existence (hr b hb)
  | load name answer => exact fun text ht => h.templates (hr text ht)
  | names answer => exact fun listed hl name hn => h.existence (hr listed hl name hn)

end Retains

theorem remembering_remember (c : Catalogue) (name : Text) (answer : Bool) :
    (c.remember name answer).remembering = c.remembering := by
  unfold remember
  split <;> rfl

theorem remembering_rememberText (c : Catalogue) (name text : Text) :
    (c.rememberText name text).remembering = c.remembering := by
  unfold rememberText
  split <;> rfl

theorem recalledText_remember (c : Catalogue) (name other : Text) (answer : Bool) :
    (c.remember name answer).recalledText other = c.recalledText other := by
  unfold remember
  split <;> rfl

theorem recalled_rememberText (c : Catalogue) (name text other : Text) :
    (c.rememberText name text).recalled other = c.recalled other := by
  unfold rememberText
  split <;> rfl

/-- An answer is remembered where none was. -/
theorem retains_remember (h : c.recalled name = none) : c.Retains (c.remember name answer) := by
  have hkept : ∀ {other b}, c.recalled other = some b → (c.remember name answer).recalled other = some b := by
    intro other b hb
    rw [recalled_remember, if_neg, hb]
    rintro ⟨-, rfl⟩
    rw [h] at hb
    cases hb
  refine ⟨?_, remembering_remember .., hkept, fun ht => by rwa [recalledText_remember], fun hc =>
    ⟨(remembering_remember ..).trans hc.remembering, fun ht => ?_⟩⟩
  · unfold remember
    split <;> rfl
  · exact hkept (hc.known (by rwa [recalledText_remember] at ht))

/-- A text is remembered where none was, of a template that is known of. -/
theorem retains_rememberText (h : c.recalledText name = none)
    (hknown : c.remembering = true → c.recalled name = some true) : c.Retains (c.rememberText name text) := by
  refine ⟨?_, remembering_rememberText .., fun hb => by rwa [recalled_rememberText], fun {other t} ht => ?_,
    fun hc => ⟨(remembering_rememberText ..).trans hc.remembering, fun ht => ?_⟩⟩
  · unfold rememberText
    split <;> rfl
  · rw [recalledText_rememberText, if_neg, ht]
    rintro ⟨-, rfl⟩
    rw [h] at ht
    cases ht
  · rw [recalled_rememberText]
    rw [recalledText_rememberText] at ht
    split at ht
    · rename_i hother
      obtain ⟨hr, rfl⟩ := hother
      exact hknown hr
    · exact hc.known ht

end Catalogue

/-! ## One call -/

open Catalogue (Retains)

/-- A catalogue asks the disk only for what it does not remember. -/
theorem run_contains (name : Text) (w : Workspace) :
    (Catalogue.contains name).run.run w =
      match w.catalogue.recalled name with
      | some answer => (.ok answer, w)
      | none =>
        match w.disk.isFile (w.catalogue.templateFile name) with
        | .error e => (.error (.disk e), w)
        | .ok answer => (.ok answer, { w with catalogue := w.catalogue.remember name answer }) := by
  unfold Catalogue.contains
  rw [run_get_bind]
  dsimp only
  cases w.catalogue.recalled name with
  | some answer => rfl
  | none =>
    simp only [run_bind, run_ask]
    cases w.disk.isFile (w.catalogue.templateFile name) <;> rfl

/-- A text that is not remembered is read where the catalogue knows of a template. -/
theorem run_load (name : Text) (w : Workspace) :
    (Catalogue.load name).run.run w =
      match w.catalogue.recalledText name with
      | some text => (.ok text, w)
      | none =>
        match (Catalogue.contains name).run.run w with
        | (.error f, w₁) => (.error f, w₁)
        | (.ok false, w₁) => (.error (.noComponent name (w.catalogue.templateFile name)), w₁)
        | (.ok true, w₁) =>
          match w₁.disk.readText (w.catalogue.templateFile name) with
          | .error f => (.error f, w₁)
          | .ok text =>
            (.ok text,
              { w₁.hear (.templateLoaded name (w.catalogue.templateFile name)) with
                catalogue := w₁.catalogue.rememberText name text }) := by
  unfold Catalogue.load
  rw [run_get_bind]
  dsimp only
  cases w.catalogue.recalledText name with
  | some text => rfl
  | none =>
    rw [run_bind]
    rcases (Catalogue.contains name).run.run w with ⟨f | _ | _, w₁⟩
    · rfl
    · rfl
    · dsimp only
      rw [if_pos rfl, run_bind, run_readText]
      cases w₁.disk.readText (w.catalogue.templateFile name) with
      | error f => rfl
      | ok text =>
        rw [← w₁.catalogue_hear (.templateLoaded name (w.catalogue.templateFile name))]
        rfl

namespace Catalogue

/-- What a call that replies `r` makes of the catalogue: what is remembered governs the reply, and stays, and the
reply is remembered as well. -/
structure Follows (c : Catalogue) (r : Reply) (c' : Catalogue) : Prop where
  retains : c.Retains c'
  governs : c.Coherent → c.Governs r
  holds : c.remembering = true → c'.Holds r

end Catalogue

theorem follows_contains {w w' : Workspace} {name : Text} {answer : Except Failure Bool}
    (h : (Catalogue.contains name).run.run w = (answer, w')) :
    w.catalogue.Follows (.contains name answer) w'.catalogue := by
  rw [run_contains] at h
  cases hr : w.catalogue.recalled name with
  | some b =>
    rw [hr] at h
    cases h
    exact ⟨.refl _, fun _ b' hb' => by rw [Option.some.inj (hr.symm.trans hb')],
      fun _ b' hb' => by rw [hr, Except.ok.inj hb']⟩
  | none =>
    have hgoverns : w.catalogue.Governs (.contains name answer) := fun b hb => by rw [hr] at hb; cases hb
    rw [hr] at h
    dsimp only at h
    split at h
    · cases h
      exact ⟨.refl _, fun _ => hgoverns, fun _ b hb => nomatch hb⟩
    · rename_i b hfile
      cases h
      refine ⟨Catalogue.retains_remember hr, fun _ => hgoverns, fun hc b' hb' => ?_⟩
      rw [Catalogue.recalled_remember, if_pos ⟨hc, rfl⟩, Except.ok.inj hb']

/-- Asking whether there is a template reads none. -/
theorem recalledText_of_run_contains {w w' : Workspace} {name : Text} {answer : Except Failure Bool}
    (h : (Catalogue.contains name).run.run w = (answer, w')) :
    w'.catalogue.recalledText = w.catalogue.recalledText := by
  rw [run_contains] at h
  split at h
  · cases h
    rfl
  · split at h
    · cases h
      rfl
    · cases h
      exact funext fun other => Catalogue.recalledText_remember ..

theorem follows_load {w w' : Workspace} {name : Text} {answer : Except Failure Text}
    (h : (Catalogue.load name).run.run w = (answer, w')) :
    w.catalogue.Follows (.load name answer) w'.catalogue := by
  rw [run_load] at h
  cases ht : w.catalogue.recalledText name with
  | some text =>
    rw [ht] at h
    cases h
    refine ⟨.refl _, fun hc => ⟨fun text' ht' => by rw [Option.some.inj (ht.symm.trans ht')], fun hf => ?_⟩,
      fun _ text' ht' => by rw [ht, Except.ok.inj ht']⟩
    -- A text is not remembered where the template is denied.
    rw [hc.known ht] at hf
    cases hf
  | none =>
    rw [ht] at h
    dsimp only at h
    rcases hrun : (Catalogue.contains name).run.run w with ⟨found, w₁⟩
    have hfirst := follows_contains hrun
    have hnone : w₁.catalogue.recalledText name = none := by rw [recalledText_of_run_contains hrun, ht]
    -- Nothing is remembered of the text, so only a denied template governs the reply.
    have hgoverns : (w.catalogue.Coherent → w.catalogue.recalled name = some false →
        answer = .error (.noComponent name (w.catalogue.templateFile name))) →
          w.catalogue.Coherent → w.catalogue.Governs (.load name answer) :=
      fun hf hc => ⟨fun text ht' => (nomatch ht.symm.trans ht'), hf hc⟩
    rw [hrun] at h
    match found, hfirst, h with
    | .error f, hfirst, h =>
      cases h
      refine ⟨hfirst.retains, hgoverns fun hc hf => ?_, fun _ _ h => nomatch h⟩
      cases hfirst.governs hc false hf
    | .ok false, hfirst, h =>
      cases h
      exact ⟨hfirst.retains, hgoverns fun _ _ => rfl, fun _ _ h => nomatch h⟩
    | .ok true, hfirst, h =>
      have hdenied : w.catalogue.Coherent → w.catalogue.recalled name = some false →
          answer = .error (.noComponent name (w.catalogue.templateFile name)) :=
        fun hc hf => nomatch hfirst.governs hc false hf
      dsimp only at h
      split at h
      · cases h
        exact ⟨hfirst.retains, hgoverns hdenied, fun _ _ h => nomatch h⟩
      · rename_i text hread
        cases h
        have hknown : w₁.catalogue.remembering = true → w₁.catalogue.recalled name = some true :=
          fun hr => hfirst.holds (hfirst.retains.remembering ▸ hr) true rfl
        refine ⟨hfirst.retains.trans (Catalogue.retains_rememberText hnone hknown), hgoverns hdenied,
          fun hr text' ht' => ?_⟩
        rw [Catalogue.recalledText_rememberText, if_pos ⟨hfirst.retains.remembering.trans hr, rfl⟩,
          Except.ok.inj ht']

/-- What a step keeps that a filter asks of one name after the other, the filter keeps. -/
theorem follows_filterM {step : Text → Action Bool}
    (hstep : ∀ {name answer w w'}, (step name).run.run w = (answer, w') →
      w.catalogue.Retains w'.catalogue ∧
        (w.catalogue.remembering = true → answer = .ok true → w'.catalogue.recalled name = some true))
    {names : List Text} {answer : Except Failure (List Text)} {w w' : Workspace}
    (h : (names.filterM step).run.run w = (answer, w')) :
    w.catalogue.Follows (.names answer) w'.catalogue := by
  induction names generalizing answer w w' with
  | nil =>
    cases h
    exact ⟨.refl _, fun _ => trivial, fun _ listed hl name hn => by cases hl; cases hn⟩
  | cons name rest ih =>
    rw [filterM_cons, run_bind] at h
    rcases hone : (step name).run.run w with ⟨first, w₁⟩
    obtain ⟨hretains, hkept⟩ := hstep hone
    rw [hone] at h
    cases first with
    | error f =>
      cases h
      exact ⟨hretains, fun _ => trivial, fun _ _ hl => nomatch hl⟩
    | ok b =>
      dsimp only at h
      rw [run_bind] at h
      rcases hrest : (rest.filterM step).run.run w₁ with ⟨others, w₂⟩
      have hothers := ih hrest
      have hretains' := hretains.trans hothers.retains
      rw [hrest] at h
      cases others with
      | error f =>
        cases h
        exact ⟨hretains', fun _ => trivial, fun _ _ hl => nomatch hl⟩
      | ok kept =>
        cases h
        refine ⟨hretains', fun _ => trivial, fun hr listed hl other hother => ?_⟩
        have hlater := hothers.holds (hretains.remembering.trans hr) kept rfl other
        cases hl
        cases b with
        | false => exact hlater hother
        | true =>
          rcases List.mem_cons.mp hother with rfl | hother
          · exact hothers.retains.existence (hkept hr rfl)
          · exact hlater hother

theorem follows_names {w w' : Workspace} {answer : Except Failure (List Text)}
    (h : Catalogue.names.run.run w = (answer, w')) :
    w.catalogue.Follows (.names answer) w'.catalogue := by
  unfold Catalogue.names at h
  rw [run_get_bind] at h
  dsimp only at h
  rw [run_bind, run_ask] at h
  have hnone : ∀ {w₁ : Workspace} {answer : Except Failure (List Text)},
      (∀ listed, answer = .ok listed → listed = []) → w₁.catalogue.Follows (.names answer) w₁.catalogue :=
    fun hl => ⟨.refl _, fun _ => trivial, fun _ listed h name hn => by rw [hl listed h] at hn; cases hn⟩
  match hdir : w.disk.isDirectory w.catalogue.directory, h with
  | .error e, h =>
    cases h
    exact hnone fun _ h => nomatch h
  | .ok false, h =>
    cases h
    exact hnone fun _ h => (Except.ok.inj h).symm
  | .ok true, h =>
    dsimp only [Except.mapError] at h
    rw [if_pos rfl, run_bind, run_ask, Disk.names_eq_ok_iff.mpr ⟨hdir, rfl⟩] at h
    dsimp only [Except.mapError] at h
    refine follows_filterM (fun {name answer w₁ w₂} h => ?_) h
    rw [run_bind, run_ask] at h
    match hentry : w₁.disk.isDirectory (w.catalogue.directory.child name), h with
    | .error e, h =>
      cases h
      exact ⟨.refl _, fun _ h => nomatch h⟩
    | .ok false, h =>
      cases h
      exact ⟨.refl _, fun _ h => nomatch h⟩
    | .ok true, h =>
      have hcall := follows_contains h
      exact ⟨hcall.retains, fun hr ha => hcall.holds hr true ha⟩

namespace Workspace

variable {w : Workspace} {visits : List (Disk × Call)}

/-- **One call** keeps what is remembered, replies what follows from it, and remembers the reply. -/
theorem call_spec (w : Workspace) (c : Call) :
    w.catalogue.Follows (w.call c).1 (w.call c).2.catalogue := by
  cases c with
  | contains name => exact follows_contains rfl
  | load name => exact follows_load rfl
  | names => exact follows_names rfl

/-! ## All calls -/

/-- What is remembered at the beginning governs all replies. -/
theorem governs_of_mem_replies (hw : w.catalogue.Coherent) {r : Reply} (h : r ∈ w.replies visits) :
    w.catalogue.Governs r := by
  induction visits generalizing w with
  | nil => cases h
  | cons visit rest ih =>
    have hcall := call_spec { w with disk := visit.1 } visit.2
    rcases List.mem_cons.mp h with rfl | h
    · exact hcall.governs hw
    · exact hcall.retains.governs (ih (hcall.retains.coherent hw) h)

/-- **In the end all replies are remembered.** -/
theorem exists_holding (hw : w.catalogue.Coherent) (visits : List (Disk × Call)) :
    ∃ c, w.catalogue.Retains c ∧ ∀ r ∈ w.replies visits, c.Holds r := by
  induction visits generalizing w with
  | nil => exact ⟨w.catalogue, .refl _, fun r h => nomatch h⟩
  | cons visit rest ih =>
    have hcall := call_spec { w with disk := visit.1 } visit.2
    obtain ⟨c, hretains, hholds⟩ := ih (hcall.retains.coherent hw)
    refine ⟨c, hcall.retains.trans hretains, fun r h => ?_⟩
    rcases List.mem_cons.mp h with rfl | h
    · exact hretains.holds (hcall.holds hw.remembering)
    · exact hholds r h

/-- A template that is denied is not loaded, neither before nor after. -/
theorem not_loaded_of_denied (hw : w.catalogue.Coherent) {name : Text}
    (hdenied : .contains name (.ok false) ∈ w.replies visits) (text : Text) :
    .load name (.ok text) ∉ w.replies visits := by
  intro hloaded
  obtain ⟨c, hretains, hholds⟩ := exists_holding hw visits
  have hfalse := hholds _ hdenied false rfl
  rw [(hretains.coherent hw).known (hholds _ hloaded text rfl)] at hfalse
  cases hfalse

/-- **What has been replied governs the replies behind it.** -/
theorem exists_governing (hw : w.catalogue.Coherent) {before after : List Reply} {r : Reply}
    (h : w.replies visits = before ++ r :: after) :
    ∃ c, w.catalogue.Retains c ∧ c.Holds r ∧ ∀ r' ∈ after, c.Governs r' := by
  induction visits generalizing w before with
  | nil => simp [replies] at h
  | cons visit rest ih =>
    have hcall := call_spec { w with disk := visit.1 } visit.2
    have hcoherent := hcall.retains.coherent hw
    cases before with
    | nil =>
      obtain ⟨rfl, rfl⟩ := List.cons.inj h
      exact ⟨_, hcall.retains, hcall.holds hw.remembering, fun r' h' => governs_of_mem_replies hcoherent h'⟩
    | cons first before =>
      obtain ⟨c, hretains, hrest⟩ := ih hcoherent (List.cons.inj h).2
      exact ⟨c, hcall.retains.trans hretains, hrest⟩

end Workspace

/-- Replies of the catalogue `c`, one after the other, that agree with each other about each name. -/
structure Catalogue.Frozen (c : Catalogue) (replies : List Reply) : Prop where
  /-- A template either exists or does not. -/
  existence : ∀ {name a b}, .contains name (.ok a) ∈ replies → .contains name (.ok b) ∈ replies → a = b
  /-- A template has one text. -/
  templates : ∀ {name t u}, .load name (.ok t) ∈ replies → .load name (.ok u) ∈ replies → t = u
  /-- A template that is denied was not loaded before, and no later call loads it. -/
  denied : ∀ {name before after}, replies = before ++ .contains name (.ok false) :: after →
    (∀ text, .load name (.ok text) ∉ before) ∧
      ∀ answer, .load name answer ∈ after → answer = .error (.noComponent name (c.templateFile name))
  /-- A template that is loaded is never denied, and every later call loads the same text. -/
  loaded : ∀ {name text before after}, replies = before ++ .load name (.ok text) :: after →
    .contains name (.ok false) ∉ replies ∧ ∀ answer, .load name answer ∈ after → answer = .ok text
  /-- A name that is listed is never denied. -/
  listed : ∀ {names name}, .names (.ok names) ∈ replies → name ∈ names → .contains name (.ok false) ∉ replies

/-- **A catalogue that remembers is a frozen snapshot**, whatever becomes of the files between its calls. -/
theorem replies_frozen (w : Workspace) (visits : List (Disk × Call)) :
    w.catalogue.Frozen ((w.afresh true).replies visits) := by
  have hw := Catalogue.coherent_afresh w
  obtain ⟨c, hretains, hholds⟩ := Workspace.exists_holding hw visits
  constructor
  case existence =>
    intro name a b ha hb
    exact Option.some.inj ((hholds _ ha a rfl).symm.trans (hholds _ hb b rfl))
  case templates =>
    intro name t u ht hu
    exact Option.some.inj ((hholds _ ht t rfl).symm.trans (hholds _ hu u rfl))
  case denied =>
    intro name before after hsplit
    have hdenied : .contains name (.ok false) ∈ (w.afresh true).replies visits := by simp [hsplit]
    obtain ⟨c', hretains', hreply, hlater⟩ := Workspace.exists_governing hw hsplit
    refine ⟨fun text hbefore => ?_, fun answer hafter => ?_⟩
    · refine Workspace.not_loaded_of_denied hw hdenied text ?_
      rw [hsplit]
      exact List.mem_append_left _ hbefore
    · rw [(hlater _ hafter).2 (hreply false rfl), hretains'.templateFile]
      rfl
  case loaded =>
    intro name text before after hsplit
    have hloaded : .load name (.ok text) ∈ (w.afresh true).replies visits := by simp [hsplit]
    obtain ⟨c', -, hreply, hlater⟩ := Workspace.exists_governing hw hsplit
    exact ⟨fun hdenied => Workspace.not_loaded_of_denied hw hdenied text hloaded,
      fun answer hafter => (hlater _ hafter).1 text (hreply text rfl)⟩
  case listed =>
    intro names name hnames hname hdenied
    have hfalse := hholds _ hdenied false rfl
    rw [hholds _ hnames names rfl name hname] at hfalse
    cases hfalse

set_option maxRecDepth 10000 in
/-- A template that is written after its name has been denied stays out of sight; one that is removed after it has
been loaded stays in sight. -/
example :
    let w := Workspace.holding [("card".toList, "<p><slot/></p>".toList)]
    let bare := Workspace.holding []
    (w.afresh true).replies [(bare.disk, .contains "card".toList), (w.disk, .load "card".toList)] =
        [.contains "card".toList (.ok false),
          .load "card".toList (.error (.noComponent "card".toList (.ofText "site/card/card.html".toList)))] ∧
      (w.afresh true).replies [(w.disk, .load "card".toList), (bare.disk, .load "card".toList)] =
        [.load "card".toList (.ok "<p><slot/></p>".toList), .load "card".toList (.ok "<p><slot/></p>".toList)] := by
  intro w bare
  exact ⟨by cbv, by cbv⟩

end Inlay

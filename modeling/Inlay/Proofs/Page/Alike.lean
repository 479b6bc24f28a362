import Inlay.Page.Expansion
import Inlay.Proofs.Markup.Scan
import Inlay.Proofs.Run

/-!
# Expansions that run alike

An expansion meets its workspace in three ways only: it asks whether there is a template, it loads one, and it tells.
So two workspaces on which these steps run alike are not told apart by any expansion. It asks for names of tags only,
and of native names it asks nothing.

* `Action.Alike` — a step that ends in the same way on workspaces that a relation relates, and leaves them related.
* `PageAction.Alike` — the same for a step on a page, with what its results have in common.
* `Markup.NativeSet.Addresses` — the names that an expansion may ask for.
* `Consults` — the relation is kept by everything that an expansion asks and tells.

Main statement: `Draft.alike_expand`.
-/

namespace Inlay

open Markup

variable {α β : Type} {R : Workspace → Workspace → Prop}

/-- On workspaces that `R` relates, the step ends in the same way, and `R` relates what it leaves. -/
def Action.Alike (R : Workspace → Workspace → Prop) (step : Action α) : Prop :=
  ∀ ⦃w v : Workspace⦄, R w v →
    ∃ result w' v', step.run.run w = (result, w') ∧ step.run.run v = (result, v') ∧ R w' v'

theorem Action.Alike.pure (a : α) : Action.Alike R (Pure.pure a) :=
  fun w v h => ⟨.ok a, w, v, rfl, rfl, h⟩

namespace PageAction

/-- On workspaces that `R` relates, the step, begun on the same page, ends in the same way and with the same page,
and `R` relates what it leaves. Its results satisfy `P`. -/
def Alike (R : Workspace → Workspace → Prop) (step : PageAction α) (P : α → Prop) : Prop :=
  ∀ (d : Draft) {w v : Workspace}, R w v →
    ∃ result d' w' v', step.run.run ⟨d, w⟩ = (result, ⟨d', w'⟩) ∧ step.run.run ⟨d, v⟩ = (result, ⟨d', v'⟩) ∧
      R w' v' ∧ ∀ a, result = .ok a → P a

variable {P : α → Prop} {Q : β → Prop}

theorem Alike.pure {a : α} (h : P a) : Alike R (Pure.pure a) P :=
  fun d {w v} hR => ⟨.ok a, d, w, v, rfl, rfl, hR, fun _ ha => Except.ok.inj ha ▸ h⟩

theorem Alike.bind {step : PageAction α} {next : α → PageAction β} (h : Alike R step P)
    (hnext : ∀ a, P a → Alike R (next a) Q) : Alike R (step >>= next) Q := by
  intro d w v hR
  obtain ⟨result, d', w', v', hw, hv, hR', hP⟩ := h d hR
  cases result with
  | error f => exact ⟨.error f, d', w', v', by rw [run_bind, hw], by rw [run_bind, hv], hR', fun _ h => nomatch h⟩
  | ok a =>
    obtain ⟨result, d'', w'', v'', hw', hv', hR'', hQ⟩ := hnext a (hP a rfl) d' hR'
    exact ⟨result, d'', w'', v'', by rw [run_bind, hw]; exact hw', by rw [run_bind, hv]; exact hv', hR'', hQ⟩

/-- A step that looks at its page, and not at its workspace, runs alike if it does whatever it sees. -/
theorem Alike.get_bind {next : PageState → PageAction β} (hdraft : ∀ d w v, next ⟨d, w⟩ = next ⟨d, v⟩)
    (h : ∀ s, Alike R (next s) Q) : Alike R (get >>= next) Q := by
  intro d w v hR
  obtain ⟨result, d', w', v', hw, hv, hrest⟩ := h ⟨d, w⟩ d hR
  rw [hdraft d w v] at hv
  exact ⟨result, d', w', v', hw, hv, hrest⟩

theorem Alike.lift {step : Action α} (h : Action.Alike R step)
    (hP : ∀ {w w' : Workspace} {a}, step.run.run w = (.ok a, w') → P a) : Alike R (PageAction.lift step) P := by
  intro d w v hR
  obtain ⟨result, w', v', hw, hv, hR'⟩ := h hR
  refine ⟨result, d, w', v', ?_, ?_, hR', fun a ha => hP (ha ▸ hw)⟩
  · unfold PageAction.lift
    rw [run_get_bind]
    dsimp only
    rw [hw]
    cases result <;> rfl
  · unfold PageAction.lift
    rw [run_get_bind]
    dsimp only
    rw [hv]
    cases result <;> rfl

theorem Alike.update (change : Draft → Draft) : Alike R (PageAction.update change) fun _ => True :=
  fun d {w v} hR => ⟨.ok (), change d, w, v, rfl, rfl, hR, fun _ _ => trivial⟩

end PageAction

/-- A name that an expansion may ask for: that of a tag that is not native. -/
structure Markup.NativeSet.Addresses (native : NativeSet) (name : Text) : Prop where
  isTagName : isTagName name = true
  foreign : native.isNative name = false

/-- Everything that an expansion asks and tells runs alike on workspaces that `R` relates. -/
structure Consults (R : Workspace → Workspace → Prop) (native : NativeSet) : Prop where
  contains : ∀ {name}, native.Addresses name → Action.Alike R (Catalogue.contains name)
  load : ∀ {name}, native.Addresses name → Action.Alike R (Catalogue.load name)
  tell : ∀ {e : Event}, e.isNote = false → Action.Alike R (Action.tell e)

namespace Draft

variable {native : NativeSet}

open PageAction (Alike)

theorem alike_tell (h : Consults R native) {e : Event} (he : e.isNote = false) :
    Alike R (PageAction.lift (Action.tell e)) fun _ => True :=
  .lift (h.tell he) fun _ => trivial

theorem alike_isComponent (h : Consults R native) {name : Text} (hname : isTagName name = true) :
    Alike R (PageAction.lift (isComponent native name)) fun b => b = true → native.Addresses name := by
  cases hn : native.isNative name with
  | true =>
    have hfalse : isComponent native name = Pure.pure false := by
      unfold isComponent
      rw [if_pos hn]
    rw [hfalse]
    refine .lift (Action.Alike.pure false) fun {w w' a} hrun ha => ?_
    rw [run_pure] at hrun
    cases hrun
    cases ha
  | false =>
    have hasks : isComponent native name = Catalogue.contains name := by
      unfold isComponent
      rw [if_neg (by simp [hn])]
    rw [hasks]
    exact .lift (h.contains ⟨hname, hn⟩) fun _ _ => ⟨hname, hn⟩

/-- A search finds only occurrences with a name that an expansion may ask for. -/
theorem alike_firstAmong (h : Consults R native) (page : Text) {tags : List Tag}
    (htags : ∀ tag ∈ tags, isTagName tag.name = true) :
    Alike R (firstAmong native page tags) fun found => ∀ o, found = some o → native.Addresses o.name := by
  induction tags with
  | nil => exact .pure fun o ho => nomatch ho
  | cons tag rest ih =>
    have ih := ih fun other hother => htags other (List.mem_cons_of_mem _ hother)
    unfold firstAmong
    refine (alike_isComponent h (htags tag List.mem_cons_self)).bind fun b hb => ?_
    cases b with
    | false => exact ih
    | true =>
      rw [if_pos rfl]
      cases closing? page tag.name tag.stop with
      | some close =>
        refine .pure fun o ho => ?_
        cases ho
        exact hb rfl
      | none => exact (alike_tell h rfl).bind fun _ _ => (Alike.update _).bind fun _ _ => ih

theorem alike_occurrence? (h : Consults R native) :
    Alike R (occurrence? native) fun found => ∀ o, found = some o → native.Addresses o.name := by
  refine (Alike.update _).bind fun _ _ => Alike.get_bind (fun _ _ _ => rfl) fun s => ?_
  exact alike_firstAmong h s.draft.content fun tag htag => (Tag.exists_of_mem_scanFrom htag).1.isName

theorem alike_replace (h : Consults R native) {o : Occurrence} (ho : native.Addresses o.name) :
    Alike R (replace o) fun _ => True := by
  refine Alike.get_bind (fun _ _ _ => rfl) fun s => ?_
  have hload : Alike R (PageAction.lift (Catalogue.load o.name)) fun _ => True := .lift (h.load ho) fun _ => trivial
  refine hload.bind fun template _ => ?_
  have hend : Alike R (do
      PageAction.update fun draft =>
        { draft with content := splice s.draft.content o (o.expansion template (o.inner s.draft.content)) }
      PageAction.lift (Action.tell (.tagReplaced o.name o.start (o.closeEnd - o.start)
        (o.expansion template (o.inner s.draft.content)).length))) fun _ => True :=
    (Alike.update _).bind fun _ _ => alike_tell h rfl
  split
  · exact (alike_tell h rfl).bind fun _ _ => hend
  · exact hend

theorem alike_expandFrom (h : Consults R native) (left passes : Nat) :
    Alike R (expandFrom native left passes) fun _ => True := by
  induction left generalizing passes with
  | zero => exact (alike_tell h rfl).bind fun _ _ => .pure trivial
  | succ left ih =>
    unfold expandFrom
    refine (alike_occurrence? h).bind fun found hfound => ?_
    cases found with
    | none => exact .pure trivial
    | some o => exact (alike_replace h (hfound o rfl)).bind fun _ _ => ih (passes + 1)

/-- **An expansion does not tell workspaces apart** on which everything that it asks and tells runs alike. -/
theorem alike_expand (h : Consults R native) (ceiling : Nat) :
    Alike R (expand native ceiling) fun _ => True :=
  (alike_expandFrom h ceiling 0).bind fun _ _ => Alike.get_bind (fun _ _ _ => rfl) fun _ => .pure trivial

end Draft

end Inlay

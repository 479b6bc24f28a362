import Inlay.Proofs.Page.Supply

/-!
# The passes of an expansion

An expansion depends on its workspace through the lookups alone. Here it is written as a function of
their answers, and the steps on a page are shown to end as that function says.

* `Supply.search` — the names that a pass skips, and the occurrence that it finds.
* `Supply.pass` — one pass: a search, and the page with the occurrence replaced.
* `Supply.expand` — all passes, with their account.
* `Supply.Reaches` — the pages that a run goes through.
* `Workspace.expand` — how an expansion ends on a workspace.

Main statements: `Workspace.expand_eq_lookups` (an expansion ends as the lookups of its workspace say),
`Workspace.expand_eq` (on a reliable workspace, as its supply says), `Supply.expand_eq_ok_iff` (the two ways
for an expansion to end with an account).
-/

namespace Inlay

open Markup

namespace Supply

variable (s : Supply) (native : NativeSet)

/-- Whether the tag called `name` is a component tag. -/
def isComponent (name : Text) : Except Failure Bool :=
  if native.isNative name then .ok false else s.contains name

/-- Whether the lookups tell that the tag called `name` is a component tag. -/
def offers (name : Text) : Bool :=
  match s.isComponent native name with
  | .ok answer => answer
  | .error _ => false

/-- Among the given tags of `page`, the names of the component tags that are passed over, and the
first component tag that can be replaced. -/
def searchAmong (page : Text) : List Tag → Except Failure (List Text × Option Occurrence)
  | [] => .ok ([], none)
  | tag :: rest =>
    match s.isComponent native tag.name with
    | .error f => .error f
    | .ok false => searchAmong page rest
    | .ok true =>
      match closing? page tag.name tag.stop with
      | some close => .ok ([], some ⟨tag.name, tag.attributes, tag.start, tag.stop, close⟩)
      | none => (searchAmong page rest).map fun found => (tag.name :: found.1, found.2)

/-- The names that a pass over `page` skips, and the occurrence that it finds. -/
def search (page : Text) : Except Failure (List Text × Option Occurrence) :=
  s.searchAmong native page (Tag.scan page)

/-- The page with an occurrence replaced. -/
def rewrite (page : Text) (o : Occurrence) : Except Failure Text :=
  (s.load o.name).map fun template => Draft.splice page o (o.expansion template (o.inner page))

/-- One pass: the names that it skips, and the rewritten page if there is an occurrence. -/
def pass (page : Text) : Except Failure (List Text × Option Text) :=
  match s.search native page with
  | .error f => .error f
  | .ok (skipped, none) => .ok (skipped, none)
  | .ok (skipped, some o) => (s.rewrite page o).map fun new => (skipped, some new)

/-- At most `left` more passes after `passes` passes, all of which have replaced a tag. -/
def run : Nat → Nat → Draft → Except Failure Expansion
  | 0, passes, draft => .ok ⟨draft.content, passes, passes, draft.skipped, true⟩
  | left + 1, passes, draft =>
    match s.pass native draft.content with
    | .error f => .error f
    | .ok (skipped, none) => .ok ⟨draft.content, passes + 1, passes, skipped, false⟩
    | .ok (skipped, some new) => run left (passes + 1) ⟨new, skipped⟩

/-- The account of expanding `page` in at most `ceiling` passes. -/
def expand (ceiling : Nat) (page : Text) : Except Failure Expansion :=
  s.run native ceiling 0 { content := page }

end Supply

/-! ## Steps on a page -/

namespace PageAction

variable {α β : Type} {s : Supply}

/-- On every workspace with the lookups `s` the step, begun on `draft`, ends with the result and the draft
of `r`, or with its failure, and leaves behind nothing but learning. -/
def Answers (s : Supply) (step : PageAction α) (draft : Draft)
    (r : Except Failure (α × Draft)) : Prop :=
  ∀ w : Workspace, w.lookups = s →
    ∃ w' : Workspace, w.Learns w' ∧
      match r with
      | .ok (a, d) => step.run.run ⟨draft, w⟩ = (.ok a, ⟨d, w'⟩)
      | .error f => ∃ d, step.run.run ⟨draft, w⟩ = (.error f, ⟨d, w'⟩)

theorem Answers.pure (a : α) (d : Draft) : Answers s (Pure.pure a) d (.ok (a, d)) :=
  fun w _ => ⟨w, .refl w, rfl⟩

theorem Answers.bind {step : PageAction α} {next : α → PageAction β} {a : α} {d d' : Draft}
    {r : Except Failure (β × Draft)} (h : Answers s step d (.ok (a, d')))
    (hnext : Answers s (next a) d' r) : Answers s (step >>= next) d r := by
  intro w hs
  obtain ⟨w₁, hl, h₁⟩ := h w hs
  obtain ⟨w₂, hl₂, h₂⟩ := hnext w₁ (hl.lookups.trans hs)
  refine ⟨w₂, hl.trans hl₂, ?_⟩
  rw [run_bind, h₁]
  exact h₂

theorem Answers.bind_error {step : PageAction α} {f : Failure} {d : Draft}
    (h : Answers s step d (.error f)) (next : α → PageAction β) :
    Answers s (step >>= next) d (.error f) := by
  intro w hs
  obtain ⟨w₁, hl, d₁, h₁⟩ := h w hs
  exact ⟨w₁, hl, d₁, by rw [run_bind, h₁]⟩

theorem Answers.get_bind {next : PageState → PageAction α} {d : Draft}
    {r : Except Failure (α × Draft)} (h : ∀ w, Answers s (next ⟨d, w⟩) d r) :
    Answers s (get >>= next) d r :=
  fun w hs => h w w hs

theorem Answers.lift {step : Action α} {r : Except Failure α} (h : Action.Answers s step r)
    (d : Draft) : Answers s (PageAction.lift step) d (r.map fun a => (a, d)) := by
  intro w hs
  obtain ⟨w₁, hl, h₁⟩ := h w hs
  refine ⟨w₁, hl, ?_⟩
  unfold PageAction.lift
  rw [run_get_bind]
  dsimp only
  rw [h₁]
  cases r with
  | error f => exact ⟨d, rfl⟩
  | ok a => rfl

theorem Answers.update (change : Draft → Draft) (d : Draft) :
    Answers s (PageAction.update change) d (.ok ((), change d)) :=
  fun w _ => ⟨w, .refl w, rfl⟩

end PageAction

namespace Draft

variable {s : Supply} {native : NativeSet}

open PageAction (Answers)

theorem answers_isComponent (s : Supply) (native : NativeSet) (name : Text) :
    Action.Answers s (isComponent native name) (s.isComponent native name) := by
  unfold isComponent Supply.isComponent
  split
  · exact .pure false
  · exact answers_contains s name

theorem answers_firstAmong (page : Text) (tags : List Tag) (d : Draft) :
    Answers s (firstAmong native page tags) d
      ((s.searchAmong native page tags).map fun found =>
        (found.2, { d with skipped := d.skipped ++ found.1 })) := by
  induction tags generalizing d with
  | nil =>
    simp only [Supply.searchAmong, Except.map, List.append_nil]
    exact .pure none d
  | cons tag rest ih =>
    have hc := Answers.lift (answers_isComponent s native tag.name) d
    unfold firstAmong Supply.searchAmong
    cases hb : s.isComponent native tag.name with
    | error f =>
      rw [hb] at hc
      exact hc.bind_error _
    | ok b =>
      rw [hb] at hc
      apply hc.bind
      cases b with
      | false => exact ih d
      | true =>
        rw [if_pos rfl]
        dsimp only
        cases closing? page tag.name tag.stop with
        | some close =>
          simp only [Except.map, List.append_nil]
          exact .pure _ d
        | none =>
          refine (Answers.lift (.tell _) d).bind ((Answers.update _ d).bind ?_)
          have hrest := ih { d with skipped := d.skipped ++ [tag.name] }
          cases hr : s.searchAmong native page rest with
          | error f =>
            rw [hr] at hrest
            exact hrest
          | ok found =>
            rw [hr] at hrest
            simpa only [Except.map, List.append_assoc, List.singleton_append] using hrest

theorem answers_occurrence? (s : Supply) (native : NativeSet) (d : Draft) :
    Answers s (occurrence? native) d
      ((s.search native d.content).map fun found =>
        (found.2, { d with skipped := found.1 })) := by
  refine (Answers.update _ d).bind (.get_bind fun w => ?_)
  exact answers_firstAmong d.content (Tag.scan d.content) { d with skipped := [] }

theorem answers_replace (o : Occurrence) (d : Draft) :
    Answers s (replace o) d
      ((s.rewrite d.content o).map fun new => ((), { d with content := new })) := by
  apply Answers.get_bind
  intro w
  have hload := Answers.lift (answers_load s o.name) d
  unfold Supply.rewrite
  cases ht : s.load o.name with
  | error f =>
    rw [ht] at hload
    exact hload.bind_error _
  | ok template =>
    rw [ht] at hload
    apply hload.bind
    dsimp only
    have hend : Answers s (do
        PageAction.update fun draft =>
          { draft with content := splice d.content o (o.expansion template (o.inner d.content)) }
        PageAction.lift (Action.tell (.tagReplaced o.name o.start (o.closeEnd - o.start)
          (o.expansion template (o.inner d.content)).length))) d
        (.ok ((), { d with
          content := splice d.content o (o.expansion template (o.inner d.content)) })) :=
      (Answers.update _ d).bind (Answers.lift (.tell _) _)
    split
    · exact (Answers.lift (.tell _) d).bind hend
    · exact hend

theorem answers_expandFrom (s : Supply) (native : NativeSet) (left passes : Nat) (d : Draft) :
    Answers s (expandFrom native left passes) d
      ((s.run native left passes d).map fun e =>
        ((e.passes, e.replacements, e.ceilingReached), ⟨e.content, e.skipped⟩)) := by
  induction left generalizing passes d with
  | zero => exact (Answers.lift (.tell _) d).bind (.pure _ d)
  | succ left ih =>
    have hfind := answers_occurrence? s native d
    unfold expandFrom Supply.run Supply.pass
    cases hs : s.search native d.content with
    | error f =>
      rw [hs] at hfind
      exact hfind.bind_error _
    | ok found =>
      rw [hs] at hfind
      apply hfind.bind
      obtain ⟨skipped, _ | o⟩ := found
      · exact .pure _ _
      · have hrep := answers_replace (s := s) o { d with skipped := skipped }
        dsimp only at hrep ⊢
        cases hr : s.rewrite d.content o with
        | error f =>
          rw [hr] at hrep
          exact hrep.bind_error _
        | ok new =>
          rw [hr] at hrep
          exact hrep.bind (ih (passes + 1) ⟨new, skipped⟩)

theorem answers_expand (s : Supply) (native : NativeSet) (ceiling : Nat) (page : Text) :
    Answers s (expand native ceiling) { content := page }
      ((s.expand native ceiling page).map fun e => (e, ⟨e.content, e.skipped⟩)) := by
  have hrun := answers_expandFrom s native ceiling 0 { content := page }
  unfold expand Supply.expand
  cases hr : s.run native ceiling 0 { content := page } with
  | error f =>
    rw [hr] at hrun
    exact hrun.bind_error _
  | ok e =>
    rw [hr] at hrun
    exact hrun.bind (.get_bind fun w => .pure _ _)

end Draft

/-- How expanding `page` ends on the workspace: with its account, or with the failure of a lookup. -/
def Workspace.expand (w : Workspace) (native : NativeSet) (ceiling : Nat) (page : Text) :
    Except Failure Expansion :=
  ((Draft.expand native ceiling).run.run ⟨{ content := page }, w⟩).1

/-- **An expansion ends as the lookups say.** -/
theorem Workspace.expand_eq_lookups (w : Workspace) (native : NativeSet) (ceiling : Nat) (page : Text) :
    w.expand native ceiling page = w.lookups.expand native ceiling page := by
  obtain ⟨w', -, h⟩ := Draft.answers_expand w.lookups native ceiling page w rfl
  unfold Workspace.expand
  cases he : w.lookups.expand native ceiling page with
  | error f =>
    rw [he] at h
    obtain ⟨d, h⟩ := h
    rw [h]
  | ok e =>
    rw [he] at h
    rw [h]

/-- **On a reliable workspace an expansion ends as its supply says.** -/
theorem Workspace.expand_eq {w : Workspace} (hw : w.Reliable) (native : NativeSet) (ceiling : Nat)
    (page : Text) : w.expand native ceiling page = w.supply.expand native ceiling page := by
  rw [w.expand_eq_lookups, hw.lookups]

/-! ## The pages of a run -/

namespace Supply

variable {s : Supply} {native : NativeSet}

/-- After `k` passes, each of which has replaced a tag, the page has become `last`. -/
inductive Reaches (s : Supply) (native : NativeSet) : Nat → Text → Text → Prop
  | refl (page : Text) : Reaches s native 0 page page
  | step {k : Nat} {page next last : Text} {skipped : List Text} :
      s.pass native page = .ok (skipped, some next) → Reaches s native k next last →
        Reaches s native (k + 1) page last

theorem Reaches.trans {k l : Nat} {a b c : Text} (h : s.Reaches native k a b)
    (h' : s.Reaches native l b c) : s.Reaches native (k + l) a c := by
  induction h with
  | refl page => rwa [Nat.zero_add]
  | @step k page next last skipped hpass _ ih =>
    rw [Nat.add_right_comm]
    exact .step hpass (ih h')

/-- The two ways for an expansion to end with an account: the pass after `k` replacements finds
nothing, or the last pass that the ceiling allows has replaced a tag. -/
inductive Outcome (s : Supply) (native : NativeSet) (ceiling : Nat) (page : Text) :
    Expansion → Prop
  | settled {k : Nat} {last : Text} {skipped : List Text} :
      k < ceiling → s.Reaches native k page last → s.pass native last = .ok (skipped, none) →
        Outcome s native ceiling page ⟨last, k + 1, k, skipped, false⟩
  | stopped {k : Nat} {last next : Text} {skipped : List Text} :
      k + 1 = ceiling → s.Reaches native k page last →
        s.pass native last = .ok (skipped, some next) →
          Outcome s native ceiling page ⟨next, ceiling, ceiling, skipped, true⟩

/-- A run goes on from any page that it reaches. -/
theorem run_add {k : Nat} {page last : Text} (h : s.Reaches native k page last)
    (left passes : Nat) (skipped : List Text) :
    ∃ skipped', s.run native (k + left) passes ⟨page, skipped⟩ =
      s.run native left (passes + k) ⟨last, skipped'⟩ := by
  induction h generalizing passes skipped with
  | refl page => exact ⟨skipped, by rw [Nat.zero_add, Nat.add_zero]⟩
  | @step k page next last sk hpass _ ih =>
    obtain ⟨skipped', hrun⟩ := ih (passes + 1) sk
    refine ⟨skipped', ?_⟩
    rw [show k + 1 + left = (k + left) + 1 by omega, show passes + (k + 1) = passes + 1 + k by omega,
      ← hrun]
    conv => lhs; unfold run
    simp only [hpass]

/-- A run with a pass left ends with it, or goes on with the page that the pass has made. -/
theorem run_succ_cases {left passes : Nat} {page : Text} {skipped : List Text} {e : Expansion}
    (h : s.run native (left + 1) passes ⟨page, skipped⟩ = .ok e) :
    (∃ sk, s.pass native page = .ok (sk, none) ∧ e = ⟨page, passes + 1, passes, sk, false⟩) ∨
    (∃ next sk, s.pass native page = .ok (sk, some next) ∧
      s.run native left (passes + 1) ⟨next, sk⟩ = .ok e) := by
  unfold run at h
  dsimp only at h
  split at h
  · cases h
  · rename_i sk hpass
    cases h
    exact .inl ⟨sk, hpass, rfl⟩
  · rename_i sk next hpass
    exact .inr ⟨next, sk, hpass, h⟩

theorem run_cases {left passes : Nat} {page : Text} {skipped : List Text} {e : Expansion}
    (h : s.run native (left + 1) passes ⟨page, skipped⟩ = .ok e) :
    (∃ k last sk, k < left + 1 ∧ s.Reaches native k page last ∧
      s.pass native last = .ok (sk, none) ∧ e = ⟨last, passes + k + 1, passes + k, sk, false⟩) ∨
    (∃ last next sk, s.Reaches native left page last ∧ s.pass native last = .ok (sk, some next) ∧
      e = ⟨next, passes + (left + 1), passes + (left + 1), sk, true⟩) := by
  induction left generalizing passes page skipped with
  | zero =>
    rcases run_succ_cases h with ⟨sk, hpass, rfl⟩ | ⟨next, sk, hpass, hrest⟩
    · exact .inl ⟨0, page, sk, by omega, .refl page, hpass, rfl⟩
    · cases hrest
      exact .inr ⟨page, next, sk, .refl page, hpass, rfl⟩
  | succ left ih =>
    rcases run_succ_cases h with ⟨sk, hpass, rfl⟩ | ⟨next, sk, hpass, hrest⟩
    · exact .inl ⟨0, page, sk, by omega, .refl page, hpass, rfl⟩
    rcases ih hrest with ⟨k, last, sk', hk, hreach, hlast, rfl⟩ | ⟨last, next', sk', hreach, hlast, rfl⟩
    · refine .inl ⟨k + 1, last, sk', by omega, .step hpass hreach, hlast, ?_⟩
      simp only [Expansion.mk.injEq, true_and, and_true]
      omega
    · refine .inr ⟨last, next', sk', .step hpass hreach, hlast, ?_⟩
      simp only [Expansion.mk.injEq, true_and, and_true]
      omega

/-- **An expansion ends with an account in one of two ways.** -/
theorem expand_eq_ok_iff {ceiling : Nat} (hc : 1 ≤ ceiling) {page : Text} {e : Expansion} :
    s.expand native ceiling page = .ok e ↔ s.Outcome native ceiling page e := by
  obtain ⟨left, rfl⟩ : ∃ n, ceiling = n + 1 := ⟨ceiling - 1, by omega⟩
  unfold expand
  constructor
  · intro h
    rcases run_cases h with ⟨k, last, sk, hk, hreach, hlast, rfl⟩ | ⟨last, next, sk, hreach, hlast, rfl⟩
    · rw [Nat.zero_add]
      exact .settled hk hreach hlast
    · rw [Nat.zero_add]
      exact .stopped rfl hreach hlast
  · intro h
    cases h with
    | @settled k last sk hk hreach hlast =>
      obtain ⟨sk', hrun⟩ := run_add hreach (left - k + 1) 0 []
      rw [show left + 1 = k + (left - k + 1) by omega, hrun]
      unfold run
      simp only [hlast, Nat.zero_add]
    | @stopped k last next sk hk hreach hlast =>
      obtain rfl : k = left := by omega
      obtain ⟨sk', hrun⟩ := run_add hreach 1 0 []
      rw [hrun]
      unfold run
      simp only [hlast, Nat.zero_add]
      unfold run
      rfl

end Supply

end Inlay

import Inlay.Proofs.Page.Passes

/-!
# Going on behind a ceiling

Nothing is carried from one pass to the next but the page. So a run that its ceiling has stopped goes on from
the page that it has left as if it had never been stopped, and a run that has ended before its ceiling ends so
under every higher one.

* `Expansion.after` — an account that counts passes from a later one on.

Main statements: `Supply.run_resume` (a run is its first passes and then the others), `Supply.run_after` (passes
may be counted from any number on), `expand_resume`.
-/

namespace Inlay

open Markup

/-- The account of a run behind `k` passes, each of which has replaced a tag. -/
def Expansion.after (k : Nat) (e : Expansion) : Expansion :=
  { e with passes := k + e.passes, replacements := k + e.replacements }

namespace Supply

variable {s : Supply} {native : NativeSet}

/-- A run with a pass left makes it, and goes on if the pass has replaced a tag. -/
theorem run_succ (s : Supply) (native : NativeSet) (left passes : Nat) (d : Draft) :
    s.run native (left + 1) passes d =
      match s.pass native d.content with
      | .error f => .error f
      | .ok (skipped, none) => .ok ⟨d.content, passes + 1, passes, skipped, false⟩
      | .ok (skipped, some next) => s.run native left (passes + 1) ⟨next, skipped⟩ := rfl

/-- **A run is its first `n` passes and then the others**, if the first have not ended it. -/
theorem run_resume (s : Supply) (native : NativeSet) (n m passes : Nat) (d : Draft) :
    s.run native (n + m) passes d =
      match s.run native n passes d with
      | .error f => .error f
      | .ok e => if e.ceilingReached then s.run native m (passes + n) ⟨e.content, e.skipped⟩ else .ok e := by
  induction n generalizing passes d with
  | zero =>
    rw [Nat.zero_add]
    rfl
  | succ n ih =>
    rw [show n + 1 + m = (n + m) + 1 by omega, show passes + (n + 1) = passes + 1 + n by omega, run_succ,
      run_succ]
    cases s.pass native d.content with
    | error f => rfl
    | ok found =>
      obtain ⟨skipped, _ | next⟩ := found
      · rfl
      · exact ih (passes + 1) ⟨next, skipped⟩

/-- Passes may be counted from any number on. -/
theorem run_after (k left passes : Nat) (d : Draft) :
    s.run native left (k + passes) d = (s.run native left passes d).map (Expansion.after k) := by
  induction left generalizing passes d with
  | zero => rfl
  | succ left ih =>
    rw [run_succ, run_succ]
    cases s.pass native d.content with
    | error f => rfl
    | ok found =>
      obtain ⟨skipped, _ | next⟩ := found
      · rfl
      · exact ih (passes + 1) ⟨next, skipped⟩

/-- What the pass before has skipped plays no part in a run that has a pass left. -/
theorem run_draft {left : Nat} (h : 1 ≤ left) (passes : Nat) (d : Draft) :
    s.run native left passes d = s.run native left passes { content := d.content } := by
  obtain ⟨left, rfl⟩ : ∃ n, left = n + 1 := ⟨left - 1, by omega⟩
  rw [run_succ, run_succ]

end Supply

/-- **Ceilings resume**: with `m` more passes an expansion that reaches its ceiling goes on from the page that it
has left, and one that ends before, with its account or with a failure, ends so all the same. The three runs need
the same lookups, as they have on unchanged component files. -/
theorem expand_resume {w w₁ w₂ : Workspace} (h₁ : w₁.lookups = w.lookups) (h₂ : w₂.lookups = w.lookups)
    (native : NativeSet) (n : Nat) {m : Nat} (hm : 1 ≤ m) (page : Text) :
    w₂.expand native (n + m) page =
      match w.expand native n page with
      | .error f => .error f
      | .ok e =>
        if e.ceilingReached then (w₁.expand native m e.content).map (Expansion.after n) else .ok e := by
  simp only [Workspace.expand_eq_lookups, h₁, h₂]
  unfold Supply.expand
  rw [Supply.run_resume, Nat.zero_add]
  cases w.lookups.run native n 0 { content := page } with
  | error f => rfl
  | ok e =>
    dsimp only
    rw [Supply.run_draft hm, ← Supply.run_after, Nat.add_zero]

set_option maxRecDepth 10000 in
/-- A page whose second card is left over by the first run and replaced by the second. -/
theorem expand_resume_cards :
    let w := Workspace.holding [("card".toList, "<p><slot/></p>".toList)]
    w.expand .html 1 "<card>a</card><card>b</card>".toList =
      .ok ⟨"<p>a</p><card>b</card>".toList, 1, 1, [], true⟩ ∧
    w.expand .html 3 "<card>a</card><card>b</card>".toList =
      (w.expand .html 2 "<p>a</p><card>b</card>".toList).map (Expansion.after 1) ∧
    w.expand .html 3 "<card>a</card><card>b</card>".toList = .ok ⟨"<p>a</p><p>b</p>".toList, 3, 2, [], false⟩ := by
  intro w
  have hstopped : w.expand .html 1 "<card>a</card><card>b</card>".toList =
      .ok ⟨"<p>a</p><card>b</card>".toList, 1, 1, [], true⟩ := by cbv
  have hrest : w.expand .html 2 "<p>a</p><card>b</card>".toList =
      .ok ⟨"<p>a</p><p>b</p>".toList, 2, 1, [], false⟩ := by cbv
  have hresume := @expand_resume w w w rfl rfl .html 1 2 (by decide) "<card>a</card><card>b</card>".toList
  rw [hstopped] at hresume
  refine ⟨hstopped, hresume, hresume.trans ?_⟩
  dsimp only
  rw [if_pos rfl, hrest]
  rfl

end Inlay

import Inlay.Proofs.Page.Adjacent
import Inlay.Proofs.Page.Tokens

/-!
# Components that contain themselves

A template may hold a tag of its own component. Expanding such a tag never settles: each pass replaces the innermost
tag by the template, which puts one more copy of the template's front part before the tag and one more copy of its
back part behind it. The ceiling of passes ends this, when the page has grown by one template a pass.

* `Text.times` — a text that is written several times.
* `Markup.Tag.bare` — a tag without attributes and content.
* `Supply.ContainsItself` — a component whose template holds its own bare tag.

Main statements: `Supply.ContainsItself.pass_times` (one pass), `Supply.ContainsItself.reaches` (the page after some
passes) and `expand_containing_itself`.
-/

namespace Inlay

open Markup

/-- The text, written `n` times. -/
def Text.times (n : Nat) (t : Text) : Text := (List.replicate n t).flatten

@[simp] theorem Text.times_zero (t : Text) : Text.times 0 t = [] := rfl

theorem Text.times_succ (n : Nat) (t : Text) : Text.times (n + 1) t = t ++ Text.times n t := by
  simp [times, List.replicate_succ]

theorem Text.times_succ' (n : Nat) (t : Text) : Text.times (n + 1) t = Text.times n t ++ t := by
  simp [times, List.replicate_succ']

/-- The opening tag without attributes, and right behind it the closing tag. -/
def Markup.Tag.bare (name : Text) : Text := Tag.opening name [] ++ Tag.closing name

namespace Supply

/-- The template of the component is its own bare tag between `front` and `back`. No component tag begins in
`front`, and no less-than sign is left open there. -/
structure ContainsItself (s : Supply) (native : NativeSet) (name front back : Text) : Prop where
  isName : isTagName name = true
  component : s.isComponent native name = .ok true
  template : s.load name = .ok (front ++ Tag.bare name ++ back)
  plain : ∀ tag ∈ Tag.scan front, s.isComponent native tag.name = .ok false
  closed : Tag.IsClosed front

variable {s : Supply} {native : NativeSet} {name front back rest new : Text}

/-- Closed texts that are done stay in front of what a pass rewrites. -/
theorem pass_times_append (hfront : s.pass native front = .ok ([], none)) (hclosed : Tag.IsClosed front)
    (hrest : s.pass native rest = .ok ([], some new)) (k : Nat) :
    s.pass native (Text.times k front ++ rest) = .ok ([], some (Text.times k front ++ new)) := by
  induction k with
  | zero => exact hrest
  | succ k ih =>
    rw [Text.times_succ, List.append_assoc, pass_append_of_none hfront hclosed, ih]
    simp [Except.map]

namespace ContainsItself

/-- **A pass over the bare tag replaces it by the template.** -/
theorem pass_bare (h : s.ContainsItself native name front back) :
    s.pass native (Tag.bare name) = .ok ([], some (front ++ Tag.bare name ++ back)) := by
  have hlegible : ∀ t ∈ [.opening name [], .closing name], s.Legible native t := by
    intro t ht
    rcases List.mem_cons.mp ht with rfl | ht
    · exact legible_opening (Tag.isOpening_bare h.isName) (by simp) h.component
    · rw [List.mem_singleton.mp ht]
      exact legible_closing h.isName
  have hfirst : s.Unmatched native [] [.opening name [], .closing name] := by
    intro front name attributes back heq
    simp at heq
  have hpass := pass_writeAll_some hlegible hfirst h.component
    (by simp [splitClosing, Token.opens] : splitClosing name 0 [.closing name] = some ([], [])) h.template
  -- the content between the two tags is blank
  rw [writeAll_nil, fill_of_isAllBlank rfl] at hpass
  simpa [Tag.bare, Token.write, openNames] using hpass

/-- **A pass over the innermost tag puts one more copy of the front part before it and one more copy of the back
part behind it.** -/
theorem pass_times (h : s.ContainsItself native name front back) (k : Nat) :
    s.pass native (Text.times k front ++ (Tag.bare name ++ Text.times k back)) =
      .ok ([], some (Text.times (k + 1) front ++ (Tag.bare name ++ Text.times (k + 1) back))) := by
  have hrest := pass_append_of_some h.pass_bare (Text.times k back)
  rw [pass_times_append (pass_of_plain h.plain) h.closed hrest, Text.times_succ', Text.times_succ]
  simp only [List.append_assoc]

/-- **After `k` passes there are `k` copies of both parts.** -/
theorem reaches (h : s.ContainsItself native name front back) (k : Nat) :
    s.Reaches native k (Tag.bare name) (Text.times k front ++ (Tag.bare name ++ Text.times k back)) := by
  induction k with
  | zero => simpa using Reaches.refl (Tag.bare name)
  | succ k ih => exact ih.trans (.step (h.pass_times k) (.refl _))

end ContainsItself

end Supply

/-- **Expanding a component that contains itself ends at the ceiling, and the page has grown by one template a
pass.** -/
theorem expand_containing_itself {w : Workspace} {native : NativeSet} {name front back : Text}
    (h : w.lookups.ContainsItself native name front back) {ceiling : Nat} (hc : 1 ≤ ceiling) :
    w.expand native ceiling (Tag.bare name) =
      .ok ⟨Text.times ceiling front ++ Tag.bare name ++ Text.times ceiling back, ceiling, ceiling, [], true⟩ := by
  obtain ⟨k, rfl⟩ : ∃ k, ceiling = k + 1 := ⟨ceiling - 1, by omega⟩
  rw [w.expand_eq_lookups, List.append_assoc, Supply.expand_eq_ok_iff hc]
  exact .stopped rfl (h.reaches k) (h.pass_times k)

set_option maxRecDepth 10000 in
/-- A component behind a paragraph, with tags of its own name left open behind it. -/
theorem expand_containing_itself_loop :
    (Workspace.holding [("loop".toList, "<p>a</p><loop></loop></loop><loop>".toList)]).expand .html 2
        "<loop></loop>".toList =
      .ok ⟨"<p>a</p><p>a</p><loop></loop></loop><loop></loop><loop>".toList, 2, 2, [], true⟩ := by
  have h : (Workspace.holding [("loop".toList, "<p>a</p><loop></loop></loop><loop>".toList)]).lookups.ContainsItself
      .html "loop".toList "<p>a</p>".toList "</loop><loop>".toList := {
    isName := by decide
    component := by cbv
    template := by cbv
    plain := by
      intro tag htag
      have hscan : Tag.scan "<p>a</p>".toList = [⟨0, 3, "p".toList, []⟩] := by cbv
      rw [hscan, List.mem_singleton] at htag
      subst htag
      cbv
    closed := by simp [Tag.isClosed_cons, Tag.isClosed_nil] }
  exact expand_containing_itself h (by decide : 1 ≤ 2)

end Inlay

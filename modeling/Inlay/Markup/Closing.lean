import Inlay.Markup.Tag
import Inlay.Text.Blank

/-!
# Matching closing tags

The closing tag of an element is found by counting: opening tags of the same name that stand before it
add one, closing tags of that name take one away. Tags of other names are not looked at.

* `opensAt`, `closesAt` — whether an opening or a closing tag of a name begins a text.
* `closing?` — where the matching closing tag stands.

An opening tag counts when a blank or a greater-than sign follows its name, so that a longer name with
the same beginning does not count. The counted tags do not overlap: what belongs to one is passed over
before the next is looked for.

Main statement: `closesAt_of_closing?` (the place that is found lies behind the opening tag, and the
closing tag begins there).
-/

namespace Inlay.Markup

/-- Whether `t` begins with an opening tag called `name`. -/
def opensAt (name t : Text) : Bool :=
  ('<' :: name).isPrefixOf t &&
    match t.drop (name.length + 1) with
    | [] => false
    | c :: _ => c = '>' || Text.isBlank c

/-- Whether `t` begins with a closing tag called `name`. -/
def closesAt (name t : Text) : Bool := (Tag.closing name).isPrefixOf t

/-- The position of the closing tag that matches `depth + 1` open tags, in a text whose first character
has position `i`; the first `passed` characters belong to a tag that has been counted. -/
def closingFrom (name : Text) (depth passed i : Nat) : Text → Option Nat
  | [] => none
  | c :: rest =>
    match passed with
    | passed + 1 => closingFrom name depth passed (i + 1) rest
    | 0 =>
      if opensAt name (c :: rest) then
        closingFrom name (depth + 1) name.length (i + 1) rest
      else if closesAt name (c :: rest) then
        match depth with
        | 0 => some i
        | depth + 1 => closingFrom name depth (name.length + 2) (i + 1) rest
      else
        closingFrom name depth 0 (i + 1) rest

/-- The position of the closing tag that matches an opening tag called `name` which ends at position
`stop` of the page. -/
def closing? (page name : Text) (stop : Int) : Option Nat :=
  let start := Text.position page.length stop
  closingFrom name 0 0 start (page.drop start)

theorem closesAt_of_closingFrom {name t : Text} {depth passed i p : Nat}
    (h : closingFrom name depth passed i t = some p) : i ≤ p ∧ closesAt name (t.drop (p - i)) = true := by
  induction t generalizing depth passed i with
  | nil => simp [closingFrom] at h
  | cons c rest ih =>
    have later {depth passed : Nat} (h : closingFrom name depth passed (i + 1) rest = some p) :
        i ≤ p ∧ closesAt name ((c :: rest).drop (p - i)) = true := by
      obtain ⟨hle, hclose⟩ := ih h
      have hp : p - i = (p - (i + 1)) + 1 := by omega
      exact ⟨by omega, by rw [hp, List.drop_succ_cons]; exact hclose⟩
    cases passed with
    | succ passed => exact later h
    | zero =>
      simp only [closingFrom] at h
      split at h
      · exact later h
      · split at h
        · next hclose =>
          cases depth with
          | zero =>
            simp only [Option.some.injEq] at h
            subst h
            simpa using hclose
          | succ depth => exact later h
        · exact later h

theorem closesAt_of_closing? {page name : Text} {stop : Int} {p : Nat}
    (h : closing? page name stop = some p) :
    Text.position page.length stop ≤ p ∧ closesAt name (page.drop p) = true := by
  obtain ⟨hle, hclose⟩ := closesAt_of_closingFrom h
  rw [List.drop_drop] at hclose
  exact ⟨hle, by rwa [Nat.add_sub_cancel' hle] at hclose⟩

end Inlay.Markup

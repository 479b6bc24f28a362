import Inlay.Text.Basic

/-!
# Line ends

A file may end its lines in three ways; a text that was read ends them in one.

* `Text.unifyLineEnds` — every line end, written as carriage return and line feed, as one of them
  alone, becomes a line feed.

Main statements: `Text.unifyLineEnds_eq_self` (a text without carriage returns stays as it is) and
`Text.not_mem_unifyLineEnds` (afterwards there is none).
-/

namespace Inlay.Text

/-- `t` with every line end written as a line feed. -/
def unifyLineEnds : Text → Text
  | [] => []
  | '\r' :: '\n' :: rest => '\n' :: unifyLineEnds rest
  | c :: rest => (if c = '\r' then '\n' else c) :: unifyLineEnds rest

theorem unifyLineEnds_eq_self {t : Text} (h : '\r' ∉ t) : unifyLineEnds t = t := by
  fun_induction unifyLineEnds t with
  | case1 => rfl
  | case2 rest ih => simp at h
  | case3 c rest _ ih =>
    simp only [List.mem_cons, not_or] at h
    simp [ih h.2, Ne.symm h.1]

theorem not_mem_unifyLineEnds (t : Text) : '\r' ∉ unifyLineEnds t := by
  fun_induction unifyLineEnds t with
  | case1 => simp
  | case2 rest ih => simp [ih]
  | case3 c rest _ ih =>
    simp only [List.mem_cons, not_or]
    refine ⟨?_, ih⟩
    split
    · decide
    · next hc => exact fun e => hc e.symm

end Inlay.Text

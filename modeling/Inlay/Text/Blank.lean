import Inlay.Text.Basic

/-!
# Blank characters

The characters that separate words: the Unicode white space and the four separators
U+001C to U+001F.

* `Text.isBlank` — the class, and `Text.isAllBlank` for whole texts.
* `Text.strip` — a text without the blanks at its ends.
* `Text.words` — the maximal runs without blanks, in order.

Main statements: `Text.words_nonempty` and `Text.not_isBlank_of_mem_words` (a word is not empty and
holds no blank).
-/

namespace Inlay.Text

/-- The characters that separate words. -/
def isBlank (c : Char) : Bool :=
  let n := c.toNat
  (0x09 ≤ n && n ≤ 0x0D) || (0x1C ≤ n && n ≤ 0x20) || n == 0x85 || n == 0xA0 || n == 0x1680 ||
    (0x2000 ≤ n && n ≤ 0x200A) || n == 0x2028 || n == 0x2029 || n == 0x202F || n == 0x205F ||
    n == 0x3000

/-- Whether `t` holds nothing but blanks. -/
def isAllBlank (t : Text) : Bool := t.all isBlank

/-- `t` without the blanks at its end. -/
def stripEnd (t : Text) : Text := (t.reverse.dropWhile isBlank).reverse

/-- `t` without the blanks at its two ends. -/
def strip (t : Text) : Text := stripEnd (t.dropWhile isBlank)

/-- The pieces of `t` between its blanks; two neighbouring blanks have an empty piece between. -/
def pieces : Text → List Text
  | [] => [[]]
  | c :: rest =>
    match pieces rest with
    | [] => [[c]]
    | piece :: others => if isBlank c then [] :: piece :: others else (c :: piece) :: others

/-- The maximal runs of `t` without blanks. -/
def words (t : Text) : List Text := (pieces t).filter fun piece => !piece.isEmpty

theorem isBlank_of_isWhitespace {c : Char} (h : c.isWhitespace = true) : isBlank c = true := by
  simp only [Char.isWhitespace, Bool.or_eq_true, decide_eq_true_eq] at h
  rcases h with ((h | h) | h) | h <;> subst h <;> decide

theorem pieces_ne_nil (t : Text) : pieces t ≠ [] := by
  cases t with
  | nil => simp [pieces]
  | cons c rest =>
    simp only [pieces]
    split
    · simp
    · split <;> simp

theorem not_isBlank_of_mem_pieces {t piece : Text} (h : piece ∈ pieces t) :
    ∀ c ∈ piece, isBlank c = false := by
  induction t generalizing piece with
  | nil =>
    simp only [pieces, List.mem_singleton] at h
    simp [h]
  | cons c rest ih =>
    simp only [pieces] at h
    split at h
    · next hnil => exact absurd hnil (pieces_ne_nil rest)
    · next first others heq =>
      split at h
      · rcases List.mem_cons.mp h with rfl | h
        · simp
        · exact ih (heq ▸ h)
      · next hc =>
        rcases List.mem_cons.mp h with rfl | h
        · intro d hd
          rcases List.mem_cons.mp hd with rfl | hd
          · simpa using hc
          · exact (ih (heq ▸ List.mem_cons_self .. : first ∈ pieces rest)) d hd
        · exact ih (by simp [heq, h])

theorem words_nonempty {t word : Text} (h : word ∈ words t) : word ≠ [] := by
  have := (List.mem_filter.mp h).2
  simpa using this

theorem not_isBlank_of_mem_words {t word : Text} (h : word ∈ words t) :
    ∀ c ∈ word, isBlank c = false :=
  not_isBlank_of_mem_pieces (List.mem_filter.mp h).1

end Inlay.Text

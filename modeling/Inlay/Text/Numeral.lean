import Inlay.Text.Blank

/-!
# Integers in words of the command line

An integer is written with an optional sign and decimal digits of any script. Single underscores may
stand between digits and blanks around the whole.

* `Numeral.digit?` — the value of a decimal digit.
* `Numeral.integer?` — the integer that a text writes.

Main statement: `Numeral.digit?_lt` (a digit has a value below ten).
-/

namespace Inlay.Numeral

/-- The code points of the digit zero in all scripts of Unicode 14; the other digits follow each. -/
def zeros : List Nat := [
  0x30, 0x660, 0x6F0, 0x7C0, 0x966, 0x9E6, 0xA66, 0xAE6, 0xB66, 0xBE6, 0xC66, 0xCE6, 0xD66, 0xDE6,
  0xE50, 0xED0, 0xF20, 0x1040, 0x1090, 0x17E0, 0x1810, 0x1946, 0x19D0, 0x1A80, 0x1A90, 0x1B50,
  0x1BB0, 0x1C40, 0x1C50, 0xA620, 0xA8D0, 0xA900, 0xA9D0, 0xA9F0, 0xAA50, 0xABF0, 0xFF10, 0x104A0,
  0x10D30, 0x11066, 0x110F0, 0x11136, 0x111D0, 0x112F0, 0x11450, 0x114D0, 0x11650, 0x116C0,
  0x11730, 0x118E0, 0x11950, 0x11C50, 0x11D50, 0x11DA0, 0x16A60, 0x16AC0, 0x16B50, 0x1D7CE,
  0x1D7D8, 0x1D7E2, 0x1D7EC, 0x1D7F6, 0x1E140, 0x1E2F0, 0x1E950, 0x1FBF0
]

/-- The value of a decimal digit. -/
def digit? (c : Char) : Option Nat :=
  (zeros.find? fun start => start ≤ c.toNat && c.toNat < start + 10).map fun start => c.toNat - start

/-- The most digits that a written integer may have. -/
def longest : Nat := 4300

/-- Blanks that may stand around an integer: all but the four separators U+001C to U+001F. -/
def isMargin (c : Char) : Bool := Text.isBlank c && !(0x1C ≤ c.toNat && c.toNat ≤ 0x1F)

/-- Reads digits with single underscores between them, after `count` digits that make up `value`.
`pending` tells whether a digit must come next. -/
def digitsFrom (value count : Nat) (pending : Bool) : Text → Option Nat
  | [] => if pending || longest < count then none else some value
  | c :: rest =>
    if c = '_' then
      if pending then none else digitsFrom value count true rest
    else
      match digit? c with
      | some d => digitsFrom (10 * value + d) (count + 1) false rest
      | none => none

/-- The integer that a text without blanks around it writes. -/
def signed? : Text → Option Int
  | '-' :: rest => (digitsFrom 0 0 true rest).map fun n => -(n : Int)
  | '+' :: rest => (digitsFrom 0 0 true rest).map fun n => (n : Int)
  | t => (digitsFrom 0 0 true t).map fun n => (n : Int)

/-- The integer that a text writes. -/
def integer? (t : Text) : Option Int :=
  signed? ((t.dropWhile isMargin).reverse.dropWhile isMargin).reverse

theorem digit?_lt {c : Char} {d : Nat} (h : digit? c = some d) : d < 10 := by
  obtain ⟨start, hz, rfl⟩ := Option.map_eq_some_iff.mp h
  have := List.find?_some hz
  simp only [Bool.and_eq_true, decide_eq_true_eq] at this
  omega

end Inlay.Numeral

import Inlay.Text.PrintTable
import Inlay.Text.CaseTable
import Inlay.Text.Basic

/-!
# Quoted texts

How a text is shown inside a message: between quotes, on one line, with every character that has no
printed form written by its number.

* `Text.quoted` — the quoted form.
* `Text.quoteMark` — a single quote, or a double quote for a text that holds a single quote and no
  double quote.
-/

namespace Inlay.Text

/-- The quote that stands at both ends of the quoted form of `t`. -/
def quoteMark (t : Text) : Char :=
  if t.contains '\x27' && !t.contains '\x22' then '\x22' else '\x27'

/-- The number `n` in lower-case hexadecimal digits, with zeros in front up to `width` digits. -/
def hex (width n : Nat) : Text :=
  let digits := Nat.toDigits 16 n
  List.replicate (width - digits.length) '0' ++ digits

/-- Whether `c` is shown as itself. -/
def isPrinted (c : Char) : Bool :=
  if c.toNat < 0x7F then 0x20 ≤ c.toNat else !inRanges unprintedRanges c.toNat

/-- How `c` is written between the quotes `mark`. -/
def quotedChar (mark c : Char) : Text :=
  if c = mark || c = '\\' then ['\\', c]
  else if c = '\t' then ['\\', 't']
  else if c = '\n' then ['\\', 'n']
  else if c = '\r' then ['\\', 'r']
  else if isPrinted c then [c]
  else if c.toNat < 0x100 then '\\' :: 'x' :: hex 2 c.toNat
  else if c.toNat < 0x10000 then '\\' :: 'u' :: hex 4 c.toNat
  else '\\' :: 'U' :: hex 8 c.toNat

/-- `t` between quotes, on one line. -/
def quoted (t : Text) : Text :=
  let mark := quoteMark t
  mark :: t.flatMap (quotedChar mark) ++ [mark]

end Inlay.Text

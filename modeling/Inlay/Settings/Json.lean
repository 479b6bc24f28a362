import Inlay.Text.Basic

/-!
# JSON values

Lists in settings are written as JSON. The reader is strict but for the three names of numbers that are
not finite, which it takes as numbers.

* `JsonValue` — a value; what no setting asks for is kept only as far as its kind.
* `JsonError` — why a text writes no value.
* `JsonValue.ofText` — the value that a text writes.
* `JsonValue.number?`, `JsonValue.string?` — its two kinds of words.
-/

namespace Inlay

/-- A value. Of a number only whether it is whole, and of a mapping nothing is kept; a text with half of
a surrogate pair is no text. -/
inductive JsonValue where
  | null
  | boolean (b : Bool)
  | integer (n : Int)
  | fraction
  | text (t : Text)
  | brokenText
  | list (items : List JsonValue)
  | mapping
  deriving Inhabited, Repr

/-- Why a text writes no value: it is no JSON, or too many lists and mappings stand inside each other in
it, the innermost being a list or a mapping. -/
inductive JsonError where
  | malformed
  | tooManyLists
  | tooManyMappings
  deriving DecidableEq, Repr

namespace JsonValue

/-- The blanks between the words of a value. -/
def isGap (c : Char) : Bool := c = ' ' || c = '\t' || c = '\n' || c = '\r'

/-- `t` without the blanks at its beginning. -/
def skipGap (t : Text) : Text := t.dropWhile isGap

/-- The number that ASCII digits write. -/
def digitsValue (digits : Text) : Nat := digits.foldl (fun n c => 10 * n + (c.toNat - 48)) 0

/-- The most digits that a whole number may have. -/
def longestNumber : Nat := 4300

/-- Reads the part of a number behind its whole part: whether there is any, and what comes after. -/
def numberTail (t : Text) : Bool × Text :=
  let (hasFraction, t) := match t with
    | '.' :: rest =>
      if (rest.takeWhile Char.isDigit).isEmpty then (false, t) else (true, rest.dropWhile Char.isDigit)
    | _ => (false, t)
  let exponent := fun rest : Text =>
    let digits := match rest with
      | c :: more => if c = '+' || c = '-' then more else rest
      | [] => rest
    if (digits.takeWhile Char.isDigit).isEmpty then none else some (digits.dropWhile Char.isDigit)
  match t with
  | c :: rest =>
    if c = 'e' || c = 'E' then
      match exponent rest with
      | some after => (true, after)
      | none => (hasFraction, t)
    else (hasFraction, t)
  | [] => (hasFraction, t)

/-- Reads a number without its sign. -/
def number? (negative : Bool) (t : Text) : Option (JsonValue × Text) :=
  let digits := if t.head? = some '0' then ['0'] else t.takeWhile Char.isDigit
  if digits.isEmpty then none
  else
    let (isFraction, after) := numberTail (t.drop digits.length)
    if isFraction then some (.fraction, after)
    else if longestNumber < digits.length then none
    else
      let n : Int := digitsValue digits
      some (.integer (if negative then -n else n), after)

/-- The value of a hexadecimal digit. -/
def hexDigit? (c : Char) : Option Nat :=
  if c.isDigit then some (c.toNat - 48)
  else if 'a' ≤ c ∧ c ≤ 'f' then some (c.toNat - 87)
  else if 'A' ≤ c ∧ c ≤ 'F' then some (c.toNat - 55)
  else none

/-- Reads four hexadecimal digits. -/
def fourDigits? : Text → Option (Nat × Text)
  | a :: b :: c :: d :: rest => do
    let (a, b, c, d) := (← hexDigit? a, ← hexDigit? b, ← hexDigit? c, ← hexDigit? d)
    return (((a * 16 + b) * 16 + c) * 16 + d, rest)
  | _ => none

/-- The character that the letter `c` stands for behind a backslash. -/
def escaped? (c : Char) : Option Char :=
  [('\x22', '\x22'), ('\\', '\\'), ('/', '/'), ('b', '\x08'), ('f', '\x0C'), ('n', '\n'),
    ('r', '\r'), ('t', '\t')].lookup c

/-- Joins sixteen-bit units to a text; half of a surrogate pair makes it fail. -/
def joinUnits : List Nat → Option Text
  | [] => some []
  | u :: rest =>
    if 0xD800 ≤ u ∧ u < 0xDC00 then
      match rest with
      | v :: more =>
        if 0xDC00 ≤ v ∧ v < 0xE000 then
          (joinUnits more).map (Char.ofNat (0x10000 + (u - 0xD800) * 0x400 + (v - 0xDC00)) :: ·)
        else none
      | [] => none
    else if 0xDC00 ≤ u ∧ u < 0xE000 then none
    else (joinUnits rest).map (Char.ofNat u :: ·)

/-- Reads a string behind its first quote, up to the closing one, as units: a character that is written
as itself is one unit, whatever its number. -/
def stringUnits? : Nat → Text → Option (List Nat × Text)
  | 0, _ => none
  | _ + 1, [] => none
  | fuel + 1, c :: rest =>
    if c = '\x22' then some ([], rest)
    else if c = '\\' then
      match rest with
      | 'u' :: more => do
        let (unit, after) ← fourDigits? more
        let (units, last) ← stringUnits? fuel after
        return (unit :: units, last)
      | letter :: more => do
        let d ← escaped? letter
        let (units, last) ← stringUnits? fuel more
        return (d.toNat :: units, last)
      | [] => none
    else if c.toNat < 0x20 then none
    else (stringUnits? fuel rest).map fun found => (c.toNat :: found.1, found.2)

/-- Reads a string behind its first quote. -/
def string? (t : Text) : Option (JsonValue × Text) :=
  (stringUnits? (t.length + 1) t).map fun found =>
    (match joinUnits found.1 with
      | some s => .text s
      | none => .brokenText, found.2)

/-- Names that stand for values. -/
def constants : List (Text × JsonValue) := [
  ("null".toList, null), ("true".toList, boolean true), ("false".toList, boolean false),
  ("NaN".toList, fraction), ("Infinity".toList, fraction), ("-Infinity".toList, fraction)]

/-- The most lists and mappings that may stand inside each other. -/
def deepest : Nat := 980

/-- What was found, or the error of a text that writes no value. -/
def orMalformed {α : Type} : Option α → Except JsonError α
  | some found => .ok found
  | none => .error .malformed

mutual

/-- Reads a value; `fuel` bounds the number of steps, and `room` lists and mappings may stand inside each
other in it. -/
def value : Nat → Nat → Text → Except JsonError (JsonValue × Text)
  | 0, _, _ => .error .malformed
  | fuel + 1, room, t =>
    match constants.find? fun k => k.1.isPrefixOf t with
    | some k => .ok (k.2, t.drop k.1.length)
    | none =>
      match t, room with
      | '\x22' :: rest, _ => orMalformed (string? rest)
      | '-' :: rest, _ => orMalformed (number? true rest)
      | '[' :: _, 0 => .error .tooManyLists
      | '[' :: rest, room + 1 =>
        match skipGap rest with
        | ']' :: after => .ok (.list [], after)
        | first => (items fuel room first).map fun found => (.list found.1, found.2)
      | '\x7B' :: _, 0 => .error .tooManyMappings
      | '\x7B' :: rest, room + 1 =>
        match skipGap rest with
        | '\x7D' :: after => .ok (.mapping, after)
        | first => (members fuel room first).map fun after => (.mapping, after)
      | _, _ => orMalformed (number? false t)

/-- Reads the items of a list up to its end. -/
def items : Nat → Nat → Text → Except JsonError (List JsonValue × Text)
  | 0, _, _ => .error .malformed
  | fuel + 1, room, t =>
    match value fuel room t with
    | .error e => .error e
    | .ok (item, rest) =>
      match skipGap rest with
      | ']' :: after => .ok ([item], after)
      | ',' :: more => (items fuel room (skipGap more)).map fun found => (item :: found.1, found.2)
      | _ => .error .malformed

/-- Reads the members of a mapping up to its end. -/
def members : Nat → Nat → Text → Except JsonError Text
  | 0, _, _ => .error .malformed
  | fuel + 1, room, t =>
    match t with
    | '\x22' :: rest =>
      match string? rest with
      | none => .error .malformed
      | some (_, rest) =>
        match skipGap rest with
        | ':' :: rest =>
          match value fuel room (skipGap rest) with
          | .error e => .error e
          | .ok (_, rest) =>
            match skipGap rest with
            | '\x7D' :: after => .ok after
            | ',' :: more => members fuel room (skipGap more)
            | _ => .error .malformed
        | _ => .error .malformed
    | _ => .error .malformed

end

/-- The value that a text writes. Every step but one for each bracket takes a character, so three steps
for each character are enough. -/
def ofText (t : Text) : Except JsonError JsonValue := do
  let (v, rest) ← value (3 * t.length + 3) deepest (skipGap t)
  if (skipGap rest).isEmpty then return v else throw .malformed

end JsonValue

end Inlay

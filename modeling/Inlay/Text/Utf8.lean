import Inlay.Text.Basic

/-!
# UTF-8

Files hold bytes and pages are texts. Reading is strict: overlong forms, surrogates and numbers
above U+10FFFF are refused, and a refusal names the bytes that could not be read.

* `Utf8.encode`, `Utf8.decode` — between texts and bytes.
* `Utf8.Fault` — which bytes could not be read, and why; `Utf8.Fault.message` words it.

The bytes of a fault are the longest start of a valid form that stands at its place, and at least
one byte.
-/

namespace Inlay

/-- The content of a file. -/
abbrev Bytes := List UInt8

namespace Utf8

/-- Why bytes cannot be read. -/
inductive Reason where
  | invalidStart
  | invalidContinuation
  | unexpectedEnd
  deriving DecidableEq, Repr

/-- The bytes from `first` up to `last` that cannot be read; `byte` is the first of them. -/
structure Fault where
  first : Nat
  last : Nat
  byte : UInt8
  reason : Reason
  deriving DecidableEq, Repr

/-- A form that has begun: where, with which byte, how many bytes are still to come, the range of the
next one, and the number that the bytes so far stand for. -/
structure Begun where
  start : Nat
  byte : UInt8
  missing : Nat
  low : UInt8
  high : UInt8
  number : Nat

/-- What the byte `b` at position `i` begins, if it begins a form of several bytes. -/
def begin? (i : Nat) (b : UInt8) : Option Begun :=
  if b < 0xC2 then none
  else if b < 0xE0 then some ⟨i, b, 1, 0x80, 0xBF, b.toNat - 0xC0⟩
  else if b < 0xF0 then
    some ⟨i, b, 2, if b = 0xE0 then 0xA0 else 0x80, if b = 0xED then 0x9F else 0xBF,
      b.toNat - 0xE0⟩
  else if b < 0xF5 then
    some ⟨i, b, 3, if b = 0xF0 then 0x90 else 0x80, if b = 0xF4 then 0x8F else 0xBF,
      b.toNat - 0xF0⟩
  else none

/-- Reads bytes from position `i` on. `begun` is the form that the bytes before have left open, and
`done` holds the characters read so far, the last one first. -/
def decodeFrom (i : Nat) (begun : Option Begun) (done : Text) : Bytes → Except Fault Text
  | [] =>
    match begun with
    | none => .ok done.reverse
    | some f => .error ⟨f.start, i - 1, f.byte, .unexpectedEnd⟩
  | b :: rest =>
    match begun with
    | none =>
      if b < 0x80 then
        decodeFrom (i + 1) none (Char.ofNat b.toNat :: done) rest
      else
        match begin? i b with
        | none => .error ⟨i, i, b, .invalidStart⟩
        | some f => decodeFrom (i + 1) (some f) done rest
    | some f =>
      if f.low ≤ b ∧ b ≤ f.high then
        let number := f.number * 64 + (b.toNat - 0x80)
        if f.missing = 1 then
          decodeFrom (i + 1) none (Char.ofNat number :: done) rest
        else
          decodeFrom (i + 1) (some ⟨f.start, f.byte, f.missing - 1, 0x80, 0xBF, number⟩) done rest
      else
        .error ⟨f.start, i - 1, f.byte, .invalidContinuation⟩

/-- The text that the bytes stand for. -/
def decode (bytes : Bytes) : Except Fault Text := decodeFrom 0 none [] bytes

/-- The bytes of a text. -/
def encode (t : Text) : Bytes := t.flatMap String.utf8EncodeChar

/-- The number of bytes of a text. -/
def size : Text → Nat
  | [] => 0
  | c :: rest => c.utf8Size + size rest

/-- The words for a reason. -/
def Reason.message : Reason → String
  | .invalidStart => "invalid start byte"
  | .invalidContinuation => "invalid continuation byte"
  | .unexpectedEnd => "unexpected end of data"

/-- The two hexadecimal digits of a byte. -/
def byteDigits (b : UInt8) : String :=
  String.ofList [Nat.digitChar (b.toNat / 16), Nat.digitChar (b.toNat % 16)]

/-- The words for a fault: a lone byte is shown, several are given by their positions. -/
def Fault.message (f : Fault) : String :=
  if f.first = f.last then
    s!"'utf-8' codec can't decode byte 0x{byteDigits f.byte} in position {f.first}: {f.reason.message}"
  else
    s!"'utf-8' codec can't decode bytes in position {f.first}-{f.last}: {f.reason.message}"

theorem length_encode (t : Text) : (encode t).length = size t := by
  induction t with
  | nil => rfl
  | cons c rest ih =>
    rw [encode, List.flatMap_cons, List.length_append, String.length_utf8EncodeChar, size, ← ih, encode]

end Utf8

end Inlay

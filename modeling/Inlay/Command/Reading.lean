import Inlay.Command.Switch
import Inlay.Settings.Basic
import Inlay.Text.Numeral
import Inlay.Text.Quoted

/-!
# Reading a command line

The words of a command line are first told apart: switches, the mark `--` after which no word is a
switch, and plain words. They are then taken from left to right: a switch with its value, the first two
plain words as the input and the output directory, and whatever is left over is reported at the end. What no
switch asks for is as the settings say.

* `Request` — what a command line asks for; `Request.ofSettings` is the one without words.
* `UsageError` — why it asks for nothing; `UsageError.message` words it.
* `Piece`, `Piece.ofWord`, `pieces` — the words told apart.
* `Request.read` — the whole.

Main statements: `Progress.finish_eq_ok_iff` says what a command line needs at its end, and `Request.read_plain`
what one without switches asks for.
-/

namespace Inlay.Command

/-- What a command line asks for. A value that is given as the bare mark is absent. -/
structure Request where
  operands : List (Option Text)
  pagesDirectory : Option Text
  componentsDirectory : Option Text
  pageGlob : Option Text
  ceiling : Option Int
  clean : Bool
  strict : Bool
  verbosity : Int
  deriving DecidableEq, Repr

/-- What is asked for before the first word: what the settings say. -/
def Request.ofSettings (s : Settings) : Request where
  operands := []
  pagesDirectory := some s.pagesDirectory
  componentsDirectory := some s.componentsDirectory
  pageGlob := some s.pageGlob
  ceiling := some s.ceiling
  clean := s.clean
  strict := s.strict
  verbosity := 1

/-- Why a command line cannot be followed. -/
inductive UsageError where
  | ambiguous (word : Text) (spellings : List Text)
  | valueMissing (switch : Switch)
  | valueRefused (switch : Switch) (value : Text)
  | noInteger (switch : Switch) (value : Text)
  | operandsMissing (names : List Text)
  | leftOver (words : List Text)
  deriving DecidableEq, Repr

namespace UsageError

/-- Texts with a comma between neighbours. -/
def listed (ts : List Text) : String := (Text.join [',', ' '] ts).string

/-- Texts with a space between neighbours. -/
def spaced (ts : List Text) : String := (Text.join [' '] ts).string

/-- The words for an error. -/
def message : UsageError → String
  | ambiguous word spellings =>
    s!"ambiguous option: {word.string} could match {listed spellings}"
  | valueMissing switch => s!"argument {switch.title.string}: expected one argument"
  | valueRefused switch value =>
    s!"argument {switch.title.string}: ignored explicit argument {(Text.quoted value).string}"
  | noInteger switch value =>
    s!"argument {switch.title.string}: invalid int value: {(Text.quoted value).string}"
  | operandsMissing names => s!"the following arguments are required: {listed names}"
  | leftOver words => s!"unrecognized arguments: {spaced words}"

end UsageError

/-- How the reading of a command line ends before its last word. -/
inductive Halt where
  | version
  | help
  | usage (error : UsageError)
  deriving DecidableEq, Repr

/-- A word of the command line, told apart. A switch comes with its spelling and the value that is
written in the same word. -/
inductive Piece where
  | plain (word : Text)
  | mark
  | switch (spelling : Text) (switch : Switch) (attached : Option Text)
  | unknown (word : Text)
  deriving DecidableEq, Repr

/-- Whether a word writes a negative number: a hyphen and digits, or a hyphen and a decimal fraction. A
line feed may follow. -/
def isNegative (word : Text) : Bool :=
  match word with
  | '-' :: rest =>
    let body := if rest.getLast? = some '\n' then rest.dropLast else rest
    let isDigit := fun c => (Numeral.digit? c).isSome
    let tail := body.dropWhile isDigit
    (tail.isEmpty && !body.isEmpty) ||
      (tail.head? = some '.' && !(tail.drop 1).isEmpty && (tail.drop 1).all isDigit)
  | _ => false

/-- The piece that a way to take a word for a switch makes. -/
def Piece.ofCandidate (c : Switch.Candidate) : Piece := .switch c.spelling c.switch c.attached

/-- The mark after which no word is a switch. -/
def mark : Text := ['-', '-']

/-- A value as it is written, or none if it is the bare mark. -/
def unmarked (value : Text) : Option Text := if value = mark then none else some value

/-- Tells a word apart that stands before the mark and is not the mark. -/
def Piece.ofWord (word : Text) : Except UsageError Piece :=
  if word.head? != some '-' || word.length = 1 then .ok (.plain word)
  else
    match Switch.spelled? word with
    | some s => .ok (.switch word s none)
    | none =>
      match Switch.withValue? word with
      | some c => .ok (.ofCandidate c)
      | none =>
        match Switch.candidates word with
        | [c] => .ok (.ofCandidate c)
        | [] =>
          if isNegative word || word.contains ' ' then .ok (.plain word) else .ok (.unknown word)
        | cs => .error (.ambiguous word (cs.map (·.spelling)))

/-- The words of a command line, told apart. -/
def pieces : List Text → Except UsageError (List Piece)
  | [] => .ok []
  | word :: rest =>
    if word = mark then .ok (.mark :: rest.map .plain)
    else do return (← Piece.ofWord word) :: (← pieces rest)

/-- The names of the two directories that a command line must give. -/
def operandNames : List Text := ["inputdir".toList, "outputdir".toList]

/-- The state of the reading: the request so far, the words left over, how many operands have come since
the last switch, and whether a plain word since then was left over. -/
structure Progress where
  request : Request
  leftOver : List Text := []
  taken : Nat := 0
  surplus : Bool := false
  deriving DecidableEq, Repr

namespace Progress

/-- Whether both operands are there. -/
def isFull (p : Progress) : Bool := operandNames.length ≤ p.request.operands.length

/-- Takes a plain word as an operand, or leaves it over. The mark right behind another operand gives an
absent one. -/
def takePlain (p : Progress) (word : Text) : Progress :=
  if p.isFull then { p with leftOver := p.leftOver ++ [word], surplus := true }
  else
    let operand := if p.taken = 0 then some word else unmarked word
    { p with
      request := { p.request with operands := p.request.operands ++ [operand] }, taken := p.taken + 1 }

/-- Takes the mark. It is dropped next to an operand, and else left over. -/
def takeMark (p : Progress) : Progress :=
  if p.surplus || (p.taken = 0 && p.isFull) then { p with leftOver := p.leftOver ++ [mark] }
  else p

/-- Comes to a switch. -/
def atSwitch (p : Progress) : Progress := { p with taken := 0, surplus := false }

/-- Takes a word that looks like a switch and is none. -/
def takeUnknown (p : Progress) (word : Text) : Progress :=
  { p.atSwitch with leftOver := p.leftOver ++ [word] }

/-- Changes the request. -/
def update (p : Progress) (change : Request → Request) : Progress :=
  { p with request := change p.request }

/-- Follows a switch without a value. -/
def follow (p : Progress) : Switch → Except Halt Progress
  | .help => .error .help
  | .version => .error .version
  | .clean => .ok (p.update fun r => { r with clean := true })
  | .strict => .ok (p.update fun r => { r with strict := true })
  | .verbosity => .ok (p.update fun r => { r with verbosity := r.verbosity + 1 })
  | _ => .ok p

/-- Follows a switch with its value. -/
def followWith (p : Progress) (s : Switch) (value : Text) : Except Halt Progress :=
  match s with
  | .pagesDirectory => .ok (p.update fun r => { r with pagesDirectory := unmarked value })
  | .componentsDirectory => .ok (p.update fun r => { r with componentsDirectory := unmarked value })
  | .pageGlob => .ok (p.update fun r => { r with pageGlob := unmarked value })
  | .ceiling =>
    match unmarked value, Numeral.integer? value with
    | none, _ => .ok (p.update fun r => { r with ceiling := none })
    | some _, some n => .ok (p.update fun r => { r with ceiling := some n })
    | some _, none => .error (.usage (.noInteger s value))
  | _ => .error (.usage (.valueRefused s value))

/-- The end of a command line: both operands must be there and no word may be left over. -/
def finish (p : Progress) : Except Halt Request :=
  if !p.isFull then
    .error (.usage (.operandsMissing (operandNames.drop p.request.operands.length)))
  else if !p.leftOver.isEmpty then .error (.usage (.leftOver p.leftOver))
  else .ok p.request

end Progress

/-- The switches that the letters behind a switch with one hyphen spell. -/
def cluster (s : Switch) : Text → Except UsageError (List Switch)
  | [] => .ok []
  | c :: rest =>
    match Switch.spelled? ['-', c] with
    | some next => do return next :: (← cluster next rest)
    | none => .error (.valueRefused s (c :: rest))

/-- The switches that a word stands for which spells a switch without a value; `attached` is what is
written behind the spelling. -/
def switches (spelling : Text) (s : Switch) (attached : Option Text) :
    Except UsageError (List Switch) :=
  match attached with
  | none => .ok [s]
  | some value =>
    if value.isEmpty || mark.isPrefixOf spelling then .error (.valueRefused s value)
    else do return s :: (← cluster s value)

/-- Follows the switches that a word without a value of its own stands for. -/
def Progress.followAll (p : Progress) (spelling : Text) (s : Switch) (attached : Option Text) :
    Except Halt Progress := do
  (← (switches spelling s attached).mapError .usage).foldlM Progress.follow p.atSwitch

/-- Takes the pieces of a command line from left to right. -/
def readFrom (p : Progress) : List Piece → Except Halt Request
  | [] => p.finish
  | .plain word :: rest => readFrom (p.takePlain word) rest
  | .mark :: rest => readFrom p.takeMark rest
  | .unknown word :: rest => readFrom (p.takeUnknown word) rest
  | .switch spelling s (some value) :: rest => do
    let next ← if s.takesValue then p.atSwitch.followWith s value
      else p.followAll spelling s (some value)
    readFrom next rest
  | .switch spelling s none :: .plain word :: rest => do
    if s.takesValue then
      readFrom (← p.atSwitch.followWith s word) rest
    else
      readFrom ((← p.followAll spelling s none).takePlain word) rest
  | .switch spelling s none :: rest => do
    if s.takesValue then throw (.usage (.valueMissing s))
    readFrom (← p.followAll spelling s none) rest

/-- What the words of a command line ask for under the settings. -/
def Request.read (words : List Text) (s : Settings := {}) : Except Halt Request := do
  readFrom { request := .ofSettings s } (← (pieces words).mapError .usage)

theorem Progress.finish_eq_ok_iff {p : Progress} {r : Request} :
    p.finish = .ok r ↔
      operandNames.length ≤ p.request.operands.length ∧ p.leftOver = [] ∧ p.request = r := by
  unfold Progress.finish Progress.isFull
  by_cases h1 : operandNames.length ≤ p.request.operands.length <;>
    by_cases h2 : p.leftOver = [] <;> simp [h1, h2]

theorem Piece.ofWord_of_head {word : Text} (h : word.head? ≠ some '-') : Piece.ofWord word = .ok (.plain word) := by
  simp [Piece.ofWord, h]

/-- A command line that only names the two directories leaves all else to the settings. -/
theorem Request.read_plain {input output : Text} (s : Settings) (hinput : input.head? ≠ some '-')
    (houtput : output.head? ≠ some '-') :
    Request.read [input, output] s =
      .ok { Request.ofSettings s with operands := [some input, some output] } := by
  have hmark : ∀ {word : Text}, word.head? ≠ some '-' → word ≠ mark := by
    rintro word h rfl
    exact h rfl
  have hpieces : pieces [input, output] = .ok [.plain input, .plain output] := by
    simp only [pieces, hmark hinput, hmark houtput, if_false, Piece.ofWord_of_head hinput,
      Piece.ofWord_of_head houtput]
    rfl
  have hunmarked : unmarked output = some output := if_neg (hmark houtput)
  unfold Request.read
  rw [hpieces]
  show readFrom { request := .ofSettings s } [.plain input, .plain output] = _
  rw [readFrom, readFrom, readFrom, Progress.finish_eq_ok_iff]
  simp [Progress.takePlain, Progress.isFull, operandNames, Request.ofSettings, hunmarked]

end Inlay.Command

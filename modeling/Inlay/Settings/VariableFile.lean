import Inlay.Text.Blank
import Inlay.Text.Newline
import Inlay.Attributes.Basic

/-!
# Files of variables

A file of variables has one assignment on each line: a name, an equals sign and a value, which may stand
in quotes. A name without an equals sign has no value. Comments begin with a hash; a line that is no
assignment is passed over. Values may refer to variables. A byte order mark may stand at the beginning.

* `VariableFile.assignments` — the assignments of a file, in order.
* `VariableFile.substitute` — a value with its references replaced.
* `VariableFile.values` — the variables of a file, each at its first place with its last value.
-/

namespace Inlay.VariableFile

/-- Whether `c` ends a line. -/
def endsLine (c : Char) : Bool := c = '\n' || c = '\r'

/-- Blanks within a line. -/
def isInlineBlank (c : Char) : Bool := Text.isBlank c && !endsLine c

/-- `t` without the inline blanks at its beginning. -/
def skipInline (t : Text) : Text := t.dropWhile isInlineBlank

/-- The word that may stand before a name. -/
def exportWord : Text := "export".toList

/-- `t` without the word `export` and the blanks behind it. -/
def skipExport (t : Text) : Text :=
  if exportWord.isPrefixOf t then
    let rest := t.drop exportWord.length
    if rest.head?.any isInlineBlank then skipInline rest else t
  else t

/-- What follows the present line. -/
def nextLine (t : Text) : Text := (t.dropWhile fun c => !endsLine c).drop 1

/-- Reads a name, in single quotes or plain. -/
def name? (t : Text) : Option (Text × Text) :=
  match t with
  | '\x27' :: rest =>
    match rest.takeWhile (· != '\x27'), rest.dropWhile (· != '\x27') with
    | c :: name, _ :: after => some (c :: name, after)
    | _, _ => none
  | _ =>
    let isPlain := fun c => c != '=' && c != '#' && !Text.isBlank c
    match t.takeWhile isPlain with
    | [] => none
    | name => some (name, t.dropWhile isPlain)

/-- Reads a quoted value behind its first quote, escapes as written. A character behind a backslash
belongs to the value, also if it is the quote. -/
def quotedBody? (quote : Char) : Text → Option (Text × Text)
  | [] => none
  | [c] => if c = quote then some ([], []) else none
  | c :: d :: rest =>
    if c = quote then some ([], d :: rest)
    else if c = '\\' then
      (quotedBody? quote rest).map fun found => (c :: d :: found.1, found.2)
    else
      (quotedBody? quote (d :: rest)).map fun found => (c :: found.1, found.2)

/-- Replaces the escapes in a value: a backslash and a letter that `table` has. -/
def unescape (table : List (Char × Char)) : Text → Text
  | [] => []
  | '\\' :: c :: rest =>
    match table.lookup c with
    | some d => d :: unescape table rest
    | none => '\\' :: unescape table (c :: rest)
  | c :: rest => c :: unescape table rest
termination_by t => t.length

/-- The escapes in single quotes. -/
def singleEscapes : List (Char × Char) := [('\\', '\\'), ('\x27', '\x27')]

/-- The escapes in double quotes. -/
def doubleEscapes : List (Char × Char) := singleEscapes ++ [('\x22', '\x22'), ('a', '\x07'),
  ('b', '\x08'), ('f', '\x0C'), ('n', '\n'), ('r', '\r'), ('t', '\t'), ('v', '\x0B')]

/-- A plain value up to the blanks before its comment, which may be all there is. -/
def dropComment : Text → Text
  | [] => []
  | c :: rest =>
    if Text.isBlank c && (rest.dropWhile Text.isBlank).head? = some '#' then []
    else c :: dropComment rest

/-- Reads a value behind its equals sign. Blanks may stand in front of it. -/
def value? (t : Text) : Option (Text × Text) :=
  match skipInline t with
  | '\x27' :: rest =>
    (quotedBody? '\x27' rest).map fun found => (unescape singleEscapes found.1, found.2)
  | '\x22' :: rest =>
    (quotedBody? '\x22' rest).map fun found => (unescape doubleEscapes found.1, found.2)
  | _ =>
    let line := t.takeWhile fun c => !endsLine c
    some (Text.strip (dropComment line), t.drop line.length)

/-- What follows a comment and the end of the line, if nothing else stands there. -/
def endOfLine? (t : Text) : Option Text :=
  let t := match skipInline t with
    | '#' :: rest => rest.dropWhile fun c => !endsLine c
    | _ => t
  match skipInline t with
  | [] => some []
  | '\r' :: '\n' :: rest => some rest
  | c :: rest => if endsLine c then some rest else none

/-- A line of a file: a name with its value, if it has one. -/
abbrev Assignment := Text × Option Text

/-- Reads the assignment or the comment at the beginning of `t`. Yields what comes after, also where the
line is neither. -/
def line (t : Text) : Option Assignment × Text :=
  let t := skipExport t
  if t.head? = some '#' then
    (none, nextLine t)
  else
    match name? t with
    | none => (none, nextLine t)
    | some (name, rest) =>
      match skipInline rest with
      | '=' :: tail =>
        match value? tail with
        | none => (none, nextLine tail)
        | some (value, rest) =>
          match endOfLine? rest with
          | some after => (some (name, some value), after)
          | none => (none, nextLine rest)
      | rest =>
        match endOfLine? rest with
        | some after => (some (name, none), after)
        | none => (none, nextLine rest)

/-- The assignments of a text; `fuel` bounds the number of lines. -/
def assignmentsFrom : Nat → Text → List Assignment
  | 0, _ => []
  | fuel + 1, t =>
    match t.dropWhile Text.isBlank with
    | [] => []
    | rest =>
      let (found, after) := line rest
      found.toList ++ assignmentsFrom fuel after

/-- A text without the byte order mark at its beginning. -/
def dropMark (t : Text) : Text := if t.head? = some '\uFEFF' then t.drop 1 else t

/-- The assignments of a file, in order. Every line takes a character. -/
def assignments (t : Text) : List Assignment :=
  assignmentsFrom t.length (Text.unifyLineEnds (dropMark t))

/-- Reads a reference behind its dollar sign and brace: the name, and what stands for a variable that is
not set. -/
def reference? (t : Text) : Option (Text × Text × Text) :=
  let isName := fun c => c != '\x7D' && c != ':'
  let name := t.takeWhile isName
  match t.dropWhile isName with
  | '\x7D' :: rest => some (name, [], rest)
  | ':' :: '-' :: rest =>
    match rest.dropWhile (· != '\x7D') with
    | _ :: after => some (name, rest.takeWhile (· != '\x7D'), after)
    | [] => none
  | _ => none

/-- The value with every reference replaced by the variable's value; `fuel` bounds the number of
steps. -/
def substituteFrom (lookup : Text → Option Text) : Nat → Text → Text
  | 0, t => t
  | _ + 1, [] => []
  | fuel + 1, c :: rest =>
    match c, rest with
    | '$', '\x7B' :: tail =>
      match reference? tail with
      | some (name, default, after) =>
        (lookup name).getD default ++ substituteFrom lookup fuel after
      | none => c :: substituteFrom lookup fuel rest
    | _, _ => c :: substituteFrom lookup fuel rest

/-- The value with every reference replaced by the value of the variable, which is looked up among the
variables of the file so far and then in the environment. -/
def substitute (environment : Pairs) (sofar : List Assignment) (value : Text) : Text :=
  let lookup := fun name =>
    match sofar.lookup name with
    | some found => some (found.getD [])
    | none => environment.lookup name
  substituteFrom lookup (value.length + 1) value

/-- The assignments with `name` set to `value`, in its place if it is there, else at the end. -/
def put (name : Text) (value : Option Text) : List Assignment → List Assignment
  | [] => [(name, value)]
  | (n, v) :: rest => if n = name then (n, value) :: rest else (n, v) :: put name value rest

/-- The variables of a file. A value may refer to the variables before it and to the environment. -/
def values (environment : Pairs) (t : Text) : List Assignment :=
  (assignments t).foldl
    (fun sofar a => put a.1 (a.2.map (substitute environment sofar)) sofar) []

end Inlay.VariableFile

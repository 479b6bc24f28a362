import Inlay.Markup.Native
import Inlay.Settings.Json
import Inlay.Text.Blank

/-!
# Settings

The settings of the library: where pages and components lie, and how a build goes about them.

* `Settings` — the settings with their defaults.
* `Setting` — their names, in order, with `Setting.name`.
* `Setting.set` — a setting changed to a given value, or why the value is refused.
* `Settings.native` — the native tags that the settings add up to.

Main statement: `Settings.isNative_native` (a tag is native if HTML has it or the settings add it).
-/

namespace Inlay

open Markup

/-- The settings. -/
structure Settings where
  pagesDirectory : Text := "src/pages".toList
  componentsDirectory : Text := "src/components".toList
  pageGlob : Text := "**/*.html".toList
  extension : Text := ".html".toList
  ceiling : Int := 100
  remembering : Bool := true
  extraNative : List Text := []
  clean : Bool := false
  strict : Bool := false
  deriving DecidableEq, Repr

/-- The names of the settings. -/
inductive Setting where
  | pagesDirectory
  | componentsDirectory
  | pageGlob
  | extension
  | ceiling
  | remembering
  | extraNative
  | clean
  | strict
  deriving DecidableEq, Repr

/-- Why a value is refused. -/
inductive ValueError where
  | noText
  | brokenText
  | noInteger
  | unreadableInteger
  | oversizedInteger
  | fractionalInteger
  | tooSmall
  | noBoolean
  | unreadableBoolean
  | noList
  | unknownSetting
  deriving DecidableEq, Repr

namespace ValueError

/-- The name of an error. -/
def name : ValueError → String
  | noText => "string_type"
  | brokenText => "string_unicode"
  | noInteger => "int_type"
  | unreadableInteger => "int_parsing"
  | oversizedInteger => "int_parsing_size"
  | fractionalInteger => "int_from_float"
  | tooSmall => "greater_than_equal"
  | noBoolean => "bool_type"
  | unreadableBoolean => "bool_parsing"
  | noList => "list_type"
  | unknownSetting => "extra_forbidden"

end ValueError

/-- A refused value: the place of the value, and why. -/
structure Refusal where
  place : Text
  error : ValueError
  deriving DecidableEq, Repr

namespace Setting

/-- All settings, in order. -/
def all : List Setting := [pagesDirectory, componentsDirectory, pageGlob, extension, ceiling,
  remembering, extraNative, clean, strict]

/-- The written name of a setting. -/
def name : Setting → Text
  | pagesDirectory => "pages_dir".toList
  | componentsDirectory => "components_dir".toList
  | pageGlob => "page_glob".toList
  | extension => "component_extension".toList
  | ceiling => "max_iterations".toList
  | remembering => "cache_templates".toList
  | extraNative => "native_tags_extra".toList
  | clean => "clean_output".toList
  | strict => "strict_mode".toList

/-- The blanks that may stand around a written integer. -/
def isMargin (c : Char) : Bool := Text.isBlank c && !(0x1C ≤ c.toNat && c.toNat ≤ 0x1F)

/-- The most characters that a written integer may have. -/
def longest : Nat := 4300

/-- A text broken behind the minus that it may begin with. -/
def breakSign (t : Text) : Bool × Text :=
  match t with
  | '-' :: rest => (true, rest)
  | _ => (false, t)

/-- The integer that a text writes as an optional minus and digits without a needless zero in front. -/
def plainInteger? (t : Text) : Option Int :=
  let (negative, digits) := breakSign t
  if digits.isEmpty || !digits.all Char.isDigit || (digits.head? = some '0' && digits != ['0']) then none
  else
    let n : Int := JsonValue.digitsValue digits
    some (if negative then -n else n)

/-- Whether a text begins with an integer of too many characters. -/
def isOversized (t : Text) : Bool :=
  let (negative, rest) := breakSign t
  let digits := rest.takeWhile Char.isDigit
  digits.head?.any (· != '0') && longest < digits.length + negative.toNat

/-- A text without the zeros and underscores that it goes on with behind `last`, if a sign, a digit or a
point ends them. A point keeps the character before it, and so does the end of the text. -/
def skipZeros? (last : Char) : Text → Option Text
  | [] => some [last]
  | c :: rest =>
    if c = '0' || c = '_' then skipZeros? c rest
    else if c = '.' then some (last :: c :: rest)
    else if c = '-' || c.isDigit then some (c :: rest)
    else none

/-- A text that begins with a sign or a digit, without the needless zeros in front. -/
def dropZeros? : Text → Option Text
  | [] => none
  | c :: rest =>
    if c = '0' then skipZeros? c rest
    else if c = '-' || c.isDigit then some (c :: rest)
    else none

/-- A text without the needless zeros in front or right behind the minus in front. -/
def dropSignedZeros? (t : Text) : Option Text :=
  match breakSign t with
  | (true, rest) => (dropZeros? rest).map ('-' :: ·)
  | (false, rest) => dropZeros? rest

/-- A text without the plus in front of it; no minus may follow. -/
def dropPlus? : Text → Option Text
  | '+' :: '-' :: _ => none
  | '+' :: rest => some rest
  | t => some t

/-- A text without its point and the zeros behind it, if nothing but zeros stands there. -/
def dropFraction (t : Text) : Text :=
  let whole := t.takeWhile (· != '.')
  let tail := (t.drop whole.length).drop 1
  if !tail.isEmpty && tail.all (· = '0') then whole else t

/-- A text without its underscores, which must stand alone and not at an end. -/
def dropUnderscores? (t : Text) : Option Text :=
  if t.head? = some '_' || t.getLast? = some '_' || (Text.find? ['_', '_'] t).isSome then none
  else some (t.filter (· != '_'))

/-- The plain spelling of an integer that is written with blanks around it, a plus or zeros in front, zeros
behind the minus or a point, or underscores. -/
def plainSpelling? (t : Text) : Option Text := do
  let t := ((t.dropWhile isMargin).reverse.dropWhile isMargin).reverse
  dropUnderscores? (dropFraction (← dropSignedZeros? (← dropPlus? t)))

/-- The integer that a text writes, in its plain spelling or in another one. -/
def integerOf (t : Text) : Except ValueError Int :=
  if isOversized t then .error .oversizedInteger
  else
    match plainInteger? t with
    | some n => .ok n
    | none =>
      match plainSpelling? t with
      | none => .error .unreadableInteger
      | some spelling =>
        if longest < spelling.length then .error .unreadableInteger
        else
          match plainInteger? spelling with
          | some n => .ok n
          | none => .error .unreadableInteger

/-- The words for yes. -/
def yesWords : List Text := ["1", "t", "y", "on", "yes", "true"].map String.toList

/-- The words for no. -/
def noWords : List Text := ["0", "f", "n", "off", "no", "false"].map String.toList

/-- A value taken as a text. -/
def asText : JsonValue → Except ValueError Text
  | .text t => .ok t
  | .brokenText => .error .brokenText
  | _ => .error .noText

/-- A value taken as an integer. -/
def asInteger : JsonValue → Except ValueError Int
  | .integer n => .ok n
  | .boolean b => .ok (if b then 1 else 0)
  | .text t => integerOf t
  | .brokenText => .error .unreadableInteger
  | .fraction => .error .fractionalInteger
  | _ => .error .noInteger

/-- A value taken as an integer of at least one. -/
def asCeiling (v : JsonValue) : Except ValueError Int := do
  let n ← asInteger v
  if n < 1 then throw .tooSmall
  return n

/-- Whether an integer has room in sixty-four bits. -/
def isMachineSized (n : Int) : Bool := -0x8000000000000000 ≤ n && n < 0x8000000000000000

/-- A value taken as yes or no. Words count in any letter case. -/
def asBoolean : JsonValue → Except ValueError Bool
  | .boolean b => .ok b
  | .integer n =>
    if n = 1 then .ok true
    else if n = 0 then .ok false
    else .error (if isMachineSized n then .unreadableBoolean else .noBoolean)
  | .text t =>
    let word := t.map Char.toLower
    if yesWords.contains word then .ok true
    else if noWords.contains word then .ok false
    else .error .unreadableBoolean
  | .brokenText => .error .unreadableBoolean
  | .fraction => .error .noBoolean
  | _ => .error .noBoolean

/-- Texts from a list of values, with a refusal for each item that is none. -/
def textsFrom (place : Text) (i : Nat) : List JsonValue → List Text × List Refusal
  | [] => ([], [])
  | v :: rest =>
    let (texts, refusals) := textsFrom place (i + 1) rest
    match asText v with
    | .ok t => (t :: texts, refusals)
    | .error e => (texts, ⟨place ++ '.' :: (toString i).toList, e⟩ :: refusals)

/-- The settings with one of them changed by a value that was read, or the refusal of the value. -/
def setWith {α : Type} (place : Text) (read : JsonValue → Except ValueError α)
    (change : α → Settings → Settings) (v : JsonValue) (s : Settings) :
    Except (List Refusal) Settings :=
  match read v with
  | .ok a => .ok (change a s)
  | .error e => .error [⟨place, e⟩]

/-- The settings with one of them set to a value. -/
def set (setting : Setting) (v : JsonValue) (s : Settings) : Except (List Refusal) Settings :=
  let place := setting.name
  match setting with
  | .pagesDirectory => setWith place asText (fun t s => { s with pagesDirectory := t }) v s
  | .componentsDirectory => setWith place asText (fun t s => { s with componentsDirectory := t }) v s
  | .pageGlob => setWith place asText (fun t s => { s with pageGlob := t }) v s
  | .extension => setWith place asText (fun t s => { s with extension := t }) v s
  | .ceiling => setWith place asCeiling (fun n s => { s with ceiling := n }) v s
  | .remembering => setWith place asBoolean (fun b s => { s with remembering := b }) v s
  | .clean => setWith place asBoolean (fun b s => { s with clean := b }) v s
  | .strict => setWith place asBoolean (fun b s => { s with strict := b }) v s
  | .extraNative =>
    match v with
    | .list items =>
      match textsFrom place 0 items with
      | (texts, []) => .ok { s with extraNative := texts }
      | (_, refusals) => .error refusals
    | _ => .error [⟨place, .noList⟩]

end Setting

namespace Settings

/-- The names that the settings add to the native tags: without blanks at their ends, in lower case, and
none that is empty. -/
def addedNames (s : Settings) : List Text :=
  (s.extraNative.map fun name => Text.lower (Text.strip name)).filter fun name => !name.isEmpty

/-- The native tags of a build with these settings. -/
def native (s : Settings) : NativeSet := NativeSet.html.add s.addedNames.eraseDups

/-- The names that are native by these settings and not in HTML, in the order of texts. -/
def addedNative (s : Settings) : List Text :=
  (s.native.names.filter fun name => !NativeSet.html.names.contains name).mergeSort
    fun a b => !Text.before b a

theorem isNative_native (s : Settings) (name : Text) :
    s.native.isNative name =
      (NativeSet.html.isNative name || s.addedNames.contains (Text.lower name)) := by
  rw [native, NativeSet.isNative_add]
  congr 1
  rw [Bool.eq_iff_iff]
  simp [List.contains_eq_mem]

end Settings

end Inlay

import Inlay.Text.Basic

/-!
# Switches of the command line

* `Switch` — what a switch is about.
* `Switch.spellings` — all spellings, in the order in which they are offered.
* `Switch.takesValue`, `Switch.title` — whether a value belongs to a switch, and its name in messages.
* `Switch.spelled?`, `Switch.candidates` — the switch that a word spells, and those that it may abbreviate.

Main statement: `Switch.spelled?_isSome_iff`.
-/

namespace Inlay

/-- What a switch of the command line is about. -/
inductive Switch where
  | help
  | pagesDirectory
  | componentsDirectory
  | pageGlob
  | ceiling
  | clean
  | strict
  | verbosity
  | version
  | inputRecord
  | outputRecord
  deriving DecidableEq, Repr

namespace Switch

/-- All spellings, in the order in which they are offered. -/
def spellings : List (Text × Switch) := [
  ("-h".toList, help), ("--help".toList, help),
  ("--pagesDir".toList, pagesDirectory),
  ("--componentsDir".toList, componentsDirectory),
  ("--pageGlob".toList, pageGlob),
  ("--maxIterations".toList, ceiling),
  ("--clean".toList, clean),
  ("--strict".toList, strict),
  ("-v".toList, verbosity), ("--verbosity".toList, verbosity),
  ("-V".toList, version), ("--version".toList, version),
  ("--saveinputmeta".toList, inputRecord),
  ("--saveoutputmeta".toList, outputRecord)
]

/-- Whether a value belongs to the switch. -/
def takesValue : Switch → Bool
  | pagesDirectory | componentsDirectory | pageGlob | ceiling => true
  | _ => false

/-- The name of a switch in messages: its spellings with a slash between them. -/
def title (s : Switch) : Text :=
  Text.join ['/'] ((spellings.filter (·.2 = s)).map (·.1))

/-- The switch that a word spells in full. -/
def spelled? (word : Text) : Option Switch := spellings.lookup word

/-- A way to take a word for a switch: the spelling, the switch, and the value that is written in the
same word, if any. -/
structure Candidate where
  spelling : Text
  switch : Switch
  attached : Option Text
  deriving DecidableEq, Repr

/-- A word broken at its first equals sign, if it has one. -/
def breakAtEquals (word : Text) : Text × Option Text :=
  match Text.breakOn? ['='] word with
  | some (before, after) => (before, some after)
  | none => (word, none)

/-- The switch that is spelled in full before an equals sign in `word`. -/
def withValue? (word : Text) : Option Candidate :=
  match breakAtEquals word with
  | (start, some value) => (spelled? start).map fun s => ⟨start, s, some value⟩
  | (_, none) => none

/-- The switches that `word`, which begins with a hyphen, may stand for though it spells none in full.
After two hyphens, a spelling may be cut short and a value may follow an equals sign; after one
hyphen, a value or further switches may follow the first letter. -/
def candidates (word : Text) : List Candidate :=
  if ['-', '-'].isPrefixOf word then
    let (start, attached) := breakAtEquals word
    (spellings.filter fun s => start.isPrefixOf s.1).map fun s => ⟨s.1, s.2, attached⟩
  else
    spellings.filterMap fun s =>
      if s.1 = word.take 2 then some ⟨s.1, s.2, some (word.drop 2)⟩
      else if word.isPrefixOf s.1 then some ⟨s.1, s.2, none⟩
      else none

theorem spelled?_isSome_iff (word : Text) :
    (spelled? word).isSome = true ↔ word ∈ spellings.map Prod.fst := by
  simp only [spelled?, List.lookup_isSome_iff, List.mem_map, beq_iff_eq]
  constructor
  · rintro ⟨p, hp, rfl⟩; exact ⟨p, hp, rfl⟩
  · rintro ⟨p, hp, rfl⟩; exact ⟨p, hp, rfl⟩

end Switch

end Inlay

import Inlay.Failure

/-!
# The log

What a run tells about itself. Every event has a level; a reader with a certain verbosity sees the
events whose level is not above it. A run has no clock, so a measured time is written as `N`.

* `Event` — what can happen, with `Event.level` and `Event.message`.
* `Severity` — how an event is labelled, with `Severity.label` and `Event.severity`.
* `Event.isHeard`, `Log.visible` — what a reader sees.

Main statement: `Log.visible_visible` (what a reader with less verbosity sees can be told from what a
reader with more sees).
-/

namespace Inlay

/-- What can happen during a run. -/
inductive Event where
  | note (level : Int) (text : String)
  | contentRefused
  | tagSkipped (name : Text) (position : Nat)
  | tagReplaced (name : Text) (start before : Int) (after : Nat)
  | passesExhausted (passes : Nat)
  | templateLoaded (name : Text) (file : Path)
  | buildStarted
  | cleaning (directory : Path)
  | componentsFound (names : List Text)
  | pagesFound (count : Nat) (directory : Path)
  | pageStarted (page : Path)
  | pageFailed (page : Path) (failure : Failure)
  | tagLeft (name : Text) (page : Path)
  | pageExpanded (replacements : Nat)
  | pageWritten (destination : Path)
  | buildFinished
  | banner
  | checkStarted
  | pagesDirectory (directory : Path)
  | componentsDirectory (directory : Path)
  | componentsMissing (directory : Path)
  | outputDirectory (directory : Path)
  | buildingPages
  | pagesBuilt (count : Int)
  | componentsReplaced (count : Int)
  | outputWritten (directory : Text)
  | timeTaken
  | tagsLeft (page : Text) (names : List Text)
  | ceilingReached (page : Text)
  | succeeded
  deriving DecidableEq, Repr

/-- How an event is labelled. -/
inductive Severity where
  | info
  | debug
  | trace
  | warning
  deriving DecidableEq, Repr

/-- The written label. -/
def Severity.label : Severity → String
  | .info => "INFO"
  | .debug => "DEBUG"
  | .trace => "TRACE"
  | .warning => "WARNING"

namespace Event

/-- The verbosity that it takes to see an event. -/
def level : Event → Int
  | note level _ => level
  | tagSkipped .. => 3
  | templateLoaded .. => 3
  | tagReplaced .. => 2
  | buildStarted => 2
  | componentsFound _ => 2
  | pagesFound .. => 2
  | buildFinished => 2
  | banner => 2
  | checkStarted => 2
  | pagesDirectory _ => 2
  | componentsDirectory _ => 2
  | outputDirectory _ => 2
  | timeTaken => 2
  | _ => 1

/-- The program's title. -/
def title : String :=
  "\n       _       _                  _ _   _\n" ++
  "   ___| | ___ | |_ ___ _ __ ___  (_) |_| |__\n" ++
  "  / __| |/ _ \\| __/ __| '_ \x60 _ \\ | | __| '_ \\\n" ++
  "  \\__ \\ | (_) | |_\\__ \\ | | | | || | |_| | | |\n" ++
  "  |___/_|\\___/ \\__|___/_| |_| |_||_|\\__|_| |_|\n\n" ++
  "  Component inlining for static HTML sites\n"

/-- Texts one after the other with a comma between neighbours. -/
def listed (ts : List Text) : String := (Text.join [',', ' '] ts).string

/-- A tag name between its brackets. -/
def bracketed (name : Text) : Text := '<' :: (name ++ ['>'])

/-- The words for an event. -/
def message : Event → String
  | note _ text => text
  | contentRefused => "Warning: cannot inject content into a self-closing root tag"
  | tagSkipped name position =>
    s!"Skipping <{name.string}>: {Failure.unterminatedMessage name position}"
  | tagReplaced name start before after =>
    s!"Rewrote <{name.string}> at {start} ({before} -> {after} chars)"
  | passesExhausted passes =>
    s!"Warning: stopped after {passes} passes, component nesting may be cyclic or malformed"
  | templateLoaded name file => s!"Loaded component '{name.string}' from {file.string}"
  | buildStarted => "Starting build..."
  | cleaning directory => s!"Cleaning {directory.string}"
  | componentsFound names =>
    let shown := if names.isEmpty then "(none)" else listed names
    s!"Components available: {shown}"
  | pagesFound count directory => s!"Found {count} page(s) in {directory.string}"
  | pageStarted page => page.string
  | pageFailed page failure => s!"Warning: failed to build {page.string}: {failure.message}"
  | tagLeft name page => s!"Warning: unterminated <{name.string}> left as text in {page.string}"
  | pageExpanded replacements => s!"  {replacements} component(s) replaced"
  | pageWritten destination => s!"  Wrote: {destination.string}"
  | buildFinished => "Build finished in Nms"
  | banner => title
  | checkStarted => "Checking environment..."
  | pagesDirectory directory => s!"Pages directory: {directory.string}"
  | componentsDirectory directory => s!"Components directory: {directory.string}"
  | componentsMissing directory => s!"Warning: Components directory not found: {directory.string}"
  | outputDirectory directory => s!"Output directory: {directory.string}"
  | buildingPages => "Building pages..."
  | pagesBuilt count => s!"\nPages: {count}"
  | componentsReplaced count => s!"Components replaced: {count}"
  | outputWritten directory => s!"Output: {directory.string}"
  | timeTaken => "Duration: Nms"
  | tagsLeft page names => s!"Warning: {page.string}: unterminated {listed (names.map bracketed)}"
  | ceilingReached page => s!"Warning: {page.string}: iteration ceiling reached"
  | succeeded => "\n\u2713 Build successful!"

/-- How the message of a warning begins. -/
def warningMark : Text := "Warning:".toList

/-- The label of an event: a message that begins as a warning is one, at whatever level. -/
def severity (e : Event) : Severity :=
  if warningMark.isPrefixOf e.message.toList then .warning
  else if e.level = 1 then .info
  else if e.level = 2 then .debug
  else .trace

end Event

/-- Events in the order in which they happened. -/
abbrev Log := List Event

/-- Whether the event is a free text: nothing that the library itself tells. -/
def Event.isNote : Event → Bool
  | .note .. => true
  | _ => false

/-- Whether a reader of the given verbosity sees the event; without a reader nothing is seen. -/
def Event.isHeard (reader : Option Int) (e : Event) : Bool :=
  match reader with
  | none => false
  | some verbosity => e.level ≤ verbosity

/-- What a reader of the given verbosity sees. -/
def Log.visible (reader : Option Int) (log : Log) : Log := log.filter (·.isHeard reader)

theorem Log.visible_visible {v w : Int} (h : v ≤ w) (log : Log) :
    Log.visible (some v) (Log.visible (some w) log) = Log.visible (some v) log := by
  simp only [Log.visible, Event.isHeard, List.filter_filter]
  congr 1
  funext e
  by_cases hv : e.level ≤ v
  · simp [hv, Int.le_trans hv h]
  · simp [hv]

end Inlay

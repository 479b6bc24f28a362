import Inlay.Disk.Glob

/-!
# Failures

Everything that can end an operation of the library without a result.

* `Failure` — the causes, with `AbsentValue` among them.
* `Failure.message` — the words for each.
* `Failure.concernsFile` — the failures that spoil one page and not the build.
-/

namespace Inlay

/-- What a step needs of a request and does not find. -/
inductive AbsentValue where
  | operand
  | directoryName
  | ceiling
  deriving DecidableEq, Repr

/-- The words for an absent value. -/
def AbsentValue.message : AbsentValue → String
  | operand => "expected str, bytes or os.PathLike object, not list"
  | directoryName => "unsupported operand type(s) for /: 'PosixPath' and 'list'"
  | ceiling => "'<' not supported between instances of 'list' and 'int'"

/-- Why an operation ends without a result. -/
inductive Failure where
  /-- A path could not be used. -/
  | disk (error : DiskError)
  /-- A file's bytes are no text. -/
  | undecodable (fault : Utf8.Fault)
  /-- No template file belongs to the name. -/
  | noComponent (name : Text) (expected : Path)
  /-- The tag that ends at the position has no matching closing tag. -/
  | unterminated (name : Text) (position : Int)
  /-- The number of passes is bounded by a number below one. -/
  | ceilingTooLow (ceiling : Int)
  /-- A page lies outside the directory of the pages. -/
  | outside (page pagesDirectory : Path)
  /-- A text is no glob pattern. -/
  | badGlob (error : GlobError)
  /-- A value of the request is absent. -/
  | absent (value : AbsentValue)
  deriving DecidableEq, Repr

namespace Failure

/-- The words for a tag without a matching closing tag. -/
def unterminatedMessage (name : Text) (position : Int) : String :=
  s!"Unterminated component tag <{name.string}> (opening tag ends at position {position})"

/-- The words for a failure. -/
def message : Failure → String
  | disk error => error.message
  | undecodable fault => fault.message
  | noComponent name expected =>
    s!"Component '{name.string}' not found. Expected file: {expected.string}"
  | unterminated name position => unterminatedMessage name position
  | ceilingTooLow ceiling => s!"max_iterations must be at least 1, got {ceiling}"
  | outside page pagesDirectory =>
    s!"{(Text.quoted page.text).string} is not in the subpath of {(Text.quoted
      pagesDirectory.bareText).string} OR one path is relative and the other is absolute."
  | badGlob error => error.message
  | absent value => value.message

/-- Whether the failure comes from using a file: its page is given up and the build goes on. -/
def concernsFile : Failure → Bool
  | disk (.obstacle _ _) => true
  | undecodable _ => true
  | _ => false

end Failure

end Inlay

import Inlay.Attributes.Read
import Inlay.Markup.Root

/-!
# Writing attributes

The attributes of a component's tag are given to the root of its template. Class names are merged into
the root's own `class` attribute; all else is appended right before the greater-than sign.

* `Attributes.extend` — an opening tag with further attributes.
* `Attributes.addTo` — a template whose root has further attributes.
-/

namespace Inlay

open Markup

/-- Reads a `class` attribute at the beginning of `t`, whose value holds no quote of either kind.
Yields the value and what comes after. -/
def readClass? (t : Text) : Option (Text × Text) :=
  if className.isPrefixOf t then
    match (t.drop className.length).dropWhile Text.isBlank with
    | '=' :: tail =>
      match tail.dropWhile Text.isBlank with
      | quote :: body =>
        match body.dropWhile fun c => !isQuote c with
        | close :: after =>
          if isQuote quote && close = quote then some (body.takeWhile fun c => !isQuote c, after)
          else none
        | [] => none
      | [] => none
    | _ => none
  else none

/-- Breaks `t` at its first `class` attribute that a blank stands before: the text before it, its
value, and the text after it. `afterBlank` tells whether a blank stands before `t`. -/
def breakAtClass? (afterBlank : Bool) : Text → Option (Text × Text × Text)
  | [] => none
  | c :: rest =>
    match if afterBlank then readClass? (c :: rest) else none with
    | some (value, after) => some ([], value, after)
    | none =>
      (breakAtClass? (Text.isBlank c) rest).map fun found => (c :: found.1, found.2.1, found.2.2)

namespace Attributes

/-- A pair as it is written. -/
def pairText (p : Text × Text) : Text := p.1 ++ '=' :: '\x22' :: (p.2 ++ ['\x22'])

/-- A `class` attribute as it is written. -/
def classText (classes : List Text) : Text := pairText (className, Text.join [' '] classes)

/-- The opening tag with the class names merged into its own, or appended if it has none. -/
def extendClasses (classes : List Text) (opening : Text) : Text :=
  if classes.isEmpty then opening
  else
    match breakAtClass? false opening with
    | some (before, value, after) =>
      before ++ classText (mergeClasses (Text.words value) classes) ++ after
    | none => opening ++ ' ' :: classText classes

/-- The attributes without the class names as they are appended, each after a space. -/
def appendix (a : Attributes) : Text :=
  (a.data ++ a.other).flatMap (fun p => ' ' :: pairText p) ++ a.flags.flatMap (' ' :: ·)

/-- The opening tag, which is given without its greater-than sign, with the attributes added. -/
def extend (a : Attributes) (opening : Text) : Text :=
  extendClasses a.classes opening ++ a.appendix

/-- The template with the attributes added to its root; unchanged if it has no root. -/
def addTo (a : Attributes) (template : Text) : Text :=
  match rootTag? endsRootName template with
  | some r => RootTag.text { r with opening := a.extend r.opening }
  | none => template

end Attributes

end Inlay

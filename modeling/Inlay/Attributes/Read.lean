import Inlay.Attributes.Basic
import Inlay.Markup.Name
import Inlay.Text.Blank

/-!
# Reading attributes

The attributes of a tag are read from its text. Only quoted values count: `id=main` is neither a pair
nor a name without value. Pairs are read from left to right and taken out of the text; what is left
and looks like a name is a name without value.

* `QuotedPair` — one pair as it stands in the text.
* `quotedPairs` — all pairs of a text, from left to right and without overlap.
* `Attributes.ofTag` — the attributes of an opening tag.

Main statements: `exists_of_readPair?` (what is read of a pair), and from it `suffix_of_readPair?` (what comes
after a pair is the end of the text), by which reading ends.
-/

namespace Inlay

open Markup

/-- A pair as it stands in a text: its name, its value, and its whole written form. -/
structure QuotedPair where
  name : Text
  value : Text
  written : Text
  deriving DecidableEq, Repr

/-- Whether `c` is one of the two quotes. -/
def isQuote (c : Char) : Bool := c = '\x22' || c = '\x27'

/-- Reads the part of a pair after its name: blanks, an equals sign, blanks, and a value in quotes.
Yields the value and what comes after. -/
def readValue? (t : Text) : Option (Text × Text) :=
  match t.dropWhile Text.isBlank with
  | '=' :: tail =>
    match tail.dropWhile Text.isBlank with
    | quote :: body =>
      if isQuote quote then
        match body.dropWhile (· != quote) with
        | [] => none
        | _ :: after => some (body.takeWhile (· != quote), after)
      else none
    | [] => none
  | _ => none

/-- Reads a pair at the beginning of `t`. Yields the name, the value and what comes after. -/
def readPair? : Text → Option (Text × Text × Text)
  | [] => none
  | c :: rest =>
    if isNameStart c then
      (readValue? (rest.dropWhile isNameChar)).map fun found =>
        (c :: rest.takeWhile isNameChar, found.1, found.2)
    else none

/-- What is read of a value is an equals sign with blanks around it, and the value in quotes that it does not hold. -/
theorem exists_of_readValue? {t value after : Text} (h : readValue? t = some (value, after)) :
    ∃ gap gap' quote, Text.isAllBlank gap = true ∧ Text.isAllBlank gap' = true ∧ isQuote quote = true ∧
      quote ∉ value ∧ t = gap ++ '=' :: (gap' ++ quote :: (value ++ quote :: after)) := by
  unfold readValue? at h
  split at h
  · next tail htail =>
    split at h
    · next quote body hbody =>
      split at h
      · next hquote =>
        split at h
        · cases h
        · next d rest hrest =>
          simp only [Option.some.injEq, Prod.mk.injEq] at h
          obtain ⟨rfl, rfl⟩ := h
          have hd : d = quote := by
            have := List.head?_dropWhile_not (· != quote) body
            simpa [hrest] using this
          have hvalue : quote ∉ body.takeWhile (· != quote) := fun hmem => by
            simpa using List.all_eq_true.mp List.all_takeWhile quote hmem
          refine ⟨t.takeWhile Text.isBlank, tail.takeWhile Text.isBlank, quote, List.all_takeWhile,
            List.all_takeWhile, hquote, hvalue, ?_⟩
          rw [← hd, ← hrest, hd, List.takeWhile_append_dropWhile, ← hbody, List.takeWhile_append_dropWhile,
            ← htail, List.takeWhile_append_dropWhile]
      · cases h
    · cases h
  · cases h

/-- What is read of a pair is a name, an equals sign with blanks around it, and a value in quotes that it does not
hold. -/
theorem exists_of_readPair? {t name value after : Text} (h : readPair? t = some (name, value, after)) :
    ∃ gap gap' quote, isName name = true ∧ Text.isAllBlank gap = true ∧ Text.isAllBlank gap' = true ∧
      isQuote quote = true ∧ quote ∉ value ∧
      t = name ++ gap ++ '=' :: (gap' ++ quote :: (value ++ [quote])) ++ after := by
  cases t with
  | nil => cases h
  | cons c rest =>
    simp only [readPair?] at h
    split at h
    · next hc =>
      obtain ⟨found, hfound, heq⟩ := Option.map_eq_some_iff.mp h
      simp only [Prod.mk.injEq] at heq
      obtain ⟨rfl, rfl, rfl⟩ := heq
      obtain ⟨gap, gap', quote, hgap, hgap', hquote, hvalue, hrest⟩ := exists_of_readValue? hfound
      have hsplit := List.takeWhile_append_dropWhile (p := isNameChar) (l := rest)
      rw [hrest] at hsplit
      refine ⟨gap, gap', quote, by simp [isName, hc, List.all_takeWhile], hgap, hgap', hquote, hvalue, ?_⟩
      simpa using hsplit.symm
    · cases h

theorem suffix_of_readPair? {c : Char} {rest name value after : Text}
    (h : readPair? (c :: rest) = some (name, value, after)) : after <:+ rest := by
  obtain ⟨gap, gap', quote, -, -, -, -, -, heq⟩ := exists_of_readPair? h
  rcases List.suffix_cons_iff.mp ⟨_, heq.symm⟩ with hall | hsuffix
  · have hlength := congrArg List.length heq
    rw [← hall] at hlength
    simp at hlength
    omega
  · exact hsuffix

/-- The pairs of `t`, from left to right; each begins after the end of the one before. -/
def quotedPairs : Text → List QuotedPair
  | [] => []
  | c :: rest =>
    match h : readPair? (c :: rest) with
    | some (name, value, after) =>
      ⟨name, value, (c :: rest).take (rest.length + 1 - after.length)⟩ :: quotedPairs after
    | none => quotedPairs rest
termination_by t => t.length
decreasing_by
  · have := (suffix_of_readPair? h).length_le; simp; omega
  · simp

/-- The raw attribute text of the first opening tag in `t`, without blanks at its ends. -/
def attributeText? : Text → Option Text
  | [] => none
  | c :: rest =>
    if c = '<' && (rest.head?.any isNameStart) then
      let tail := rest.dropWhile isNameChar
      if tail.contains '>' then some (Text.strip (tail.takeWhile (· != '>'))) else none
    else attributeText? rest

/-- How the names of the `data-` group begin. -/
def dataStart : Text := ['d', 'a', 't', 'a', '-']

/-- The name whose value is a list of class names. -/
def className : Text := ['c', 'l', 'a', 's', 's']

namespace Attributes

/-- The attributes with a further pair, put into the group of its name. The value of `class` replaces
the class names that were there before. -/
def put (a : Attributes) (p : QuotedPair) : Attributes :=
  if p.name = className then { a with classes := mergeClasses [] (Text.words p.value) }
  else if dataStart.isPrefixOf p.name then { a with data := putPair p.name p.value a.data }
  else { a with other := putPair p.name p.value a.other }

/-- What is left of `t` after each pair's written form, where it first occurs, has become a space. -/
def leftover (pairs : List QuotedPair) (t : Text) : Text :=
  pairs.foldl (fun rest p => Text.replaceFirst p.written [' '] rest) t

/-- The attributes in a raw attribute text. -/
def ofText (t : Text) : Attributes :=
  let pairs := quotedPairs t
  { pairs.foldl put {} with
    flags := (Text.words (leftover pairs t)).filter fun word =>
      isName word && !pairs.any (·.name = word) }

/-- The attributes of the first opening tag in `t`; none if there is no such tag. -/
def ofTag (t : Text) : Attributes :=
  match attributeText? t with
  | some raw => ofText raw
  | none => {}

end Attributes

end Inlay

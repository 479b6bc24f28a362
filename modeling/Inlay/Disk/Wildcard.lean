import Inlay.Text.Basic

/-!
# Wildcards in names

A wildcard pattern is matched against one whole name: a star stands for any characters, a question
mark for one, and brackets for one character of a set.

* `Wildcard` — one element of a pattern.
* `Wildcard.setOf` — the set that the text between brackets writes.
* `Wildcard.ofText` — the pattern that a text writes.
* `Wildcard.fits` — whether a pattern fits a name.

Main statements: `Wildcard.fits_many_cons` and `Wildcard.fits_cons_cons` (what an element of a pattern
takes), `Wildcard.fits_literals` (a pattern of literals fits its own text alone) and `Wildcard.fits_many` (a
lone star fits every name).
-/

namespace Inlay

/-- An element of a wildcard pattern. A set is a list of ranges of characters, or what lies outside
of them. -/
inductive Wildcard where
  | literal (c : Char)
  | one
  | many
  | set (negated : Bool) (ranges : List (Char × Char))
  deriving DecidableEq, Repr

namespace Wildcard

/-- Whether a name's text is a pattern and not to be taken literally. -/
def isPattern (t : Text) : Bool := t.any fun c => c = '*' || c = '?' || c = '['

/-- A part of what stands between brackets: one character or a range. -/
inductive SetPart where
  | single (c : Char)
  | range (first last : Char)
  deriving DecidableEq, Repr

namespace SetPart

/-- The first and the last character of a part. -/
def bounds : SetPart → Char × Char
  | single c => (c, c)
  | range first last => (first, last)

/-- The parts that a text writes. A hyphen between two characters makes a range; one that runs backwards
is dropped. -/
def listOf : Text → List SetPart
  | a :: '-' :: b :: rest => if a ≤ b then range a b :: listOf rest else listOf rest
  | a :: rest => single a :: listOf rest
  | [] => []

end SetPart

/-- The set that the text between brackets writes. An exclamation mark that is its first character once
backward ranges are dropped negates it; a hyphen behind such a mark stands for itself. -/
def setOf (body : Text) : Wildcard :=
  let parts : List SetPart := match body with
    | '!' :: rest => .single '!' :: SetPart.listOf rest
    | _ => SetPart.listOf body
  match parts with
  | .single '!' :: rest => .set true (rest.map SetPart.bounds)
  | .range '!' last :: rest => .set true (('-', '-') :: (last, last) :: rest.map SetPart.bounds)
  | _ => .set false (parts.map SetPart.bounds)

/-- Breaks a text before its first closing bracket that is not its first character. -/
def breakBody? : Text → Option (Text × Text)
  | [] => none
  | c :: rest =>
    match rest.dropWhile (· != ']') with
    | [] => none
    | _ :: after => some (c :: rest.takeWhile (· != ']'), after)

/-- Breaks the text behind an opening bracket: what stands between the brackets, and what follows. A closing
bracket at the very beginning, or behind an exclamation mark there, belongs to the set. -/
def breakSet? (t : Text) : Option (Text × Text) :=
  match t with
  | '!' :: rest => (breakBody? rest).map fun found => ('!' :: found.1, found.2)
  | _ => breakBody? t

theorem length_of_breakBody? {t body after : Text} (h : breakBody? t = some (body, after)) :
    after.length < t.length := by
  cases t with
  | nil => simp [breakBody?] at h
  | cons c rest =>
    simp only [breakBody?] at h
    split at h
    · simp at h
    · next d r hr =>
      simp only [Option.some.injEq, Prod.mk.injEq] at h
      obtain ⟨-, rfl⟩ := h
      have := (List.dropWhile_suffix (l := rest) (· != ']')).length_le
      rw [hr] at this
      simp at this ⊢
      omega

theorem length_of_breakSet? {t body after : Text} (h : breakSet? t = some (body, after)) :
    after.length < t.length := by
  unfold breakSet? at h
  split at h
  · next rest =>
    obtain ⟨found, hf, he⟩ := Option.map_eq_some_iff.mp h
    simp only [Prod.mk.injEq] at he
    obtain ⟨-, rfl⟩ := he
    have := length_of_breakBody? hf
    simp; omega
  · exact length_of_breakBody? h

/-- The pattern that a text writes. An opening bracket without a closing one stands for itself. -/
def ofText : Text → List Wildcard
  | [] => []
  | c :: rest =>
    if c = '*' then .many :: ofText rest
    else if c = '?' then .one :: ofText rest
    else if c = '[' then
      match _h : breakSet? rest with
      | some (body, after) => setOf body :: ofText after
      | none => .literal c :: ofText rest
    else .literal c :: ofText rest
termination_by t => t.length
decreasing_by
  · simp
  · simp
  · have := length_of_breakSet? ‹_›; simp; omega
  · simp
  · simp

/-- Whether an element other than a star takes the character `c`. -/
def accepts (c : Char) : Wildcard → Bool
  | .literal d => c = d
  | .one => true
  | .many => false
  | .set negated ranges => ranges.any (fun r => r.1 ≤ c && c ≤ r.2) != negated

/-- For each place of a list whether a true value stands there or later. -/
def trueFrom : List Bool → List Bool
  | [] => []
  | b :: rest =>
    let later := trueFrom rest
    (b || later.headD false) :: later

/-- Whether the pattern fits each end of a name, from the whole name down to its empty end. One element
of the pattern takes one walk over the name, however many stars there are. -/
def fitsEnds : List Wildcard → Text → List Bool
  | [], t => t.map (fun _ => false) ++ [true]
  | .many :: rest, t => trueFrom (fitsEnds rest t)
  | element :: rest, t =>
    List.zipWith (fun c fit => element.accepts c && fit) t (fitsEnds rest t).tail ++ [false]

/-- Whether the pattern fits the whole of a name. -/
def fits (pattern : List Wildcard) (name : Text) : Bool := (fitsEnds pattern name).headD false

theorem length_trueFrom (bs : List Bool) : (trueFrom bs).length = bs.length := by
  induction bs with
  | nil => rfl
  | cons b rest ih => simp [trueFrom, ih]

theorem length_fitsEnds (pattern : List Wildcard) (t : Text) :
    (fitsEnds pattern t).length = t.length + 1 := by
  fun_induction fitsEnds pattern t with
  | case1 => simp
  | case2 _ _ ih => simp [length_trueFrom, ih]
  | case3 _ _ _ _ ih => simp [ih]

theorem exists_cons_fitsEnds (pattern : List Wildcard) (t : Text) :
    ∃ fit more, fitsEnds pattern t = fit :: more := by
  apply List.exists_cons_of_ne_nil
  intro h
  have := length_fitsEnds pattern t
  simp [h] at this

/-- The ends of a name are the name itself and the ends of what follows its first character. -/
theorem fitsEnds_cons (pattern : List Wildcard) (c : Char) (t : Text) :
    fitsEnds pattern (c :: t) = fits pattern (c :: t) :: fitsEnds pattern t := by
  have key : ∃ b, fitsEnds pattern (c :: t) = b :: fitsEnds pattern t := by
    induction pattern with
    | nil => exact ⟨false, rfl⟩
    | cons element rest ih =>
      obtain ⟨b, hb⟩ := ih
      obtain ⟨e, more, he⟩ := exists_cons_fitsEnds rest t
      cases element <;> simp [fitsEnds, hb, he, trueFrom]
  obtain ⟨b, hb⟩ := key
  simp [fits, hb]

theorem fits_nil (name : Text) : fits [] name = name.isEmpty := by
  cases name <;> rfl

theorem fits_many_cons (rest : List Wildcard) (c : Char) (t : Text) :
    fits (.many :: rest) (c :: t) = (fits rest (c :: t) || fits (.many :: rest) t) := by
  simp only [fits, fitsEnds]
  rw [fitsEnds_cons]
  rfl

theorem fits_cons_nil {element : Wildcard} (h : element ≠ .many) (rest : List Wildcard) :
    fits (element :: rest) [] = false := by
  cases element <;> simp_all [fits, fitsEnds]

theorem fits_cons_cons {element : Wildcard} (h : element ≠ .many) (rest : List Wildcard) (c : Char)
    (t : Text) : fits (element :: rest) (c :: t) = (element.accepts c && fits rest t) := by
  obtain ⟨e, more, he⟩ := exists_cons_fitsEnds rest t
  have hends : (fitsEnds rest (c :: t)).tail = e :: more := by rw [fitsEnds_cons, he, List.tail_cons]
  cases element <;> simp_all [fits, fitsEnds]

theorem fits_literals (t name : Text) : fits (t.map .literal) name = decide (name = t) := by
  induction t generalizing name with
  | nil => cases name <;> simp [fits_nil]
  | cons c rest ih =>
    cases name with
    | nil => simp [fits_cons_nil]
    | cons d more => simp [fits_cons_cons, accepts, ih]

theorem fits_many (name : Text) : fits [.many] name = true := by
  induction name with
  | nil => rfl
  | cons c rest ih => rw [fits_many_cons, ih, Bool.or_true]

end Wildcard

end Inlay

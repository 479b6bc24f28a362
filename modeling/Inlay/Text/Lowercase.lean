import Inlay.Text.CaseTable
import Inlay.Text.Basic

/-!
# Lower case

The full lower-case mapping of Unicode. Two characters are not lowered by themselves: the capital
dotted I becomes two code points, and a capital sigma has a form of its own at a word's end.

* `Text.lower` — the lower-case form of a text.

Main statement: `Text.lower_eq_self` — a text of ASCII characters without capitals is its own
lower-case form.
-/

namespace Inlay.Text

/-- The lower-case form of a character that is lowered without regard to its neighbours. -/
def lowerChar (c : Char) : Char :=
  if c.toNat < 0x80 then c.toLower
  else
    match lowerRuns.find? fun r => r.contains c.toNat with
    | some r => Char.ofNat (c.toNat + r.shift).toNat
    | none => c

/-- Whether the first character of `t` that is not passed over has letter case. -/
def startsCased (t : Text) : Bool :=
  match t.dropWhile fun c => inRanges caseIgnorableRanges c.toNat with
  | [] => false
  | c :: _ => inRanges casedRanges c.toNat

/-- Whether a letter with case stands before the next position, when the last one before it that is
not passed over is `c` or, where `c` is passed over, the one that `sofar` tells of. -/
def casedAfter (sofar : Bool) (c : Char) : Bool :=
  if c.toNat < 0x80 then c.isAlpha || (sofar && inRanges caseIgnorableRanges c.toNat)
  else if inRanges caseIgnorableRanges c.toNat then sofar
  else inRanges casedRanges c.toNat

/-- Lowers a text; `inWord` tells whether a letter with case stands right before it. A capital
sigma at the end of a word takes its final form. -/
def lowerFrom (inWord : Bool) : Text → Text
  | [] => []
  | c :: rest =>
    if c = '\u0130' then
      'i' :: '\u0307' :: lowerFrom true rest
    else if c = '\u03A3' then
      (if inWord && !startsCased rest then '\u03C2' else '\u03C3') :: lowerFrom true rest
    else
      lowerChar c :: lowerFrom (casedAfter inWord c) rest

/-- The lower-case form of `t`. -/
def lower (t : Text) : Text := lowerFrom false t

theorem lowerFrom_eq_self {t : Text} (h : ∀ c ∈ t, c.toNat < 0x80 ∧ c.toLower = c) (inWord : Bool) :
    lowerFrom inWord t = t := by
  induction t generalizing inWord with
  | nil => rfl
  | cons c rest ih =>
    obtain ⟨hc, hlow⟩ := h c (List.mem_cons_self ..)
    have hI : c ≠ '\u0130' := by rintro rfl; exact absurd hc (by decide)
    have hS : c ≠ '\u03A3' := by rintro rfl; exact absurd hc (by decide)
    simp only [lowerFrom, hI, hS, if_false, lowerChar, hc, if_true, hlow]
    rw [ih fun d hd => h d (List.mem_cons_of_mem _ hd)]

theorem lower_eq_self {t : Text} (h : ∀ c ∈ t, c.toNat < 0x80 ∧ c.toLower = c) : lower t = t :=
  lowerFrom_eq_self h false

end Inlay.Text

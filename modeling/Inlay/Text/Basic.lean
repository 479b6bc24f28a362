/-!
# Texts

A text is a list of code points, so a position is a number of code points.

* `Text.breakOn?` — the text before and after the first occurrence of a needle.
* `Text.find?` — the position of that occurrence.
* `Text.replaceFirst` — puts another text in its place.
* `Text.cut` — the part between two positions; a position below zero counts from the end.

Main statements: `Text.eq_of_breakOn?` (breaking loses nothing), `Text.length_cut_le`.
-/

namespace Inlay

/-- A text is a list of code points. -/
abbrev Text := List Char

namespace Text

/-- The text as a string, for messages. -/
def string (t : Text) : String := String.ofList t

/-- The text before and after the first occurrence of `needle`. -/
def breakOn? (needle : Text) : Text → Option (Text × Text)
  | [] => if needle.isEmpty then some ([], []) else none
  | c :: rest =>
    if needle.isPrefixOf (c :: rest) then
      some ([], (c :: rest).drop needle.length)
    else
      (breakOn? needle rest).map fun parts => (c :: parts.1, parts.2)

/-- The position where `needle` first occurs in `t`. -/
def find? (needle t : Text) : Option Nat :=
  (breakOn? needle t).map fun parts => parts.1.length

/-- `t` with the first occurrence of `needle` replaced by `new`. -/
def replaceFirst (needle new t : Text) : Text :=
  match breakOn? needle t with
  | some (before, after) => before ++ new ++ after
  | none => t

/-- The texts `ts` one after the other with `separator` between neighbours. -/
def join (separator : Text) (ts : List Text) : Text := separator.intercalate ts

/-- The pieces of `t` between its characters `separator`; never empty. -/
def splitOn (separator : Char) : Text → List Text
  | [] => [[]]
  | c :: rest =>
    match splitOn separator rest with
    | [] => [[c]]
    | piece :: pieces => if c = separator then [] :: piece :: pieces else (c :: piece) :: pieces

/-- The position that `i` names in a text of length `n`: below zero it counts from the end, and
it is moved to the nearest end when it falls outside. -/
def position (n : Nat) (i : Int) : Nat :=
  if i < 0 then (n + i).toNat else min n i.toNat

/-- The part of `t` from position `i` up to position `j`, empty when `j` does not lie after `i`. -/
def cut (t : Text) (i j : Int) : Text :=
  let start := position t.length i
  (t.drop start).take (position t.length j - start)

/-- The order of texts by code points, a text standing before its continuations. -/
def before (a b : Text) : Bool := decide (a < b)

theorem eq_of_breakOn? {needle t a b : Text} (h : breakOn? needle t = some (a, b)) :
    t = a ++ needle ++ b := by
  induction t generalizing a b with
  | nil =>
    simp only [breakOn?] at h
    split at h <;> simp_all
  | cons c rest ih =>
    simp only [breakOn?] at h
    split at h
    · next hp =>
      obtain ⟨r, hr⟩ := List.isPrefixOf_iff_prefix.mp hp
      simp only [Option.some.injEq, Prod.mk.injEq] at h
      obtain ⟨rfl, rfl⟩ := h
      rw [← hr]; simp
    · obtain ⟨parts, hparts, hab⟩ := Option.map_eq_some_iff.mp h
      simp only [Prod.mk.injEq] at hab
      obtain ⟨rfl, rfl⟩ := hab
      simp [ih hparts]

theorem position_le (n : Nat) (i : Int) : position n i ≤ n := by
  unfold position; split <;> omega

theorem position_natCast {n k : Nat} (h : k ≤ n) : position n (k : Int) = k := by
  unfold position; split <;> omega

theorem length_cut_le (t : Text) (i j : Int) : (cut t i j).length ≤ t.length := by
  simp only [cut, List.length_take, List.length_drop]; omega

/-- Between positions that stand in order inside the text, a cut is the plain part. -/
theorem cut_natCast {t : Text} {i j : Nat} (hij : i ≤ j) (hj : j ≤ t.length) :
    cut t i j = (t.drop i).take (j - i) := by
  simp only [cut, position_natCast hj, position_natCast (Nat.le_trans hij hj)]

theorem cut_from_start (t : Text) (j : Int) : cut t 0 j = t.take (position t.length j) := by
  simp [cut, position]

theorem cut_to_end (t : Text) (i : Int) : cut t i t.length = t.drop (position t.length i) := by
  have h : position t.length (t.length : Int) = t.length := position_natCast (Nat.le_refl _)
  simp only [cut, h]
  exact List.take_of_length_le (by simp)

end Text

end Inlay

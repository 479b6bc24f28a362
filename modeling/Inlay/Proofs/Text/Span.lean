import Inlay.Text.Blank

/-!
# Spans of a text

A reader takes the characters of a class and stops at the first other one. What it takes is told by
how the text is written there.

* `Text.takeWhile_append_cons`, `Text.dropWhile_append_cons` — reading up to a stop that is known.
* `Text.dropWhile_append_of_head`, `Text.dropWhile_takeWhile` — reading in front of a stop, and inside a longer
  span.
* `Text.takeWhile_append_stop`, `Text.dropWhile_append_stop` — reading a span up to what cannot be read on.
* `Text.takeWhile_append_of_dropWhile` — a text put together from what was read.
* `Text.mem_dropWhile_iff`, `Text.exists_span`, `Text.exists_dropWhile_ne` — where reading stops when there is a stop.
* `Text.append_cons_inj` — two ways to write a text up to its first stop agree.
* `Text.cut_append` — a cut does not depend on what follows.
* `Text.cut_middle` — cutting the middle of three parts out.
-/

namespace Inlay.Text

variable {p : Char → Bool}

theorem takeWhile_append_cons {a b : Text} {x : Char} (ha : ∀ c ∈ a, p c = true)
    (hx : p x = false) : (a ++ x :: b).takeWhile p = a := by
  rw [List.takeWhile_append_of_pos ha, List.takeWhile_cons_of_neg (by simp [hx]), List.append_nil]

theorem dropWhile_append_cons {a b : Text} {x : Char} (ha : ∀ c ∈ a, p c = true)
    (hx : p x = false) : (a ++ x :: b).dropWhile p = x :: b := by
  rw [List.dropWhile_append_of_pos ha, List.dropWhile_cons_of_neg (by simp [hx])]

/-- What cannot be read on is not touched. -/
theorem dropWhile_append_of_head {b : Text} (h : b.head?.any p = false) (a : Text) :
    (a ++ b).dropWhile p = a.dropWhile p ++ b := by
  rw [List.dropWhile_append]
  split
  · next hempty =>
    rw [List.isEmpty_iff.mp hempty, List.nil_append]
    cases b with
    | nil => rfl
    | cons c b => rw [List.dropWhile_cons_of_neg (by simpa using h)]
  · rfl

/-- A span is read up to what cannot be read on. -/
theorem takeWhile_append_stop {a b : Text} (ha : ∀ c ∈ a, p c = true) (hb : b.head?.any p = false) :
    (a ++ b).takeWhile p = a := by
  cases b with
  | nil => rw [List.takeWhile_append_of_pos ha, List.takeWhile_nil, List.append_nil]
  | cons c b => exact takeWhile_append_cons ha (by simpa using hb)

theorem dropWhile_append_stop {a b : Text} (ha : ∀ c ∈ a, p c = true) (hb : b.head?.any p = false) :
    (a ++ b).dropWhile p = b :=
  (List.dropWhile_append_of_pos ha).trans (dropWhile_append_of_head hb [])

/-- A text is a span and what is left behind it. -/
theorem takeWhile_append_of_dropWhile {t u : Text} (h : t.dropWhile p = u) : t.takeWhile p ++ u = t := by
  rw [← h, List.takeWhile_append_dropWhile]

/-- A span is read inside a longer one as it is read in the whole text. -/
theorem dropWhile_takeWhile {q : Char → Bool} (h : ∀ c, p c = true → q c = true) (t : Text) :
    (t.takeWhile q).dropWhile p = (t.dropWhile p).takeWhile q := by
  induction t with
  | nil => rfl
  | cons c t ih =>
    by_cases hp : p c = true
    · rw [List.takeWhile_cons_of_pos (h c hp), List.dropWhile_cons_of_pos hp, List.dropWhile_cons_of_pos hp, ih]
    · rw [List.dropWhile_cons_of_neg hp, List.takeWhile_cons]
      split
      · rw [List.dropWhile_cons_of_neg hp]
      · rfl

/-- A text without the character is a span up to it. -/
theorem ne_of_not_mem {t : Text} {x : Char} (h : x ∉ t) : ∀ c ∈ t, (c != x) = true := by
  intro c hc
  rw [bne_iff_ne]
  rintro rfl
  exact h hc

theorem of_mem_takeWhile {t : Text} {c : Char} (h : c ∈ t.takeWhile p) : p c = true :=
  List.all_eq_true.mp List.all_takeWhile c h

/-- Reading passes no character outside the class. -/
theorem mem_dropWhile_iff {t : Text} {x : Char} (hx : p x = false) : x ∈ t.dropWhile p ↔ x ∈ t := by
  refine ⟨fun h => List.dropWhile_subset _ h, fun h => ?_⟩
  rw [← List.takeWhile_append_dropWhile (p := p) (l := t)] at h
  refine (List.mem_append.mp h).resolve_left fun hmem => ?_
  rw [of_mem_takeWhile hmem] at hx
  cases hx

/-- A text with a character outside the class is a span of the class, a stop, and the rest. -/
theorem exists_span {t : Text} {x : Char} (hx : x ∈ t) (hp : p x = false) :
    ∃ a y b, t = a ++ y :: b ∧ (∀ c ∈ a, p c = true) ∧ p y = false := by
  induction t with
  | nil => simp at hx
  | cons c t ih =>
    cases hc : p c with
    | false => exact ⟨[], c, t, rfl, by simp, hc⟩
    | true =>
      have hmem : x ∈ t := by
        rcases List.mem_cons.mp hx with rfl | h
        · rw [hp] at hc
          cases hc
        · exact h
      obtain ⟨a, y, b, rfl, ha, hy⟩ := ih hmem
      refine ⟨c :: a, y, b, rfl, ?_, hy⟩
      intro d hd
      rcases List.mem_cons.mp hd with rfl | hd
      · exact hc
      · exact ha d hd

/-- Reading up to a character stops at it if the text has it. -/
theorem exists_dropWhile_ne {t : Text} {x : Char} (h : x ∈ t) : ∃ b, t.dropWhile (· != x) = x :: b := by
  obtain ⟨a, y, b, rfl, ha, hy⟩ := exists_span (p := (· != x)) h (by simp)
  obtain rfl : y = x := by simpa using hy
  exact ⟨b, dropWhile_append_cons ha hy⟩

theorem append_cons_inj {a a' b b' : Text} {x x' : Char} (ha : ∀ c ∈ a, p c = true)
    (hx : p x = false) (ha' : ∀ c ∈ a', p c = true) (hx' : p x' = false)
    (h : a ++ x :: b = a' ++ x' :: b') : a = a' ∧ x = x' ∧ b = b' := by
  have htake := takeWhile_append_cons (b := b) ha hx
  have hdrop := dropWhile_append_cons (b := b) ha hx
  rw [h, takeWhile_append_cons ha' hx'] at htake
  rw [h, dropWhile_append_cons ha' hx'] at hdrop
  obtain ⟨rfl, rfl⟩ := List.cons.inj hdrop
  exact ⟨htake.symm, rfl, rfl⟩

/-- A cut inside a text does not depend on what follows. -/
theorem cut_append {t : Text} {i j : Nat} (hij : i ≤ j) (hj : j ≤ t.length) (u : Text) :
    cut (t ++ u) i j = cut t i j := by
  rw [cut_natCast hij hj, cut_natCast hij (by rw [List.length_append]; omega),
    List.drop_append_of_le_length (by omega), List.take_append_of_le_length]
  rw [List.length_drop]
  omega

theorem cut_middle (a b c : Text) : cut (a ++ b ++ c) a.length (a ++ b).length = b := by
  rw [cut_append (by simp) (Nat.le_refl _), cut_natCast (by simp) (Nat.le_refl _), List.drop_left,
    List.length_append, Nat.add_sub_cancel_left, List.take_length]

end Inlay.Text

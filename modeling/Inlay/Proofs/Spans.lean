import Mathlib

/-!
# Spans in order

A scan goes through a text from left to right and takes spans out of it. Each ends in front of the next and begins
where one can begin, and no such place is passed over. That much alone tells which spans it took, if a span is told by
its beginning.

* `Covers` — spans in order that leave no place out.

Main statement: `Covers.eq` (there is one such list at most).
-/

namespace Inlay

variable {α : Type} {start stop : α → Nat} {Begins : Nat → Prop} {xs ys : List α} {x y : α}

/-- The spans end in front of the next, each begins where one can begin, and each place where one can begin lies in
one of them. -/
structure Covers (start stop : α → Nat) (Begins : Nat → Prop) (xs : List α) : Prop where
  start_lt : ∀ x ∈ xs, start x < stop x
  begins : ∀ x ∈ xs, Begins (start x)
  ordered : xs.Pairwise fun a b => stop a ≤ start b
  covered : ∀ p, Begins p → ∃ x ∈ xs, start x ≤ p ∧ p < stop x

namespace Covers

/-- The spans begin one after the other. -/
theorem pairwise_start (h : Covers start stop Begins xs) : xs.Pairwise fun a b => start a < start b := by
  refine h.ordered.imp_of_mem ?_
  intro a b ha _ hab
  have := h.start_lt a ha
  omega

/-- Of two spans the one further left ends in front of the other. -/
theorem stop_le_start (h : Covers start stop Begins xs) (hx : x ∈ xs) (hy : y ∈ xs) (hstart : start x < start y) :
    stop x ≤ start y := by
  obtain ⟨i, hi, rfl⟩ := List.mem_iff_getElem.mp hx
  obtain ⟨j, hj, rfl⟩ := List.mem_iff_getElem.mp hy
  rcases Nat.lt_trichotomy i j with hij | rfl | hij
  · exact List.pairwise_iff_getElem.mp h.ordered i j hi hj hij
  · omega
  · have := List.pairwise_iff_getElem.mp h.pairwise_start j i hj hi hij
    omega

/-- A span of the one list is a span of the other: it begins inside a span of the other, and if that one began
further left it would be, as all spans further left are, in both lists. -/
theorem mem_of_mem (h : Covers start stop Begins xs) (h' : Covers start stop Begins ys)
    (hsame : ∀ x ∈ xs, ∀ y ∈ ys, start x = start y → x = y) (hx : x ∈ xs) : x ∈ ys := by
  induction hn : start x using Nat.strong_induction_on generalizing xs ys x with
  | _ n ih =>
    subst hn
    obtain ⟨y, hy, hle, hlt⟩ := h'.covered (start x) (h.begins x hx)
    rcases Nat.lt_or_eq_of_le hle with hleft | heq
    · have hmem : y ∈ xs :=
        ih (start y) hleft h' h (fun y hy x hx heq => (hsame x hx y hy heq.symm).symm) hy rfl
      have := h.stop_le_start hmem hx hleft
      omega
    · exact hsame x hx y hy heq.symm ▸ hy

/-- **There is one list of spans at most that leaves no place out.** -/
theorem eq (h : Covers start stop Begins xs) (h' : Covers start stop Begins ys)
    (hsame : ∀ x ∈ xs, ∀ y ∈ ys, start x = start y → x = y) : xs = ys := by
  have : Std.Irrefl fun a b : α => start a < start b := ⟨fun _ => Nat.lt_irrefl _⟩
  have : Std.Antisymm fun a b : α => start a < start b := ⟨fun _ _ hab hba => absurd hab hba.asymm⟩
  exact h.pairwise_start.eq_of_mem_iff h'.pairwise_start fun x =>
    ⟨h.mem_of_mem h' hsame, h'.mem_of_mem h fun y hy x hx heq => (hsame x hx y hy heq.symm).symm⟩

end Covers

end Inlay

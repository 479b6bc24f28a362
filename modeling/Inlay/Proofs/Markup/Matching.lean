import Inlay.Markup.Closing

/-!
# Matching closing tags in neighbouring texts

The search for a closing tag goes from left to right. A match that lies in a text is found whatever
follows, and what stands before the search begins only moves the match.

Main statements: `closing?_append` (a match stays when text follows), `closing?_append_right` (a search
that begins behind a text does not depend on it).
-/

namespace Inlay.Markup

theorem closesAt_iff {name t : Text} :
    closesAt name t = true ↔ ∃ after, t = Tag.closing name ++ after := by
  unfold closesAt
  rw [List.isPrefixOf_iff_prefix]
  constructor
  · rintro ⟨after, h⟩
    exact ⟨after, h.symm⟩
  · rintro ⟨after, h⟩
    exact ⟨after, h.symm⟩

theorem opensAt_iff {name t : Text} :
    opensAt name t = true ↔
      ∃ c after, t = '<' :: name ++ c :: after ∧ (c = '>' ∨ Text.isBlank c = true) := by
  unfold opensAt
  rw [Bool.and_eq_true, List.isPrefixOf_iff_prefix]
  constructor
  · rintro ⟨⟨after, rfl⟩, h⟩
    rw [show name.length + 1 = ('<' :: name).length from rfl, List.drop_left] at h
    cases after with
    | nil => simp at h
    | cons c after =>
      refine ⟨c, after, rfl, ?_⟩
      simpa using h
  · rintro ⟨c, after, rfl, hc⟩
    refine ⟨⟨c :: after, rfl⟩, ?_⟩
    rw [show name.length + 1 = ('<' :: name).length from rfl, List.drop_left]
    simpa using hc

theorem length_closing (name : Text) : (Tag.closing name).length = name.length + 3 := by
  simp [Tag.closing]

/-- Whether an opening tag begins a text is told by the name and one more character. -/
theorem opensAt_append {name t : Text} (h : name.length + 2 ≤ t.length) (u : Text) :
    opensAt name (t ++ u) = opensAt name t := by
  rw [Bool.eq_iff_iff, opensAt_iff, opensAt_iff]
  constructor
  · rintro ⟨c, after, heq, hc⟩
    have hp : '<' :: name ++ [c] <+: t ++ u := ⟨after, by rw [heq]; simp⟩
    obtain ⟨after', rfl⟩ := List.prefix_of_prefix_length_le hp (List.prefix_append t u)
      (by simp; omega)
    exact ⟨c, after', by simp, hc⟩
  · rintro ⟨c, after, rfl, hc⟩
    exact ⟨c, after ++ u, by simp, hc⟩

theorem closesAt_append {name t : Text} (h : name.length + 3 ≤ t.length) (u : Text) :
    closesAt name (t ++ u) = closesAt name t := by
  unfold closesAt
  rw [Bool.eq_iff_iff, List.isPrefixOf_iff_prefix, List.isPrefixOf_iff_prefix]
  constructor
  · intro hp
    exact List.prefix_of_prefix_length_le hp (List.prefix_append t u)
      (by rw [length_closing]; exact h)
  · intro hp
    exact hp.trans (List.prefix_append t u)

/-- The room that a match takes. -/
theorem length_of_closingFrom {name t : Text} {depth passed i p : Nat}
    (h : closingFrom name depth passed i t = some p) :
    i ≤ p ∧ p - i + (name.length + 3) ≤ t.length := by
  obtain ⟨hle, hclose⟩ := closesAt_of_closingFrom h
  obtain ⟨after, heq⟩ := closesAt_iff.mp hclose
  have hlen := congrArg List.length heq
  rw [List.length_drop, List.length_append, length_closing] at hlen
  omega

theorem closingFrom_append {name t : Text} {depth passed i p : Nat}
    (h : closingFrom name depth passed i t = some p) (u : Text) :
    closingFrom name depth passed i (t ++ u) = some p := by
  induction t generalizing depth passed i with
  | nil => simp [closingFrom] at h
  | cons c rest ih =>
    have hroom := length_of_closingFrom h
    have hopen : opensAt name (c :: rest ++ u) = opensAt name (c :: rest) :=
      opensAt_append (by omega) u
    have hclose : closesAt name (c :: rest ++ u) = closesAt name (c :: rest) :=
      closesAt_append (by omega) u
    rw [List.cons_append] at hopen hclose ⊢
    cases passed with
    | succ passed =>
      simp only [closingFrom] at h ⊢
      exact ih h
    | zero =>
      simp only [closingFrom, hopen, hclose] at h ⊢
      split
      · rename_i ho
        rw [if_pos ho] at h
        exact ih h
      · rename_i ho
        rw [if_neg ho] at h
        split
        · rename_i hc
          rw [if_pos hc] at h
          cases depth with
          | zero => exact h
          | succ depth => exact ih h
        · rename_i hc
          rw [if_neg hc] at h
          exact ih h

theorem closingFrom_add (name : Text) (depth passed i n : Nat) (t : Text) :
    closingFrom name depth passed (i + n) t =
      (closingFrom name depth passed i t).map (· + n) := by
  induction t generalizing depth passed i with
  | nil => rfl
  | cons c rest ih =>
    have hnext : i + n + 1 = i + 1 + n := by omega
    cases passed with
    | succ passed =>
      simp only [closingFrom]
      rw [hnext, ih]
    | zero =>
      simp only [closingFrom]
      split
      · rw [hnext, ih]
      · split
        · cases depth with
          | zero => rfl
          | succ depth =>
            dsimp only
            rw [hnext, ih]
        · rw [hnext, ih]

/-! ## Searches in a page -/

/-- A search that begins behind `a` looks at what follows only. -/
theorem closing?_eq (name a b : Text) :
    closing? (a ++ b) name (a.length : Nat) = closingFrom name 0 0 a.length b := by
  unfold closing?
  rw [Text.position_natCast (by simp)]
  dsimp only
  rw [List.drop_left]

theorem closing?_append {page name : Text} {stop p : Nat} (hstop : stop ≤ page.length)
    (h : closing? page name stop = some p) (u : Text) :
    closing? (page ++ u) name stop = some p := by
  obtain ⟨a, b, rfl, rfl⟩ : ∃ a b, page = a ++ b ∧ stop = a.length :=
    ⟨page.take stop, page.drop stop, by simp, by simp [hstop]⟩
  rw [closing?_eq] at h
  rw [List.append_assoc, closing?_eq]
  exact closingFrom_append h u

theorem closing?_append_right (a name : Text) {page : Text} {stop : Nat}
    (hstop : stop ≤ page.length) :
    closing? (a ++ page) name (stop + a.length : Nat) =
      (closing? page name stop).map (· + a.length) := by
  obtain ⟨b, c, rfl, rfl⟩ : ∃ b c, page = b ++ c ∧ stop = b.length :=
    ⟨page.take stop, page.drop stop, by simp, by simp [hstop]⟩
  rw [closing?_eq, ← closingFrom_add, ← List.append_assoc,
    show b.length + a.length = (a ++ b).length by rw [List.length_append, Nat.add_comm], closing?_eq]

end Inlay.Markup

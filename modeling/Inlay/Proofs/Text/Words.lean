import Inlay.Proofs.Text.Strip

/-!
# The words of neighbouring texts

A blank ends a word, so the words of two texts with a blank between them are the words of the one and then
those of the other.

* `Text.IsWord` — a text that is one word.

Main statements: `Text.words_append_blank` (words split at a blank), `Text.words_join` (words that are joined
with spaces are read back), `Text.isWord_of_mem_words`.
-/

namespace Inlay.Text

variable {c : Char} {t u word : Text}

/-- The text is one word: it is not empty and holds no blank. -/
structure IsWord (t : Text) : Prop where
  ne_nil : t ≠ []
  solid : ∀ c ∈ t, isBlank c = false

instance (t : Text) : Decidable (IsWord t) :=
  decidable_of_iff (t ≠ [] ∧ t.all (!isBlank ·) = true)
    ⟨fun h => ⟨h.1, by simpa using h.2⟩, fun h => ⟨h.ne_nil, by simpa using h.solid⟩⟩

theorem isWord_of_mem_words (h : word ∈ words t) : IsWord word :=
  ⟨words_nonempty h, not_isBlank_of_mem_words h⟩

theorem subset_of_mem_pieces {t piece : Text} (h : piece ∈ pieces t) : piece ⊆ t := by
  induction t generalizing piece with
  | nil => simp [List.mem_singleton.mp h]
  | cons c t ih =>
    obtain ⟨first, others, hpieces⟩ := List.exists_cons_of_ne_nil (pieces_ne_nil t)
    have hfirst : first ⊆ t := ih (hpieces ▸ List.mem_cons_self)
    unfold pieces at h
    rw [hpieces] at h
    dsimp only at h
    split at h
    · rcases List.mem_cons.mp h with rfl | h
      · exact List.nil_subset _
      · exact List.Subset.trans (ih (hpieces ▸ h)) (List.subset_cons_self ..)
    · rcases List.mem_cons.mp h with rfl | h
      · exact List.cons_subset_cons c hfirst
      · exact List.Subset.trans (ih (hpieces ▸ List.mem_cons_of_mem _ h)) (List.subset_cons_self ..)

theorem subset_of_mem_words {t word : Text} (h : word ∈ words t) : word ⊆ t :=
  subset_of_mem_pieces (List.mem_filter.mp h).1

theorem pieces_append_blank (hc : isBlank c = true) (t u : Text) :
    pieces (t ++ c :: u) = pieces t ++ pieces u := by
  induction t with
  | nil =>
    obtain ⟨piece, others, hu⟩ := List.exists_cons_of_ne_nil (pieces_ne_nil u)
    rw [List.nil_append, hu, show pieces [] = [[]] from rfl]
    unfold pieces
    rw [hu]
    exact if_pos hc
  | cons d t ih =>
    obtain ⟨piece, others, ht⟩ := List.exists_cons_of_ne_nil (pieces_ne_nil t)
    rw [List.cons_append, pieces, ih, pieces, ht]
    dsimp only [List.cons_append]
    split <;> rfl

/-- **Words split at a blank.** -/
theorem words_append_blank (hc : isBlank c = true) (t u : Text) :
    words (t ++ c :: u) = words t ++ words u := by
  unfold words
  rw [pieces_append_blank hc, List.filter_append]

theorem words_cons_blank (hc : isBlank c = true) (t : Text) : words (c :: t) = words t :=
  words_append_blank hc [] t

theorem words_append_of_isAllBlank (h : isAllBlank t = true) (u : Text) : words (t ++ u) = words u := by
  induction t with
  | nil => rfl
  | cons c t ih =>
    unfold isAllBlank at h
    rw [List.all_cons, Bool.and_eq_true] at h
    rw [List.cons_append, words_cons_blank h.1, ih h.2]

theorem IsWord.words (h : IsWord t) : words t = [t] := by
  unfold Text.words
  rw [pieces_of_solid h.solid]
  exact List.filter_eq_self.mpr fun piece hpiece => by simpa [List.mem_singleton.mp hpiece] using h.ne_nil

/-- A joined text holds spaces and the characters of its parts. -/
theorem of_mem_join {ts : List Text} (h : c ∈ join [' '] ts) : c = ' ' ∨ ∃ t ∈ ts, c ∈ t := by
  induction ts with
  | nil => cases h
  | cons t rest ih =>
    cases rest with
    | nil => exact .inr ⟨t, List.mem_cons_self, by simpa [join, List.intercalate] using h⟩
    | cons u more =>
      rw [show join [' '] (t :: u :: more) = t ++ ' ' :: join [' '] (u :: more) by
        simp [join, List.intercalate]] at h
      rcases List.mem_append.mp h with h | h
      · exact .inr ⟨t, List.mem_cons_self, h⟩
      · rcases List.mem_cons.mp h with rfl | h
        · exact .inl rfl
        · exact (ih h).imp_right fun ⟨v, hv, hc⟩ => ⟨v, List.mem_cons_of_mem _ hv, hc⟩

/-- Words that are joined with spaces are read back. -/
theorem words_join {ts : List Text} (h : ∀ t ∈ ts, IsWord t) : words (join [' '] ts) = ts := by
  induction ts with
  | nil => rfl
  | cons t rest ih =>
    obtain ⟨ht, hrest⟩ := List.forall_mem_cons.mp h
    cases rest with
    | nil =>
      rw [show join [' '] [t] = t by simp [join, List.intercalate]]
      exact ht.words
    | cons u more =>
      rw [show join [' '] (t :: u :: more) = t ++ ' ' :: join [' '] (u :: more) by
        simp [join, List.intercalate], words_append_blank (by decide), ht.words, ih hrest]
      rfl

end Inlay.Text

import Inlay.Text.Blank

/-!
# Stripping neighbouring texts

Stripping takes blanks from the two ends of a text only, so in a text made of parts it stops at the first
part, seen from its end, that is not blank.

* `Text.dropWhile_append_blank`, `Text.dropWhile_append_solid` — what stripping the front of two parts does.
* `Text.stripEnd_append_blank`, `Text.stripEnd_append_solid` — what stripping the end of two parts does.
* `Text.isAllBlank_strip` — what is stripped is blank exactly when the text is.
* `Text.strip_strip` — what has been stripped stays as it is.
* `Text.mem_words_of_solid`, `Text.strip_of_solid` — a text without blanks is one word and has nothing to
  strip.
-/

namespace Inlay.Text

theorem dropWhile_blank {t : Text} (h : isAllBlank t = true) : t.dropWhile isBlank = [] := by
  induction t with
  | nil => rfl
  | cons c t ih =>
    simp only [isAllBlank, List.all_cons, Bool.and_eq_true] at h ih
    rw [List.dropWhile_cons_of_pos h.1, ih h.2]

theorem dropWhile_append_blank {a : Text} (h : isAllBlank a = true) (b : Text) :
    (a ++ b).dropWhile isBlank = b.dropWhile isBlank :=
  List.dropWhile_append_of_pos (List.all_eq_true.mp h)

theorem dropWhile_append_solid {a : Text} (h : isAllBlank a = false) (b : Text) :
    (a ++ b).dropWhile isBlank = a.dropWhile isBlank ++ b := by
  induction a with
  | nil => cases h
  | cons c a ih =>
    cases hc : isBlank c with
    | true =>
      have ha : isAllBlank a = false := by
        unfold isAllBlank at h ⊢
        rwa [List.all_cons, hc, Bool.true_and] at h
      rw [List.cons_append, List.dropWhile_cons_of_pos hc, List.dropWhile_cons_of_pos hc, ih ha]
    | false =>
      rw [List.cons_append, List.dropWhile_cons_of_neg (by simp [hc]),
        List.dropWhile_cons_of_neg (by simp [hc]), List.cons_append]

theorem isAllBlank_reverse (t : Text) : isAllBlank t.reverse = isAllBlank t :=
  List.all_reverse

theorem stripEnd_blank {t : Text} (h : isAllBlank t = true) : stripEnd t = [] := by
  unfold stripEnd
  rw [dropWhile_blank (by rwa [isAllBlank_reverse])]
  rfl

theorem stripEnd_append_blank {b : Text} (h : isAllBlank b = true) (a : Text) :
    stripEnd (a ++ b) = stripEnd a := by
  unfold stripEnd
  rw [List.reverse_append, dropWhile_append_blank (by rwa [isAllBlank_reverse])]

theorem stripEnd_append_solid {b : Text} (h : isAllBlank b = false) (a : Text) :
    stripEnd (a ++ b) = a ++ stripEnd b := by
  unfold stripEnd
  rw [List.reverse_append, dropWhile_append_solid (by rwa [isAllBlank_reverse]),
    List.reverse_append, List.reverse_reverse]

/-- Nothing is taken from a part with no blank at its end, whatever follows. -/
theorem stripEnd_append_of_end {a : Text} (h : stripEnd a = a) (b : Text) :
    stripEnd (a ++ b) = a ++ stripEnd b := by
  cases hb : isAllBlank b with
  | true => rw [stripEnd_append_blank hb, stripEnd_blank hb, h, List.append_nil]
  | false => exact stripEnd_append_solid hb a

/-- A text that ends with another character than a blank is not changed. -/
theorem stripEnd_concat {c : Char} (h : isBlank c = false) (t : Text) :
    stripEnd (t ++ [c]) = t ++ [c] := by
  have hsolid : isAllBlank [c] = false := by simpa [isAllBlank] using h
  rw [stripEnd_append_solid hsolid]
  simp [stripEnd, h]

theorem isAllBlank_dropWhile (t : Text) : isAllBlank (t.dropWhile isBlank) = isAllBlank t := by
  induction t with
  | nil => rfl
  | cons c t ih =>
    cases hc : isBlank c with
    | true =>
      rw [List.dropWhile_cons_of_pos hc, ih]
      simp [isAllBlank, hc]
    | false => rw [List.dropWhile_cons_of_neg (by simp [hc])]

theorem isAllBlank_stripEnd (t : Text) : isAllBlank (stripEnd t) = isAllBlank t := by
  unfold stripEnd
  rw [isAllBlank_reverse, isAllBlank_dropWhile, isAllBlank_reverse]

theorem isAllBlank_strip (t : Text) : isAllBlank (strip t) = isAllBlank t := by
  unfold strip
  rw [isAllBlank_stripEnd, isAllBlank_dropWhile]

/-- What is left when blanks are taken away does not begin with one. -/
theorem isBlank_of_dropWhile {t u : Text} {c : Char} (h : t.dropWhile isBlank = c :: u) : isBlank c = false := by
  have hhead := List.head?_dropWhile_not isBlank t
  rw [h] at hhead
  simpa using hhead

theorem stripEnd_stripEnd (t : Text) : stripEnd (stripEnd t) = stripEnd t := by
  unfold stripEnd
  rw [List.reverse_reverse]
  cases hdrop : t.reverse.dropWhile isBlank with
  | nil => rfl
  | cons c u => rw [List.dropWhile_cons_of_neg (by simp [isBlank_of_dropWhile hdrop])]

/-- What has been stripped has nothing more to strip. -/
theorem strip_strip (t : Text) : strip (strip t) = strip t := by
  unfold strip
  cases hdrop : t.dropWhile isBlank with
  | nil => rfl
  | cons c u =>
    have hc := isBlank_of_dropWhile hdrop
    have hkept : stripEnd (c :: u) = c :: stripEnd u := stripEnd_append_of_end (stripEnd_concat hc []) u
    rw [hkept, List.dropWhile_cons_of_neg (by simp [hc]), ← hkept, stripEnd_stripEnd]

theorem mem_of_mem_strip {c : Char} {t : Text} (h : c ∈ strip t) : c ∈ t := by
  unfold strip stripEnd at h
  have hfront := (List.dropWhile_suffix _).subset (List.mem_reverse.mp h)
  exact (List.dropWhile_suffix _).subset (List.mem_reverse.mp hfront)

theorem pieces_of_solid {t : Text} (h : ∀ c ∈ t, isBlank c = false) : pieces t = [t] := by
  induction t with
  | nil => rfl
  | cons c t ih =>
    rw [pieces, ih fun d hd => h d (List.mem_cons_of_mem _ hd)]
    dsimp only
    rw [h c (List.mem_cons_self ..), if_neg Bool.false_ne_true]

theorem mem_words_of_solid {t word : Text} (h : ∀ c ∈ t, isBlank c = false) (hw : word ∈ words t) :
    word = t := by
  unfold words at hw
  rw [pieces_of_solid h] at hw
  exact List.mem_singleton.mp (List.mem_filter.mp hw).1

theorem strip_of_solid {t : Text} (h : ∀ c ∈ t, isBlank c = false) : strip t = t := by
  have hdrop {u : Text} (hu : ∀ c ∈ u, isBlank c = false) : u.dropWhile isBlank = u := by
    cases u with
    | nil => rfl
    | cons c u => rw [List.dropWhile_cons_of_neg (by simp [hu c (List.mem_cons_self ..)])]
  unfold strip stripEnd
  rw [hdrop h, hdrop fun c hc => h c (List.mem_reverse.mp hc), List.reverse_reverse]

end Inlay.Text

import Inlay.Attributes.Write
import Inlay.Proofs.Markup.Root

/-!
# The root and the first element

Content is put into the first element of a template, and attributes are given to its root. The two searches differ
in one character: a slash may follow the name of the first element, as in `<hr/>`, but not the name of the root.
They find the same tag unless the first element of the template is closed by a slash that stands right behind its
name; then the root is searched for behind that name.

* `SlashBehindName` — an opening tag whose name is followed by a slash.

Main statements: `rootTag?_eq_rootTag?_iff` (when the two searches agree) and `not_rootTag?_eq_rootTag?` (they do
not agree everywhere).
-/

namespace Inlay.Markup

variable {delimiter : Char → Bool} {t : Text} {c : Char}

/-- The name of the opening tag is followed by a slash. -/
def SlashBehindName (opening : Text) : Prop := (opening.tail.dropWhile isNameChar).head? = some '/'

instance (opening : Text) : Decidable (SlashBehindName opening) :=
  inferInstanceAs (Decidable (_ = _))

theorem endsFirstName_iff : endsFirstName c = true ↔ endsRootName c = true ∨ c = '/' := by
  simp only [endsFirstName, endsRootName, Bool.or_eq_true, decide_eq_true_eq]
  exact or_right_comm

theorem endsRootName_slash : endsRootName '/' = false := by decide

/-- The first element is the root, or a slash follows its name. -/
theorem beginsElement_first_iff :
    beginsElement endsFirstName t = true ↔
      beginsElement endsRootName t = true ∨
        t.head?.any isNameStart = true ∧ (t.dropWhile isNameChar).head? = some '/' := by
  simp only [beginsElement_eq_true_iff, ← and_or_left]
  refine and_congr_right fun _ => ?_
  cases (t.dropWhile isNameChar).head? with
  | none => simp
  | some d => simpa using endsFirstName_iff

/-- No name goes on behind a greater-than sign, so the end of the tag does not hide what follows its name. -/
theorem slashBehindName_iff (t : Text) :
    SlashBehindName ('<' :: t.takeWhile (· != '>')) ↔ (t.dropWhile isNameChar).head? = some '/' := by
  have hname : ∀ c, isNameChar c = true → (c != '>') = true := by
    intro c hc
    rw [bne_iff_ne]
    rintro rfl
    exact absurd hc (by decide)
  unfold SlashBehindName
  rw [List.tail_cons, Text.dropWhile_takeWhile hname, List.head?_takeWhile, Option.filter_eq_some_iff]
  exact and_iff_left (by decide)

/-- **The root is the first element unless a slash follows the name of that.** -/
theorem rootTag?_eq_rootTag?_iff (t : Text) :
    rootTag? endsRootName t = rootTag? endsFirstName t ↔
      ∀ r, rootTag? endsFirstName t = some r → ¬ SlashBehindName r.opening := by
  induction t with
  | nil => simp [rootTag?]
  | cons c rest ih =>
    by_cases hroot : (decide (c = '<') && beginsElement endsRootName rest) = true
    · -- both searches stop here
      obtain ⟨hc, hbegins⟩ := Bool.and_eq_true_iff.mp hroot
      have hfirst : (decide (c = '<') && beginsElement endsFirstName rest) = true := by
        simp [hc, beginsElement_first_iff.mpr (.inl hbegins)]
      have hdelimiter := (beginsElement_eq_true_iff.mp hbegins).2
      rw [rootTag?, rootTag?, if_pos hroot, if_pos hfirst]
      refine iff_of_true rfl fun r hr => ?_
      split at hr
      · cases hr
      · obtain rfl := Option.some.inj hr
        obtain rfl : c = '<' := by simpa using hc
        rw [slashBehindName_iff]
        intro hslash
        simp [hslash, endsRootName_slash] at hdelimiter
    · by_cases hfirst : (decide (c = '<') && beginsElement endsFirstName rest) = true
      · -- the first element begins here, and its name is followed by a slash
        obtain ⟨hc, hbegins⟩ := Bool.and_eq_true_iff.mp hfirst
        obtain rfl : c = '<' := by simpa using hc
        have hslash : (rest.dropWhile isNameChar).head? = some '/' := by
          refine (beginsElement_first_iff.mp hbegins).elim (fun h => ?_) And.right
          simp [h] at hroot
        rw [rootTag?, rootTag?, if_neg hroot, if_pos hfirst]
        cases hdrop : rest.dropWhile (· != '>') with
        | nil =>
          have hnone : '>' ∉ rest := by
            intro hmem
            obtain ⟨after, hafter⟩ := Text.exists_dropWhile_ne hmem
            cases hdrop.symm.trans hafter
          simp [rootTag?_of_not_mem hnone]
        | cons d after =>
          refine iff_of_false (fun heq => ?_) fun h => ?_
          · obtain ⟨q, -, hq⟩ := Option.map_eq_some_iff.mp heq
            simp at hq
          · exact h _ rfl ((slashBehindName_iff rest).mpr hslash)
      · -- both searches go on
        rw [rootTag?, rootTag?, if_neg hroot, if_neg hfirst]
        rw [(Option.map_injective fun q q' heq => ?_).eq_iff, ih]
        · simp
        · cases q
          cases q'
          simpa using heq

/-- **They are not the same everywhere.** Attributes pass over a first element that content is put into, or that
refuses it. -/
theorem not_rootTag?_eq_rootTag? :
    rootTag? endsFirstName "<hr/><p>x</p>".toList = some ⟨[], "<hr/".toList, "<p>x</p>".toList⟩ ∧
      rootTag? endsRootName "<hr/><p>x</p>".toList = some ⟨"<hr/>".toList, "<p".toList, "x</p>".toList⟩ ∧
      ({ flags := ["open".toList] } : Attributes).addTo "<hr/><p>x</p>".toList = "<hr/><p open>x</p>".toList ∧
      ¬ ∀ t : Text, rootTag? endsRootName t = rootTag? endsFirstName t := by
  refine ⟨by decide, by decide, by decide, fun h => ?_⟩
  have hclash := h "<hr/><p>x</p>".toList
  revert hclash
  decide

end Inlay.Markup

import Inlay.Proofs.Markup.Scan
import Inlay.Proofs.Spans

/-!
# What the scan of a page covers

The tags of a scan are told by the page alone, without the way from left to right in which they are found. They
are spans of the page, each is written where it says and ends in front of the next, and no place where a tag could
begin is left out: it is the beginning of one of the spans, or lies inside one. Only one list of tags is so.

* `IsLetter`, `IsNameLetter` — the characters of tag names, one by one.
* `Tag.Begins` — a place where a tag could begin.
* `Tag.Exhausts` — tags that are spans of a page and leave no such place out.

Main statements: `Tag.isOpening_iff` (the parts of a tag), `Tag.exists_span_of_begins` (no place is left out),
`Tag.Exhausts.eq` (there is one such list at most) and `Tag.exhausts_iff`.
-/

namespace Inlay.Markup

variable {c : Char}

/-! ## The characters of names -/

/-- A letter of a tag name: small or capital, or one of the four others that are equal to such a letter when letter
case is ignored. -/
def IsLetter (c : Char) : Prop :=
  ('a' ≤ c ∧ c ≤ 'z') ∨ ('A' ≤ c ∧ c ≤ 'Z') ∨ c = '\u0130' ∨ c = '\u0131' ∨ c = '\u017F' ∨ c = '\u212A'

/-- A character that may follow the first letter of a tag name. -/
def IsNameLetter (c : Char) : Prop := IsLetter c ∨ ('0' ≤ c ∧ c ≤ '9') ∨ c = '-'

theorem isTagStart_iff : isTagStart c = true ↔ IsLetter c := by
  have hupper : c.isUpper = true ↔ 'A' ≤ c ∧ c ≤ 'Z' := by
    simp [Char.isUpper, Char.le_def]
  have hlower : c.isLower = true ↔ 'a' ≤ c ∧ c ≤ 'z' := by
    simp [Char.isLower, Char.le_def]
  simp only [isTagStart, isNameStart, Char.isAlpha, Bool.or_eq_true, hupper, hlower, foldedLetters,
    List.contains_eq_mem, List.mem_cons, List.not_mem_nil, or_false, decide_eq_true_eq, IsLetter]
  exact (or_congr_left or_comm).trans or_assoc

theorem isTagChar_iff : isTagChar c = true ↔ IsNameLetter c := by
  have hdigit : c.isDigit = true ↔ '0' ≤ c ∧ c ≤ '9' := by
    simp [Char.isDigit, Char.le_def]
  rw [IsNameLetter, ← isTagStart_iff, ← hdigit]
  simp only [isTagChar, isTagStart, isNameChar, isNameStart, Char.isAlphanum, Bool.or_eq_true, decide_eq_true_eq]
  exact (or_congr_left or_assoc).trans or_right_comm

namespace Tag

variable {page t name attributes : Text} {tag other : Tag} {tags tags' : List Tag} {p : Nat}

/-- The parts of an opening tag: the name is a letter and what may follow it, and is not carried on by the raw
attribute text, which has no greater-than sign. -/
theorem isOpening_iff :
    IsOpening name attributes ↔
      (∃ first rest, name = first :: rest ∧ IsLetter first ∧ ∀ c ∈ rest, IsNameLetter c) ∧
        (∀ c ∈ attributes.head?, ¬ IsNameLetter c) ∧ '>' ∉ attributes := by
  have hname : isTagName name = true ↔
      ∃ first rest, name = first :: rest ∧ IsLetter first ∧ ∀ c ∈ rest, IsNameLetter c := by
    cases name with
    | nil => simp [isTagName]
    | cons first rest => simp [isTagName, isTagStart_iff, isTagChar_iff]
  have hends : endsName attributes = true ↔ ∀ c ∈ attributes.head?, ¬ IsNameLetter c := by
    cases attributes with
    | nil => simp [endsName]
    | cons c rest => simp [endsName, ← isTagChar_iff]
  rw [← hname, ← hends]
  constructor
  · intro h
    exact ⟨h.isName, h.endsName, h.not_mem⟩
  · rintro ⟨hname, hends, hgt⟩
    exact ⟨hname, hends, hgt⟩

/-- A tag could begin at position `p`: a less-than sign and a letter stand there, and somewhere behind them a
greater-than sign. -/
def Begins (page : Text) (p : Nat) : Prop :=
  ∃ c rest, page.drop p = '<' :: c :: rest ∧ IsLetter c ∧ '>' ∈ rest

/-- The tags are spans of the page, each of which ends in front of the next, and every place where a tag could
begin lies in one of them. -/
structure Exhausts (page : Text) (tags : List Tag) : Prop where
  start_lt : ∀ tag ∈ tags, tag.start < tag.stop
  stop_le : ∀ tag ∈ tags, tag.stop ≤ page.length
  written : ∀ tag ∈ tags, Text.cut page tag.start tag.stop = '<' :: (tag.name ++ tag.attributes ++ ['>'])
  name : ∀ tag ∈ tags, ∃ first rest, tag.name = first :: rest ∧ IsLetter first ∧ ∀ c ∈ rest, IsNameLetter c
  attributes : ∀ tag ∈ tags, (∀ c ∈ tag.attributes.head?, ¬ IsNameLetter c) ∧ '>' ∉ tag.attributes
  ordered : tags.Pairwise fun a b => a.stop ≤ b.start
  covered : ∀ p, Begins page p → ∃ tag ∈ tags, tag.start ≤ p ∧ p < tag.stop

/-! ## No place is left out -/

/-- Where a letter comes first and a greater-than sign later, a tag is read. -/
theorem read?_ne_none (hc : IsLetter c) (hgt : '>' ∈ t) : read? (c :: t) ≠ none := by
  obtain ⟨after, hafter⟩ := Text.exists_dropWhile_ne ((Text.mem_dropWhile_iff (p := isTagChar) (by decide)).mpr hgt)
  simp [read?, isTagStart_iff.mpr hc, hafter]

theorem begins_append (front : Text) : Begins (front ++ t) (front.length + p) ↔ Begins t p := by
  unfold Begins
  rw [List.drop_append, List.drop_eq_nil_of_le (Nat.le_add_right ..), List.nil_append, Nat.add_sub_cancel_left]

/-- **Every place where a tag could begin lies in a tag of the scan.** -/
theorem exists_span_of_begins (i : Nat) (h : Begins t p) :
    ∃ tag ∈ scanFrom i t, tag.start ≤ i + p ∧ i + p < tag.stop := by
  -- behind the first character the scan goes on with what is left
  have later {i p : Nat} {c : Char} {t : Text}
      (ih : ∀ {p}, Begins t p → ∃ tag ∈ scanFrom (i + 1) t, tag.start ≤ i + 1 + p ∧ i + 1 + p < tag.stop)
      (h : Begins (c :: t) (p + 1)) :
      ∃ tag ∈ scanFrom (i + 1) t, tag.start ≤ i + (p + 1) ∧ i + (p + 1) < tag.stop := by
    obtain ⟨tag, htag, hstart, hstop⟩ := ih (p := p) h
    exact ⟨tag, htag, by omega, by omega⟩
  induction i, t using scan_induction generalizing p with
  | nil i =>
    obtain ⟨c, rest, hdrop, -⟩ := h
    simp at hdrop
  | other i c t hc ih =>
    rw [scanFrom_of_ne hc]
    cases p with
    | zero =>
      obtain ⟨d, rest, hdrop, -⟩ := h
      exact absurd (List.cons.inj hdrop).1 hc
    | succ p => exact later ih h
  | tag i name attributes after ho ih =>
    rw [scanFrom_opening ho]
    by_cases hp : p < (opening name attributes).length
    · exact ⟨_, List.mem_cons_self, by dsimp only; omega, by dsimp only; omega⟩
    · obtain ⟨k, rfl⟩ : ∃ k, p = (opening name attributes).length + k :=
        ⟨p - (opening name attributes).length, by omega⟩
      obtain ⟨tag, htag, hstart, hstop⟩ := ih ((begins_append _).mp h)
      exact ⟨tag, List.mem_cons_of_mem _ htag, by omega, by omega⟩
  | stray i t hr ih =>
    rw [scanFrom_of_read?_none hr]
    cases p with
    | zero =>
      obtain ⟨c, rest, hdrop, hc, hgt⟩ := h
      obtain rfl : t = c :: rest := (List.cons.inj hdrop).2
      exact absurd hr (read?_ne_none hc hgt)
    | succ p => exact later ih h

theorem exhausts_scan (page : Text) : Exhausts page (scan page) := by
  have hspan : ∀ tag ∈ scan page, IsOpening tag.name tag.attributes ∧ ∃ before after,
      page = before ++ opening tag.name tag.attributes ++ after ∧ tag.start = before.length ∧
        tag.stop = (before ++ opening tag.name tag.attributes).length := by
    intro tag htag
    simpa only [Nat.zero_add] using exists_of_mem_scanFrom htag
  exact {
    start_lt := by
      intro tag htag
      obtain ⟨-, before, after, -, hstart, hstop⟩ := hspan tag htag
      rw [hstart, hstop, List.length_append, length_opening]
      omega
    stop_le := fun tag htag => stop_le_of_mem_scan htag
    written := by
      intro tag htag
      obtain ⟨-, before, after, hpage, hstart, hstop⟩ := hspan tag htag
      rw [hstart, hstop, hpage, Text.cut_middle]
      rfl
    name := fun tag htag => (isOpening_iff.mp (hspan tag htag).1).1
    attributes := fun tag htag => (isOpening_iff.mp (hspan tag htag).1).2
    ordered := pairwise_scanFrom 0 page
    covered := by
      intro p hp
      have hspan := exists_span_of_begins 0 hp
      simp only [Nat.zero_add] at hspan
      exact hspan }

/-! ## There is one such list -/

namespace Exhausts

theorem isOpening (h : Exhausts page tags) (htag : tag ∈ tags) : IsOpening tag.name tag.attributes :=
  isOpening_iff.mpr ⟨h.name tag htag, h.attributes tag htag⟩

theorem drop_start (h : Exhausts page tags) (htag : tag ∈ tags) :
    page.drop tag.start = opening tag.name tag.attributes ++ page.drop tag.stop := by
  have hlt := h.start_lt tag htag
  have hcut := h.written tag htag
  rw [Text.cut_natCast hlt.le (h.stop_le tag htag)] at hcut
  have hrest : (page.drop tag.start).drop (tag.stop - tag.start) = page.drop tag.stop := by
    rw [List.drop_drop, Nat.add_sub_cancel' hlt.le]
  have hparts := List.take_append_drop (tag.stop - tag.start) (page.drop tag.start)
  rw [hcut, hrest] at hparts
  exact hparts.symm

theorem stop_eq (h : Exhausts page tags) (htag : tag ∈ tags) :
    tag.stop = tag.start + (opening tag.name tag.attributes).length := by
  have hlength := congrArg List.length (h.drop_start htag)
  have hlt := h.start_lt tag htag
  have hle := h.stop_le tag htag
  rw [List.length_append, List.length_drop, List.length_drop] at hlength
  omega

/-- A tag begins where a tag could begin. -/
theorem begins (h : Exhausts page tags) (htag : tag ∈ tags) : Begins page tag.start := by
  obtain ⟨first, rest, hname, hfirst, -⟩ := h.name tag htag
  refine ⟨first, rest ++ tag.attributes ++ '>' :: page.drop tag.stop, ?_, hfirst, by simp⟩
  rw [h.drop_start htag, opening_append, hname]
  simp

/-- Tags that begin at one place are the same. -/
theorem eq_of_start (h : Exhausts page tags) (h' : Exhausts page tags') (htag : tag ∈ tags) (hother : other ∈ tags')
    (hstart : tag.start = other.start) : tag = other := by
  have hdrop := (h.drop_start htag).symm.trans (hstart ▸ h'.drop_start hother)
  rw [opening_append, opening_append] at hdrop
  have hread := (h.isOpening htag).read? (page.drop tag.stop)
  rw [(List.cons.inj hdrop).2, (h'.isOpening hother).read?] at hread
  obtain ⟨hname, hattributes, -⟩ : other.name = tag.name ∧ other.attributes = tag.attributes ∧ _ := by
    simpa using hread
  have hstop := h.stop_eq htag
  have hstop' := h'.stop_eq hother
  cases tag
  cases other
  simp_all

theorem covers (h : Exhausts page tags) : Covers Tag.start Tag.stop (Begins page) tags where
  start_lt := h.start_lt
  begins _ htag := h.begins htag
  ordered := h.ordered
  covered := h.covered

/-- **There is one list of tags at most that exhausts a page.** -/
theorem eq (h : Exhausts page tags) (h' : Exhausts page tags') : tags = tags' :=
  h.covers.eq h'.covers fun _ htag _ hother hstart => h.eq_of_start h' htag hother hstart

end Exhausts

/-- **The scan of a page misses nothing and overlaps nothing**, and no other list of tags does so. -/
theorem exhausts_iff : Exhausts page tags ↔ tags = scan page := by
  constructor
  · intro h
    exact h.eq (exhausts_scan page)
  · rintro rfl
    exact exhausts_scan page

/-- A less-than sign inside a tag begins no other one. -/
example : scan "<a <b>x</b>".toList = [⟨0, 6, "a".toList, " <b".toList⟩] := by cbv

end Tag

end Inlay.Markup

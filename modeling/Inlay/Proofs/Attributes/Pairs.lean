import Inlay.Proofs.Attributes.Sorted
import Inlay.Proofs.Spans

/-!
# The pairs of a tag

The pairs that are read from a text are told by the text alone, without the way from left to right in which they are
found: each is written where it begins and ends in front of the next, and no place where a pair is written is left
out: it is the beginning of one of them, or lies inside one. Only one list of pairs is so. The attribute text of a tag
is told by the place where the first opening tag begins.

* `QuotedPair.IsWritten` — a pair as it is written.
* `QuotedPair.StandsAt` — a place of a text where a pair is written.
* `PlacedPair` — a pair with the place where it begins.
* `PlacedPair.Exhausts` — pairs that stand in a text and leave no such place out.
* `OpensAt`, `AttributesAt`, `IsAttributeText` — where an opening tag begins, its attribute text, and that of the
  first one.

Main statements: `readPair?_eq_some_iff` (a pair is read where one is written), `PlacedPair.Exhausts.eq` (there is
one such list at most), `eq_quotedPairs_iff`, `attributeText?_eq_some_iff` and `eq_tagPairs_iff`.
-/

namespace Inlay

open Markup

/-- What is written of a pair is a name, an equals sign with blanks around it, and the value between two quotes that
it does not hold. -/
structure QuotedPair.IsWritten (p : QuotedPair) : Prop where
  isName : isName p.name = true
  form : ∃ gap gap' quote, Text.isAllBlank gap = true ∧ Text.isAllBlank gap' = true ∧ isQuote quote = true ∧
    quote ∉ p.value ∧ p.written = p.name ++ gap ++ '=' :: (gap' ++ quote :: (p.value ++ [quote]))

/-- The pair is written at the place `i` of the text. -/
structure QuotedPair.StandsAt (t : Text) (i : Nat) (p : QuotedPair) : Prop where
  isWritten : p.IsWritten
  drop : ∃ after, t.drop i = p.written ++ after

/-- A pair with the place where it begins. -/
structure PlacedPair extends QuotedPair where
  start : Nat

namespace PlacedPair

/-- The place behind the pair. -/
def stop (p : PlacedPair) : Nat := p.start + p.written.length

/-- The pair `n` characters further right. -/
def shift (n : Nat) (p : PlacedPair) : PlacedPair := { p with start := n + p.start }

/-- The pairs are written where they begin and end in front of the next, and every place where a pair is written lies
in one of them. -/
structure Exhausts (t : Text) (placed : List PlacedPair) : Prop where
  stands : ∀ p ∈ placed, p.toQuotedPair.StandsAt t p.start
  ordered : placed.Pairwise fun a b => a.stop ≤ b.start
  covered : ∀ i q, QuotedPair.StandsAt t i q → ∃ p ∈ placed, p.start ≤ i ∧ i < p.stop

end PlacedPair

/-- An opening tag begins at the place `i`: a less-than sign and a letter stand there, and somewhere behind them a
greater-than sign. -/
def OpensAt (t : Text) (i : Nat) : Prop :=
  ∃ c rest, t.drop i = '<' :: c :: rest ∧ isNameStart c = true ∧ '>' ∈ rest

/-- An opening tag stands at the place `i`, and `raw` is what stands between its name and the next greater-than sign,
without the blanks at its ends. -/
def AttributesAt (t : Text) (i : Nat) (raw : Text) : Prop :=
  ∃ name tail after, t.drop i = '<' :: (name ++ tail ++ '>' :: after) ∧ isName name = true ∧
    tail.head?.any isNameChar = false ∧ '>' ∉ tail ∧ raw = Text.strip tail

/-- `raw` is the attribute text of the first opening tag. -/
def IsAttributeText (t raw : Text) : Prop := ∃ i, AttributesAt t i raw ∧ ∀ j < i, ¬ OpensAt t j

variable {c : Char} {t raw name value after : Text} {i : Nat} {p q : QuotedPair} {placed placed' : List PlacedPair}
  {pairs : List QuotedPair}

/-! ## One pair -/

namespace QuotedPair

theorem IsWritten.ne_nil (h : p.IsWritten) : p.written ≠ [] := by
  obtain ⟨gap, gap', quote, -, -, -, -, hwritten⟩ := h.form
  rw [hwritten]
  simp

/-- A pair is read where it is written. -/
theorem IsWritten.readPair? (h : p.IsWritten) (after : Text) :
    readPair? (p.written ++ after) = some (p.name, p.value, after) := by
  obtain ⟨hname, gap, gap', quote, hgap, hgap', hquote, hvalue, hwritten⟩ := h
  have htext : p.written ++ after =
      p.name ++ (gap ++ '=' :: (gap' ++ quote :: (p.value ++ quote :: after))) := by
    simp [hwritten]
  rw [htext, readPair?_of_isName hname (head?_append_equals hgap _), readValue?_quoted hgap hgap' hquote hvalue]
  rfl

end QuotedPair

/-- **What is read is a pair as it is written.** -/
theorem readPair?_eq_some_iff : readPair? t = some (name, value, after) ↔
    ∃ written, (QuotedPair.mk name value written).IsWritten ∧ t = written ++ after := by
  constructor
  · intro h
    obtain ⟨gap, gap', quote, hname, hgap, hgap', hquote, hvalue, ht⟩ := exists_of_readPair? h
    exact ⟨_, ⟨hname, gap, gap', quote, hgap, hgap', hquote, hvalue, rfl⟩, ht⟩
  · rintro ⟨written, hwritten, rfl⟩
    exact hwritten.readPair? after

namespace QuotedPair

/-- One pair at most is written at a place. -/
theorem StandsAt.eq (h : p.StandsAt t i) (h' : q.StandsAt t i) : p = q := by
  obtain ⟨after, hdrop⟩ := h.drop
  obtain ⟨after', hdrop'⟩ := h'.drop
  have hread := h.isWritten.readPair? after
  rw [← hdrop, hdrop', h'.isWritten.readPair? after', Option.some.injEq, Prod.mk.injEq, Prod.mk.injEq] at hread
  obtain ⟨hname, hvalue, rfl⟩ := hread
  have hwritten := List.append_cancel_right (hdrop.symm.trans hdrop')
  cases p
  cases q
  simp_all

theorem standsAt_append (front : Text) : p.StandsAt (front ++ t) (front.length + i) ↔ p.StandsAt t i := by
  have hdrop : (front ++ t).drop (front.length + i) = t.drop i := by
    rw [List.drop_append, List.drop_eq_nil_of_le (Nat.le_add_right ..), List.nil_append, Nat.add_sub_cancel_left]
  constructor
  · rintro ⟨hwritten, hat⟩
    exact ⟨hwritten, hdrop ▸ hat⟩
  · rintro ⟨hwritten, hat⟩
    exact ⟨hwritten, hdrop ▸ hat⟩

end QuotedPair

/-! ## All pairs -/

namespace PlacedPair.Exhausts

theorem covers (h : Exhausts t placed) :
    Covers PlacedPair.start stop (fun i => ∃ q, QuotedPair.StandsAt t i q) placed where
  start_lt p hp := Nat.lt_add_of_pos_right (List.length_pos_iff.mpr (h.stands p hp).isWritten.ne_nil)
  begins p hp := ⟨p.toQuotedPair, h.stands p hp⟩
  ordered := h.ordered
  covered := by
    rintro i ⟨q, hq⟩
    exact h.covered i q hq

/-- **There is one list of pairs at most that exhausts a text.** -/
theorem eq (h : Exhausts t placed) (h' : Exhausts t placed') : placed = placed' := by
  refine h.covers.eq h'.covers fun p hp p' hp' hstart => ?_
  have hpair := (h.stands p hp).eq (hstart ▸ h'.stands p' hp')
  cases p
  cases p'
  simp_all

/-- With a text in front, the pairs stand that much further right, behind the pairs `first` of what is in front. -/
theorem append (front : Text) (h : Exhausts t placed) {first : List PlacedPair}
    (hfirst : ∀ p ∈ first, p.toQuotedPair.StandsAt (front ++ t) p.start ∧ p.stop ≤ front.length)
    (hordered : first.Pairwise fun a b => a.stop ≤ b.start)
    (hcovered : ∀ i < front.length, ∀ q, QuotedPair.StandsAt (front ++ t) i q →
      ∃ p ∈ first, p.start ≤ i ∧ i < p.stop) :
    Exhausts (front ++ t) (first ++ placed.map (shift front.length)) where
  stands p hp := by
    rcases List.mem_append.mp hp with hp | hp
    · exact (hfirst p hp).1
    · obtain ⟨later, hlater, rfl⟩ := List.mem_map.mp hp
      exact (QuotedPair.standsAt_append front).mpr (h.stands later hlater)
  ordered := by
    refine List.pairwise_append.mpr ⟨hordered, List.pairwise_map.mpr (h.ordered.imp fun {a b} hab => ?_),
      fun p hp p' hp' => ?_⟩
    · unfold shift stop at *
      dsimp only at *
      omega
    · obtain ⟨p', -, rfl⟩ := List.mem_map.mp hp'
      exact (hfirst p hp).2.trans (Nat.le_add_right ..)
  covered i q hq := by
    by_cases hi : i < front.length
    · obtain ⟨p, hp, hspan⟩ := hcovered i hi q hq
      exact ⟨p, List.mem_append_left _ hp, hspan⟩
    · obtain ⟨k, rfl⟩ := Nat.exists_eq_add_of_le (Nat.le_of_not_lt hi)
      obtain ⟨p, hp, hstart, hstop⟩ := h.covered k q ((QuotedPair.standsAt_append front).mp hq)
      refine ⟨p.shift front.length, List.mem_append_right _ (List.mem_map_of_mem hp), ?_, ?_⟩
      · exact Nat.add_le_add_left hstart _
      · unfold shift stop at *
        dsimp only at *
        omega

end PlacedPair.Exhausts

open PlacedPair (Exhausts)

/-- **The pairs of a text leave no place out.** -/
theorem exists_exhausts (t : Text) : ∃ placed, Exhausts t placed ∧ placed.map (·.toQuotedPair) = quotedPairs t := by
  have hmap (n : Nat) (placed : List PlacedPair) :
      (placed.map (PlacedPair.shift n)).map (·.toQuotedPair) = placed.map (·.toQuotedPair) := by
    rw [List.map_map]
    rfl
  induction t using quotedPairs.induct with
  | case1 =>
    refine ⟨[], ⟨by simp, .nil, fun i q hq => ?_⟩, by rw [quotedPairs]; rfl⟩
    obtain ⟨after, hdrop⟩ := hq.drop
    rw [List.drop_nil] at hdrop
    exact absurd (List.append_eq_nil_iff.mp hdrop.symm).1 hq.isWritten.ne_nil
  | case2 c rest name value after hread ih =>
    obtain ⟨placed, hplaced, hpairs⟩ := ih
    obtain ⟨written, hwritten, ht⟩ := readPair?_eq_some_iff.mp hread
    have hstands : (QuotedPair.mk name value written).StandsAt (written ++ after) 0 := ⟨hwritten, after, rfl⟩
    have hstop : (⟨⟨name, value, written⟩, 0⟩ : PlacedPair).stop = written.length := Nat.zero_add _
    refine ⟨[⟨⟨name, value, written⟩, 0⟩] ++ placed.map (PlacedPair.shift written.length), ?_, ?_⟩
    · rw [ht]
      refine hplaced.append written ?_ (List.pairwise_singleton ..) fun i hi q _ => ?_
      · rintro p hp
        obtain rfl := List.mem_singleton.mp hp
        exact ⟨hstands, hstop.le⟩
      · exact ⟨_, List.mem_singleton_self _, Nat.zero_le i, hstop ▸ hi⟩
    · rw [quotedPairs_of_some hread, List.map_append, hmap, hpairs, ht, List.length_append, Nat.add_sub_cancel,
        List.take_left]
      rfl
  | case3 c rest hread ih =>
    obtain ⟨placed, hplaced, hpairs⟩ := ih
    refine ⟨[] ++ placed.map (PlacedPair.shift 1), ?_, by rw [List.nil_append, hmap, hpairs, quotedPairs_of_none hread]⟩
    refine hplaced.append [c] (by simp) .nil fun i hi q hq => ?_
    -- No pair is read at the first place, so none is written there.
    obtain rfl : i = 0 := Nat.lt_one_iff.mp hi
    obtain ⟨after, hdrop⟩ := hq.drop
    rw [List.drop_zero, List.singleton_append] at hdrop
    rw [hdrop, hq.isWritten.readPair?] at hread
    cases hread

/-- **The pairs of a text are told without reading it.** -/
theorem eq_quotedPairs_iff :
    pairs = quotedPairs t ↔ ∃ placed, Exhausts t placed ∧ pairs = placed.map (·.toQuotedPair) := by
  obtain ⟨placed, hplaced, hpairs⟩ := exists_exhausts t
  constructor
  · rintro rfl
    exact ⟨placed, hplaced, hpairs.symm⟩
  · rintro ⟨placed', hplaced', rfl⟩
    rw [hplaced'.eq hplaced, hpairs]

/-- What reads like a pair inside the value of another one is no pair of the text. -/
example : quotedPairs "a='b=\"c\"'".toList = [⟨"a".toList, "b=\"c\"".toList, "a='b=\"c\"'".toList⟩] := by cbv

/-! ## The attribute text of a tag -/

theorem opensAt_cons_succ : OpensAt (c :: t) (i + 1) ↔ OpensAt t i := Iff.rfl

theorem mem_of_opensAt (h : OpensAt t i) : '>' ∈ t := by
  obtain ⟨c, rest, hdrop, -, hgt⟩ := h
  refine List.drop_subset i t ?_
  rw [hdrop]
  exact List.mem_cons_of_mem _ (List.mem_cons_of_mem _ hgt)

theorem opensAt_zero_iff : OpensAt (c :: t) 0 ↔ c = '<' ∧ t.head?.any isNameStart = true ∧ '>' ∈ t := by
  constructor
  · rintro ⟨d, rest, hdrop, hd, hgt⟩
    obtain ⟨rfl, rfl⟩ := List.cons.inj hdrop
    exact ⟨rfl, hd, List.mem_cons_of_mem _ hgt⟩
  · rintro ⟨rfl, hhead, hgt⟩
    cases t with
    | nil => cases hhead
    | cons d rest =>
      refine ⟨d, rest, rfl, hhead, (List.mem_cons.mp hgt).resolve_left ?_⟩
      rintro rfl
      exact absurd (show isNameStart '>' = true from hhead) (by decide)

namespace AttributesAt

theorem opensAt (h : AttributesAt t i raw) : OpensAt t i := by
  obtain ⟨name, tail, after, hdrop, hname, -⟩ := h
  obtain ⟨c, rest, rfl, hc, -⟩ := exists_cons_of_isName hname
  exact ⟨c, rest ++ tail ++ '>' :: after, by rw [hdrop]; simp, hc, by simp⟩

/-- A tag has one attribute text. -/
theorem eq {raw' : Text} (h : AttributesAt t i raw) (h' : AttributesAt t i raw') : raw = raw' := by
  obtain ⟨name, tail, after, hdrop, hname, htail, hgt, rfl⟩ := h
  obtain ⟨name', tail', after', hdrop', hname', htail', hgt', rfl⟩ := h'
  have hends : ∀ {tail after : Text}, tail.head?.any isNameChar = false →
      (tail ++ '>' :: after).head?.any isNameChar = false := by
    intro tail after h
    cases tail with
    | nil => rfl
    | cons c tail => exact h
  have htext : name ++ (tail ++ '>' :: after) = name' ++ (tail' ++ '>' :: after') := by
    simpa using (List.cons.inj (hdrop.symm.trans hdrop')).2
  have hspan := congrArg (List.takeWhile isNameChar) htext
  rw [Text.takeWhile_append_stop (isNameChar_of_isName hname) (hends htail),
    Text.takeWhile_append_stop (isNameChar_of_isName hname') (hends htail')] at hspan
  subst hspan
  rw [(Text.append_cons_inj (Text.ne_of_not_mem hgt) (by decide) (Text.ne_of_not_mem hgt') (by decide)
    (List.append_cancel_left htext)).1]

end AttributesAt

/-- An opening tag that stands in front is read. -/
theorem attributesAt_attributeText? (h : OpensAt (c :: t) 0) :
    ∃ raw, attributeText? (c :: t) = some raw ∧ AttributesAt (c :: t) 0 raw := by
  obtain ⟨rfl, hstart, hgt⟩ := opensAt_zero_iff.mp h
  have htail : '>' ∈ t.dropWhile isNameChar := (Text.mem_dropWhile_iff (by decide)).mpr hgt
  obtain ⟨after, hafter⟩ := Text.exists_dropWhile_ne htail
  refine ⟨Text.strip ((t.dropWhile isNameChar).takeWhile (· != '>')), ?_, t.takeWhile isNameChar, _, after, ?_, ?_, ?_,
    fun hmem => by simpa using Text.of_mem_takeWhile hmem, rfl⟩
  · rw [attributeText?, if_pos (by simpa using hstart)]
    exact if_pos (by simpa using htail)
  · rw [List.drop_zero, List.append_assoc, Text.takeWhile_append_of_dropWhile hafter,
      List.takeWhile_append_dropWhile]
  · cases t with
    | nil => cases hstart
    | cons d rest =>
      have hd : isNameStart d = true := hstart
      rw [List.takeWhile_cons_of_pos (isNameChar_of_isNameStart hd)]
      simp [isName, hd, List.all_takeWhile]
  · have hhead := List.head?_dropWhile_not isNameChar t
    cases hdrop : t.dropWhile isNameChar with
    | nil => rfl
    | cons d rest =>
      rw [hdrop] at hhead
      rw [List.takeWhile_cons]
      split
      · simpa using hhead
      · rfl

/-- The attribute text of the first opening tag is read, if there is such a tag. -/
theorem attributeText?_cases (t : Text) :
    (∃ raw, attributeText? t = some raw ∧ IsAttributeText t raw) ∨
      (attributeText? t = none ∧ ∀ i, ¬ OpensAt t i) := by
  induction t with
  | nil =>
    refine .inr ⟨rfl, ?_⟩
    rintro i ⟨c, rest, hdrop, -⟩
    rw [List.drop_nil] at hdrop
    cases hdrop
  | cons c t ih =>
    by_cases hopens : OpensAt (c :: t) 0
    · obtain ⟨raw, hraw, hat⟩ := attributesAt_attributeText? hopens
      exact .inl ⟨raw, hraw, 0, hat, by simp⟩
    · by_cases hstart : (c = '<' && t.head?.any isNameStart) = true
      · -- What looks like a tag is not ended anywhere, so no other one is either.
        have hgt : '>' ∉ t := fun hgt => hopens (opensAt_zero_iff.mpr (by simpa [hgt] using hstart))
        refine .inr ⟨?_, fun i => ?_⟩
        · rw [attributeText?, if_pos hstart]
          refine if_neg ?_
          rwa [List.contains_iff_mem, Text.mem_dropWhile_iff (by decide)]
        · cases i with
          | zero => exact hopens
          | succ i => exact fun h => hgt (mem_of_opensAt (opensAt_cons_succ.mp h))
      · have hlater : attributeText? (c :: t) = attributeText? t := by
          rw [attributeText?, if_neg hstart]
        rw [hlater]
        refine ih.imp ?_ ?_
        · rintro ⟨raw, hraw, i, hat, hfirst⟩
          refine ⟨raw, hraw, i + 1, hat, fun j hj => ?_⟩
          cases j with
          | zero => exact hopens
          | succ j => exact fun h => hfirst j (by omega) (opensAt_cons_succ.mp h)
        · rintro ⟨hnone, hno⟩
          refine ⟨hnone, fun i => ?_⟩
          cases i with
          | zero => exact hopens
          | succ i => exact fun h => hno i (opensAt_cons_succ.mp h)

theorem IsAttributeText.eq {raw' : Text} (h : IsAttributeText t raw) (h' : IsAttributeText t raw') : raw = raw' := by
  obtain ⟨i, hat, hfirst⟩ := h
  obtain ⟨j, hat', hfirst'⟩ := h'
  rcases Nat.lt_trichotomy i j with hij | rfl | hij
  · exact absurd hat.opensAt (hfirst' i hij)
  · exact hat.eq hat'
  · exact absurd hat'.opensAt (hfirst j hij)

/-- **The attribute text is that of the first opening tag.** -/
theorem attributeText?_eq_some_iff : attributeText? t = some raw ↔ IsAttributeText t raw := by
  rcases attributeText?_cases t with ⟨found, hfound, htext⟩ | ⟨hnone, hno⟩
  · rw [hfound, Option.some.injEq]
    constructor
    · rintro rfl
      exact htext
    · exact htext.eq
  · rw [hnone]
    refine ⟨nofun, ?_⟩
    rintro ⟨i, hat, -⟩
    exact absurd hat.opensAt (hno i)

theorem attributeText?_eq_none_iff : attributeText? t = none ↔ ∀ i, ¬ OpensAt t i := by
  rcases attributeText?_cases t with ⟨found, hfound, i, hat, -⟩ | ⟨hnone, hno⟩
  · rw [hfound]
    exact ⟨nofun, fun hno => absurd hat.opensAt (hno i)⟩
  · exact ⟨fun _ => hno, fun _ => hnone⟩

/-- **The pairs of a tag are told without reading it**: they stand in the attribute text of the first opening tag and
leave no place of it out, and there are none where no tag opens. -/
theorem eq_tagPairs_iff :
    pairs = tagPairs t ↔
      (∃ raw placed, IsAttributeText t raw ∧ Exhausts raw placed ∧ pairs = placed.map (·.toQuotedPair)) ∨
        ((∀ i, ¬ OpensAt t i) ∧ pairs = []) := by
  unfold tagPairs
  rw [← attributeText?_eq_none_iff]
  simp only [← attributeText?_eq_some_iff]
  cases attributeText? t with
  | none => simp
  | some raw => simp [eq_quotedPairs_iff]

end Inlay

import Inlay.Page.Expansion
import Inlay.Proofs.Attributes.Boundary
import Inlay.Proofs.Text.Strip

/-!
# What stands for a tag without attributes

A component tag without attributes adds nothing to the root of its template, so its template with the
content in its slot stands for it. In a template made of tokens the content takes the place of the first
slot mark.

* `SameTags` — the tokens of two pages differ in plain text only.
* `Token.isSlot` — whether a token is one of the slot marks, such as `Token.slotMark`.

Main statements: `Occurrence.expansion_bare`, `exists_strip`, `fill_writeAll`.
-/

namespace Inlay

open Markup

/-! ## Tags without attributes -/

namespace Attributes

theorem readPair?_of_not_mem {t : Text} (h : '=' ∉ t) : readPair? t = none := by
  cases hread : readPair? t with
  | none => rfl
  | some found =>
    obtain ⟨gap, gap', quote, -, -, -, -, -, rfl⟩ := exists_of_readPair? hread
    exact absurd (by simp) h

theorem quotedPairs_of_not_mem {t : Text} (h : '=' ∉ t) : quotedPairs t = [] := by
  induction t with
  | nil => rw [quotedPairs]
  | cons c rest ih =>
    rw [quotedPairs]
    split
    · rename_i hpair
      rw [readPair?_of_not_mem h] at hpair
      cases hpair
    · exact ih fun hmem => h (List.mem_cons_of_mem c hmem)

/-- A single word that is not a name is no attribute at all. -/
theorem ofText_of_solid {t : Text} (hblank : ∀ c ∈ t, Text.isBlank c = false) (heq : '=' ∉ t)
    (hname : isName t = false) : ofText t = {} := by
  have hflags : ((Text.words t).filter fun word =>
      isName word && !([] : List QuotedPair).any (·.name = word)) = [] := by
    rw [List.filter_eq_nil_iff]
    intro word hword
    rw [Text.mem_words_of_solid hblank hword, hname]
    simp
  unfold ofText
  rw [quotedPairs_of_not_mem heq]
  unfold leftover
  simp only [List.foldl_nil]
  rw [hflags]

/-- What is left of a tag name begins with a character that no attribute name may have. -/
theorem isName_dropWhile (t : Text) : isName (t.dropWhile isNameChar) = false := by
  have hhead := List.head?_dropWhile_not isNameChar t
  cases hd : t.dropWhile isNameChar with
  | nil => rfl
  | cons c rest =>
    rw [hd] at hhead
    have hc : isNameStart c = false := by
      cases hstart : isNameStart c with
      | false => rfl
      | true => simp [isNameChar_of_isNameStart hstart] at hhead
    simp [isName, hc]

theorem ofTag_bare {name : Text} (h : isTagName name = true) : ofTag (Tag.opening name []) = {} := by
  have hopening : Tag.IsOpening name [] := ⟨h, rfl, by simp⟩
  cases name with
  | nil => cases h
  | cons c rest =>
    have htag : ∀ d ∈ rest.dropWhile isNameChar, isTagChar d = true := fun d hd =>
      isTagChar_of_isTagName h d (List.mem_cons_of_mem c ((List.dropWhile_suffix _).subset hd))
    have hblank : ∀ d ∈ rest.dropWhile isNameChar, Text.isBlank d = false :=
      fun d hd => isBlank_of_isTagChar (htag d hd)
    have hequals : '=' ∉ rest.dropWhile isNameChar := fun hmem => absurd (htag _ hmem) (by decide)
    unfold ofTag
    cases hc : isNameStart c with
    | false =>
      rw [attributeText?_opening_of_folded hopening hc]
      rfl
    | true =>
      rw [attributeText?_opening hopening hc, List.append_nil, Text.strip_of_solid hblank]
      exact ofText_of_solid hblank hequals (isName_dropWhile rest)

theorem addTo_empty (template : Text) : addTo {} template = template := by
  unfold addTo
  split
  · rename_i r hr
    have hextend : extend {} r.opening = r.opening := by
      simp [extend, extendClasses, appendix]
    rw [hextend]
    exact text_of_rootTag? hr
  · rfl

end Attributes

/-- **A tag without attributes is replaced by its template with the content in its slot.** -/
theorem Occurrence.expansion_bare {o : Occurrence} (hname : isTagName o.name = true)
    (hbare : o.attributes = []) (template inner : Text) :
    o.expansion template inner = fill template inner := by
  unfold Occurrence.expansion Occurrence.openingTag
  rw [hbare, Attributes.ofTag_bare hname, Attributes.addTo_empty]

namespace Markup

/-! ## Tokens without outer blanks -/

/-- The tokens `us` are those of `ts`, except for plain text. -/
structure SameTags (us ts : List Token) : Prop where
  mem : ∀ t ∈ us, t ∈ ts ∨ ∃ x, t = .text x ∧ '<' ∉ x
  tags : ∀ names, us.filter (Token.isTagIn names) = ts.filter (Token.isTagIn names)

namespace SameTags

theorem refl (ts : List Token) : SameTags ts ts := ⟨fun _ h => .inl h, fun _ => rfl⟩

theorem trans {ts us vs : List Token} (h : SameTags vs us) (h' : SameTags us ts) : SameTags vs ts := by
  refine ⟨?_, fun names => (h.tags names).trans (h'.tags names)⟩
  intro t ht
  rcases h.mem t ht with hu | hx
  · exact h'.mem t hu
  · exact .inr hx

theorem cons {ts us : List Token} (h : SameTags us ts) (t : Token) : SameTags (t :: us) (t :: ts) := by
  refine ⟨?_, fun names => ?_⟩
  · intro u hu
    rcases List.mem_cons.mp hu with rfl | hu
    · exact .inl (List.mem_cons_self ..)
    · exact (h.mem u hu).imp_left (List.mem_cons_of_mem t)
  · rw [List.filter_cons, List.filter_cons, h.tags]

theorem text {ts : List Token} {t x : Text} (hx : '<' ∉ x) :
    SameTags (.text x :: ts) (.text t :: ts) := by
  refine ⟨?_, fun _ => rfl⟩
  intro u hu
  rcases List.mem_cons.mp hu with rfl | hu
  · exact .inr ⟨x, rfl, hx⟩
  · exact .inl (List.mem_cons_of_mem _ hu)

theorem drop {ts us : List Token} (h : SameTags us ts) (t : Text) : SameTags us (.text t :: ts) :=
  ⟨fun u hu => (h.mem u hu).imp_left (List.mem_cons_of_mem _), h.tags⟩

end SameTags

/-- A tag is not blank at its ends. -/
theorem strip_tag (t : Text) :
    Text.isAllBlank ('<' :: (t ++ ['>'])) = false ∧
      ('<' :: (t ++ ['>'])).dropWhile Text.isBlank = '<' :: (t ++ ['>']) ∧
      Text.stripEnd ('<' :: (t ++ ['>'])) = '<' :: (t ++ ['>']) := by
  refine ⟨rfl, rfl, ?_⟩
  rw [← List.cons_append]
  exact Text.stripEnd_concat (by decide) ('<' :: t)

theorem exists_write_eq_tag {t : Token} (h : ∀ x, t ≠ .text x) : ∃ u, t.write = '<' :: (u ++ ['>']) := by
  cases t with
  | text x => exact absurd rfl (h x)
  | opening name attributes => exact ⟨name ++ attributes, rfl⟩
  | closing name => exact ⟨'/' :: name, rfl⟩

theorem exists_dropWhile {ts : List Token} (h : ∀ t ∈ ts, t.IsClean) :
    ∃ us, writeAll us = (writeAll ts).dropWhile Text.isBlank ∧ SameTags us ts := by
  induction ts with
  | nil => exact ⟨[], rfl, .refl []⟩
  | cons t ts ih =>
    obtain ⟨us, hus, hsame⟩ := ih fun u hu => h u (List.mem_cons_of_mem _ hu)
    by_cases ht : ∃ x, t = .text x
    · obtain ⟨x, rfl⟩ := ht
      rw [writeAll_cons]
      cases hx : Text.isAllBlank x with
      | true => exact ⟨us, by rw [hus]; exact (Text.dropWhile_append_blank hx _).symm, hsame.drop x⟩
      | false =>
        refine ⟨.text (x.dropWhile Text.isBlank) :: ts, (Text.dropWhile_append_solid hx _).symm, .text ?_⟩
        intro hmem
        exact h (.text x) (List.mem_cons_self ..) ((List.dropWhile_suffix _).subset hmem)
    · obtain ⟨u, hu⟩ := exists_write_eq_tag fun x hx => ht ⟨x, hx⟩
      refine ⟨t :: ts, ?_, .refl _⟩
      rw [writeAll_cons, hu, Text.dropWhile_append_solid (strip_tag u).1, (strip_tag u).2.1]

theorem filter_isTagIn_of_blank {ts : List Token} (h : Text.isAllBlank (writeAll ts) = true)
    (names : Text → Bool) : ts.filter (Token.isTagIn names) = [] := by
  rw [List.filter_eq_nil_iff]
  intro t ht
  by_cases htext : ∃ x, t = .text x
  · obtain ⟨x, rfl⟩ := htext
    exact Bool.false_ne_true
  · obtain ⟨u, hu⟩ := exists_write_eq_tag fun x hx => htext ⟨x, hx⟩
    have hlt : '<' ∈ writeAll ts := List.mem_flatMap.mpr ⟨t, ht, by rw [hu]; exact List.mem_cons_self ..⟩
    have := List.all_eq_true.mp h '<' hlt
    exact absurd this (by decide)

theorem exists_stripEnd {ts : List Token} (h : ∀ t ∈ ts, t.IsClean) :
    ∃ us, writeAll us = Text.stripEnd (writeAll ts) ∧ SameTags us ts := by
  induction ts with
  | nil => exact ⟨[], rfl, .refl []⟩
  | cons t ts ih =>
    obtain ⟨us, hus, hsame⟩ := ih fun u hu => h u (List.mem_cons_of_mem _ hu)
    rw [writeAll_cons]
    cases hblank : Text.isAllBlank (writeAll ts) with
    | false =>
      exact ⟨t :: us, by rw [writeAll_cons, hus, Text.stripEnd_append_solid hblank], hsame.cons t⟩
    | true =>
      have hrest : SameTags [] ts := ⟨by simp, fun names => (filter_isTagIn_of_blank hblank names).symm⟩
      rw [Text.stripEnd_append_blank hblank]
      by_cases ht : ∃ x, t = .text x
      · obtain ⟨x, rfl⟩ := ht
        refine ⟨[.text (Text.stripEnd x)], by simp [Token.write], (SameTags.text ?_).trans (hrest.cons _)⟩
        intro hmem
        have hx := (List.dropWhile_suffix _).subset (List.mem_reverse.mp hmem)
        exact h (.text x) (List.mem_cons_self ..) (List.mem_reverse.mp hx)
      · obtain ⟨u, hu⟩ := exists_write_eq_tag fun x hx => ht ⟨x, hx⟩
        refine ⟨[t], ?_, hrest.cons t⟩
        rw [writeAll_cons, writeAll_nil, List.append_nil, hu, (strip_tag u).2.2]

/-- **Stripping a page changes its plain text only.** -/
theorem exists_strip {ts : List Token} (h : ∀ t ∈ ts, t.IsClean) :
    ∃ us, writeAll us = Text.strip (writeAll ts) ∧ SameTags us ts := by
  obtain ⟨us, hus, hsame⟩ := exists_dropWhile h
  have hclean : ∀ t ∈ us, t.IsClean := by
    intro t ht
    rcases hsame.mem t ht with hmem | ⟨x, rfl, hx⟩
    · exact h t hmem
    · exact hx
  obtain ⟨vs, hvs, hsame'⟩ := exists_stripEnd hclean
  exact ⟨vs, by rw [hvs, hus]; rfl, hsame'.trans hsame⟩

/-! ## Slots among tokens -/

/-- Whether the token is one of the slot marks. -/
def Token.isSlot : Token → Bool
  | .opening name attributes => slotMarks.contains (Tag.opening name attributes)
  | _ => false

/-- The slot mark that closes itself. -/
def Token.slotMark : Token := .opening "slot".toList ['/']

theorem isClean_slotMark : Token.slotMark.IsClean := ⟨⟨by decide, by decide, by decide⟩, by decide⟩

theorem isSlot_slotMark : Token.slotMark.isSlot = true := by decide

theorem exists_of_mem_slotMarks {mark : Text} (h : mark ∈ slotMarks) :
    ∃ attributes, mark = Tag.opening "slot".toList attributes ∧
      Tag.IsOpening "slot".toList attributes := by
  unfold slotMarks at h
  simp only [List.mem_cons, List.not_mem_nil, or_false] at h
  rcases h with rfl | rfl | rfl
  · exact ⟨[], by decide, by decide, by decide, by decide⟩
  · exact ⟨['/'], by decide, by decide, by decide, by decide⟩
  · exact ⟨[' ', '/'], by decide, by decide, by decide, by decide⟩

/-- A slot mark that begins a text which begins with a tag is that tag. -/
theorem eq_of_slotMark_prefix {mark name attributes u : Text} (hmark : mark ∈ slotMarks)
    (h : Tag.IsOpening name attributes) (hp : mark <+: Tag.opening name attributes ++ u) :
    mark = Tag.opening name attributes := by
  obtain ⟨attributes', rfl, h'⟩ := exists_of_mem_slotMarks hmark
  obtain ⟨v, heq⟩ := hp
  rw [Tag.opening_append, Tag.opening_append] at heq
  have hread := h'.read? v
  rw [(List.cons.inj heq).2, h.read?] at hread
  cases hread
  rfl

theorem isSlot_opening {name attributes : Text} (h : Tag.IsOpening name attributes)
    (hname : name ≠ "slot".toList) : Token.isSlot (.opening name attributes) = false := by
  rw [Bool.eq_false_iff]
  intro hslot
  have hmark : Tag.opening name attributes ∈ slotMarks := by simpa [Token.isSlot] using hslot
  obtain ⟨attributes', heq, h'⟩ := exists_of_mem_slotMarks hmark
  -- both readings of the tag yield its name
  unfold Tag.opening at heq
  have hread := h.read? []
  rw [(List.cons.inj heq).2, h'.read?] at hread
  cases hread
  exact hname rfl

theorem prefix_of_find? {marks : List Text} {mark t : Text}
    (h : (marks.find? fun mark => mark.isPrefixOf t) = some mark) : mark <+: t := by
  simpa using List.find?_some h

/-- A place where no mark begins is passed over. -/
theorem breakAtMark?_cons {marks : List Text} {c : Char} {t : Text} (h : ∀ mark ∈ marks, ¬ mark <+: c :: t) :
    breakAtMark? marks (c :: t) = (breakAtMark? marks t).map fun parts => (c :: parts.1, parts.2) := by
  have hnone : (marks.find? fun mark => mark.isPrefixOf (c :: t)) = none := by simpa using h
  rw [breakAtMark?, hnone]

theorem breakAtMark?_of_not_mem {t : Text} (h : '<' ∉ t) (u : Text) :
    breakAtMark? slotMarks (t ++ u) =
      (breakAtMark? slotMarks u).map fun parts => (t ++ parts.1, parts.2) := by
  induction t with
  | nil => cases h : breakAtMark? slotMarks u <;> exact h
  | cons c t ih =>
    simp only [List.mem_cons, not_or] at h
    have hno : ∀ mark ∈ slotMarks, ¬ mark <+: c :: (t ++ u) := by
      intro mark hmark hp
      obtain ⟨attributes, rfl, -⟩ := exists_of_mem_slotMarks hmark
      obtain ⟨v, heq⟩ := hp
      exact h.1 (List.cons.inj heq).1
    rw [List.cons_append, breakAtMark?_cons hno, ih h.2]
    cases breakAtMark? slotMarks u <;> rfl

theorem breakAtMark?_write {token : Token} (hclean : token.IsClean) (hno : token.isSlot = false)
    (u : Text) :
    breakAtMark? slotMarks (token.write ++ u) =
      (breakAtMark? slotMarks u).map fun parts => (token.write ++ parts.1, parts.2) := by
  -- a tag that is no slot mark is passed over with its first character
  have beyond {t : Text} (ht : '<' ∉ t) (hp : ∀ mark ∈ slotMarks, ¬ mark <+: '<' :: (t ++ u)) :
      breakAtMark? slotMarks ('<' :: (t ++ u)) =
        (breakAtMark? slotMarks u).map fun parts => ('<' :: t ++ parts.1, parts.2) := by
    rw [breakAtMark?_cons hp, breakAtMark?_of_not_mem ht]
    cases breakAtMark? slotMarks u <;> rfl
  cases token with
  | text t => exact breakAtMark?_of_not_mem hclean u
  | opening name attributes =>
    apply beyond (t := name ++ attributes ++ ['>'])
    · simpa using ⟨not_lt_of_isTagName hclean.1.isName, hclean.2⟩
    · intro mark hmark hp
      obtain rfl := eq_of_slotMark_prefix hmark hclean.1 hp
      simp [Token.isSlot, hmark] at hno
  | closing name =>
    apply beyond (t := '/' :: (name ++ ['>']))
    · simpa using not_lt_of_isTagName hclean
    · intro mark hmark hp
      obtain ⟨attributes, rfl, -⟩ := exists_of_mem_slotMarks hmark
      obtain ⟨v, heq⟩ := hp
      exact absurd (List.cons.inj (List.cons.inj heq).2).1 (by decide)

theorem breakAtMark?_slot {token : Token} (hclean : token.IsClean) (hslot : token.isSlot = true)
    (u : Text) : breakAtMark? slotMarks (token.write ++ u) = some ([], u) := by
  cases token with
  | text | closing => cases hslot
  | opening name attributes =>
    have hmark : Tag.opening name attributes ∈ slotMarks := by
      simpa [Token.isSlot] using hslot
    unfold Token.write
    cases hf : slotMarks.find? fun mark => mark.isPrefixOf (Tag.opening name attributes ++ u) with
    | none =>
      rw [List.find?_eq_none] at hf
      exact absurd (List.isPrefixOf_iff_prefix.mpr (List.prefix_append _ u)) (hf _ hmark)
    | some mark =>
      have heq := eq_of_slotMark_prefix (List.mem_of_find?_eq_some hf) hclean.1 (prefix_of_find? hf)
      rw [heq] at hf
      have hdrop : (Tag.opening name attributes ++ u).drop (Tag.opening name attributes).length = u :=
        List.drop_left
      rw [Tag.opening_append] at hf hdrop ⊢
      rw [breakAtMark?, hf]
      dsimp only
      rw [hdrop]

/-- **The content takes the place of the first slot mark.** -/
theorem fill_writeAll {before after : List Token} {mark : Token} (hclean : ∀ t ∈ before, t.IsClean)
    (hno : ∀ t ∈ before, t.isSlot = false) (hmark : mark.IsClean) (hslot : mark.isSlot = true)
    {inner : Text} (hinner : Text.isAllBlank inner = false) :
    fill (writeAll (before ++ mark :: after)) inner = writeAll before ++ inner ++ writeAll after := by
  have hbreak : breakAtMark? slotMarks (writeAll (before ++ mark :: after)) =
      some (writeAll before, writeAll after) := by
    induction before with
    | nil => exact breakAtMark?_slot hmark hslot (writeAll after)
    | cons t before ih =>
      rw [List.cons_append, writeAll_cons, breakAtMark?_write (hclean t (List.mem_cons_self ..))
        (hno t (List.mem_cons_self ..)), ih (fun u hu => hclean u (List.mem_cons_of_mem _ hu))
        (fun u hu => hno u (List.mem_cons_of_mem _ hu))]
      rfl
  unfold fill slot
  rw [hinner, hbreak]
  rfl

end Markup

end Inlay

import Inlay.Proofs.Page.Passes
import Inlay.Proofs.Markup.Matching
import Inlay.Proofs.Markup.Scan

/-!
# What a search finds

A search passes over the tags of a page from left to right until one is a component tag with a matching
closing tag. The occurrence that it finds breaks the page into the text before the opening tag, the
content between the tags, and the text after the closing tag.

* `Supply.components` — the component tags among given tags.
* `Supply.PassesOver` — tags none of which can be replaced, with the names that are noted for them.
* `Occurrence.Splits` — how an occurrence breaks its page.

Main statements: `Supply.searchAmong_eq_none_iff`, `Supply.searchAmong_eq_some_iff` (what a search
answers), `Supply.exists_splits` and `Occurrence.Splits.rewrite` (what replacing does to the text).
-/

namespace Inlay

open Markup

namespace Occurrence

/-- The page is broken into the text before the opening tag, the content between the tags and the text
after the closing tag. -/
structure Splits (o : Occurrence) (page before body after : Text) : Prop where
  page_eq : page = before ++ o.openingTag ++ body ++ o.closingTag ++ after
  start : o.start = before.length
  openEnd : o.openEnd = (before ++ o.openingTag).length
  closeStart : o.closeStart = (before ++ o.openingTag ++ body).length

variable {o : Occurrence} {page before body after : Text}

theorem Splits.inner (h : o.Splits page before body after) : o.inner page = Text.strip body := by
  unfold Occurrence.inner
  rw [h.openEnd, h.closeStart, Text.cut_natCast]
  · have hpage : page = (before ++ o.openingTag) ++ (body ++ (o.closingTag ++ after)) := by
      rw [h.page_eq]
      simp only [List.append_assoc]
    rw [List.length_append, Nat.add_sub_cancel_left, hpage, List.drop_left, List.take_left]
  · simp only [List.length_append]; omega
  · rw [h.page_eq]; simp only [List.length_append]; omega

theorem Splits.closeEnd (h : o.Splits page before body after) :
    o.closeEnd = (before ++ o.openingTag ++ body ++ o.closingTag).length := by
  unfold Occurrence.closeEnd
  rw [h.closeStart]
  simp only [List.length_append]
  omega

theorem Splits.splice (h : o.Splits page before body after) (new : Text) :
    Draft.splice page o new = before ++ new ++ after := by
  unfold Draft.splice
  rw [Text.cut_from_start, Text.cut_to_end, h.start, h.closeEnd, Text.position_natCast,
    Text.position_natCast]
  · rw [h.page_eq, List.drop_left]
    simp only [List.append_assoc, List.take_left]
  · rw [h.page_eq]; simp only [List.length_append]; omega
  · rw [h.page_eq]; simp only [List.length_append]; omega

/-- Replacing an occurrence puts its expanded template in its place, and changes nothing else. -/
theorem Splits.rewrite (h : o.Splits page before body after) (s : Supply) :
    s.rewrite page o = (s.load o.name).map fun template =>
      before ++ o.expansion template (Text.strip body) ++ after := by
  unfold Supply.rewrite
  simp only [h.inner, h.splice]

end Occurrence

namespace Supply

variable {s : Supply} {native : NativeSet} {page : Text}

/-- The component tags among the given tags. -/
def components (s : Supply) (native : NativeSet) (tags : List Tag) : List Tag :=
  tags.filter fun tag => s.offers native tag.name

theorem offers_eq_false {name : Text} (h : s.isComponent native name = .ok false) :
    s.offers native name = false := by
  unfold offers
  rw [h]

/-- None of the tags can be replaced, and `skipped` are the names of the component tags among them. -/
structure PassesOver (s : Supply) (native : NativeSet) (page : Text) (tags : List Tag)
    (skipped : List Text) : Prop where
  answered : ∀ tag ∈ tags, ∃ b, s.isComponent native tag.name = .ok b
  unmatched : ∀ tag ∈ s.components native tags, closing? page tag.name tag.stop = none
  names : skipped = (s.components native tags).map (·.name)

theorem PassesOver.nil : s.PassesOver native page [] [] := ⟨by simp, by simp [components], rfl⟩

theorem PassesOver.plain {tag : Tag} {tags : List Tag} {skipped : List Text}
    (hb : s.isComponent native tag.name = .ok false) :
    s.PassesOver native page (tag :: tags) skipped ↔ s.PassesOver native page tags skipped := by
  have hc : s.components native (tag :: tags) = s.components native tags := by
    simp [components, offers, hb]
  constructor
  · rintro ⟨ha, hu, hn⟩
    rw [hc] at hu hn
    exact ⟨fun t ht => ha t (List.mem_cons_of_mem _ ht), hu, hn⟩
  · rintro ⟨ha, hu, hn⟩
    refine ⟨?_, by rwa [hc], by rwa [hc]⟩
    intro t ht
    rcases List.mem_cons.mp ht with rfl | ht
    · exact ⟨false, hb⟩
    · exact ha t ht

theorem PassesOver.component {tag : Tag} {tags : List Tag} {skipped : List Text}
    (hb : s.isComponent native tag.name = .ok true) :
    s.PassesOver native page (tag :: tags) skipped ↔
      closing? page tag.name tag.stop = none ∧
        ∃ rest, skipped = tag.name :: rest ∧ s.PassesOver native page tags rest := by
  have hc : s.components native (tag :: tags) = tag :: s.components native tags := by
    simp [components, offers, hb]
  constructor
  · rintro ⟨ha, hu, hn⟩
    rw [hc] at hu hn
    exact ⟨hu tag (List.mem_cons_self ..), _, hn,
      fun t ht => ha t (List.mem_cons_of_mem _ ht),
      fun t ht => hu t (List.mem_cons_of_mem _ ht), rfl⟩
  · rintro ⟨hclose, rest, rfl, ha, hu, hn⟩
    refine ⟨?_, ?_, by rw [hc, hn, List.map_cons]⟩
    · intro t ht
      rcases List.mem_cons.mp ht with rfl | ht
      · exact ⟨true, hb⟩
      · exact ha t ht
    · rw [hc]
      intro t ht
      rcases List.mem_cons.mp ht with rfl | ht
      · exact hclose
      · exact hu t ht

/-- Tags that are passed over only add the names that are noted for them. -/
theorem PassesOver.searchAmong {before : List Tag} {skipped : List Text}
    (h : s.PassesOver native page before skipped) (rest : List Tag) :
    s.searchAmong native page (before ++ rest) =
      (s.searchAmong native page rest).map fun found => (skipped ++ found.1, found.2) := by
  induction before generalizing skipped with
  | nil =>
    rw [h.names, List.nil_append]
    cases s.searchAmong native page rest <;> rfl
  | cons tag before ih =>
    obtain ⟨b, hb⟩ := h.answered tag (List.mem_cons_self ..)
    rw [List.cons_append, Supply.searchAmong, hb]
    cases b with
    | false => exact ih ((PassesOver.plain hb).mp h)
    | true =>
      obtain ⟨hclose, names, rfl, hrest⟩ := (PassesOver.component hb).mp h
      dsimp only
      rw [hclose, ih hrest]
      cases s.searchAmong native page rest <;> rfl

/-- A search passes over tags up to the first component tag with a matching closing tag, or to the end. -/
theorem exists_of_searchAmong {tags : List Tag} {skipped : List Text} {found : Option Occurrence}
    (h : s.searchAmong native page tags = .ok (skipped, found)) :
    ∃ before rest, tags = before ++ rest ∧ s.PassesOver native page before skipped ∧
      (rest = [] ∧ found = none ∨
        ∃ tag after close, rest = tag :: after ∧ s.isComponent native tag.name = .ok true ∧
          closing? page tag.name tag.stop = some close ∧
          found = some ⟨tag.name, tag.attributes, tag.start, tag.stop, close⟩) := by
  induction tags generalizing skipped found with
  | nil =>
    cases h
    exact ⟨[], [], rfl, .nil, .inl ⟨rfl, rfl⟩⟩
  | cons tag others ih =>
    unfold searchAmong at h
    split at h
    · cases h
    · rename_i hb
      obtain ⟨before, rest, rfl, hp, hend⟩ := ih h
      exact ⟨tag :: before, rest, rfl, (PassesOver.plain hb).mpr hp, hend⟩
    · rename_i hb
      split at h
      · rename_i close hclose
        cases h
        exact ⟨[], tag :: others, rfl, .nil, .inr ⟨tag, others, close, rfl, hb, hclose, rfl⟩⟩
      · rename_i hclose
        cases hr : s.searchAmong native page others with
        | error f => rw [hr] at h; cases h
        | ok later =>
          rw [hr] at h
          obtain ⟨names, o⟩ := later
          cases h
          obtain ⟨before, rest, rfl, hp, hend⟩ := ih hr
          exact ⟨tag :: before, rest, rfl, (PassesOver.component hb).mpr ⟨hclose, names, rfl, hp⟩, hend⟩

/-- **A search without result has passed over all tags.** -/
theorem searchAmong_eq_none_iff {tags : List Tag} {skipped : List Text} :
    s.searchAmong native page tags = .ok (skipped, none) ↔
      s.PassesOver native page tags skipped := by
  constructor
  · intro h
    obtain ⟨before, rest, rfl, hp, ⟨rfl, -⟩ | ⟨tag, after, close, -, -, -, hnone⟩⟩ := exists_of_searchAmong h
    · rwa [List.append_nil]
    · cases hnone
  · intro h
    have := h.searchAmong []
    rw [List.append_nil] at this
    rw [this]
    simp [Supply.searchAmong, Except.map]

/-- **A search finds the first component tag with a matching closing tag.** -/
theorem searchAmong_eq_some_iff {tags : List Tag} {skipped : List Text} {o : Occurrence} :
    s.searchAmong native page tags = .ok (skipped, some o) ↔
      ∃ before tag after close, tags = before ++ tag :: after ∧
        s.PassesOver native page before skipped ∧ s.isComponent native tag.name = .ok true ∧
        closing? page tag.name tag.stop = some close ∧
        o = ⟨tag.name, tag.attributes, tag.start, tag.stop, close⟩ := by
  constructor
  · intro h
    obtain ⟨before, rest, rfl, hp, ⟨-, hnone⟩ | ⟨tag, after, close, rfl, hb, hclose, heq⟩⟩ :=
      exists_of_searchAmong h
    · cases hnone
    · exact ⟨before, tag, after, close, rfl, hp, hb, hclose, Option.some.inj heq⟩
  · rintro ⟨before, tag, after, close, rfl, hp, hb, hclose, rfl⟩
    rw [hp.searchAmong, searchAmong, hb]
    dsimp only
    rw [hclose]
    simp [Except.map]

theorem search_of_pass_none {skipped : List Text} (h : s.pass native page = .ok (skipped, none)) :
    s.search native page = .ok (skipped, none) := by
  unfold pass at h
  split at h
  · cases h
  · rename_i hs
    cases h
    exact hs
  · rename_i o hs
    unfold rewrite at h
    cases hl : s.load o.name with
    | error f => rw [hl] at h; cases h
    | ok template => rw [hl] at h; cases h

theorem search_of_pass_some {skipped : List Text} {next : Text}
    (h : s.pass native page = .ok (skipped, some next)) :
    ∃ o template, s.search native page = .ok (skipped, some o) ∧ s.load o.name = .ok template ∧
      next = Draft.splice page o (o.expansion template (o.inner page)) := by
  unfold pass at h
  split at h
  · cases h
  · cases h
  · rename_i o hs
    unfold rewrite at h
    cases hl : s.load o.name with
    | error f => rw [hl] at h; cases h
    | ok template =>
      rw [hl] at h
      cases h
      exact ⟨o, template, hs, hl, rfl⟩

/-- A pass over a page without component tags finds nothing. -/
theorem pass_of_plain (h : ∀ tag ∈ Tag.scan page, s.isComponent native tag.name = .ok false) :
    s.pass native page = .ok ([], none) := by
  have hnone : s.components native (Tag.scan page) = [] := by
    refine List.filter_eq_nil_iff.mpr fun tag htag => ?_
    rw [offers_eq_false (h tag htag)]
    exact Bool.false_ne_true
  have hover : s.PassesOver native page (Tag.scan page) [] :=
    ⟨fun tag htag => ⟨false, h tag htag⟩, by rw [hnone]; exact nofun, by rw [hnone]; rfl⟩
  have hsearch : s.search native page = .ok ([], none) := searchAmong_eq_none_iff.mpr hover
  rw [pass, hsearch]

/-- The occurrence that a search finds breaks the page. -/
theorem exists_splits {skipped : List Text} {o : Occurrence}
    (h : s.search native page = .ok (skipped, some o)) :
    ∃ before body after, o.Splits page before body after := by
  obtain ⟨passed, tag, rest, close, hscan, -, -, hclose, rfl⟩ := searchAmong_eq_some_iff.mp h
  have hmem : tag ∈ Tag.scanFrom 0 page := by
    show tag ∈ Tag.scan page
    simp [hscan]
  obtain ⟨-, before, behind, rfl, hstart, hstop⟩ := Tag.exists_of_mem_scanFrom hmem
  rw [Nat.zero_add] at hstart hstop
  rw [hstop, closing?_eq] at hclose
  obtain ⟨hle, hcloses⟩ := closesAt_of_closingFrom hclose
  obtain ⟨after, hafter⟩ := closesAt_iff.mp hcloses
  have hroom := (length_of_closingFrom hclose).2
  have hbehind := List.take_append_drop
    (close - (before ++ Tag.opening tag.name tag.attributes).length) behind
  rw [hafter] at hbehind
  refine ⟨before, behind.take (close - (before ++ Tag.opening tag.name tag.attributes).length),
    after, ⟨?_, ?_, ?_, ?_⟩⟩
  · unfold Occurrence.openingTag Occurrence.closingTag
    dsimp only
    conv => lhs; rw [← hbehind]
    simp only [List.append_assoc]
  · rw [hstart]
  · rw [hstop]
    rfl
  · unfold Occurrence.openingTag
    dsimp only
    rw [List.length_append, List.length_take]
    omega

end Supply

end Inlay

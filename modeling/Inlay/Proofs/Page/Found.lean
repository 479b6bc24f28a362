import Inlay.Proofs.Attributes.Boundary
import Inlay.Proofs.Markup.Balance
import Inlay.Proofs.Page.Return

/-!
# The occurrence that a step finds

A search asks the catalogue for one tag after the other, whatever the catalogue remembers, and looks for the
closing tag of each component tag. What it finds is the first component tag that a closing tag balances; what
it notes are the component tags in front of that one.

* `Workspace.Candidate` — asked on a workspace, the catalogue says that a tag is a component tag.
* `Workspace.LeavesOut` — tags none of which can be replaced, with the names that are noted for them.
* `Occurrence.StandsIn` — the indices of an occurrence agree with its page.

Its attributes are read from its opening tag, and so from its raw attribute text if its name is in ASCII.

Main statements: `Draft.search_of_run_occurrence?` (a step that ends well has made the search that the lookups of
its workspace describe), `Draft.occurrence?_first` and `Draft.attributes_of_occurrence?`.
-/

namespace Inlay

open Markup

/-! ## Boundaries -/

namespace Occurrence

/-- The occurrence has its two tags in the page, the closing one behind the opening one. -/
structure StandsIn (o : Occurrence) (page : Text) : Prop where
  start_nonneg : 0 ≤ o.start
  start_lt : o.start < o.openEnd
  openEnd_le : o.openEnd ≤ o.closeStart
  closeEnd_le : o.closeEnd ≤ page.length
  opening : Text.cut page o.start o.openEnd = o.openingTag
  closing : Text.cut page o.closeStart o.closeEnd = o.closingTag

variable {o : Occurrence} {page before body after : Text}

theorem Splits.standsIn (h : o.Splits page before body after) : o.StandsIn page where
  start_nonneg := by
    rw [h.start]
    exact Int.natCast_nonneg _
  start_lt := by
    have hopening : 0 < o.openingTag.length := by
      rw [openingTag, Tag.length_opening]
      omega
    rw [h.start, h.openEnd, List.length_append]
    omega
  openEnd_le := by
    rw [h.openEnd, h.closeStart]
    simp only [List.length_append]
    omega
  closeEnd_le := by
    rw [h.closeEnd, h.page_eq]
    simp only [List.length_append]
    omega
  opening := by
    have hpage : page = before ++ o.openingTag ++ (body ++ o.closingTag ++ after) := by
      rw [h.page_eq]
      simp only [List.append_assoc]
    rw [h.start, h.openEnd, hpage, Text.cut_middle]
  closing := by
    rw [h.closeStart, h.closeEnd, h.page_eq, Text.cut_middle]

end Occurrence

/-! ## Tags that are passed over -/

namespace Workspace

variable {w : Workspace} {native : NativeSet} {page name : Text} {tags : List Tag} {skipped : List Text}

/-- Asked on the workspace, the catalogue says that the tag called `name` is a component tag. -/
def Candidate (w : Workspace) (native : NativeSet) (name : Text) : Prop :=
  ((Draft.isComponent native name).run.run w).1 = .ok true

instance (w : Workspace) (native : NativeSet) (name : Text) : Decidable (w.Candidate native name) :=
  inferInstanceAs (Decidable (_ = _))

/-- None of the component tags among `tags` has a closing tag that balances it, and `skipped` are their names. -/
structure LeavesOut (w : Workspace) (native : NativeSet) (page : Text) (tags : List Tag) (skipped : List Text) :
    Prop where
  unbalanced : ∀ tag ∈ tags, w.Candidate native tag.name → ∀ p, ¬ Balances page tag.name tag.stop p
  names : skipped = (tags.filter fun tag => w.Candidate native tag.name).map (·.name)

theorem candidate_iff : w.Candidate native name ↔ w.lookups.isComponent native name = .ok true := by
  obtain ⟨w', -, hrun⟩ := Draft.answers_isComponent w.lookups native name w rfl
  unfold Candidate
  rw [hrun]

theorem components_lookups (w : Workspace) (native : NativeSet) (tags : List Tag) :
    w.lookups.components native tags = tags.filter fun tag => w.Candidate native tag.name := by
  unfold Supply.components
  refine List.filter_congr fun tag _ => ?_
  rw [Bool.eq_iff_iff, decide_eq_true_eq, candidate_iff]
  unfold Supply.offers
  cases w.lookups.isComponent native tag.name <;> simp

/-- Tags that the search passes over cannot be replaced. -/
theorem leavesOut_of_passesOver (h : w.lookups.PassesOver native page tags skipped)
    (htags : ∀ tag ∈ tags, tag ∈ Tag.scan page) : w.LeavesOut native page tags skipped := by
  constructor
  · intro tag htag hcandidate
    have hname : '<' ∉ tag.name := not_lt_of_isTagName (Supply.isTagName_of_mem_scan (htags tag htag))
    rw [← closing?_eq_none_iff hname]
    refine h.unmatched tag ?_
    rw [components_lookups]
    exact List.mem_filter.mpr ⟨htag, decide_eq_true hcandidate⟩
  · rw [h.names, components_lookups]

end Workspace

/-! ## The step -/

namespace Draft

variable {native : NativeSet} {s s' : PageState} {found : Option Occurrence}

/-- A step that ends well has searched as the lookups of its workspace say, and has changed nothing of the page
but the names that are noted. -/
theorem search_of_run_occurrence? (h : (occurrence? native).run.run s = (.ok found, s')) :
    s.workspace.lookups.search native s.draft.content = .ok (s'.draft.skipped, found) ∧
      s'.draft.content = s.draft.content := by
  obtain ⟨w', -, hrun⟩ := answers_occurrence? s.workspace.lookups native s.draft s.workspace rfl
  cases hsearch : s.workspace.lookups.search native s.draft.content with
  | error failure =>
    rw [hsearch] at hrun
    obtain ⟨d, hrun⟩ := hrun
    cases h.symm.trans hrun
  | ok result =>
    rw [hsearch] at hrun
    cases h.symm.trans hrun
    exact ⟨rfl, rfl⟩

/-- **A step finds the first component tag that a closing tag balances, and notes those in front of it.** -/
theorem occurrence?_first (h : (occurrence? native).run.run s = (.ok found, s')) :
    s'.draft.content = s.draft.content ∧
      match found with
      | some o =>
        o.StandsIn s.draft.content ∧ s.workspace.Candidate native o.name ∧
          ∃ before tag after close, Tag.scan s.draft.content = before ++ tag :: after ∧
            o = ⟨tag.name, tag.attributes, tag.start, tag.stop, (close : Nat)⟩ ∧
            IsLeast {p | Balances s.draft.content tag.name tag.stop p} close ∧
            s.workspace.LeavesOut native s.draft.content before s'.draft.skipped
      | none => s.workspace.LeavesOut native s.draft.content (Tag.scan s.draft.content) s'.draft.skipped := by
  obtain ⟨hsearch, hcontent⟩ := search_of_run_occurrence? h
  refine ⟨hcontent, ?_⟩
  cases found with
  | none =>
    have hpasses := Supply.searchAmong_eq_none_iff.mp hsearch
    exact Workspace.leavesOut_of_passesOver hpasses fun _ htag => htag
  | some o =>
    obtain ⟨front, body, behind, hsplits⟩ := Supply.exists_splits hsearch
    obtain ⟨before, tag, after, close, hscan, hpasses, hcomponent, hclose, rfl⟩ :=
      Supply.searchAmong_eq_some_iff.mp hsearch
    have hmem : tag ∈ Tag.scan s.draft.content := by
      rw [hscan]
      exact List.mem_append_right _ List.mem_cons_self
    have hbefore : ∀ t ∈ before, t ∈ Tag.scan s.draft.content := by
      intro t ht
      rw [hscan]
      exact List.mem_append_left _ ht
    have hname : '<' ∉ tag.name := not_lt_of_isTagName (Supply.isTagName_of_mem_scan hmem)
    exact ⟨hsplits.standsIn, Workspace.candidate_iff.mpr hcomponent, before, tag, after, close, hscan, rfl,
      (closing?_eq_some_iff hname).mp hclose, Workspace.leavesOut_of_passesOver hpasses hbefore⟩

set_option maxRecDepth 10000 in
/-- A card behind a note that is not closed, and a page where only such a note is left. -/
theorem occurrence?_first_card_note :
    ((occurrence? .html).run.run ⟨⟨"<note><card>Hi</card>".toList, []⟩, Workspace.holding
      [("card".toList, "<p><slot/></p>".toList), ("note".toList, [])]⟩).1 =
        .ok (some ⟨"card".toList, [], 6, 12, 14⟩) ∧
    (⟨"card".toList, [], 6, 12, 14⟩ : Occurrence).StandsIn "<note><card>Hi</card>".toList ∧
    (Workspace.holding [("card".toList, "<p><slot/></p>".toList), ("note".toList, [])]).Candidate .html
      "card".toList ∧
    ((occurrence? .html).run.run ⟨⟨"<note><p>Hi</p>".toList, ["card".toList]⟩, Workspace.holding
      [("card".toList, "<p><slot/></p>".toList), ("note".toList, [])]⟩).1 = .ok none ∧
    (Workspace.holding [("card".toList, "<p><slot/></p>".toList), ("note".toList, [])]).LeavesOut .html
      "<note><p>Hi</p>".toList (Tag.scan "<note><p>Hi</p>".toList) ["note".toList] := by
  have hcard : ((occurrence? .html).run.run ⟨⟨"<note><card>Hi</card>".toList, []⟩, Workspace.holding
      [("card".toList, "<p><slot/></p>".toList), ("note".toList, [])]⟩).1 =
        .ok (some ⟨"card".toList, [], 6, 12, 14⟩) := by cbv
  have hnote : ((occurrence? .html).run.run ⟨⟨"<note><p>Hi</p>".toList, ["card".toList]⟩, Workspace.holding
      [("card".toList, "<p><slot/></p>".toList), ("note".toList, [])]⟩).1 = .ok none := by cbv
  have hskipped : ((occurrence? .html).run.run ⟨⟨"<note><p>Hi</p>".toList, ["card".toList]⟩, Workspace.holding
      [("card".toList, "<p><slot/></p>".toList), ("note".toList, [])]⟩).2.draft.skipped = ["note".toList] := by
    cbv
  obtain ⟨-, hstands, hcandidate, -⟩ := occurrence?_first (Prod.ext hcard rfl)
  obtain ⟨-, hleaves⟩ := occurrence?_first (Prod.ext hnote rfl)
  rw [hskipped] at hleaves
  exact ⟨hcard, hstands, hcandidate, hnote, hleaves⟩

end Draft

/-! ## The attributes of an occurrence -/

namespace Draft

variable {native : NativeSet} {s s' : PageState} {o : Occurrence}

/-- The tag of an occurrence is an opening tag of the page. -/
theorem isOpening_of_occurrence? (h : (occurrence? native).run.run s = (.ok (some o), s')) :
    Tag.IsOpening o.name o.attributes := by
  obtain ⟨hsearch, -⟩ := search_of_run_occurrence? h
  obtain ⟨before, tag, after, close, hscan, -, -, -, rfl⟩ := Supply.searchAmong_eq_some_iff.mp hsearch
  have hmem : tag ∈ Tag.scan s.draft.content := by
    rw [hscan]
    simp
  exact (Tag.exists_of_mem_scanFrom hmem).1

/-- **The attributes of an occurrence are read from its raw attribute text, if its name has ASCII letters only.** With
another letter in the name they are read from another text. -/
theorem attributes_of_occurrence? (h : (occurrence? native).run.run s = (.ok (some o), s')) :
    (attributeText? o.openingTag = attributeText? (Tag.opening "x".toList o.attributes) ↔ isName o.name = true) ∧
    (isName o.name = true →
      Attributes.ofTag o.openingTag = Attributes.ofTag (Tag.opening "x".toList o.attributes)) := by
  have hiff := Attributes.attributeText?_opening_eq_iff (isOpening_of_occurrence? h)
  refine ⟨hiff, fun hname => ?_⟩
  unfold Attributes.ofTag Occurrence.openingTag
  rw [hiff.mpr hname]

set_option maxRecDepth 10000 in
/-- A name with a digit, a hyphen and a capital letter, and attributes of several kinds. -/
theorem attributes_of_occurrence?_card :
    ((occurrence? .html).run.run ⟨⟨"<Card-2 class='a' open>Hi</Card-2>".toList, []⟩, Workspace.holding
      [("Card-2".toList, "<p><slot/></p>".toList)]⟩).1 =
        .ok (some ⟨"Card-2".toList, " class='a' open".toList, 0, 23, 25⟩) ∧
    Attributes.ofTag "<Card-2 class='a' open>".toList = Attributes.ofTag "<x class='a' open>".toList := by
  have hfound : ((occurrence? .html).run.run ⟨⟨"<Card-2 class='a' open>Hi</Card-2>".toList, []⟩, Workspace.holding
      [("Card-2".toList, "<p><slot/></p>".toList)]⟩).1 =
        .ok (some ⟨"Card-2".toList, " class='a' open".toList, 0, 23, 25⟩) := by cbv
  exact ⟨hfound, (attributes_of_occurrence? (Prod.ext hfound rfl)).2 (by decide)⟩

set_option maxRecDepth 10000 in
/-- **With another letter in the name attributes are lost.** The scan takes the dotless i for a letter. -/
theorem not_attributes_of_occurrence? :
    ((occurrence? .html).run.run ⟨⟨"<\u0131l\u0131ca open>Hi</\u0131l\u0131ca>".toList, []⟩, Workspace.holding
      [("\u0131l\u0131ca".toList, "<p><slot/></p>".toList)]⟩).1 =
        .ok (some ⟨"\u0131l\u0131ca".toList, " open".toList, 0, 12, 14⟩) ∧
    Attributes.ofTag "<\u0131l\u0131ca open>".toList = {} ∧
    Attributes.ofTag "<x open>".toList = { flags := ["open".toList] } ∧
    ¬ ∀ (native : NativeSet) (s s' : PageState) (o : Occurrence),
      (occurrence? native).run.run s = (.ok (some o), s') →
        Attributes.ofTag o.openingTag = Attributes.ofTag (Tag.opening "x".toList o.attributes) := by
  have hfound : ((occurrence? .html).run.run ⟨⟨"<\u0131l\u0131ca open>Hi</\u0131l\u0131ca>".toList, []⟩,
      Workspace.holding [("\u0131l\u0131ca".toList, "<p><slot/></p>".toList)]⟩).1 =
        .ok (some ⟨"\u0131l\u0131ca".toList, " open".toList, 0, 12, 14⟩) := by cbv
  have hlost : Attributes.ofTag "<\u0131l\u0131ca open>".toList = {} := by cbv
  have hread : Attributes.ofTag "<x open>".toList = { flags := ["open".toList] } := by cbv
  refine ⟨hfound, hlost, hread, fun h => ?_⟩
  have hclash : Attributes.ofTag "<\u0131l\u0131ca open>".toList = Attributes.ofTag "<x open>".toList :=
    h _ _ _ _ (Prod.ext hfound rfl)
  rw [hlost, hread] at hclash
  exact absurd hclash (by decide)

end Draft

end Inlay

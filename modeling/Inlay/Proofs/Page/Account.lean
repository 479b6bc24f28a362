import Inlay.Proofs.Page.Search

/-!
# The account of an expansion

What an expansion reports is true of the text that it leaves behind. When nothing is left to replace,
the skipped names are those of the component tags that still stand in the text, none of which has a
matching closing tag, and expanding the text once more changes nothing. When the ceiling ends the run,
the skipped tags stand in front of the span that was rewritten last.

* `Tag.StandIn` — tags that stand in a text where they say, one after the other.
* `Supply.EndsInRewrite` — where the span lies that the last pass has rewritten.

Main statements: `Supply.standIn_of_search` (the tags that a search passes over stand in front of what it
finds), `expand_account`.
-/

namespace Inlay

open Markup

/-- The tags stand in `t` where they say, one after the other. -/
structure Markup.Tag.StandIn (tags : List Tag) (t : Text) : Prop where
  written : ∀ tag ∈ tags, tag.stop ≤ t.length ∧
    Text.cut t tag.start tag.stop = Tag.opening tag.name tag.attributes
  ordered : tags.Pairwise fun a b => a.stop ≤ b.start

namespace Supply

variable {s : Supply} {native : NativeSet}

/-- The last pass of the run from `page` has rewritten an occurrence, whose expanded template is the
span between `before` and `after`. -/
structure EndsInRewrite (s : Supply) (native : NativeSet) (page : Text) (e : Expansion)
    (before span after : Text) : Prop where
  content : e.content = before ++ span ++ after
  rewritten : ∃ last o body template, s.Reaches native (e.replacements - 1) page last ∧
    s.search native last = .ok (e.skipped, some o) ∧ o.Splits last before body after ∧
    s.load o.name = .ok template ∧ span = o.expansion template (Text.strip body)

theorem cut_of_mem_scan {page : Text} {tag : Tag} (h : tag ∈ Tag.scan page) :
    tag.start ≤ tag.stop ∧ tag.stop ≤ page.length ∧
      Text.cut page tag.start tag.stop = Tag.opening tag.name tag.attributes := by
  have hlen := Tag.stop_le_of_mem_scan h
  obtain ⟨-, before, after, rfl, hstart, hstop⟩ := Tag.exists_of_mem_scanFrom h
  rw [Nat.zero_add] at hstart hstop
  have hle : tag.start ≤ tag.stop := by
    rw [hstart, hstop, List.length_append]
    omega
  refine ⟨hle, hlen, ?_⟩
  rw [Text.cut_natCast hle hlen, hstart, hstop, List.append_assoc, List.drop_left, List.length_append,
    Nat.add_sub_cancel_left, List.take_left]

/-- The tags that a search passes over stand in front of the occurrence that it finds. -/
theorem standIn_of_search {page before body after : Text} {skipped : List Text} {o : Occurrence}
    (h : s.search native page = .ok (skipped, some o)) (ho : o.Splits page before body after) :
    ∃ tags, tags.map (·.name) = skipped ∧ Tag.StandIn tags before := by
  obtain ⟨passed, tag, rest, close, hscan, hp, -, -, rfl⟩ := searchAmong_eq_some_iff.mp h
  have hstart : tag.start = before.length := Int.ofNat.inj ho.start
  have horder := Tag.pairwise_scanFrom 0 page
  rw [show Tag.scanFrom 0 page = passed ++ tag :: rest from hscan, List.pairwise_append] at horder
  obtain ⟨hpassed, -, hfront⟩ := horder
  refine ⟨s.components native passed, hp.names.symm, ?_, hpassed.filter _⟩
  intro t ht
  have hmem : t ∈ passed := (List.mem_filter.mp ht).1
  have hscanned : t ∈ Tag.scan page := by
    rw [hscan]
    exact List.mem_append_left _ hmem
  obtain ⟨hle, -, hcut⟩ := cut_of_mem_scan hscanned
  have hstop : t.stop ≤ before.length := by
    rw [← hstart]
    exact hfront t hmem tag (List.mem_cons_self ..)
  refine ⟨hstop, ?_⟩
  rw [← hcut, ho.page_eq]
  simp only [List.append_assoc]
  rw [Text.cut_append hle hstop]

end Supply

/-- **What an expansion reports is true of the text that it leaves behind.** -/
theorem expand_account {w : Workspace} (hw : w.Reliable) {native : NativeSet} {ceiling : Nat}
    (hc : 1 ≤ ceiling) {page : Text} {e : Expansion}
    (he : w.expand native ceiling page = .ok e) :
    1 ≤ e.passes ∧ e.passes ≤ ceiling ∧
    (e.ceilingReached = true →
      e.passes = ceiling ∧ e.replacements = ceiling ∧
      ∃ before span after tags, w.supply.EndsInRewrite native page e before span after ∧
        tags.map (·.name) = e.skipped ∧ Tag.StandIn tags before) ∧
    (e.ceilingReached = false →
      e.replacements = e.passes - 1 ∧
      e.skipped = (w.supply.components native (Tag.scan e.content)).map (·.name) ∧
      (∀ tag ∈ w.supply.components native (Tag.scan e.content),
        closing? e.content tag.name tag.stop = none) ∧
      ∀ w' : Workspace, w'.Reliable → w'.supply = w.supply → ∀ ceiling', 1 ≤ ceiling' →
        w'.expand native ceiling' e.content = .ok ⟨e.content, 1, 0, e.skipped, false⟩) := by
  rw [Workspace.expand_eq hw, Supply.expand_eq_ok_iff hc] at he
  cases he with
  | @settled k last skipped hk hreach hlast =>
    refine ⟨by simp, hk, by simp, fun _ => ?_⟩
    dsimp only
    have hsearch := Supply.search_of_pass_none hlast
    have hover := Supply.searchAmong_eq_none_iff.mp hsearch
    refine ⟨by omega, hover.names, hover.unmatched, ?_⟩
    intro w' hw' hsupply ceiling' hc'
    rw [Workspace.expand_eq hw', hsupply, Supply.expand_eq_ok_iff hc']
    exact .settled (k := 0) hc' (.refl last) hlast
  | @stopped k last next skipped hk hreach hlast =>
    refine ⟨hc, Nat.le_refl _, fun _ => ⟨rfl, rfl, ?_⟩, by simp⟩
    obtain ⟨o, template, hsearch, hload, hnext⟩ := Supply.search_of_pass_some hlast
    obtain ⟨before, body, after, ho⟩ := Supply.exists_splits hsearch
    obtain ⟨tags, hnames, htags⟩ := Supply.standIn_of_search hsearch ho
    refine ⟨before, o.expansion template (Text.strip body), after, tags, ⟨?_, ?_⟩, hnames, htags⟩
    · rw [hnext, ho.inner, ho.splice]
    · refine ⟨last, o, body, template, ?_, hsearch, ho, hload, rfl⟩
      dsimp only
      rw [← hk, Nat.add_sub_cancel]
      exact hreach

set_option maxRecDepth 10000 in
/-- A page that settles with a tag left over, and a page that is stopped by its ceiling. -/
theorem expand_account_note_loop :
    (Workspace.holding [("card".toList, "<p><slot/></p>".toList), ("note".toList, [])]).expand .html
        5 "<note><card>Hi</card>".toList =
      .ok ⟨"<note><p>Hi</p>".toList, 2, 1, ["note".toList], false⟩ ∧
    ["note".toList] =
      ((Workspace.holding [("card".toList, "<p><slot/></p>".toList), ("note".toList, [])]).supply
        |>.components .html (Tag.scan "<note><p>Hi</p>".toList)).map (·.name) ∧
    (Workspace.holding [("loop".toList, "<b><loop></loop></b>".toList)]).expand .html 2
        "<loop></loop>".toList =
      .ok ⟨"<b><b><loop></loop></b></b>".toList, 2, 2, [], true⟩ ∧
    ∃ before span after, (Workspace.holding [("loop".toList, "<b><loop></loop></b>".toList)]).supply
      |>.EndsInRewrite .html "<loop></loop>".toList
        ⟨"<b><b><loop></loop></b></b>".toList, 2, 2, [], true⟩ before span after := by
  have hnote : (Workspace.holding
      [("card".toList, "<p><slot/></p>".toList), ("note".toList, [])]).expand .html 5
        "<note><card>Hi</card>".toList =
      .ok ⟨"<note><p>Hi</p>".toList, 2, 1, ["note".toList], false⟩ := by cbv
  have hloop : (Workspace.holding [("loop".toList, "<b><loop></loop></b>".toList)]).expand .html 2
        "<loop></loop>".toList =
      .ok ⟨"<b><b><loop></loop></b></b>".toList, 2, 2, [], true⟩ := by cbv
  obtain ⟨-, -, -, hsettled⟩ :=
    expand_account (Workspace.reliable_holding _) (by decide) hnote
  obtain ⟨-, -, hstopped, -⟩ :=
    expand_account (Workspace.reliable_holding _) (by decide) hloop
  obtain ⟨-, hnames, -⟩ := hsettled rfl
  obtain ⟨-, -, before, span, after, tags, hend, -⟩ := hstopped rfl
  exact ⟨hnote, hnames, hloop, before, span, after, hend⟩

end Inlay

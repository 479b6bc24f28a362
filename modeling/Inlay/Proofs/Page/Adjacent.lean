import Inlay.Proofs.Page.Search

/-!
# Expanding adjacent texts

When a text expands without leaving a component tag behind and its last page is closed, then what follows
it waits untouched until it is done, and is expanded behind the finished page as it would be alone.

* `Supply.Quiet` — no pass of the run from a page notes a skipped tag.
* `Occurrence.shift` — an occurrence moved to the right.
* `Expansion.behind` — the account of a run that goes on where another has settled.

Main statements: `Supply.pass_append_of_some` (a rewriting pass does not look at what follows),
`Supply.pass_append_of_none` (behind a closed page that is done a pass works as it does alone),
`expand_append`.
-/

namespace Inlay

open Markup

/-- The occurrence `n` characters further right. -/
def Occurrence.shift (n : Nat) (o : Occurrence) : Occurrence :=
  { o with start := o.start + n, openEnd := o.openEnd + n, closeStart := o.closeStart + n }

/-- The account of a run behind the page of `a`, which has settled: all replacements and passes count
but the last pass of `a`. -/
def Expansion.behind (a b : Expansion) : Expansion where
  content := a.content ++ b.content
  passes := a.replacements + b.passes
  replacements := a.replacements + b.replacements
  skipped := b.skipped
  ceilingReached := b.ceilingReached

namespace Occurrence

variable {o : Occurrence} {page before body after : Text}

theorem Splits.append (h : o.Splits page before body after) (u : Text) :
    o.Splits (page ++ u) before body (after ++ u) := by
  refine ⟨?_, h.start, h.openEnd, h.closeStart⟩
  rw [h.page_eq, List.append_assoc]

theorem Splits.shift (h : o.Splits page before body after) (t : Text) :
    (o.shift t.length).Splits (t ++ page) (t ++ before) body after := by
  unfold Occurrence.shift
  refine ⟨?_, ?_, ?_, ?_⟩
  · show t ++ page = t ++ before ++ o.openingTag ++ body ++ o.closingTag ++ after
    rw [h.page_eq]
    simp only [List.append_assoc]
  · dsimp only
    rw [h.start, List.length_append]
    omega
  · show o.openEnd + t.length = (t ++ before ++ o.openingTag).length
    rw [h.openEnd]
    simp only [List.length_append]
    omega
  · show o.closeStart + t.length = (t ++ before ++ o.openingTag ++ body).length
    rw [h.closeStart]
    simp only [List.length_append]
    omega

end Occurrence

namespace Supply

variable {s : Supply} {native : NativeSet} {page : Text}

/-! ## Runs without skipped tags -/

/-- No pass of the run from `page` notes a skipped tag. -/
def Quiet (s : Supply) (native : NativeSet) (page : Text) : Prop :=
  ∀ k mid skipped next, s.Reaches native k page mid → s.pass native mid = .ok (skipped, next) →
    skipped = []

theorem Quiet.next {next : Text} {skipped : List Text} (h : s.Quiet native page)
    (hpass : s.pass native page = .ok (skipped, some next)) : s.Quiet native next :=
  fun k mid _ _ hreach hmid => h (k + 1) mid _ _ (.step hpass hreach) hmid

theorem quiet_of_pass_none (h : s.pass native page = .ok ([], none)) : s.Quiet native page := by
  intro k mid skipped next hreach hmid
  cases hreach with
  | refl =>
    rw [h] at hmid
    cases hmid
    rfl
  | step hpass _ =>
    rw [h] at hpass
    cases hpass

theorem quiet_of_pass_some {new : Text} (h : s.pass native page = .ok ([], some new))
    (hnew : s.Quiet native new) : s.Quiet native page := by
  intro k mid skipped next hreach hmid
  cases hreach with
  | refl =>
    rw [h] at hmid
    cases hmid
    rfl
  | step hpass hrest =>
    rw [h] at hpass
    cases hpass
    exact hnew _ mid skipped next hrest hmid

/-! ## One pass over adjacent texts -/

/-- Tags among which nothing is noted are passed over in any page. -/
theorem PassesOver.elsewhere {tags : List Tag} (h : s.PassesOver native page tags []) (page' : Text) :
    s.PassesOver native page' tags [] := by
  have hnone : s.components native tags = [] := List.map_eq_nil_iff.mp h.names.symm
  refine ⟨h.answered, ?_, h.names⟩
  intro tag htag
  rw [hnone] at htag
  cases htag

/-- **A pass that rewrites without skipping does not look at what follows.** -/
theorem pass_append_of_some {a new : Text} (h : s.pass native a = .ok ([], some new)) (b : Text) :
    s.pass native (a ++ b) = .ok ([], some (new ++ b)) := by
  obtain ⟨o, template, hsearch, hload, hnew⟩ := search_of_pass_some h
  obtain ⟨before, body, after, ho⟩ := exists_splits hsearch
  have hfound : s.search native (a ++ b) = .ok ([], some o) := by
    obtain ⟨passed, tag, rest, close, hscan, hp, hb, hclose, rfl⟩ := searchAmong_eq_some_iff.mp hsearch
    obtain ⟨rest', hscan'⟩ := Tag.scanFrom_append_of_eq hscan b
    have hstop : tag.stop ≤ a.length := by
      apply Tag.stop_le_of_mem_scan
      rw [hscan]
      exact List.mem_append_right _ (List.mem_cons_self ..)
    exact searchAmong_eq_some_iff.mpr ⟨passed, tag, rest', close, hscan', hp.elsewhere _, hb,
      closing?_append hstop hclose b, rfl⟩
  unfold pass
  rw [hfound]
  dsimp only
  rw [(ho.append b).rewrite, hload, hnew, ho.inner, ho.splice]
  simp only [Except.map, List.append_assoc]

/-- The tags of a page, looked for behind another text. -/
theorem searchAmong_shift (a page : Text) (tags : List Tag)
    (hstop : ∀ tag ∈ tags, tag.stop ≤ page.length) :
    s.searchAmong native (a ++ page) (tags.map (Tag.shift a.length)) =
      (s.searchAmong native page tags).map fun found =>
        (found.1, found.2.map (Occurrence.shift a.length)) := by
  induction tags with
  | nil => rfl
  | cons tag rest ih =>
    have hrest := ih fun t ht => hstop t (List.mem_cons_of_mem _ ht)
    have hclose : closing? (a ++ page) tag.name (tag.stop + a.length : Nat) =
        (closing? page tag.name tag.stop).map (· + a.length) :=
      closing?_append_right a tag.name (hstop tag (List.mem_cons_self ..))
    unfold Tag.shift at hrest
    rw [List.map_cons]
    unfold searchAmong Tag.shift
    dsimp only
    rw [hclose]
    cases s.isComponent native tag.name with
    | error f => rfl
    | ok b =>
      cases b with
      | false => exact hrest
      | true =>
        cases closing? page tag.name tag.stop with
        | some close =>
          simp [Except.map, Occurrence.shift]
        | none =>
          dsimp only [Option.map]
          rw [hrest]
          cases s.searchAmong native page rest <;> rfl

/-- A search behind a closed page that is done finds what it finds alone. -/
theorem search_append {a : Text} (h : s.pass native a = .ok ([], none)) (ha : Tag.IsClosed a)
    (b : Text) :
    s.search native (a ++ b) = (s.search native b).map fun found =>
      (found.1, found.2.map (Occurrence.shift a.length)) := by
  have hover := searchAmong_eq_none_iff.mp (search_of_pass_none h)
  have hscan : Tag.scan (a ++ b) = Tag.scan a ++ (Tag.scan b).map (Tag.shift a.length) := by
    unfold Tag.scan
    rw [Tag.scanFrom_append ha, Tag.scanFrom_add]
  unfold search
  rw [hscan, (hover.elsewhere (a ++ b)).searchAmong,
    searchAmong_shift a b _ fun _ htag => Tag.stop_le_of_mem_scan htag]
  cases s.searchAmong native b (Tag.scan b) <;> rfl

/-- **Behind a closed page that is done, a pass works as it does alone.** -/
theorem pass_append_of_none {a : Text} (h : s.pass native a = .ok ([], none)) (ha : Tag.IsClosed a)
    (b : Text) :
    s.pass native (a ++ b) = (s.pass native b).map fun found =>
      (found.1, found.2.map (a ++ ·)) := by
  unfold pass
  rw [search_append h ha]
  cases hs : s.search native b with
  | error f => rfl
  | ok found =>
    obtain ⟨skipped, _ | o⟩ := found
    · rfl
    · obtain ⟨before, body, after, ho⟩ := exists_splits hs
      dsimp only [Except.map, Option.map]
      rw [(ho.shift a).rewrite, ho.rewrite]
      show (Except.map _ (Except.map _ (s.load o.name))) = _
      cases s.load o.name with
      | error f => rfl
      | ok template =>
        simp only [Except.map, List.append_assoc]
        rfl

/-! ## The run over adjacent texts -/

/-- What follows waits until the first text is done. -/
theorem reaches_append {k : Nat} {a last : Text} (h : s.Reaches native k a last)
    (hq : s.Quiet native a) (b : Text) : s.Reaches native k (a ++ b) (last ++ b) := by
  induction h with
  | refl page => exact .refl _
  | @step k page next last skipped hpass _ ih =>
    obtain rfl := hq 0 page skipped (some next) (.refl page) hpass
    exact .step (pass_append_of_some hpass b) (ih (hq.next hpass))

/-- The second text is expanded behind the first as it is alone. -/
theorem run_append {a : Text} (h : s.pass native a = .ok ([], none)) (ha : Tag.IsClosed a)
    (left passes k : Nat) (b : Text) (skipped : List Text) :
    s.run native left (k + passes) ⟨a ++ b, skipped⟩ =
      (s.run native left passes ⟨b, skipped⟩).map fun e =>
        ⟨a ++ e.content, k + e.passes, k + e.replacements, e.skipped, e.ceilingReached⟩ := by
  induction left generalizing passes b skipped with
  | zero => rfl
  | succ left ih =>
    unfold run
    dsimp only
    rw [pass_append_of_none h ha]
    cases s.pass native b with
    | error f => rfl
    | ok found =>
      obtain ⟨sk, _ | next⟩ := found
      · rfl
      · dsimp only [Except.map, Option.map]
        rw [Nat.add_assoc, ih (passes + 1) next sk]
        rfl

end Supply

/-- **Expanding a text that settles cleanly and then what follows it is expanding both together.** -/
theorem expand_append {w : Workspace} (hw : w.Reliable) {native : NativeSet} {ceiling : Nat}
    {a : Text} {e : Expansion} (he : w.expand native ceiling a = .ok e)
    (hsettled : e.ceilingReached = false) (hquiet : w.supply.Quiet native a)
    (hclosed : Tag.IsClosed e.content) (b : Text) :
    e.replacements < ceiling ∧
    w.expand native ceiling (a ++ b) =
      (w.expand native (ceiling - e.replacements) b).map fun e' => e.behind e' := by
  have hc : 1 ≤ ceiling := by
    rcases Nat.eq_zero_or_pos ceiling with rfl | hpos
    · rw [Workspace.expand_eq hw] at he
      cases he
      cases hsettled
    · exact hpos
  rw [Workspace.expand_eq hw, Supply.expand_eq_ok_iff hc] at he
  cases he with
  | stopped => cases hsettled
  | @settled k last skipped hk hreach hlast =>
    refine ⟨hk, ?_⟩
    dsimp only at hclosed ⊢
    obtain rfl := hquiet k last skipped none hreach hlast
    obtain ⟨left, hleft⟩ : ∃ left, ceiling - k = left + 1 := ⟨ceiling - k - 1, by omega⟩
    obtain ⟨skipped, hrun⟩ :=
      Supply.run_add (Supply.reaches_append hreach hquiet b) (left + 1) 0 []
    have hbehind := Supply.run_append hlast hclosed (left + 1) 0 k b []
    rw [Workspace.expand_eq hw, Workspace.expand_eq hw, hleft]
    unfold Supply.expand Expansion.behind
    rw [show ceiling = k + (left + 1) by omega, hrun, Nat.zero_add]
    exact hbehind

set_option maxRecDepth 10000 in
/-- A card, and behind it a tag that is never closed. -/
theorem expand_append_card_note :
    (Workspace.holding [("card".toList, "<p><slot/></p>".toList)]).expand .html 3
        ("<card>Hi</card>".toList ++ "<card>".toList) =
      .ok ⟨"<p>Hi</p><card>".toList, 2, 1, ["card".toList], false⟩ := by
  have hcard : (Workspace.holding [("card".toList, "<p><slot/></p>".toList)]).expand .html 3
      "<card>Hi</card>".toList = .ok ⟨"<p>Hi</p>".toList, 2, 1, [], false⟩ := by cbv
  have hquiet : (Workspace.holding [("card".toList, "<p><slot/></p>".toList)]).supply.Quiet .html
      "<card>Hi</card>".toList := by
    have hfirst : (Workspace.holding [("card".toList, "<p><slot/></p>".toList)]).supply.pass .html
        "<card>Hi</card>".toList = .ok ([], some "<p>Hi</p>".toList) := by cbv
    apply Supply.quiet_of_pass_some hfirst
    apply Supply.quiet_of_pass_none
    cbv
  have hclosed : Tag.IsClosed "<p>Hi</p>".toList := by
    simp [Tag.isClosed_cons, Tag.isClosed_nil]
  obtain ⟨-, h⟩ := expand_append (Workspace.reliable_holding _) hcard rfl hquiet hclosed
    "<card>".toList
  rw [h]
  cbv

end Inlay

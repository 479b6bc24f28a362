import Inlay.Proofs.Markup.Pairing
import Inlay.Proofs.Page.Tokens

/-!
# Unbalanced and crossing component tags

The templates here are frames: a native element around plain text and one slot. Then nothing but the
pairing of the component tags decides how a page is expanded, however the tags are nested, crossed or
left alone: each pair is replaced, and all other tags stay where they are.

* `Frame` — such a template.
* `Supply.Framed` — a name is that of a component with a frame.
* `Supply.Admits` — the tokens that a page is made of.

Main statements: `Supply.pass_of_admits` (a pass takes one pair out of the page, or there is none),
`expand_crossing`.
-/

namespace Inlay

open Markup

/-- A template that is a native element called `root` with a slot between two plain texts. -/
structure Frame where
  root : Text
  front : Text
  back : Text
  deriving DecidableEq, Repr

namespace Frame

/-- The template as it is written. -/
def template (f : Frame) : Text :=
  Tag.opening f.root [] ++ f.front ++ "<slot/>".toList ++ f.back ++ Tag.closing f.root

/-- The root is native and the texts are plain. -/
structure IsValid (f : Frame) (native : NativeSet) : Prop where
  isName : isTagName f.root = true
  isNative : native.isNative f.root = true
  front : '<' ∉ f.front
  back : '<' ∉ f.back

/-- The tokens of the template. -/
def tokens (f : Frame) : List Token :=
  [.opening f.root [], .text f.front, .slotMark, .text f.back, .closing f.root]

theorem template_eq (f : Frame) : f.template = writeAll f.tokens := by
  simp only [template, tokens, writeAll_cons, writeAll_nil, Token.write, List.append_assoc,
    List.append_nil]
  rfl

/-- A frame with content in its slot is a frame around the content. -/
theorem fill_template {f : Frame} {native : NativeSet} (hf : f.IsValid native) {inner : Text}
    (hinner : Text.isAllBlank inner = false) :
    ∃ before after, (∀ t ∈ before ++ after, t ∈ f.tokens) ∧
      fill f.template inner = writeAll before ++ inner ++ writeAll after := by
  have hroot : Token.IsClean (.opening f.root []) := ⟨Tag.isOpening_bare hf.isName, by simp⟩
  rw [template_eq]
  cases hslot : Token.isSlot (.opening f.root []) with
  | true =>
    -- the root itself is written as a slot mark
    refine ⟨[], [.text f.front, .slotMark, .text f.back, .closing f.root],
      fun t ht => List.mem_cons_of_mem _ ht, ?_⟩
    have hclean : ∀ t ∈ ([] : List Token), t.IsClean := List.forall_mem_nil _
    have hno : ∀ t ∈ ([] : List Token), t.isSlot = false := List.forall_mem_nil _
    exact fill_writeAll hclean hno hroot hslot hinner
  | false =>
    refine ⟨[.opening f.root [], .text f.front], [.text f.back, .closing f.root], ?_, ?_⟩
    · intro t ht
      simp only [List.cons_append, List.nil_append, List.mem_cons, List.not_mem_nil, or_false] at ht
      unfold tokens
      rcases ht with rfl | rfl | rfl | rfl <;> simp
    · have hclean : ∀ t ∈ [Token.opening f.root [], .text f.front], t.IsClean := by
        rw [List.forall_mem_cons, List.forall_mem_singleton]
        exact ⟨hroot, hf.front⟩
      have hno : ∀ t ∈ [Token.opening f.root [], .text f.front], t.isSlot = false := by
        rw [List.forall_mem_cons, List.forall_mem_singleton]
        exact ⟨hslot, rfl⟩
      exact fill_writeAll hclean hno isClean_slotMark isSlot_slotMark hinner

end Frame

namespace Supply

/-- The component called `name` has the template `f`. -/
structure Framed (s : Supply) (native : NativeSet) (f : Frame) (name : Text) : Prop where
  isName : isTagName name = true
  component : s.isComponent native name = .ok true
  template : s.load name = .ok f.template
  valid : f.IsValid native

/-- What a page is made of: plain text, tags that are not component tags, and tags without attributes of
components whose templates are frames. -/
structure Admits (s : Supply) (native : NativeSet) (frames : Text → Frame) (t : Token) : Prop where
  legible : s.Legible native t
  framed : ∀ name attributes, t = .opening name attributes → s.offers native name = true →
    attributes = [] ∧ s.Framed native (frames name) name

variable {s : Supply} {native : NativeSet} {frames : Text → Frame}

theorem admits_text {t : Text} (h : '<' ∉ t) : s.Admits native frames (.text t) :=
  ⟨legible_text h, fun _ _ heq => by cases heq⟩

theorem admits_closing {name : Text} (h : isTagName name = true) :
    s.Admits native frames (.closing name) :=
  ⟨legible_closing h, fun _ _ heq => by cases heq⟩

theorem Framed.admits_opening {name : Text} (h : s.Framed native (frames name) name) :
    s.Admits native frames (.opening name []) := by
  refine ⟨legible_opening (Tag.isOpening_bare h.isName) (by simp) h.component, ?_⟩
  intro n attributes heq _
  cases heq
  exact ⟨rfl, h⟩

theorem admits_other {name attributes : Text} (h : Tag.IsOpening name attributes)
    (hlt : '<' ∉ attributes) (hname : s.isComponent native name = .ok false) :
    s.Admits native frames (.opening name attributes) := by
  refine ⟨legible_opening h hlt hname, ?_⟩
  intro n a heq hoffers
  cases heq
  rw [offers_eq_false hname] at hoffers
  cases hoffers

/-- A frame consists of admitted tokens, none of which is a component tag. -/
theorem admits_frame (frames : Text → Frame) {f : Frame} (hf : f.IsValid native)
    (hslot : s.isComponent native "slot".toList = .ok false) :
    ∀ t ∈ f.tokens, s.Admits native frames t ∧ t.isTagIn (s.offers native) = false := by
  have hroot := isComponent_of_isNative (s := s) hf.isNative
  intro t ht
  unfold Frame.tokens at ht
  simp only [List.mem_cons, List.not_mem_nil, or_false] at ht
  rcases ht with rfl | rfl | rfl | rfl | rfl
  · exact ⟨admits_other (Tag.isOpening_bare hf.isName) (by simp) hroot, offers_eq_false hroot⟩
  · exact ⟨admits_text hf.front, rfl⟩
  · exact ⟨admits_other isClean_slotMark.1 isClean_slotMark.2 hslot, offers_eq_false hslot⟩
  · exact ⟨admits_text hf.back, rfl⟩
  · exact ⟨admits_closing hf.isName, offers_eq_false hroot⟩

/-- What stands for a pair of tags has the tags of its content and no further component tags. -/
theorem exists_filled {f : Frame} (hf : f.IsValid native)
    (hslot : s.isComponent native "slot".toList = .ok false) {body : List Token}
    (hbody : ∀ t ∈ body, s.Admits native frames t) :
    ∃ new, fill f.template (Text.strip (writeAll body)) = writeAll new ∧
      (∀ t ∈ new, s.Admits native frames t) ∧
      new.filter (Token.isTagIn (s.offers native)) =
        body.filter (Token.isTagIn (s.offers native)) := by
  have hframe := admits_frame frames hf hslot
  have hnone : ∀ ts : List Token, (∀ t ∈ ts, t ∈ f.tokens) →
      ts.filter (Token.isTagIn (s.offers native)) = [] := by
    intro ts hts
    rw [List.filter_eq_nil_iff]
    intro t ht
    rw [(hframe t (hts t ht)).2]
    exact Bool.false_ne_true
  cases hblank : Text.isAllBlank (Text.strip (writeAll body)) with
  | true =>
    refine ⟨f.tokens, ?_, fun t ht => (hframe t ht).1, ?_⟩
    · rw [fill_of_isAllBlank hblank, f.template_eq]
    · rw [hnone f.tokens fun t ht => ht]
      rw [Text.isAllBlank_strip] at hblank
      rw [filter_isTagIn_of_blank hblank]
  | false =>
    obtain ⟨before, after, hmem, hfill⟩ := Frame.fill_template hf hblank
    obtain ⟨inner, hinner, hsame⟩ := exists_strip fun t ht => (hbody t ht).legible.clean
    refine ⟨before ++ inner ++ after, ?_, ?_, ?_⟩
    · rw [hfill, writeAll_append, writeAll_append, hinner]
    · intro t ht
      simp only [List.mem_append] at ht
      rcases ht with (ht | ht) | ht
      · exact (hframe t (hmem t (List.mem_append_left _ ht))).1
      · rcases hsame.mem t ht with hin | ⟨x, rfl, hx⟩
        · exact hbody t hin
        · exact admits_text hx
      · exact (hframe t (hmem t (List.mem_append_right _ ht))).1
    · rw [List.filter_append, List.filter_append, hsame.tags,
        hnone before fun t ht => hmem t (List.mem_append_left _ ht),
        hnone after fun t ht => hmem t (List.mem_append_right _ ht), List.nil_append, List.append_nil]

/-! ## The first match -/

/-- Counting finds no closing tag for any component tag of a page, or there is a first component tag that
it finds one for. -/
theorem unmatched_or_first (s : Supply) (native : NativeSet) (ts : List Token) :
    s.Unmatched native ts [] ∨
    ∃ before name attributes rest body after, ts = before ++ .opening name attributes :: rest ∧
      s.Unmatched native before (.opening name attributes :: rest) ∧ s.offers native name = true ∧
      splitClosing name 0 rest = some (body, after) := by
  induction ts with
  | nil =>
    left
    intro front name attributes back heq _
    simp at heq
  | cons t ts ih =>
    -- a token in front that has no match itself does not matter
    have later (rest tail : List Token) (h : s.Unmatched native rest tail)
        (ht : ∀ name attributes, t = .opening name attributes → s.offers native name = true →
          splitClosing name 0 (rest ++ tail) = none) : s.Unmatched native (t :: rest) tail := by
      intro front name attributes back heq hoffers
      cases front with
      | nil =>
        obtain ⟨rfl, rfl⟩ := List.cons.inj heq
        exact ht name attributes rfl hoffers
      | cons u front =>
        obtain ⟨-, heq⟩ := List.cons.inj heq
        exact h front name attributes back heq hoffers
    by_cases hfirst : ∃ name attributes parts, t = .opening name attributes ∧
        s.offers native name = true ∧ splitClosing name 0 ts = some parts
    · obtain ⟨name, attributes, ⟨body, after⟩, rfl, hoffers, hsplit⟩ := hfirst
      refine .inr ⟨[], name, attributes, ts, body, after, rfl, ?_, hoffers, hsplit⟩
      intro front n a back heq _
      simp at heq
    · have ht : ∀ name attributes, t = .opening name attributes → s.offers native name = true →
          splitClosing name 0 ts = none := by
        intro name attributes heq hoffers
        rw [Option.eq_none_iff_forall_not_mem]
        intro parts hparts
        exact hfirst ⟨name, attributes, parts, heq, hoffers, hparts⟩
      rcases ih with hnone | ⟨before, name, attributes, rest, body, after, rfl, hun, hoffers, hsplit⟩
      · exact .inl (later ts [] hnone (by simpa using ht))
      · exact .inr ⟨t :: before, name, attributes, rest, body, after, rfl, later _ _ hun ht, hoffers,
          hsplit⟩

/-! ## One pass -/

/-- **A pass takes one pair out of the page and leaves the pairing of the other tags as it is.** -/
theorem pass_of_admits (hslot : s.isComponent native "slot".toList = .ok false) {ts : List Token}
    (hts : ∀ t ∈ ts, s.Admits native frames t) :
    s.Unmatched native ts [] ∨
    ∃ skipped new, s.pass native (writeAll ts) = .ok (skipped, some (writeAll new)) ∧
      (∀ t ∈ new, s.Admits native frames t) ∧
      (Pairing.ofTokens (s.offers native) ts).unpaired =
        (Pairing.ofTokens (s.offers native) new).unpaired ∧
      (Pairing.ofTokens (s.offers native) ts).pairs =
        (Pairing.ofTokens (s.offers native) new).pairs + 1 := by
  rcases unmatched_or_first s native ts with h |
    ⟨before, name, attributes, rest, body, after, rfl, hun, hoffers, hsplit⟩
  · exact .inl h
  obtain ⟨hbefore, hrest⟩ := List.forall_mem_append.mp hts
  obtain ⟨hopening, hbehind⟩ := List.forall_mem_cons.mp hrest
  obtain ⟨rfl, hframed⟩ := hopening.framed name attributes rfl hoffers
  obtain rfl := append_of_splitClosing hsplit
  obtain ⟨hbody, hafter⟩ := List.forall_mem_append.mp hbehind
  obtain ⟨filled, hfill, hfilled, htags⟩ := exists_filled hframed.valid hslot hbody
  refine .inr ⟨s.openNames native before, before ++ filled ++ after, ?_, ?_, ?_⟩
  · rw [pass_writeAll_some (fun t ht => (hts t ht).legible) hun hframed.component hsplit
      hframed.template, hfill, writeAll_append, writeAll_append]
  · simp only [List.forall_mem_append]
    exact ⟨⟨hbefore, hfilled⟩, (List.forall_mem_cons.mp hafter).2⟩
  · have hown : Token.opens name (.opening name []) = true :=
      Token.opens_opening_iff.mpr ⟨rfl, rfl⟩
    have hold : Pairing.ofTokens (s.offers native)
        (before ++ .opening name [] :: (body ++ .closing name :: after)) =
      Pairing.sweep (s.offers native)
        ⟨(Pairing.ofTokens (s.offers native) before).unpaired,
          (Pairing.ofTokens (s.offers native) before).pairs + 1⟩ (body ++ after) := by
      unfold Pairing.ofTokens
      rw [Pairing.sweep_append]
      show Pairing.sweep _ (Pairing.step _ _ _) _ = _
      rw [Pairing.step_opening hoffers]
      exact Pairing.sweep_of_split hoffers hown hsplit [] rfl _ _
    have hnew : Pairing.ofTokens (s.offers native) (before ++ filled ++ after) =
        (Pairing.ofTokens (s.offers native) before).sweep (s.offers native) (body ++ after) := by
      unfold Pairing.ofTokens
      rw [List.append_assoc, Pairing.sweep_append, ← Pairing.sweep_filter _ (filled ++ after),
        List.filter_append, htags, ← List.filter_append, Pairing.sweep_filter]
    rw [hold, hnew, Pairing.sweep_add]
    exact ⟨rfl, rfl⟩

/-- Without a match there are no pairs, and all component tags are left over. -/
theorem ofTokens_of_unmatched {ts : List Token} (h : s.Unmatched native ts []) :
    (Pairing.ofTokens (s.offers native) ts).pairs = 0 ∧
      (Pairing.ofTokens (s.offers native) ts).leftOver =
        ts.filter (Token.isTagIn (s.offers native)) := by
  have hpairs : (Pairing.ofTokens (s.offers native) ts).pairs = 0 := by
    refine Pairing.pairs_of_unmatched ?_ [] (by simp) 0
    intro front name attributes back heq hoffers
    have := h front name attributes back heq hoffers
    rwa [List.append_nil] at this
  refine ⟨hpairs, ?_⟩
  unfold Pairing.leftOver
  rw [Pairing.ofTokens, Pairing.unpaired_of_pairs hpairs]
  simp

/-! ## The run -/

/-- The run takes out one pair after the other. -/
theorem reaches_of_admits (hslot : s.isComponent native "slot".toList = .ok false) {m : Nat}
    {ts : List Token} (hts : ∀ t ∈ ts, s.Admits native frames t)
    (hm : (Pairing.ofTokens (s.offers native) ts).pairs = m) :
    ∃ last, s.Reaches native m (writeAll ts) (writeAll last) ∧
      (∀ t ∈ last, s.Admits native frames t) ∧ s.Unmatched native last [] ∧
      (Pairing.ofTokens (s.offers native) last).unpaired =
        (Pairing.ofTokens (s.offers native) ts).unpaired := by
  induction m generalizing ts with
  | zero =>
    rcases pass_of_admits hslot hts with h | ⟨skipped, new, -, -, -, hpairs⟩
    · exact ⟨ts, .refl _, hts, h, rfl⟩
    · rw [hm] at hpairs
      cases hpairs
  | succ m ih =>
    rcases pass_of_admits hslot hts with h | ⟨skipped, new, hpass, hnew, hunpaired, hpairs⟩
    · rw [(ofTokens_of_unmatched h).1] at hm
      cases hm
    · obtain ⟨last, hreach, hlast, hun, heq⟩ := ih hnew (by omega)
      exact ⟨last, .step hpass hreach, hlast, hun, heq.trans hunpaired.symm⟩

theorem openNames_eq (s : Supply) (native : NativeSet) (ts : List Token) :
    s.openNames native ts =
      (ts.filter (Token.isTagIn (s.offers native))).filterMap Token.openingName? := by
  unfold openNames
  induction ts with
  | nil => rfl
  | cons t ts ih =>
    rw [List.filterMap_cons, List.filter_cons]
    cases t with
    | text t => exact ih
    | closing name =>
      cases hname : s.offers native name <;>
        simp [Token.openingName?, Token.isTagIn, hname, ih, List.filterMap_cons]
    | opening name attributes =>
      cases hname : s.offers native name <;> simp [Token.openingName?, Token.isTagIn, hname, ih]

end Supply

/-- **The pairing of the component tags decides how a page is expanded.** Each pair is replaced; the
opening tags without a partner are reported, and with the stray closing tags they are the component tags
of the expanded page. -/
theorem expand_crossing {w : Workspace} (hw : w.Reliable) {native : NativeSet}
    (hslot : w.supply.isComponent native "slot".toList = .ok false) {frames : Text → Frame}
    {page : List Token} (hpage : ∀ t ∈ page, w.supply.Admits native frames t) {ceiling : Nat}
    (hc : (Pairing.ofTokens (w.supply.offers native) page).pairs < ceiling) :
    ∃ content,
      w.expand native ceiling (writeAll page) =
        .ok ⟨content, (Pairing.ofTokens (w.supply.offers native) page).pairs + 1,
          (Pairing.ofTokens (w.supply.offers native) page).pairs,
          (Pairing.ofTokens (w.supply.offers native) page).leftOver.filterMap Token.openingName?,
          false⟩ ∧
      (tagsOf content).filter (Token.isTagIn (w.supply.offers native)) =
        (Pairing.ofTokens (w.supply.offers native) page).leftOver := by
  obtain ⟨last, hreach, hlast, hun, hunpaired⟩ := Supply.reaches_of_admits hslot hpage rfl
  have hleft : (Pairing.ofTokens (w.supply.offers native) page).leftOver =
      last.filter (Token.isTagIn (w.supply.offers native)) := by
    rw [← (Supply.ofTokens_of_unmatched hun).2]
    unfold Pairing.leftOver
    rw [hunpaired]
  have hpass := Supply.pass_writeAll_none (fun t ht => (hlast t ht).legible) hun
  refine ⟨writeAll last, ?_, ?_⟩
  · rw [Workspace.expand_eq hw, Supply.expand_eq_ok_iff (by omega), hleft, ← Supply.openNames_eq]
    exact .settled hc hreach hpass
  · rw [tagsOf_writeAll fun t ht => (hlast t ht).legible.clean, List.filter_filter, hleft]
    congr 1
    funext t
    cases t <;> simp [Token.isTagIn]

set_option maxRecDepth 10000 in
/-- Two names that cross, with a stray closing tag and an opening tag that is never closed. -/
theorem expand_crossing_card_note :
    ∃ content, (Workspace.holding [("card".toList, "<p><slot/></p>".toList),
        ("note".toList, "<b>n<slot/>!</b>".toList)]).expand .html 3
          "<card><note>hi</card> </note></card><note>".toList =
        .ok ⟨content, 3, 2, ["note".toList], false⟩ ∧
      (tagsOf content).filter (Token.isTagIn ((Workspace.holding
          [("card".toList, "<p><slot/></p>".toList),
            ("note".toList, "<b>n<slot/>!</b>".toList)]).supply.offers .html)) =
        [.closing "card".toList, .opening "note".toList []] := by
  let w := Workspace.holding
    [("card".toList, "<p><slot/></p>".toList), ("note".toList, "<b>n<slot/>!</b>".toList)]
  let frames : Text → Frame := fun name =>
    if name = "card".toList then ⟨"p".toList, [], []⟩ else ⟨"b".toList, "n".toList, "!".toList⟩
  have hcard : w.supply.Framed .html (frames "card".toList) "card".toList :=
    ⟨by decide, by cbv, by cbv, by decide, by decide, by decide, by decide⟩
  have hnote : w.supply.Framed .html (frames "note".toList) "note".toList :=
    ⟨by decide, by cbv, by cbv, by decide, by decide, by decide, by decide⟩
  have hpage : ∀ t ∈ [Token.opening "card".toList [], .opening "note".toList [], .text "hi".toList,
      .closing "card".toList, .text " ".toList, .closing "note".toList, .closing "card".toList,
      .opening "note".toList []], w.supply.Admits .html frames t := by
    simp only [List.forall_mem_cons]
    exact ⟨hcard.admits_opening, hnote.admits_opening, Supply.admits_text (by decide),
      Supply.admits_closing hcard.isName, Supply.admits_text (by decide),
      Supply.admits_closing hnote.isName, Supply.admits_closing hcard.isName, hnote.admits_opening,
      by simp⟩
  have hpairing : Pairing.ofTokens (w.supply.offers .html) [Token.opening "card".toList [],
      .opening "note".toList [], .text "hi".toList, .closing "card".toList, .text " ".toList,
      .closing "note".toList, .closing "card".toList, .opening "note".toList []] =
      ⟨[.opening "note".toList [], .closing "card".toList], 2⟩ := by cbv
  have hceiling : (Pairing.ofTokens (w.supply.offers .html) [Token.opening "card".toList [],
      .opening "note".toList [], .text "hi".toList, .closing "card".toList, .text " ".toList,
      .closing "note".toList, .closing "card".toList, .opening "note".toList []]).pairs < 3 := by
    rw [hpairing]
    decide
  have h := expand_crossing (Workspace.reliable_holding _) (by cbv) hpage hceiling
  rw [hpairing] at h
  exact h

end Inlay

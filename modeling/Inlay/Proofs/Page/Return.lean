import Inlay.Proofs.Disk.Tree
import Inlay.Proofs.Page.Search
import Inlay.Text.Utf8.Lemmas

/-!
# When an expansion returns

An expansion has an account unless a lookup fails. It looks up the name of each tag that a search comes to,
and the template of the component tag that a search finds. On a disk whose templates are all texts the one
lookup that fails is that of a name too long for the system.

* `Supply.Asks` — the tags whose names a search looks up.
* `Supply.Meets` — the tags whose names a run looks up.
* `Supply.Tame` — answers that only fail over the use of a file.
* `Supply.Below` — answers that another supply gives too.

Main statements: `Supply.expand_eq_error_iff` (a run fails in a pass), `expand_returns_iff` (an expansion
returns if no name that it looks up is too long), `Supply.Tame.concernsFile`, `Supply.Below.expand`.
-/

namespace Inlay

open Markup

namespace Supply

variable {s : Supply} {native : NativeSet} {page : Text} {f : Failure}

/-- The search of the page looks up the name of the tag: it passes over all tags before it. -/
def Asks (s : Supply) (native : NativeSet) (page : Text) (tag : Tag) : Prop :=
  ∃ before after skipped, Tag.scan page = before ++ tag :: after ∧
    s.PassesOver native page before skipped

/-- A search fails at the first tag whose name cannot be looked up. -/
theorem searchAmong_eq_error_iff {tags : List Tag} :
    s.searchAmong native page tags = .error f ↔
      ∃ before tag after skipped, tags = before ++ tag :: after ∧
        s.PassesOver native page before skipped ∧ s.isComponent native tag.name = .error f := by
  constructor
  · intro h
    induction tags with
    | nil => cases h
    | cons tag rest ih =>
      unfold searchAmong at h
      split at h
      · rename_i hb
        cases h
        exact ⟨[], tag, rest, [], rfl, .nil, hb⟩
      · rename_i hb
        obtain ⟨before, t, after, skipped, rfl, hp, hf⟩ := ih h
        exact ⟨tag :: before, t, after, skipped, rfl, (PassesOver.plain hb).mpr hp, hf⟩
      · rename_i hb
        split at h
        · cases h
        · rename_i hclose
          cases hr : s.searchAmong native page rest with
          | ok found => rw [hr] at h; cases h
          | error f' =>
            rw [hr] at h
            cases h
            obtain ⟨before, t, after, skipped, rfl, hp, hf⟩ := ih hr
            exact ⟨tag :: before, t, after, tag.name :: skipped, rfl,
              (PassesOver.component hb).mpr ⟨hclose, skipped, rfl, hp⟩, hf⟩
  · rintro ⟨before, tag, after, skipped, rfl, hp, hf⟩
    rw [hp.searchAmong, searchAmong, hf]
    rfl

/-- A pass fails when it looks up a name in vain, or loads the template that it has found in vain. -/
theorem pass_eq_error_iff :
    s.pass native page = .error f ↔
      (∃ tag, s.Asks native page tag ∧ s.isComponent native tag.name = .error f) ∨
      ∃ skipped o, s.search native page = .ok (skipped, some o) ∧ s.load o.name = .error f := by
  have hsearch : s.search native page = .error f ↔
      ∃ tag, s.Asks native page tag ∧ s.isComponent native tag.name = .error f := by
    unfold search
    rw [searchAmong_eq_error_iff]
    constructor
    · rintro ⟨before, tag, after, skipped, hscan, hp, hf⟩
      exact ⟨tag, ⟨before, after, skipped, hscan, hp⟩, hf⟩
    · rintro ⟨tag, ⟨before, after, skipped, hscan, hp⟩, hf⟩
      exact ⟨before, tag, after, skipped, hscan, hp, hf⟩
  rw [← hsearch]
  unfold pass rewrite
  match s.search native page with
  | .error f' => simp
  | .ok (skipped, none) => simp
  | .ok (skipped, some o) => cases hl : s.load o.name <;> simp [Except.map, hl]

/-- What a search finds has a template. -/
theorem contains_of_search {skipped : List Text} {o : Occurrence}
    (h : s.search native page = .ok (skipped, some o)) : s.contains o.name = .ok true := by
  obtain ⟨-, tag, -, close, -, -, hb, -, rfl⟩ := searchAmong_eq_some_iff.mp h
  unfold isComponent at hb
  split at hb
  · cases hb
  · exact hb

/-- **A run fails in one of its passes.** -/
theorem expand_eq_error_iff {ceiling : Nat} :
    s.expand native ceiling page = .error f ↔
      ∃ k last, k < ceiling ∧ s.Reaches native k page last ∧ s.pass native last = .error f := by
  unfold expand
  generalize (0 : Nat) = passes
  generalize ([] : List Text) = skipped
  induction ceiling generalizing page passes skipped with
  | zero => simp [run]
  | succ left ih =>
    constructor
    · intro h
      unfold run at h
      dsimp only at h
      split at h
      · rename_i hpass
        cases h
        exact ⟨0, page, by omega, .refl page, hpass⟩
      · cases h
      · rename_i sk next hpass
        obtain ⟨k, last, hk, hreach, hlast⟩ := (ih _ _).mp h
        exact ⟨k + 1, last, by omega, .step hpass hreach, hlast⟩
    · rintro ⟨k, last, hk, hreach, hlast⟩
      unfold run
      cases hreach with
      | refl =>
        dsimp only
        rw [hlast]
      | @step k _ next _ sk hpass hrest =>
        dsimp only
        rw [hpass]
        exact (ih _ _).mpr ⟨k, last, by omega, hrest, hlast⟩

/-- A run on the page looks up the name of the tag. -/
def Meets (s : Supply) (native : NativeSet) (ceiling : Nat) (page : Text) (tag : Tag) : Prop :=
  ∃ k last, k < ceiling ∧ s.Reaches native k page last ∧ s.Asks native last tag ∧
    native.isNative tag.name = false

/-- Where every template can be loaded, a run fails only when it looks up a name in vain. -/
theorem expand_eq_error_iff_of_loads {ceiling : Nat}
    (hload : ∀ name, s.contains name = .ok true → ∃ text, s.load name = .ok text) :
    s.expand native ceiling page = .error f ↔
      ∃ tag, s.Meets native ceiling page tag ∧ s.contains tag.name = .error f := by
  rw [expand_eq_error_iff]
  constructor
  · rintro ⟨k, last, hk, hreach, hlast⟩
    rcases pass_eq_error_iff.mp hlast with ⟨tag, hasks, hf⟩ | ⟨skipped, o, hsearch, hf⟩
    · unfold isComponent at hf
      split at hf
      · cases hf
      · rename_i hnative
        exact ⟨tag, ⟨k, last, hk, hreach, hasks, Bool.eq_false_iff.mpr hnative⟩, hf⟩
    · obtain ⟨text, ht⟩ := hload o.name (contains_of_search hsearch)
      rw [ht] at hf
      cases hf
  · rintro ⟨tag, ⟨k, last, hk, hreach, hasks, hnative⟩, hf⟩
    refine ⟨k, last, hk, hreach, pass_eq_error_iff.mpr (.inl ⟨tag, hasks, ?_⟩)⟩
    unfold isComponent
    rw [hnative]
    exact hf

/-! ## Failures over files -/

/-- The answers only fail over the use of a file, and a template that is known of is never missing. -/
structure Tame (s : Supply) : Prop where
  contains : ∀ {name f}, s.contains name = .error f → f.concernsFile = true
  load : ∀ {name f}, s.contains name = .ok true → s.load name = .error f → f.concernsFile = true

/-- **With tame answers an expansion only fails over the use of a file.** -/
theorem Tame.concernsFile (hs : s.Tame) {ceiling : Nat}
    (h : s.expand native ceiling page = .error f) : f.concernsFile = true := by
  obtain ⟨k, last, -, -, hlast⟩ := expand_eq_error_iff.mp h
  rcases pass_eq_error_iff.mp hlast with ⟨tag, -, hf⟩ | ⟨skipped, o, hsearch, hf⟩
  · unfold isComponent at hf
    split at hf
    · cases hf
    · exact hs.contains hf
  · exact hs.load (contains_of_search hsearch) hf

/-! ## Fewer answers -/

/-- What `s` answers for the name of a tag, `s'` answers too. -/
structure Below (s s' : Supply) : Prop where
  contains : ∀ {name answer}, isTagName name = true → s.contains name = .ok answer →
    s'.contains name = .ok answer
  load : ∀ {name text}, isTagName name = true → s.load name = .ok text → s'.load name = .ok text

theorem isTagName_of_mem_scan {tag : Tag} (h : tag ∈ Tag.scan page) : isTagName tag.name = true :=
  (Tag.exists_of_mem_scanFrom h).1.isName

namespace Below

variable {s' : Supply}

theorem isComponent (h : s.Below s') {name : Text} (hname : isTagName name = true) {b : Bool}
    (hb : s.isComponent native name = .ok b) : s'.isComponent native name = .ok b := by
  unfold Supply.isComponent at hb ⊢
  split at hb
  · rename_i hnative
    rw [if_pos hnative]
    exact hb
  · rename_i hnative
    rw [if_neg hnative]
    exact h.contains hname hb

theorem passesOver (h : s.Below s') {tags : List Tag} {skipped : List Text}
    (htags : ∀ tag ∈ tags, isTagName tag.name = true) (hp : s.PassesOver native page tags skipped) :
    s'.PassesOver native page tags skipped := by
  have hcomponents : s'.components native tags = s.components native tags := by
    refine List.filter_congr fun tag hmem => ?_
    obtain ⟨b, hb⟩ := hp.answered tag hmem
    unfold offers
    rw [hb, h.isComponent (htags tag hmem) hb]
  refine ⟨fun tag hmem => ?_, ?_, ?_⟩
  · obtain ⟨b, hb⟩ := hp.answered tag hmem
    exact ⟨b, h.isComponent (htags tag hmem) hb⟩
  · rw [hcomponents]
    exact hp.unmatched
  · rw [hcomponents]
    exact hp.names

theorem search (h : s.Below s') {found : List Text × Option Occurrence}
    (hs : s.search native page = .ok found) : s'.search native page = .ok found := by
  have htags : ∀ tag ∈ Tag.scan page, isTagName tag.name = true := fun _ => isTagName_of_mem_scan
  obtain ⟨skipped, _ | o⟩ := found
  · exact searchAmong_eq_none_iff.mpr (h.passesOver htags (searchAmong_eq_none_iff.mp hs))
  · obtain ⟨before, tag, after, close, hscan, hp, hb, hclose, rfl⟩ := searchAmong_eq_some_iff.mp hs
    rw [hscan] at htags
    refine searchAmong_eq_some_iff.mpr ⟨before, tag, after, close, hscan, ?_, ?_, hclose, rfl⟩
    · exact h.passesOver (fun t ht => htags t (List.mem_append_left _ ht)) hp
    · exact h.isComponent (htags tag (by simp)) hb

theorem pass (h : s.Below s') {found : List Text × Option Text} (hs : s.pass native page = .ok found) :
    s'.pass native page = .ok found := by
  obtain ⟨skipped, _ | next⟩ := found
  · unfold Supply.pass
    rw [h.search (search_of_pass_none hs)]
  · obtain ⟨o, template, ho, hload, rfl⟩ := search_of_pass_some hs
    obtain ⟨passed, tag, rest, close, hscan, -, -, -, rfl⟩ := searchAmong_eq_some_iff.mp ho
    have hname : isTagName tag.name = true :=
      isTagName_of_mem_scan (by rw [hscan]; simp : tag ∈ Tag.scan page)
    unfold Supply.pass
    rw [h.search ho]
    dsimp only
    unfold rewrite
    rw [h.load hname hload]
    rfl

theorem reaches (h : s.Below s') {k : Nat} {last : Text} (hs : s.Reaches native k page last) :
    s'.Reaches native k page last := by
  induction hs with
  | refl page => exact .refl page
  | step hpass _ ih => exact .step (h.pass hpass) ih

/-- **An account that an expansion has on fewer answers it has on more.** -/
theorem expand (h : s.Below s') {ceiling : Nat} (hc : 1 ≤ ceiling) {e : Expansion}
    (hs : s.expand native ceiling page = .ok e) : s'.expand native ceiling page = .ok e := by
  rw [expand_eq_ok_iff hc] at hs ⊢
  cases hs with
  | settled hk hreach hlast => exact .settled hk (h.reaches hreach) (h.pass hlast)
  | stopped hk hreach hlast => exact .stopped hk (h.reaches hreach) (h.pass hlast)

end Below

end Supply

namespace Workspace

variable {w : Workspace}

theorem supply_contains_eq_error_iff {name : Text} {f : Failure} :
    w.supply.contains name = .error f ↔
      w.disk.Overlong (w.catalogue.templateFile name) ∧
        f = .disk (.obstacle .nameTooLong (w.catalogue.templateFile name)) := by
  unfold supply
  dsimp only
  cases hf : w.disk.isFile (w.catalogue.templateFile name) with
  | ok answer =>
    constructor
    · intro h
      cases h
    · rintro ⟨hlong, -⟩
      rw [Disk.isFile_eq_error_iff.mpr ⟨hlong, rfl⟩] at hf
      cases hf
  | error e =>
    obtain ⟨hlong, rfl⟩ := Disk.isFile_eq_error_iff.mp hf
    simp [Except.mapError, hlong, eq_comm]

/-- What the disk loads is the text of the template file. -/
theorem supply_load_eq_ok_iff {name text : Text} :
    w.supply.load name = .ok text ↔ w.disk.readText (w.catalogue.templateFile name) = .ok text := by
  constructor
  · intro h
    unfold supply at h
    dsimp only at h
    split at h
    · cases h
    · cases h
    · exact h
  · intro h
    obtain ⟨content, -, hbytes, -⟩ := Disk.readText_eq_ok_iff.mp h
    obtain ⟨ho, hn⟩ := Disk.readBytes_eq_ok_iff.mp hbytes
    have hfile := Disk.isFile_eq_true_iff.mpr ⟨ho, content, hn⟩
    unfold supply
    simp only [hfile, h]

/-- A catalogue that recalls answers found in `s`, on a disk that gives no others, has answers in `s`. -/
theorem Recalls.below {s : Supply} {w' : Workspace} (h : w.Recalls w'.catalogue) (hw : w.lookups.Below s)
    (hdisk : w'.supply.Below s) : w'.lookups.Below s where
  contains {name answer} hname hc := by
    rcases contains_cases hc with hr | hc
    · exact hw.contains hname (h.existence hr)
    · exact hdisk.contains hname hc
  load {name text} hname hl := by
    cases hr : w'.catalogue.recalledText name with
    | some recalled =>
      rw [load_of_recalledText hr] at hl
      cases hl
      exact hw.load hname (h.templates hr)
    | none =>
      rw [load_of_not_recalledText hr] at hl
      split at hl
      · cases hl
      · cases hl
      · exact hdisk.load hname (supply_load_eq_ok_iff.mpr hl)

/-- A template that is there can be loaded where every template file holds a text. -/
theorem supply_loads
    (hdecodes : ∀ name content, w.disk.readBytes (w.catalogue.templateFile name) = .ok content →
      ∃ text, Utf8.decode content = .ok text) {name : Text} (h : w.supply.contains name = .ok true) :
    ∃ text, w.supply.load name = .ok text := by
  obtain ⟨ho, content, hn⟩ := Disk.isFile_eq_true_iff.mp (supply_contains_eq_ok_iff.mp h)
  have hbytes := Disk.readBytes_eq_ok_iff.mpr ⟨ho, hn⟩
  obtain ⟨text, htext⟩ := hdecodes name content hbytes
  exact ⟨Text.unifyLineEnds text, supply_load_eq_ok_iff.mpr
    (Disk.readText_eq_ok_iff.mpr ⟨content, text, hbytes, htext, rfl⟩)⟩

theorem holding_decodes {templates : List (Text × Text)} {file : Path} {content : Bytes}
    (h : (holding templates).disk.readBytes file = .ok content) : ∃ text, Utf8.decode content = .ok text := by
  obtain ⟨-, hn⟩ := Disk.readBytes_eq_ok_iff.mp h
  have hmem := Disk.mem_entries_of_node? (Disk.ne_nil_of_not_directory (by rw [hn]; simp)) hn
  simp only [holding, List.mem_cons, List.mem_flatMap, Prod.mk.injEq, reduceCtorEq, and_false, false_or,
    List.not_mem_nil, or_false, Node.file.injEq] at hmem
  obtain ⟨t, -, -, rfl⟩ := hmem
  exact ⟨t.2, Utf8.decode_encode t.2⟩

end Workspace

/-- **An expansion returns its account if and only if the system takes every name that it looks up**, and
what else ends it is a name that is too long. -/
theorem expand_returns_iff {w : Workspace} (hw : w.Reliable)
    (hdecodes : ∀ name content, w.disk.readBytes (w.catalogue.templateFile name) = .ok content →
      ∃ text, Utf8.decode content = .ok text)
    (native : NativeSet) (ceiling : Nat) (page : Text) :
    ((∃ e, w.expand native ceiling page = .ok e) ↔
      ∀ tag, w.supply.Meets native ceiling page tag →
        ¬ w.disk.Overlong (w.catalogue.templateFile tag.name)) ∧
    ∀ f, w.expand native ceiling page = .error f →
      ∃ tag, w.supply.Meets native ceiling page tag ∧
        w.disk.Overlong (w.catalogue.templateFile tag.name) ∧
        f = .disk (.obstacle .nameTooLong (w.catalogue.templateFile tag.name)) := by
  have hfails : ∀ f, w.expand native ceiling page = .error f ↔
      ∃ tag, w.supply.Meets native ceiling page tag ∧
        w.disk.Overlong (w.catalogue.templateFile tag.name) ∧
        f = .disk (.obstacle .nameTooLong (w.catalogue.templateFile tag.name)) := by
    intro f
    rw [w.expand_eq hw, Supply.expand_eq_error_iff_of_loads fun _ => Workspace.supply_loads hdecodes]
    simp only [Workspace.supply_contains_eq_error_iff]
  refine ⟨⟨?_, ?_⟩, fun f => (hfails f).mp⟩
  · rintro ⟨e, he⟩ tag hmeets hlong
    rw [(hfails _).mpr ⟨tag, hmeets, hlong, rfl⟩] at he
    cases he
  · intro hshort
    cases he : w.expand native ceiling page with
    | ok e => exact ⟨e, rfl⟩
    | error f =>
      obtain ⟨tag, hmeets, hlong, -⟩ := (hfails f).mp he
      exact absurd hlong (hshort tag hmeets)

set_option maxRecDepth 10000 in
theorem expand_returns_card :
    (Workspace.holding [("card".toList, "<p><slot/></p>".toList)]).expand .html 5 "<card>Hi</card>".toList =
      .ok ⟨"<p>Hi</p>".toList, 2, 1, [], false⟩ ∧
    ¬ (Workspace.holding [("card".toList, "<p><slot/></p>".toList)]).disk.Overlong
      ⟨.working, ["site".toList, "card".toList, "card.html".toList]⟩ := by
  have hcard : (Workspace.holding [("card".toList, "<p><slot/></p>".toList)]).expand .html 5
      "<card>Hi</card>".toList = .ok ⟨"<p>Hi</p>".toList, 2, 1, [], false⟩ := by cbv
  have hreturns := (expand_returns_iff (Workspace.reliable_holding _)
    (fun _ _ => Workspace.holding_decodes) .html 5 "<card>Hi</card>".toList).1.mp ⟨_, hcard⟩
  refine ⟨hcard, hreturns ⟨0, 6, "card".toList, []⟩ ?_⟩
  exact ⟨0, _, by decide, .refl _, ⟨[], [], [], by cbv, .nil⟩, rfl⟩

set_option maxRecDepth 10000 in
/-- A name of 256 letters is too long for the system, and nothing takes its lookup for a missing template. -/
theorem not_expand_returns :
    ¬ ∀ w : Workspace, w.Reliable →
      (∀ name content, w.disk.readBytes (w.catalogue.templateFile name) = .ok content →
        ∃ text, Utf8.decode content = .ok text) →
      ∀ (native : NativeSet) (ceiling : Nat) (page : Text), 1 ≤ ceiling →
        ∃ e, w.expand native ceiling page = .ok e := by
  intro h
  obtain ⟨e, he⟩ := h (.holding [("card".toList, "<p><slot/></p>".toList)]) (Workspace.reliable_holding _)
    (fun _ _ => Workspace.holding_decodes) .html 100
    (Tag.opening (List.replicate 256 'a') [] ++ "Hi".toList ++ Tag.closing (List.replicate 256 'a'))
    (by decide)
  have hfails : ((Workspace.holding [("card".toList, "<p><slot/></p>".toList)]).expand .html 100
      (Tag.opening (List.replicate 256 'a') [] ++ "Hi".toList ++
        Tag.closing (List.replicate 256 'a'))).toBool = false := by cbv
  rw [he] at hfails
  cases hfails

end Inlay

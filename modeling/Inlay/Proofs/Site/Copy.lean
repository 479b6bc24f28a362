import Inlay.Proofs.Site.Reached

/-!
# Pages without components

A page without component tags is expanded to itself, so what a build writes for it is what it has read. Reading
unifies the line ends and writing does not bring them back: a page is copied byte for byte if and only if it has no
carriage return.

* `Disk.Writable` — a path that can be written, with the directories above it.

Main statements: `Supply.expand_eq_self` (a page without component tags expands to itself),
`Site.Truthful.readBytes_destination` (it is written as it is read), `build_copies`.
-/

namespace Inlay

open Markup

/-- A page none of whose tags is that of a component expands to itself, in one pass. -/
theorem Supply.expand_eq_self {s : Supply} {native : NativeSet} {ceiling : Nat} (hc : 1 ≤ ceiling) {page : Text}
    (h : ∀ tag ∈ Tag.scan page, s.isComponent native tag.name = .ok false) :
    s.expand native ceiling page = .ok ⟨page, 1, 0, [], false⟩ := by
  obtain ⟨left, rfl⟩ : ∃ n, ceiling = n + 1 := ⟨ceiling - 1, by omega⟩
  unfold expand run
  dsimp only
  rw [pass_of_plain h]

/-- Any bytes can be written to the path, once the directories above it are made. -/
def Disk.Writable (d : Disk) (p : Path) : Prop :=
  ∀ content, ∃ d₁ d₂, (DiskAction.makeDirectories p.parent).run.run d = (.ok (), d₁) ∧
    (DiskAction.writeBytes p content).run.run d₁ = (.ok (), d₂)

namespace Site

open Disk DiskAction

variable {o : SiteOptions} {d d' : Disk} {page : SitePage} {w w' : Workspace}

/-! ## One page -/

/-- Work on a page that can be read, expanded and written ends well. -/
theorem Ends.ok {s : Supply} {r : Except Failure Expansion} {text : Text} {e : Expansion}
    (h : Ends o page d s r d') (hread : d.readText page.source = .ok text)
    (hexpand : s.expand o.native o.ceiling.toNat text = .ok e) (hwritable : d.Writable page.destination) :
    r = .ok e := by
  obtain ⟨d₁, d₂, hmade, hwritten⟩ := hwritable (Utf8.encode e.content)
  cases h with
  | unread hr => cases hread.symm.trans hr
  | unexpanded hr he =>
    obtain rfl := Except.ok.inj (hread.symm.trans hr)
    cases hexpand.symm.trans he
  | unplaced _ _ hmake => cases hmade.symm.trans hmake
  | unwritten hr he hmake hwrite =>
    obtain rfl := Except.ok.inj (hread.symm.trans hr)
    obtain rfl := Except.ok.inj (hexpand.symm.trans he)
    obtain rfl := (Prod.ext_iff.mp (hmade.symm.trans hmake)).2
    cases hwritten.symm.trans hwrite
  | written hr he _ _ =>
    obtain rfl := Except.ok.inj (hread.symm.trans hr)
    rw [Except.ok.inj (hexpand.symm.trans he)]

/-- No tag of a text is taken for a component's, if none has a template and all can be looked up. -/
theorem Truthful.isComponent (h : Truthful o w) {text : Text} (hplain : IsExpanded o w.disk text)
    (hshort : ∀ tag ∈ Tag.scan text, o.native.isNative tag.name = false →
      ¬ w.disk.Overlong (o.catalogue.templateFile tag.name)) {tag : Tag} (htag : tag ∈ Tag.scan text) :
    w.lookups.isComponent o.native tag.name = .ok false := by
  unfold Supply.isComponent
  cases hnative : o.native.isNative tag.name with
  | true => rfl
  | false =>
    rw [if_neg Bool.false_ne_true]
    cases hc : w.lookups.contains tag.name with
    | ok answer =>
      cases answer with
      | false => rfl
      | true => exact absurd (h.known hc) (hplain tag htag hnative)
    | error f =>
      obtain ⟨hlong, -⟩ := Workspace.supply_contains_eq_error_iff.mp (Workspace.supply_contains_of_error hc)
      rw [h.templateFile] at hlong
      exact absurd hlong (hshort tag htag hnative)

/-- **A page without component tags is written as it is read**, if its templates can be looked up and its
destination can be written. -/
theorem Truthful.readBytes_destination (h : Truthful o w) {outcome : PageOutcome} {text : Text}
    (hread : w.disk.readText page.source = .ok text) (hplain : IsExpanded o w.disk text)
    (hshort : ∀ tag ∈ Tag.scan text, o.native.isNative tag.name = false →
      ¬ w.disk.Overlong (o.catalogue.templateFile tag.name))
    (hwritable : w.disk.Writable page.destination) (hrun : (buildPage o page).run.run w = (.ok outcome, w')) :
    w'.disk.readBytes page.destination = .ok (Utf8.encode text) := by
  have hc : 1 ≤ o.ceiling := by
    by_contra hlow
    obtain ⟨log, hfails⟩ := run_buildPage_of_low hlow page w
    rw [hread] at hfails
    cases hrun.symm.trans hfails
  have hexpand : w.lookups.expand o.native o.ceiling.toNat text = .ok ⟨text, 1, 0, [], false⟩ :=
    Supply.expand_eq_self (by omega) fun _ => h.isComponent hplain hshort
  obtain ⟨r, w₁, hpage, hends, -⟩ := run_buildPage hc page w
  obtain rfl := (Prod.ext_iff.mp (hrun.symm.trans hpage)).2
  obtain rfl := hends.ok hread hexpand hwritable
  exact hends.readBytes_destination

end Site

/-- **A page without components is copied, but for its line ends**: byte for byte if and only if its text has no
carriage return. The page is as the build finds it, unless a page before it is written there; its tags are looked up
and its destination is written when the build takes it up; and no later page goes to the same place. -/
theorem build_copies {o : SiteOptions} {w w' : Workspace} {report : BuildReport} {before after : List SitePage}
    {page : SitePage} {content : Bytes} {text : Text} (hw : w.catalogue = o.catalogue)
    (hrun : (Site.build o).run.run w = (.ok report, w'))
    (hpage : Site.found o w.disk = before ++ page :: after)
    (hread : (Site.prepared o w.disk).readBytes page.source = .ok content)
    (hdecode : Utf8.decode content = .ok text)
    (hbefore : ∀ other ∈ before, w.disk.locate other.destination ≠ w.disk.locate page.source)
    (hplain : Site.IsExpanded o (Site.reached o w before).disk (Text.unifyLineEnds text))
    (hshort : ∀ tag ∈ Tag.scan (Text.unifyLineEnds text), o.native.isNative tag.name = false →
      ¬ (Site.reached o w before).disk.Overlong (o.catalogue.templateFile tag.name))
    (hwritable : (Site.reached o w before).disk.Writable page.destination)
    (hafter : ∀ other ∈ after, w.disk.locate other.destination ≠ w.disk.locate page.destination) :
    w'.disk.readBytes page.destination = .ok (Utf8.encode (Text.unifyLineEnds text)) ∧
      (w'.disk.readBytes page.destination = .ok content ↔ '\r' ∉ text) := by
  obtain ⟨outcome, v, hreaches⟩ := Site.reaches_of_run_build hw hrun hpage
  have hcopied : w'.disk.readBytes page.destination = .ok (Utf8.encode (Text.unifyLineEnds text)) := by
    refine hreaches.later hafter ?_
    exact hreaches.truthful.readBytes_destination
      (Disk.readText_eq_ok_iff.mpr ⟨content, text, hreaches.earlier hbefore hread, hdecode, rfl⟩) hplain hshort
      hwritable hreaches.taken
  refine ⟨hcopied, ?_⟩
  rw [hcopied, Except.ok.injEq, ← Utf8.encode_of_decode hdecode]
  constructor
  · intro hsame hreturn
    have htext := congrArg Utf8.decode hsame
    rw [Utf8.decode_encode, Utf8.decode_encode, Except.ok.injEq] at htext
    rw [← htext] at hreturn
    exact Text.not_mem_unifyLineEnds text hreturn
  · intro hreturn
    rw [Text.unifyLineEnds_eq_self hreturn]

/-- A disk with a page with a component tag, a page with a tag that is no component's, and the component. -/
def Disk.withPlainPage : Disk :=
  .holding [("src/pages/a.html".toList, "<card>Hi</card>".toList),
    ("src/pages/b.html".toList, "<note>Hi</note>\n".toList),
    ("src/components/card/card.html".toList, "<p><slot/></p>".toList)]

/-- The disk behind the first page of its build. -/
def Disk.withCard : Disk :=
  (Disk.withPlainPage.put ["public".toList] .directory).put ["public".toList, "a.html".toList]
    (.file (Utf8.encode "<p>Hi</p>".toList))

set_option maxRecDepth 20000 in
/-- The page behind a page with a card is copied. -/
theorem build_copies_plain :
    let o := SiteOptions.usual
    let w := o.workspace .withPlainPage
    let text := "<note>Hi</note>\n".toList
    let first : SitePage := ⟨.ofText "src/pages/a.html".toList, .ofText "public/a.html".toList, []⟩
    Site.IsExpanded o (Site.reached o w [first]).disk text ∧
      (Site.reached o w [first]).disk.Writable (.ofText "public/b.html".toList) ∧
      ∃ report w', (Site.build o).run.run w = (.ok report, w') ∧
        w'.disk.readBytes (.ofText "public/b.html".toList) = .ok (Utf8.encode text) := by
  intro o w text first
  let second : SitePage := ⟨.ofText "src/pages/b.html".toList, .ofText "public/b.html".toList, []⟩
  have hfound : Site.found o w.disk = [first] ++ second :: [] := by
    unfold o w first second
    cbv
  have hreached : (Site.reached o w [first]).disk = .withCard := by
    unfold o w first
    cbv
  have hscan : Tag.scan text = [⟨0, 6, "note".toList, []⟩] := by
    unfold text
    cbv
  have hdenied : Disk.withCard.isFile (o.catalogue.templateFile "note".toList) = .ok false := by
    unfold o
    cbv
  have hplain : Site.IsExpanded o (Site.reached o w [first]).disk text := by
    intro tag htag _ htemplate
    rw [hscan, List.mem_singleton] at htag
    rw [htag, hreached] at htemplate
    cases hdenied.symm.trans htemplate
  have hshort : ∀ tag ∈ Tag.scan text, o.native.isNative tag.name = false →
      ¬ (Site.reached o w [first]).disk.Overlong (o.catalogue.templateFile tag.name) := by
    intro tag htag _
    rw [hscan, List.mem_singleton] at htag
    rw [htag, hreached]
    exact Disk.exists_isFile_iff.mp ⟨false, hdenied⟩
  have hwritable : (Site.reached o w [first]).disk.Writable second.destination := by
    rw [hreached]
    intro content
    refine ⟨.withCard, Disk.withCard.put ["public".toList, "b.html".toList] (.file content), ?_, ?_⟩
    · unfold second
      cbv
    · unfold second
      cbv
  have hreport : ((Site.build o).run.run w).1 = .ok ⟨true, 2, 1, [], [], [], "public".toList⟩ := by
    unfold o w
    cbv
  cases hr : (Site.build o).run.run w with
  | mk r w' =>
    rw [hr] at hreport
    obtain rfl := hreport
    have hread : (Site.prepared o w.disk).readBytes second.source = .ok (Utf8.encode text) := by
      unfold o w second text
      cbv
    obtain ⟨-, hcopied⟩ := @build_copies o w w' _ [first] [] second (Utf8.encode text) text rfl hr hfound hread
      (Utf8.decode_encode text) (by decide) hplain hshort hwritable fun _ hmem => absurd hmem List.not_mem_nil
    exact ⟨hplain, hwritable, _, w', rfl, hcopied.mpr (by decide)⟩

/-- A disk with a page whose line ends in two characters. -/
def Disk.withReturn : Disk := .holding [("src/pages/index.html".toList, "Hi\r\nthere".toList)]

set_option maxRecDepth 20000 in
/-- A page without any tag loses its carriage return. -/
theorem not_build_copies :
    ¬ ∀ (o : SiteOptions) (w w' : Workspace) (report : BuildReport) (page : SitePage) (content : Bytes) (text : Text),
      w.catalogue = o.catalogue → (Site.build o).run.run w = (.ok report, w') → Site.found o w.disk = [page] →
      (Site.prepared o w.disk).readBytes page.source = .ok content → Utf8.decode content = .ok text →
      Tag.scan text = [] → (Site.reached o w []).disk.Writable page.destination →
      w'.disk.readBytes page.destination = .ok content := by
  intro h
  have hfound : Site.found .usual .withReturn =
      [⟨.ofText "src/pages/index.html".toList, .ofText "public/index.html".toList, []⟩] := by cbv
  have hreached : (Site.reached .usual (SiteOptions.usual.workspace .withReturn) []).disk =
      Disk.withReturn.put ["public".toList] .directory := by cbv
  have hwritable : (Site.reached .usual (SiteOptions.usual.workspace .withReturn) []).disk.Writable
      (.ofText "public/index.html".toList) := by
    rw [hreached]
    exact fun content => ⟨Disk.withReturn.put ["public".toList] .directory,
      (Disk.withReturn.put ["public".toList] .directory).put ["public".toList, "index.html".toList] (.file content),
      by cbv, by cbv⟩
  have hbuilt : Prod.map id Workspace.disk
      ((Site.build .usual).run.run (SiteOptions.usual.workspace .withReturn)) =
      (.ok ⟨true, 1, 0, [], [], [], "public".toList⟩,
        (Disk.withReturn.put ["public".toList] .directory).put ["public".toList, "index.html".toList]
          (.file (Utf8.encode "Hi\nthere".toList))) := by cbv
  cases hr : (Site.build .usual).run.run (SiteOptions.usual.workspace .withReturn) with
  | mk r w' =>
    rw [hr] at hbuilt
    obtain ⟨rfl, hdisk⟩ : r = _ ∧ w'.disk = _ := Prod.mk.inj hbuilt
    have hcopied := h .usual _ w' _ _ (Utf8.encode "Hi\r\nthere".toList) "Hi\r\nthere".toList rfl hr hfound (by cbv)
      (Utf8.decode_encode _) (by cbv) hwritable
    rw [hdisk] at hcopied
    have hread : ((Disk.withReturn.put ["public".toList] .directory).put ["public".toList, "index.html".toList]
        (.file (Utf8.encode "Hi\nthere".toList))).readBytes (.ofText "public/index.html".toList) =
        .ok (Utf8.encode "Hi\nthere".toList) := by cbv
    exact absurd (Except.ok.inj (hread.symm.trans hcopied)) (by decide)

end Inlay

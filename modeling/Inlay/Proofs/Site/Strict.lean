import Inlay.Proofs.Site.Isolation

/-!
# Strict builds

A strict build succeeds only if no page is given up and no account of a page tells of tags that are left or of
passes that were cut off. Then each page has been written, and what is written holds no component tag. The
templates are looked up while the pages are taken, so a template counts from the moment that its file can be
reached; where the build does not open a way to one, that is from the beginning.

* `Expansion.IsComplete` — an account that tells of nothing left.
* `Site.HasTemplate` — there is a template file for a name on the disk.
* `Site.IsExpanded` — a text without component tags.
* `Site.Bears` — a file with such a text.
* `Site.Aware` — a workspace that misses none of the templates of a disk.
* `Site.Finishes` — pages that are all written so.
* `Site.Spares` — the build writes nothing among the components and opens no way to them.

Main statements: `Supply.isComponent_of_expand` (a complete account leaves no component tag),
`Site.Aware.next` and `Site.Finishes.single` (one page), `Site.run_pages_finishes` (all pages),
`Site.Spares.hasTemplate` (no template comes later), `build_leaves_no_component`.
-/

namespace Inlay

open Markup

/-- The account tells of no tag that is left and of no pass that was cut off. -/
structure Expansion.IsComplete (e : Expansion) : Prop where
  skipped : e.skipped = []
  settled : e.ceilingReached = false

/-- **A complete account leaves no component tag**: the last pass has come to each tag of the text. -/
theorem Supply.isComponent_of_expand {s : Supply} {native : NativeSet} {ceiling : Nat} (hc : 1 ≤ ceiling)
    {page : Text} {e : Expansion} (h : s.expand native ceiling page = .ok e) (he : e.IsComplete) {tag : Tag}
    (htag : tag ∈ Tag.scan e.content) : s.isComponent native tag.name = .ok false := by
  obtain ⟨hskipped, hsettled⟩ := he
  cases (expand_eq_ok_iff hc).mp h with
  | stopped => cases hsettled
  | @settled k last skipped _ _ hlast =>
    have hover := searchAmong_eq_none_iff.mp (search_of_pass_none hlast)
    obtain ⟨b, hb⟩ := hover.answered tag htag
    cases b with
    | false => exact hb
    | true =>
      have hmem : tag ∈ s.components native (Tag.scan last) :=
        List.mem_filter.mpr ⟨htag, by unfold offers; rw [hb]⟩
      rw [List.map_eq_nil_iff.mp (hover.names.symm.trans hskipped)] at hmem
      cases hmem

namespace Site

open Disk DiskAction

variable {o : SiteOptions} {d d' : Disk} {page : SitePage} {w w' : Workspace}

/-- There is a template file for the name on the disk. -/
def HasTemplate (o : SiteOptions) (d : Disk) (name : Text) : Prop :=
  d.isFile (o.catalogue.templateFile name) = .ok true

/-- No opening tag of the text is that of a component on the disk. -/
def IsExpanded (o : SiteOptions) (d : Disk) (text : Text) : Prop :=
  ∀ tag ∈ Tag.scan text, o.native.isNative tag.name = false → ¬ HasTemplate o d tag.name

/-- The file of the later disk `d'` holds a text without tags of components on the disk `d`. -/
def Bears (o : SiteOptions) (d d' : Disk) (p : Path) : Prop :=
  ∃ text, d'.readBytes p = .ok (Utf8.encode text) ∧ IsExpanded o d text

/-- The workspace has a later disk than `d`, and never denies that a name has a template that it has on `d`. -/
structure Aware (o : SiteOptions) (d : Disk) (w : Workspace) : Prop where
  keeps : d.Keeps w.disk
  directory : w.catalogue.directory = o.components
  extension : w.catalogue.extension = o.extension
  known : ∀ {name answer}, HasTemplate o d name → w.lookups.contains name = .ok answer → answer = true

/-- A step misses no template: what is remembered has been answered before, and what is asked anew a later disk
answers. -/
theorem Aware.next (hw : Aware o d w) (hkeeps : w.disk.Keeps w'.disk) (hrecalls : w.Recalls w'.catalogue) :
    Aware o d w' := by
  have hdirectory := hrecalls.directory.trans hw.directory
  have hextension := hrecalls.extension.trans hw.extension
  refine ⟨hw.keeps.trans hkeeps, hdirectory, hextension, fun {name answer} htemplate hc => ?_⟩
  rcases Workspace.contains_cases hc with hr | hc
  · exact hw.known htemplate (hrecalls.existence hr)
  · have hfile : w'.catalogue.templateFile = o.catalogue.templateFile :=
      Catalogue.templateFile_congr hdirectory hextension
    rw [Workspace.supply_contains_eq_ok_iff, hfile, (hw.keeps.trans hkeeps).isFile htemplate] at hc
    exact (Except.ok.inj hc).symm

/-- A workspace that remembers nothing asks the disk. -/
theorem Aware.begin (hw : w.catalogue = o.catalogue) : Aware o w.disk w := by
  refine ⟨.refl _, by rw [hw]; rfl, by rw [hw]; rfl, fun {name answer} htemplate hc => ?_⟩
  rw [(Workspace.reliable_of_catalogue hw).lookups, Workspace.supply_contains_eq_ok_iff, hw] at hc
  exact Except.ok.inj (hc.symm.trans htemplate)

/-! ## One page -/

/-- From the disk `d₁` to the disk `d₂` all of the pages are written: their destinations, and whatever did
before, bear texts without component tags, and nothing else changes but by new directories. -/
structure Finishes (o : SiteOptions) (d : Disk) (pages : List SitePage) (d₁ d₂ : Disk) : Prop where
  keeps : d₁.Keeps d₂
  alters : d₁.Alters (fun _ => True) (fun k => ∃ page ∈ pages, k = d₁.locate page.destination) d₂
  bears : ∀ p, (∃ page ∈ pages, p = page.destination) ∨ Bears o d d₁ p → Bears o d d₂ p

section

variable {e : Expansion} (hends : Ends o page w.disk w.lookups (.ok e) d') (he : e.IsComplete)

include hends he

/-- What is written with a complete account holds no component tag. -/
theorem Aware.isExpanded (hw : Aware o d w) (hc : 1 ≤ o.ceiling) : IsExpanded o d e.content := by
  obtain ⟨text, -, hexpand⟩ := hends.accounted
  intro tag htag hnative htemplate
  have hanswer := Supply.isComponent_of_expand (by omega) hexpand he htag
  unfold Supply.isComponent at hanswer
  rw [hnative, if_neg Bool.false_ne_true] at hanswer
  cases hw.known htemplate hanswer

/-- A page with a complete account is written, and every other file that bears a text without component tags
bears one still. -/
theorem Finishes.single (hw : Aware o d w) (hc : 1 ≤ o.ceiling) : Finishes o d [page] w.disk d' := by
  have hlocate := hends.keeps.locate
  refine ⟨hends.keeps, hends.alters.mono (fun _ _ => trivial) ?_, fun p hp => ?_⟩
  · rintro k ⟨-, rfl⟩
    exact ⟨page, List.mem_cons_self, rfl⟩
  · by_cases hsame : w.disk.locate p = w.disk.locate page.destination
    · -- The way to the file may be another than that to the page.
      have ho : d'.Opens p := by
        rcases hp with ⟨other, hmem, rfl⟩ | ⟨_, hread, -⟩
        · rw [List.mem_singleton.mp hmem]
          exact (readBytes_eq_ok_iff.mp hends.readBytes_destination).1
        · exact hends.keeps.opens (readBytes_eq_ok_iff.mp hread).1
      refine ⟨e.content, readBytes_eq_ok_iff.mpr ⟨ho, ?_⟩, hw.isExpanded hends he hc⟩
      rw [hlocate, hsame]
      exact hends.node?_destination
    · obtain ⟨text, hread, htext⟩ := hp.resolve_left fun ⟨_, hmem, heq⟩ =>
        hsame (by rw [heq, List.mem_singleton.mp hmem])
      obtain ⟨ho, hn⟩ := readBytes_eq_ok_iff.mp hread
      refine ⟨text, readBytes_eq_ok_iff.mpr ⟨hends.keeps.opens ho, ?_⟩, htext⟩
      rw [hlocate]
      exact (hends.alters.file_iff fun htouched => hsame htouched.2).mpr hn

end

theorem Finishes.cons {rest : List SitePage} {d₁ d₂ d₃ : Disk} (h : Finishes o d [page] d₁ d₂)
    (hrest : Finishes o d rest d₂ d₃) : Finishes o d (page :: rest) d₁ d₃ := by
  refine ⟨h.keeps.trans hrest.keeps, (h.alters.mono (fun _ => id) ?_).trans
    (hrest.alters.mono (fun _ => id) ?_), fun p hp => hrest.bears p ?_⟩
  · rintro k ⟨other, hmem, rfl⟩
    exact ⟨page, List.mem_cons_self, by rw [List.mem_singleton.mp hmem]⟩
  · rintro k ⟨other, hmem, rfl⟩
    exact ⟨other, List.mem_cons_of_mem _ hmem, by rw [h.keeps.locate]⟩
  · rcases hp with ⟨other, hmem, rfl⟩ | hp
    · rcases List.mem_cons.mp hmem with rfl | hmem
      · exact .inr (h.bears _ (.inl ⟨other, List.mem_singleton_self _, rfl⟩))
      · exact .inl ⟨other, hmem, rfl⟩
    · exact .inr (h.bears p (.inr hp))

/-- A page is written only where a pass is allowed. -/
theorem ceiling_of_run_buildPage {e : Expansion} {source : Path}
    (h : (buildPage o page).run.run w = (.ok ⟨source, some e⟩, w')) : 1 ≤ o.ceiling := by
  by_contra hlow
  obtain ⟨log, hrun⟩ := run_buildPage_of_low hlow page w
  have hout : outcome page (.error _) = .ok _ := (Prod.ext_iff.mp (hrun.symm.trans h)).1
  cases eq_of_outcome hout

/-! ## All pages -/

/-- **Pages that are all written with a complete account bear texts without component tags.** -/
theorem run_pages_finishes {pages : List SitePage} {outcomes : List PageOutcome} (hw : Aware o d w)
    (hrun : (pages.mapM (buildPage o)).run.run w = (.ok outcomes, w'))
    (hall : ∀ outcome ∈ outcomes, ∃ e, outcome.expansion? = some e ∧ e.IsComplete) :
    outcomes.length = pages.length ∧ Finishes o d pages w.disk w'.disk := by
  induction pages generalizing w outcomes with
  | nil =>
    cases hrun
    exact ⟨rfl, .refl _, .refl _ _ _, fun p hp => hp.resolve_left fun ⟨_, hmem, _⟩ => nomatch hmem⟩
  | cons page rest ih =>
    rw [run_mapM_cons] at hrun
    split at hrun
    · rename_i first w₁ hfirst
      split at hrun
      · rename_i others w₂ hrest
        cases hrun
        obtain ⟨e, hsome, he⟩ := hall first List.mem_cons_self
        obtain ⟨source, expansion⟩ := first
        obtain rfl : expansion = some e := hsome
        have hc := ceiling_of_run_buildPage hfirst
        obtain ⟨r, w₁', hpage, hends, hrecalls⟩ := run_buildPage hc page w
        obtain ⟨hout, rfl⟩ := Prod.ext_iff.mp (hfirst.symm.trans hpage)
        obtain rfl : r = .ok e := by
          have heq := eq_of_outcome hout.symm
          cases r with
          | ok e' => cases heq; rfl
          | error f => cases heq
        obtain ⟨hlength, hfinishes⟩ := ih (hw.next hends.keeps hrecalls) hrest fun outcome hmem =>
          hall outcome (List.mem_cons_of_mem _ hmem)
        exact ⟨by simp only [List.length_cons, hlength], (Finishes.single hends he hw hc).cons hfinishes⟩
      · cases hrun
    · cases hrun

/-- When a strict build succeeds, each page was written with a complete account. -/
theorem isComplete_of_succeeded {outcomes : List PageOutcome} (hstrict : o.strict = true)
    (h : (report o outcomes).succeeded = true) :
    (∀ outcome ∈ outcomes, ∃ e, outcome.expansion? = some e ∧ e.IsComplete) ∧
      (report o outcomes).failedPages = [] ∧ (report o outcomes).pageCount = outcomes.length := by
  obtain ⟨hfailed, hleft⟩ := (succeeded_report o outcomes).mp h
  obtain ⟨hskipped, hceiling⟩ := hleft hstrict
  have hall : ∀ outcome ∈ outcomes, ∃ e, outcome.expansion? = some e ∧ e.IsComplete := by
    intro outcome hmem
    cases hexp : outcome.expansion? with
    | none =>
      have hmem' := List.mem_filter (p := (·.expansion?.isNone)).mpr ⟨hmem, by rw [hexp]; rfl⟩
      rw [List.map_eq_nil_iff.mp hfailed] at hmem'
      cases hmem'
    | some e =>
      have hwritten : (outcome.page.text, e) ∈ outcomes.filterMap fun outcome =>
          outcome.expansion?.map fun expansion => (outcome.page.text, expansion) :=
        List.mem_filterMap.mpr ⟨outcome, hmem, by rw [hexp]; rfl⟩
      refine ⟨e, rfl, ?_, ?_⟩
      · have hnone := List.filter_eq_nil_iff.mp (List.map_eq_nil_iff.mp hskipped) _ hwritten
        simpa using hnone
      · have hnone := List.filter_eq_nil_iff.mp (List.map_eq_nil_iff.mp hceiling) _ hwritten
        simpa using hnone
  refine ⟨hall, hfailed, ?_⟩
  have hlength := length_filterMap_add (fun outcome : PageOutcome =>
    outcome.expansion?.map fun expansion => (outcome.page.text, expansion)) outcomes
  simp only [Option.isNone_map] at hlength
  have hnone := congrArg List.length hfailed
  simp only [report, List.length_map, List.length_nil] at hnone
  simp only [report]
  omega

/-! ## Templates that come later -/

/-- The build writes nothing among the components, and opens no way to them: where their directory is written
with two dots, what stands before is there once the output directory is, and the file extension of templates
does not lead upward. -/
structure Spares (o : SiteOptions) (d : Disk) : Prop where
  components : ∀ page ∈ found o d, ¬ d.locate o.components <+: d.locate page.destination
  settled : (prepared o d).Settled o.components
  extension : Path.upward ∉ (Path.ofText o.extension).names

/-- **A template that can be reached in the end could be reached from the beginning**, if the build spares the
components. -/
theorem Spares.hasTemplate (h : Spares o d) (hd : (prepared o d).IsTree)
    (hf : Finishes o (prepared o d) (found o d) (prepared o d) d') {name : Text}
    (hname : isTagName name = true) (ht : HasTemplate o d' name) : HasTemplate o (prepared o d) name := by
  obtain ⟨tail, hne, hlevel, hjoin⟩ := o.catalogue.templateFile_eq_join hname h.extension
  have hlocate : (prepared o d).locate = d.locate :=
    (locate_congr (gains_prepared o d).working).trans (locate_cleaned o d)
  have hs : (prepared o d).Shelters d' o.components := by
    refine ⟨hf.keeps.working, h.settled, fun {l content} hl => hf.alters.file_iff ?_,
      fun _ hdir => hf.keeps.directory hdir, .inl fun _ _ hdir => hf.keeps.directory hdir⟩
    rintro ⟨page, hmem, rfl⟩
    rw [hlocate] at hl
    exact h.components page hmem hl
  unfold HasTemplate at ht ⊢
  rw [hjoin] at ht ⊢
  exact hs.isFile hd hlevel hne ht

end Site

/-- **A strict build that succeeds has written each page, and leaves no component tag in what it writes**: none
with a template that could be reached when the pages were taken up, and, if the build spares the components, none
with a template at all. -/
theorem build_leaves_no_component {o : SiteOptions} {w w' : Workspace} {report : BuildReport}
    (hd : w.disk.IsTree) (hw : w.catalogue = o.catalogue) (houtput : o.output.Written)
    (hstrict : o.strict = true) (hrun : (Site.build o).run.run w = (.ok report, w'))
    (hsucceeded : report.succeeded = true) :
    report.failedPages = [] ∧ report.pageCount = (Site.found o w.disk).length ∧
    ∀ page ∈ Site.found o w.disk, ∃ text, w'.disk.readBytes page.destination = .ok (Utf8.encode text) ∧
      Site.IsExpanded o (Site.prepared o w.disk) text ∧
      (Site.Spares o w.disk → Site.IsExpanded o w'.disk text) := by
  obtain ⟨-, w₀, hdisk, hcatalogue, hall⟩ := Site.exists_of_run_build hrun
  obtain ⟨outcomes, w₁, w₂, hdisk₁, hrecalls, htaken, hdisk', rfl⟩ := Site.exists_of_run_buildAll hall
  obtain ⟨hcomplete, hfailed, hcount⟩ := Site.isComplete_of_succeeded hstrict hsucceeded
  have haware : Site.Aware o (Site.prepared o w.disk) w₁ := by
    rw [← hdisk]
    exact (Site.Aware.begin (hcatalogue.trans hw)).next (hdisk₁ ▸ .refl _) hrecalls
  rw [hdisk] at htaken hdisk₁
  obtain ⟨hlength, hfinishes⟩ := Site.run_pages_finishes haware htaken hcomplete
  rw [hdisk₁, ← hdisk'] at hfinishes
  refine ⟨hfailed, hcount.trans (congrArg _ hlength), fun page hp => ?_⟩
  obtain ⟨text, hread, htext⟩ := hfinishes.bears _ (.inl ⟨page, hp, rfl⟩)
  refine ⟨text, hread, htext, fun hspares tag htag hnative htemplate => htext tag htag hnative ?_⟩
  exact hspares.hasTemplate (DiskAction.isTree_makeDirectories (Site.isTree_cleaned hd) houtput rfl)
    hfinishes (Supply.isTagName_of_mem_scan htag) htemplate

/-- A strict site with its directories where they usually are. -/
def SiteOptions.strictly : SiteOptions := { SiteOptions.usual with strict := true }

set_option maxRecDepth 20000 in
theorem build_leaves_no_component_card :
    let d := Disk.holding [("src/pages/index.html".toList, "<card>Hi</card>".toList),
      ("src/components/card/card.html".toList, "<p><slot/></p>".toList)]
    Site.Spares .strictly d ∧ ∃ report w',
      (Site.build .strictly).run.run (SiteOptions.strictly.workspace d) = (.ok report, w') ∧
        report.succeeded = true ∧ ∃ text,
          w'.disk.readBytes (.ofText "public/index.html".toList) = .ok (Utf8.encode text) ∧
            Site.IsExpanded .strictly w'.disk text := by
  intro d
  have hfound : Site.found .strictly d =
      [⟨.ofText "src/pages/index.html".toList, .ofText "public/index.html".toList, []⟩] := by cbv
  have hspares : Site.Spares .strictly d :=
    ⟨by rw [hfound]; decide, Disk.settled_of_not_mem (by decide), by decide⟩
  have hreport : ((Site.build .strictly).run.run (SiteOptions.strictly.workspace d)).1 =
      .ok ⟨true, 1, 1, [], [], [], "public".toList⟩ := by cbv
  cases hr : (Site.build .strictly).run.run (SiteOptions.strictly.workspace d) with
  | mk r w' =>
    rw [hr] at hreport
    obtain rfl := hreport
    obtain ⟨-, -, hall⟩ := build_leaves_no_component (by decide) rfl (by decide) rfl hr rfl
    have hpage := hfound ▸ List.mem_singleton_self _
    obtain ⟨text, hread, -, hexpanded⟩ := hall _ hpage
    exact ⟨hspares, _, w', rfl, rfl, text, hread, hexpanded hspares⟩

/-- A strict site whose components are looked for through a directory that only a page makes. -/
def SiteOptions.strictlyRoundabout : SiteOptions := { SiteOptions.roundabout with strict := true }

/-- A disk with a page with a component tag, a page in a directory behind it, and the component. -/
def Disk.withLateBlog : Disk :=
  .holding [("src/pages/a.html".toList, "<card>Hi</card>".toList), ("src/pages/blog/z.html".toList, "Z".toList),
    ("src/components/card/card.html".toList, "<p><slot/></p>".toList)]

/-- The disk behind a build that has no components when it takes the first page. -/
def Disk.withBuiltBlog : Disk :=
  (((Disk.withLateBlog.put ["public".toList] .directory).put ["public".toList, "a.html".toList]
    (.file (Utf8.encode "<card>Hi</card>".toList))).put ["public".toList, "blog".toList] .directory).put
      ["public".toList, "blog".toList, "z.html".toList] (.file (Utf8.encode "Z".toList))

set_option maxRecDepth 20000 in
/-- Nothing is written among the components, but the page `blog/z.html` opens the way to them when `a.html` has
been written with its tag. -/
theorem not_build_leaves_no_component :
    ¬ ∀ (o : SiteOptions) (w w' : Workspace) (report : BuildReport), w.disk.IsTree →
      w.catalogue = o.catalogue → o.output.Written → o.strict = true →
      (∀ page ∈ Site.found o w.disk, ¬ w.disk.locate o.components <+: w.disk.locate page.destination) →
      (Site.build o).run.run w = (.ok report, w') → report.succeeded = true →
      ∀ page ∈ Site.found o w.disk, ∃ text,
        w'.disk.readBytes page.destination = .ok (Utf8.encode text) ∧ Site.IsExpanded o w'.disk text := by
  intro h
  have hfound : Site.found .strictlyRoundabout .withLateBlog =
      [⟨.ofText "src/pages/a.html".toList, .ofText "public/a.html".toList, []⟩,
        ⟨.ofText "src/pages/blog/z.html".toList, .ofText "public/blog/z.html".toList, []⟩] := by cbv
  have hapart : ∀ page ∈ Site.found .strictlyRoundabout .withLateBlog,
      ¬ Disk.withLateBlog.locate SiteOptions.strictlyRoundabout.components <+:
        Disk.withLateBlog.locate page.destination := by
    rw [hfound]
    decide
  have hbuilt : Prod.map id Workspace.disk ((Site.build .strictlyRoundabout).run.run
      (SiteOptions.strictlyRoundabout.workspace .withLateBlog)) =
      (.ok ⟨true, 2, 0, [], [], [], "public".toList⟩, .withBuiltBlog) := by cbv
  have hleft : Disk.withBuiltBlog.readBytes (.ofText "public/a.html".toList) =
      .ok (Utf8.encode "<card>Hi</card>".toList) := by cbv
  have htag : (⟨0, 6, "card".toList, []⟩ : Tag) ∈ Tag.scan "<card>Hi</card>".toList := by
    rw [show Tag.scan "<card>Hi</card>".toList = [⟨0, 6, "card".toList, []⟩] by cbv]
    exact List.mem_singleton_self _
  have hnative : SiteOptions.strictlyRoundabout.native.isNative "card".toList = false := by cbv
  have htemplate : Site.HasTemplate .strictlyRoundabout .withBuiltBlog "card".toList := by
    unfold Site.HasTemplate
    cbv
  cases hr : (Site.build .strictlyRoundabout).run.run
      (SiteOptions.strictlyRoundabout.workspace .withLateBlog) with
  | mk r w' =>
    rw [hr] at hbuilt
    obtain ⟨rfl, hdisk⟩ : r = _ ∧ w'.disk = _ := Prod.mk.inj hbuilt
    have hpage := hfound ▸ List.mem_cons_self
    obtain ⟨text, hread, hexpanded⟩ :=
      h .strictlyRoundabout (SiteOptions.strictlyRoundabout.workspace .withLateBlog) w' _ (by decide) rfl
        (by decide) rfl hapart hr rfl _ hpage
    rw [hdisk] at hread hexpanded
    have htext : "<card>Hi</card>".toList = text := by
      have hdecode := congrArg Utf8.decode (Except.ok.inj (hleft.symm.trans hread))
      rw [Utf8.decode_encode, Utf8.decode_encode] at hdecode
      exact Except.ok.inj hdecode
    subst htext
    exact hexpanded _ htag hnative htemplate

end Inlay

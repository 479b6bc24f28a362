import Inlay.Proofs.Site.Reached

/-!
# When a build returns

The failures of one page stay with that page. What the build looks up besides, the names of the components
and the pages below their directory, ends the whole build when the system refuses one of the paths. A disk has no
permissions, so the system only refuses a path that is too long, or holds a name that is too long.

* `Site.LooksUp` — the paths that a build looks up outside the work on a page.
* `Site.IsWritten` — a page whose file holds what the page has expanded to.
* `Workspace.Plain` — what the catalogue knows of has a path without null characters.

Main statements: `Site.Ends.concernsFile` (a page only fails over the use of a file), `Site.run_pages_returns`
(no page ends a build), `Site.isWritten_or_failed` (each page is written or given up), `build_returns_iff`.
-/

namespace Inlay

/-- Reading a text fails over the use of the file, unless its path holds a null character. -/
theorem Disk.concernsFile_of_readText {d : Disk} {file : Path} {f : Failure}
    (hplain : file.names.any (·.contains '\x00') = false) (h : d.readText file = .error f) :
    f.concernsFile = true := by
  unfold readText readBytes at h
  cases hf : d.follow file with
  | error e =>
    rw [hf] at h
    cases h
    rcases follow_eq_error hf with ⟨-, hn⟩ | rfl | rfl | ⟨rfl, -⟩
    · rw [hplain] at hn
      cases hn
    all_goals rfl
  | ok place =>
    rw [hf] at h
    match place with
    | .vacant l => cases h; rfl
    | .present l .directory => cases h; rfl
    | .present l (.file content) =>
      dsimp only at h
      cases hdecode : Utf8.decode content with
      | ok text => rw [hdecode] at h; cases h
      | error fault => rw [hdecode] at h; cases h; rfl

/-- What the catalogue remembers to be there has a path without null characters. -/
def Workspace.Plain (w : Workspace) : Prop :=
  ∀ name, w.catalogue.recalled name = some true →
    (w.catalogue.templateFile name).names.any (·.contains '\x00') = false

namespace Workspace

variable {w : Workspace}

theorem plain_of_contains (hw : w.Plain) {name : Text} (h : w.lookups.contains name = .ok true) :
    (w.catalogue.templateFile name).names.any (·.contains '\x00') = false := by
  rcases contains_cases h with hr | hcontains
  · exact hw name hr
  · obtain ⟨ho, -⟩ := Disk.isFile_eq_true_iff.mp (supply_contains_eq_ok_iff.mp hcontains)
    exact ho.usable.plain

theorem Plain.of_recalls (hw : w.Plain) {w' : Workspace} (h : w.Recalls w'.catalogue) : w'.Plain := by
  intro name hr
  rw [h.templateFile]
  exact plain_of_contains hw (h.existence hr)

/-- Nothing is remembered when a build begins. -/
theorem plain_of_forgetful {o : SiteOptions} (hw : w.catalogue = o.catalogue) : w.Plain := by
  intro name hr
  rw [hw] at hr
  unfold Catalogue.recalled SiteOptions.catalogue at hr
  split at hr <;> cases hr

/-- Where nothing but plain paths is known of, looking up templates only fails over the use of a file. -/
theorem tame_lookups (hw : w.Plain) : w.lookups.Tame where
  contains {name f} h := by
    obtain ⟨-, rfl⟩ := supply_contains_eq_error_iff.mp (supply_contains_of_error h)
    rfl
  load {name f} hc h := by
    cases hr : w.catalogue.recalledText name with
    | some text => cases (load_of_recalledText hr).symm.trans h
    | none =>
      rw [load_of_not_recalledText hr, show w.knows name = .ok true from hc] at h
      exact Disk.concernsFile_of_readText (plain_of_contains hw hc) h

end Workspace

namespace Site

variable {o : SiteOptions} {page : SitePage}

/-- **A page only fails over the use of a file**, if its paths hold no null characters. -/
theorem Ends.concernsFile {d d' : Disk} {s : Supply} {f : Failure} (h : Ends o page d s (.error f) d')
    (hs : s.Tame) (hsource : page.source.names.any (·.contains '\x00') = false)
    (hdestination : page.destination.names.any (·.contains '\x00') = false) : f.concernsFile = true := by
  have hobstacle : ∀ cause : DiskError, cause ≠ .nullCharacter → (Failure.disk cause).concernsFile = true := by
    intro cause hne
    cases cause with
    | obstacle => rfl
    | nullCharacter => exact absurd rfl hne
  cases h with
  | unread hread => exact Disk.concernsFile_of_readText hsource hread
  | unexpanded _ he => exact hs.concernsFile he
  | unplaced _ _ hmake =>
    apply hobstacle
    rintro rfl
    obtain ⟨name, hname, hnull⟩ := List.any_eq_true.mp (DiskAction.plain_of_makeDirectories hmake)
    exact List.any_eq_false.mp hdestination name (List.dropLast_subset _ hname) hnull
  | unwritten _ _ _ hwrite =>
    apply hobstacle
    rintro rfl
    rcases DiskAction.writeBytes_cases hwrite with ⟨hr, -⟩ | ⟨e, he, -, hnull⟩
    · cases hr
    · cases he
      rw [hnull rfl] at hdestination
      cases hdestination

/-- **No page ends a build**: the pages are taken to the last. -/
theorem run_pages_returns (hc : 1 ≤ o.ceiling) {pages : List SitePage}
    (hsource : ∀ page ∈ pages, page.source.names.any (·.contains '\x00') = false)
    (hdestination : ∀ page ∈ pages, page.destination.names.any (·.contains '\x00') = false)
    (w : Workspace) (hw : w.Plain) :
    ∃ outcomes w', (pages.mapM (buildPage o)).run.run w = (.ok outcomes, w') := by
  induction pages generalizing w with
  | nil => exact ⟨[], w, rfl⟩
  | cons page rest ih =>
    obtain ⟨r, w₁, hrun, hends, hrecalls⟩ := run_buildPage hc page w
    obtain ⟨outcomes, w', hrest⟩ := ih (fun p hp => hsource p (List.mem_cons_of_mem _ hp))
      (fun p hp => hdestination p (List.mem_cons_of_mem _ hp)) w₁ (hw.of_recalls hrecalls)
    obtain ⟨first, hfirst⟩ : ∃ first, outcome page r = .ok first := by
      cases r with
      | ok e => exact ⟨_, rfl⟩
      | error f =>
        have hf := hends.concernsFile (Workspace.tame_lookups hw) (hsource page List.mem_cons_self)
          (hdestination page List.mem_cons_self)
        exact ⟨_, if_pos hf⟩
    refine ⟨first :: outcomes, w', ?_⟩
    rw [run_mapM_cons, hrun, hfirst]
    dsimp only
    rw [hrest]

/-- The page behind the pages `before` of a build is written: on the disk `d'`, its file holds what the page
expanded to when the build took it up. -/
def IsWritten (o : SiteOptions) (w : Workspace) (before : List SitePage) (page : SitePage) (d' : Disk) : Prop :=
  ∃ text e, (reached o w before).disk.readText page.source = .ok text ∧
    (reached o w before).expand o.native o.ceiling.toNat text = .ok e ∧
    d'.readBytes page.destination = .ok (Utf8.encode e.content)

/-- **Each page of a build that returns is written or given up**, if the glob pattern does not lead upward: then no
other page goes to the same place. -/
theorem isWritten_or_failed {w w' : Workspace} {report : BuildReport} {before after : List SitePage}
    (hd : (prepared o w.disk).IsTree) (hglob : IsDownward o) (hw : w.catalogue = o.catalogue) (hc : 1 ≤ o.ceiling)
    (hrun : (build o).run.run w = (.ok report, w')) (hpage : found o w.disk = before ++ page :: after) :
    page.source.text ∈ report.failedPages ∨ IsWritten o w before page w'.disk := by
  obtain ⟨result, v, hreaches⟩ := reaches_of_run_build hw hrun hpage
  obtain ⟨r, v', htaken, hends, -⟩ := run_buildPage hc page (reached o w before)
  obtain ⟨hresult, rfl⟩ := Prod.mk.inj (hreaches.taken.symm.trans htaken)
  cases r with
  | error f =>
    unfold outcome at hresult
    dsimp only at hresult
    split at hresult
    · cases hresult
      exact .inl (hreaches.told rfl)
    · cases hresult
  | ok e =>
    obtain ⟨text, hread, hexpand⟩ := hends.accounted
    refine .inr ⟨text, e, hread, (Workspace.expand_eq_lookups ..).trans hexpand, hreaches.later ?_
      hends.readBytes_destination⟩
    intro other hother heq
    have hmem : ∀ p ∈ page :: after, p ∈ found o w.disk := fun p hp => hpage ▸ List.mem_append_right _ hp
    have hsame : other = page := eq_of_locate_destination hd hglob (hmem _ (List.mem_cons_of_mem _ hother))
      (hmem _ List.mem_cons_self) heq
    have hnodup : (found o w.disk).Nodup := (nodup_discovered hd hglob).of_map
    rw [hpage] at hnodup
    exact (List.nodup_cons.mp (List.nodup_append.mp hnodup).2.1).1 (hsame ▸ hother)

/-! ## Looking up components and pages -/

/-- The paths that a build looks up outside the work on a page: the directory of components, what lies in
it, the template of each directory in it, and the directory of pages, the directories below it, and each
entry of them that is called like a page. -/
inductive LooksUp (o : SiteOptions) (d : Disk) : Path → Prop
  | components : LooksUp o d o.components
  | entry {name : Text} : d.isDirectory o.components = .ok true →
      name ∈ d.namesIn (d.locate o.components) → LooksUp o d (o.components.child name)
  | template {name : Text} : d.isDirectory o.components = .ok true →
      name ∈ d.namesIn (d.locate o.components) → d.isDirectory (o.components.child name) = .ok true →
      LooksUp o d (o.catalogue.templateFile name)
  | pages : LooksUp o d o.pages
  | folder {names : List Text} : d.isDirectory o.pages = .ok true →
      d.node? (d.locate o.pages ++ names) = some .directory →
      LooksUp o d (o.pages.join ⟨.working, names⟩)
  | page {names : List Text} {name : Text} {node : Node} : d.isDirectory o.pages = .ok true →
      d.node? (d.locate o.pages ++ names) = some .directory →
      d.node? (d.locate o.pages ++ (names ++ [name])) = some node → ".html".toList <:+ name →
      LooksUp o d (o.pages.join ⟨.working, names ++ [name]⟩)

/-- The names of the components are told unless a path among those that are looked up is too long. -/
theorem componentNames_returns_iff {w : Workspace} (hw : w.catalogue = o.catalogue) :
    (∃ names, w.componentNames = .ok names) ↔
      ¬ w.disk.Overlong o.components ∧ (w.disk.isDirectory o.components = .ok true →
        ∀ name ∈ w.disk.namesIn (w.disk.locate o.components), ¬ w.disk.Overlong (o.components.child name) ∧
          (w.disk.isDirectory (o.components.child name) = .ok true →
            ¬ w.disk.Overlong (o.catalogue.templateFile name))) := by
  have hcontains : ∀ name, (∃ b, w.lookups.contains name = .ok b) ↔
      ¬ w.disk.Overlong (o.catalogue.templateFile name) := by
    intro name
    rw [(Workspace.reliable_of_catalogue hw).lookups, ← Disk.exists_isFile_iff, ← hw]
    simp only [Workspace.supply_contains_eq_ok_iff]
  have hentry : ∀ name, (∃ b, w.holdsComponent o.components name = .ok b) ↔
      ¬ w.disk.Overlong (o.components.child name) ∧
        (w.disk.isDirectory (o.components.child name) = .ok true →
          ¬ w.disk.Overlong (o.catalogue.templateFile name)) := by
    intro name
    unfold Workspace.holdsComponent
    rw [← Disk.exists_isDirectory_iff, ← hcontains]
    match w.disk.isDirectory (o.components.child name) with
    | .error e => simp
    | .ok false => simp
    | .ok true => simp
  unfold Workspace.componentNames
  rw [hw, show o.catalogue.directory = o.components from rfl, ← Disk.exists_isDirectory_iff]
  simp only [← hentry]
  match w.disk.isDirectory o.components with
  | .error e => simp
  | .ok false => simp
  | .ok true =>
    simp only [filterM_eq_ok_iff]
    simp

/-- The pattern that selects the pages where nothing else is asked for. -/
theorem glob_default (h : o.pageGlob = some "**/*.html".toList) :
    o.glob = .ok ⟨[.anyDepth, .pattern (.many :: ".html".toList.map .literal)], false⟩ := by
  unfold SiteOptions.glob
  rw [h]
  cbv

/-- What a build tells before it takes the pages is told unless a path that is looked up is too long. -/
theorem collects_iff {w : Workspace} (hd : w.disk.IsTree) (hw : w.catalogue = o.catalogue)
    (hglob : o.pageGlob = some "**/*.html".toList) :
    Collects o w ↔ ∀ p, LooksUp o w.disk p → ¬ w.disk.Overlong p := by
  have hpages : (∃ g sources, o.glob = .ok g ∧ filesBelow w.disk o.pages g = .ok sources) ↔
      ∃ sources, filesBelow w.disk o.pages
        ⟨[.anyDepth, .pattern (.many :: ".html".toList.map .literal)], false⟩ = .ok sources := by
    rw [glob_default hglob]
    simp
  constructor
  · rintro ⟨hcomponents, hp⟩ p hlooks
    obtain ⟨hdirectory, hentries⟩ := (componentNames_returns_iff hw).mp hcomponents
    obtain ⟨hpagesDirectory, hfolders⟩ := (filesBelow_returns_iff hd _ _).mp (hpages.mp hp)
    cases hlooks with
    | components => exact hdirectory
    | entry hdir hname => exact (hentries hdir _ hname).1
    | template hdir hname hthere => exact (hentries hdir _ hname).2 hthere
    | pages => exact hpagesDirectory
    | folder hdir hn => exact (hfolders hdir _ hn).1
    | page hdir hn hnode hsuffix =>
      exact (hfolders hdir _ hn).2 _ _ hnode ((Wildcard.fits_suffix_iff _ _).mpr hsuffix)
  · intro h
    refine ⟨(componentNames_returns_iff hw).mpr ⟨h _ .components, fun hdir name hname => ⟨?_, ?_⟩⟩,
      hpages.mpr ((filesBelow_returns_iff hd _ _).mpr ⟨h _ .pages, fun hdir names hn => ⟨?_, ?_⟩⟩)⟩
    · exact h _ (.entry hdir hname)
    · exact fun hthere => h _ (.template hdir hname hthere)
    · exact h _ (.folder hdir hn)
    · exact fun name node hnode hfits =>
        h _ (.page hdir hn hnode ((Wildcard.fits_suffix_iff _ _).mp hfits))

end Site

/-- **A build returns if and only if no path that it looks up outside the work on a page is too long**, and when
it returns each page that was found is given up, or its file holds what the page expanded to when the build took it
up. -/
theorem build_returns_iff {o : SiteOptions} {w : Workspace} {d : Disk} (hd : w.disk.IsTree)
    (hw : w.catalogue = o.catalogue) (houtput : o.output.Written)
    (hglob : o.pageGlob = some "**/*.html".toList) (hclean : o.clean = false) (hc : 1 ≤ o.ceiling)
    (hmake : (DiskAction.makeDirectories o.output).run.run w.disk = (.ok (), d)) :
    ((∃ report w', (Site.build o).run.run w = (.ok report, w')) ↔
      ∀ p, Site.LooksUp o d p → ¬ d.Overlong p) ∧
    ∀ report w', (Site.build o).run.run w = (.ok report, w') →
      ∀ before page after, Site.discovered o d = before ++ page :: after →
        page.source.text ∈ report.failedPages ∨ Site.IsWritten o w before page w'.disk := by
  have htree : d.IsTree := DiskAction.isTree_makeDirectories hd houtput hmake
  have hdown : Site.IsDownward o := Site.isDownward_of_pageGlob fun t ht => by
    rw [hglob] at ht
    cases ht
    decide
  have hprepared : Site.prepared o w.disk = d := by
    unfold Site.prepared Site.cleaned
    rw [hclean, if_neg Bool.false_ne_true, hmake]
  refine ⟨?_, fun report w' hrun before page after hpage => Site.isWritten_or_failed (hprepared ▸ htree) hdown hw hc
    hrun (by unfold Site.found; rwa [hprepared])⟩
  obtain ⟨w₀, hw₀, hcatalogue, hrun⟩ := Site.run_build_of_made hclean hmake
  rw [hw] at hcatalogue
  subst hw₀
  have hcollects := Site.collects_iff htree hcatalogue hglob
  rw [hrun]
  rcases Site.run_buildAll w₀ htree hdown with ⟨hno, f, w', hfails⟩ | ⟨hyes, w₁, hdisk, hrecalls, hall⟩
  · rw [hfails]
    exact ⟨fun ⟨_, _, h⟩ => (nomatch h), fun h => absurd (hcollects.mpr h) hno⟩
  · have hplain : ∀ page ∈ Site.discovered o w₀.disk, page.source.names.any (·.contains '\x00') = false ∧
        page.destination.names.any (·.contains '\x00') = false := by
      intro page hp
      obtain ⟨names, hplaced⟩ := Site.mem_discovered htree hdown hp
      exact hplaced.plain (DiskAction.isDirectory_makeDirectories hmake)
    obtain ⟨outcomes, w₂, hpages⟩ := Site.run_pages_returns hc
      (fun page hp => (hplain page hp).1) (fun page hp => (hplain page hp).2) w₁
      ((Workspace.plain_of_forgetful hcatalogue).of_recalls hrecalls)
    rw [hall, hpages]
    exact ⟨fun _ => hcollects.mp hyes, fun _ => ⟨_, _, rfl⟩⟩

set_option maxRecDepth 20000 in
theorem build_returns_usual :
    let o := SiteOptions.usual
    let d := Disk.holding [("src/pages/index.html".toList, "<card>Hi</card>".toList),
      ("src/components/card/card.html".toList, "<p><slot/></p>".toList)]
    (∀ p, Site.LooksUp o (d.put ["public".toList] .directory) p →
      ¬ (d.put ["public".toList] .directory).Overlong p) ∧
    ∃ report w', (Site.build o).run.run (o.workspace d) = (.ok report, w') ∧
      ∀ before page after, Site.discovered o (d.put ["public".toList] .directory) = before ++ page :: after →
        page.source.text ∈ report.failedPages ∨ Site.IsWritten o (o.workspace d) before page w'.disk := by
  intro o d
  have hmake : (DiskAction.makeDirectories o.output).run.run d =
      (.ok (), d.put ["public".toList] .directory) := by cbv
  have hreturns := build_returns_iff (w := o.workspace d) (by decide) rfl (by decide) rfl rfl (by decide) hmake
  have hrun : ((Site.build o).run.run (o.workspace d)).1.toBool = true := by cbv
  cases hr : (Site.build o).run.run (o.workspace d) with
  | mk r w' =>
    cases r with
    | error f =>
      rw [hr] at hrun
      cases hrun
    | ok report => exact ⟨hreturns.1.mp ⟨report, w', hr⟩, report, w', rfl, hreturns.2 report w' hr⟩

set_option maxRecDepth 20000 in
/-- A directory of components whose name has 251 letters ends a build: the name of its template is too long. -/
theorem not_build_returns :
    ¬ ∀ (o : SiteOptions) (d d' : Disk), d.IsTree → o.output.Written →
      o.pageGlob = some "**/*.html".toList → o.clean = false → 1 ≤ o.ceiling →
      d.isDirectory o.pages = .ok true →
      d.isDirectory o.components = .ok true ∨ d.exists? o.components = .ok false →
      (DiskAction.makeDirectories o.output).run.run d = (.ok (), d') →
      ∃ report w', (Site.build o).run.run (o.workspace d) = (.ok report, w') := by
  intro h
  have hfails : ((Site.build .usual).run.run (SiteOptions.usual.workspace
      (.holding [("src/pages/index.html".toList, "hi".toList),
        ("src/components/".toList ++ List.replicate 251 'a' ++ "/notes".toList, [])]))).1.toBool = false := by
    cbv
  have hmake : (DiskAction.makeDirectories SiteOptions.usual.output).run.run
      (.holding [("src/pages/index.html".toList, "hi".toList),
        ("src/components/".toList ++ List.replicate 251 'a' ++ "/notes".toList, [])]) =
      (.ok (), (Disk.holding [("src/pages/index.html".toList, "hi".toList),
        ("src/components/".toList ++ List.replicate 251 'a' ++ "/notes".toList, [])]).put
          ["public".toList] .directory) := by cbv
  obtain ⟨report, w', hr⟩ := h .usual _ _ (by decide) (by decide) rfl rfl (by decide) (by decide)
    (.inl (by decide)) hmake
  rw [hr] at hfails
  cases hfails

end Inlay

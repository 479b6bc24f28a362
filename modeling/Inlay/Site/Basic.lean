import Inlay.Page.Expansion

/-!
# Sites

A site has a directory of pages, a directory of components, and a directory that the expanded pages are
written to, with the same layout.

* `SiteOptions` — what a build is asked to do.
* `SitePage` — a page with the file that it comes from and the file that it goes to.
* `BuildReport` — the account of a build.
* `SiteOptions.destination?` — where a page goes.

Main statement: `SiteOptions.destination?_join` (a page keeps its place below the directory).
-/

namespace Inlay

open Markup

/-- What a build is asked to do. -/
structure SiteOptions where
  pages : Path
  components : Path
  output : Path
  pageGlob : Option Text := some ['*', '*', '/', '*', '.', 'h', 't', 'm', 'l']
  extension : Text := ['.', 'h', 't', 'm', 'l']
  native : NativeSet := .html
  ceiling : Int := 100
  remembering : Bool := true
  clean : Bool := false
  strict : Bool := false
  deriving Repr

/-- A page: the file it comes from, the file it goes to, and its text. -/
structure SitePage where
  source : Path
  destination : Path
  content : Text := []
  deriving DecidableEq, Repr

/-- The account of a build. Pages are named by the files they come from. -/
structure BuildReport where
  succeeded : Bool
  pageCount : Int
  componentCount : Int
  failedPages : List Text
  skippedTags : List (Text × List Text)
  ceilingPages : List Text
  outputDirectory : Text
  deriving DecidableEq, Repr

namespace SiteOptions

/-- The catalogue that a build starts with: nothing is remembered yet. -/
def catalogue (o : SiteOptions) : Catalogue :=
  { directory := o.components, extension := o.extension, remembering := o.remembering }

/-- The glob pattern that selects the pages. -/
def glob (o : SiteOptions) : Except GlobError Glob :=
  match o.pageGlob with
  | some t => Glob.ofText t
  | none => .error .absent

/-- The file that the page from `source` goes to, if `source` lies in the directory of pages. -/
def destination? (o : SiteOptions) (source : Path) : Option Path :=
  (source.relativeTo? o.pages).map o.output.join

theorem destination?_join (o : SiteOptions) (names : List Text) :
    o.destination? (o.pages.join ⟨.working, names⟩) = some (o.output.join ⟨.working, names⟩) := by
  simp [destination?, Path.relativeTo?_join]

end SiteOptions

end Inlay

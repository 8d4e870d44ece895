import Stencil.Collection
import Stencil.FileTree
import Stencil.Pathname
import Stencil.Site.Config
import Stencil.Text.Lower

namespace Stencil

structure Site where
  collections : List Collection
  statics : List String

namespace Site

def pageSuffixes : List String := [".html", ".htm"]

def isPage (pathname : String) : Bool :=
  pageSuffixes.contains (Text.lower (Pathname.ofText pathname).suffix)

def isHidden (path : List String) : Bool :=
  path.any fun name => name.startsWith "."

def comesFirst : List String → List String → Bool
  | [], _ => true
  | _ :: _, [] => false
  | a :: as, b :: bs => decide (a < b) || (a == b && comesFirst as bs)

def listing (t : FileTree) : List String :=
  let paths := (t.files.map Prod.fst).filter fun path => !isHidden path
  (paths.mergeSort comesFirst).map ("/".intercalate ·)

def reader (t : FileTree) (base : List String) (pathname : String) : Except Failure String :=
  t.readText (base ++ (Pathname.ofText pathname).parts)

/-- Deals pages out: every collection, in order, takes those it wants of what is left. Gives what each
collection took and what nobody wanted. -/
def deal : List CollectionConfig → List String → List (CollectionConfig × List String) × List String
  | [], pages => ([], pages)
  | c :: rest, pages =>
    let (taken, left) := pages.partition c.takes
    let (groups, ignored) := deal rest left
    ((c, taken) :: groups, ignored)

variable (α : Type) [Grade α]

def document (read : String → Except Failure String) (region : Option RegionConfig)
    (pathname : String) : Except Failure Document := do
  let page ← Page.ofMarkup (← read pathname) (region.getD {})
  return { pathname, layout := page.layout, contents := page.contents }

def buildCollection (read : String → Except Failure String) (progress : Bool)
    (c : CollectionConfig) (pathnames : List String) : Merge Collection := do
  Merge.log .info s!"Collection {c.name}: {pathnames.length} html file(s)"
  let documents ← Merge.ofExcept (pathnames.mapM (document read c.region))
  modify fun s => { trace := s.trace }
  Collection.ofDocuments α c.name progress documents

def putCollection (c : Collection) : List Collection → List Collection
  | [] => [c]
  | d :: rest => if c.name == d.name then c :: rest else d :: putCollection c rest

def buildCollections (read : String → Except Failure String) (progress : Bool) (built : List Collection) :
    List (CollectionConfig × List String) → Merge (List Collection)
  | [] => return built
  | (c, pathnames) :: rest => do
    let collection ← buildCollection α read progress c pathnames
    buildCollections read progress (putCollection collection built) rest

def snapshots (s : Site) : Merge Unit := do
  Merge.emit (.chapter "site-export")
  for c in s.collections do
    let contents ← Merge.ofExcept c.toJson
    Merge.emit (.snapshot ("collection-" ++ c.name ++ ".json") contents)
  Merge.emit (.snapshot "static-files.json" (.array (s.statics.map .string)))

def build (config : SiteConfig) (read : String → Except Failure String) (progress : Bool)
    (listing : List String) : Merge Site := do
  let (groups, ignored) := deal config.collections (listing.filter isPage)
  let collections ← buildCollections α read progress [] groups
  for pathname in ignored do
    Merge.log .warning ("Ignoring " ++ pathname ++ ": no collection includes it")
  let site : Site := { collections, statics := listing.filter fun pathname => !isPage pathname }
  snapshots site
  return site

end Site

end Stencil

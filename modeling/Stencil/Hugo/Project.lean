import Stencil.Hugo.Template
import Stencil.Pathname
import Stencil.Yaml.Writer

namespace Stencil

structure TextFile where
  pathname : String
  contents : String

namespace Hugo

def staticFolder : String := "static"

def settings : TextFile := ⟨"hugo.yaml", "baseURL: ''\n"⟩

def rootCollection : String := "pages"

def layoutPath (collection : String) : String :=
  "layouts/" ++ collection ++ "/list.html"

def indexName (p : Pathname) : Pathname :=
  if p.stem == "index" then p.withName ("_index" ++ p.suffix) else p

def contentPath (collection pathname : String) : String :=
  let folder := if collection == rootCollection then "" else collection ++ "/"
  "content/" ++ folder ++ (indexName (Pathname.ofText pathname)).text

def frontMatter (fields : Fields) : String :=
  "---\n" ++ Yaml.document (.map fields) ++ "---"

def pageFields (collection : String) (fields : Fields) : Fields :=
  Assoc.set "type" (.text collection) fields

def render (nodes : List Node) : Except Failure String :=
  Markup.renderNodes template 0 false nodes

def layoutFile (collection : String) (layout : List Node) : Except Failure TextFile := do
  return ⟨layoutPath collection, ← render layout⟩

def contentFile (collection pathname : String) (fields : Fields) (contents : List Node) :
    Except Failure TextFile := do
  let body ← render contents
  return ⟨contentPath collection pathname,
    frontMatter (pageFields collection fields) ++ "\n" ++ body⟩

end Hugo

end Stencil

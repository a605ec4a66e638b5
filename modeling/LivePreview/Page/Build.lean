/-
Pages that show a component.

A page loads React and a compiler, then the libraries that its code needs, then its own
script, and last the code itself between the prelude and the statement that mounts the
component.
-/
import LivePreview.Diagnostics
import LivePreview.Page.Prelude
import LivePreview.Page.RunId
import LivePreview.Page.Runtime

namespace LivePreview

/-- What a page is made from. -/
structure PageContent where
  /-- the code, without imports and types -/
  code : Text
  component : Component
  /-- the imports that were taken out of the code -/
  imports : List Import
  /-- the names that the code declares -/
  declared : List Text
  /-- classes of the element around the component -/
  className : Option Text
  token : Nat
deriving Repr

namespace PageContent

open Page

/-- The libraries that the code needs. -/
def libraries (c : PageContent) : List Library := Library.needed c.code c.imports

/-- What is bound in front of the code. -/
def prelude (c : PageContent) (options : Options) : Prelude :=
  .ofImports c.imports c.declared c.libraries c.code options

/-- The name of the run. -/
def run [Platform] (c : PageContent) : Text := runIdOf c.token c.code

/-! ### Rows -/

/-- The element of a script. -/
def scriptRow (url : Text) : Text :=
  "<script".toList ++ attributeText "src" url ++ "></script>".toList

/-- The element of a script that may report in full what goes wrong in it. -/
def crossoriginRow (url : Text) : Text :=
  "<script crossorigin".toList ++ attributeText "src" url ++ "></script>".toList

/-- The rows of the head. -/
def headRows (c : PageContent) (options : Options) : List Text :=
  [charsetRow,
    "<meta name=\"viewport\" content=\"width=device-width, initial-scale=1.0\" />".toList,
    titleRow, crossoriginRow options.hosts.react, crossoriginRow options.hosts.reactDom,
    scriptRow options.hosts.babel] ++
  (if options.tailwind then [scriptRow options.hosts.tailwind] else []) ++
  (c.libraries.flatMap Library.scripts).map crossoriginRow ++ [styleRow]

/-- The classes of the element around the component. -/
def classAttribute (c : PageContent) : Text :=
  match c.className.map Text.trim with
  | some (d :: name) => attributeText "class" (d :: name)
  | _ => []

/-- The script with the code. -/
def script [Platform] (c : PageContent) (options : Options) : Text :=
  (c.prelude options).render ++ "\n\n".toList ++ escapeCode c.code ++ ['\n'] ++
    mountStatement c.component.name options.rootElementId

/-- The rows of the body. -/
def bodyRows [Platform] (c : PageContent) (options : Options) : List Text :=
  ["<div".toList ++ attributeText "id" options.rootElementId ++ c.classAttribute ++
      "></div>".toList,
    "<div id=\"preview-error\" class=\"preview-error\" role=\"alert\" hidden></div>".toList,
    "<script>".toList ++ runtime c.run options.rootElementId options.stubUnknownImports ++
      "</script>".toList,
    "<script type=\"text/babel\" data-presets=\"react\">".toList,
    c.script options ++ "</script>".toList]

/-! ### Pages -/

/-- The page. -/
def page [Platform] (c : PageContent) (options : Options) : Page :=
  { html := document (c.headRows options) (c.bodyRows options)
    runId := c.run
    componentName := c.component.name
    libraries := c.libraries.map Library.name
    isError := false }

/-- The records of what the page loads, binds and mounts. -/
def records [Platform] (c : PageContent) (options : Options) : Diagnostics :=
  let loaded := c.libraries.map Library.name
  let stubs := (c.prelude options).stubs
  (if loaded.isEmpty then []
    else [.info .page ("libraries: ".toList ++ Text.join ", ".toList loaded)]) ++
  (if stubs.isEmpty then []
    else [.warn .page
      ("unresolved imports bound to stubs: ".toList ++ Text.join ", ".toList stubs)]) ++
  [.info .page ("mounting ".toList ++ c.component.name ++ " (".toList ++
    c.component.source.name.toList ++ "), run ".toList ++ c.run)]

/-- The page with its records, if the component has a name that can be mounted. -/
def build [Platform] (c : PageContent) (options : Options) : Except Failure (Page × Diagnostics) :=
  if Script.isIdentifier c.component.name then .ok (c.page options, c.records options)
  else .error (.invalidComponent c.component.name)

end PageContent

end LivePreview

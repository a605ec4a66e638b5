/-
From a draft to a page.

`build` gives the page of a draft with all records, or says why there is none.
`Draft.page` always gives a page: that of the component, or a notice.
-/
import LivePreview.Page.Build
import LivePreview.Page.Notice
import LivePreview.Processing

namespace LivePreview

/-- A page, and the records of all passes that led to it. -/
structure Preview where
  page : Page
  diagnostics : Diagnostics
deriving DecidableEq, Repr

namespace Processed

/-- What the page is made from. -/
def content (p : Processed) (className : Option Text) (token : Nat) : PageContent :=
  { code := p.code
    component := p.component
    imports := p.imports
    declared := p.verification.symbols
    className := className
    token := token }

end Processed

namespace Draft

/-- The preview of a draft. -/
def build [Platform] (d : Draft) (options : Options) (token : Nat) : Except Failure Preview := do
  let processed ← Processed.ofDraft d options
  let (page, records) ← (processed.content d.className token).build options
  return ⟨page, processed.diagnostics ++ records⟩

/-- The page of a draft, if it can be built. -/
def tryPage [Platform] (d : Draft) (options : Options) (token : Nat) : Except Failure Page :=
  (d.build options token).map Preview.page

/-- The page of a draft, or else a notice. -/
def page [Platform] (d : Draft) (options : Options) (token : Nat) : Page :=
  match d.tryPage options token with
  | .ok page => page
  | .error failure => .ofFailure failure token d.code options

end Draft

end LivePreview

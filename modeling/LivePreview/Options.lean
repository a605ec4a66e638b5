/-
The settings of a preview.

A host gives them as a record in JSON.  A setting that it leaves out has its default, and
so has a name that it leaves blank; one that it does not know how to write makes the
whole record useless, and it is refused.
-/
import LivePreview.Component
import LivePreview.Failure
import LivePreview.Platform

namespace LivePreview

/-- Where the scripts are that every page loads. -/
structure ScriptHosts where
  react : Text := "https://unpkg.com/react@18/umd/react.development.js".toList
  reactDom : Text := "https://unpkg.com/react-dom@18/umd/react-dom.development.js".toList
  babel : Text := "https://unpkg.com/@babel/standalone/babel.min.js".toList
  tailwind : Text := "https://cdn.tailwindcss.com".toList
deriving DecidableEq, Repr

/-- The settings of a preview. -/
structure Options where
  /-- how long a page may stay silent before it counts as shown -/
  gracePeriodMs : Nat := 1500
  /-- the component to mount if none is found -/
  fallbackComponent : Text := Component.defaultName
  /-- true if pages load the style sheets of utility classes -/
  tailwind : Bool := true
  /-- the element that the component is mounted in -/
  rootElementId : Text := "root".toList
  /-- true if code that does not parse is not shown -/
  strictSyntaxCheck : Bool := false
  /-- true if a name that cannot be imported stands for a placeholder -/
  stubUnknownImports : Bool := true
  hosts : ScriptHosts := {}
deriving DecidableEq, Repr

/-! ### Reading -/

/-- The value of a field that is given, or else its default. -/
def fieldOr {α : Type} (read : Json → Option α) (default : α) : Option Json → Option α
  | some v => read v
  | none => some default

namespace ScriptHosts

/-- The settings of this record, in order. -/
def fieldNames : List Text := ["react", "reactDom", "babel", "tailwind"].map String.toList

/-- The record that a value writes. -/
def ofJson? [Platform] (v : Json) : Option ScriptHosts := do
  let defaults : ScriptHosts := {}
  match ← Platform.jsonRecord? fieldNames v with
  | [react, reactDom, babel, tailwind] =>
    return {
      react := ← fieldOr Json.asText? defaults.react react
      reactDom := ← fieldOr Json.asText? defaults.reactDom reactDom
      babel := ← fieldOr Json.asText? defaults.babel babel
      tailwind := ← fieldOr Json.asText? defaults.tailwind tailwind }
  | _ => none

end ScriptHosts

namespace Options

/-- The settings of this record, in order. -/
def fieldNames : List Text :=
  ["gracePeriodMs", "fallbackComponent", "tailwind", "rootElementId", "strictSyntaxCheck",
    "stubUnknownImports", "cdn"].map String.toList

/-- The record that a value writes. -/
def ofJson? [Platform] (v : Json) : Option Options := do
  let defaults : Options := {}
  match ← Platform.jsonRecord? fieldNames v with
  | [grace, fallback, tailwind, root, strict, stub, cdn] =>
    return {
      gracePeriodMs := ← fieldOr Json.asNat? defaults.gracePeriodMs grace
      fallbackComponent := ← fieldOr Json.asText? defaults.fallbackComponent fallback
      tailwind := ← fieldOr Json.asBool? defaults.tailwind tailwind
      rootElementId := ← fieldOr Json.asText? defaults.rootElementId root
      strictSyntaxCheck := ← fieldOr Json.asBool? defaults.strictSyntaxCheck strict
      stubUnknownImports := ← fieldOr Json.asBool? defaults.stubUnknownImports stub
      hosts := ← fieldOr ScriptHosts.ofJson? defaults.hosts cdn }
  | _ => none

/-- The given text, or the default in place of a blank one. -/
def unlessBlank (s default : Text) : Text := if Text.isBlankText s then default else s

/-- The settings with a default in place of each blank name. -/
def withNames (o : Options) : Options :=
  let defaults : Options := {}
  { o with
    fallbackComponent := unlessBlank o.fallbackComponent defaults.fallbackComponent
    rootElementId := unlessBlank o.rootElementId defaults.rootElementId }

/-- The settings that a text writes.  A blank text leaves all of them out. -/
def read [Platform] (s : Text) : Except Failure Options :=
  if Text.isBlankText s then .ok {}
  else match (Platform.readJson? s).bind ofJson? with
    | some o => .ok o.withNames
    | none => .error .invalidOptions

end Options

end LivePreview

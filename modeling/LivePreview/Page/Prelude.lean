/-
What a page binds in front of its code.

The code has lost its imports, so the page binds their local names.  First come the names
that almost all code takes from React, in one pattern; then one constant for each other
name: taken from React, from the global name of a library, or a placeholder.  A name is
bound once, and never if the code declares it.

So a prelude is a list of wishes, from which those are granted whose name is still free.
The names that the constants themselves rest on, `React` and `ReactDOM`, are not free.
-/
import LivePreview.Platform
import LivePreview.Options
import LivePreview.Page.Library

namespace LivePreview

open Script

/-- A constant of a prelude. -/
inductive Constant where
  /-- all of React -/
  | react (name : Text)
  /-- a part of a library; `*` is all of it, and `default` its main value -/
  | member (name global part : Text)
  /-- a placeholder for a component -/
  | stub (name : Text)
  /-- a placeholder for a module, each member of which is a placeholder -/
  | stubModule (name : Text)
deriving DecidableEq, Repr

namespace Constant

/-- The name that is bound. -/
def name : Constant → Text
  | react n | member n _ _ | stub n | stubModule n => n

/-- True of a placeholder. -/
def isStub : Constant → Bool
  | stub _ | stubModule _ => true
  | _ => false

/-- What the name is bound to. -/
def value [Platform] : Constant → Text
  | react _ => "React".toList
  | member _ global part =>
    "__previewImport(".toList ++ Platform.jsonString global ++ ", ".toList ++
      Platform.jsonString part ++ [')']
  | stub n => "__previewStub(".toList ++ Platform.jsonString n ++ [')']
  | stubModule n => "__previewStubModule(".toList ++ Platform.jsonString n ++ [')']

/-- The statement that binds the name. -/
def statement [Platform] (c : Constant) : Text :=
  "const ".toList ++ c.name ++ " = ".toList ++ c.value ++ [';']

end Constant

/-- What a page binds in front of its code. -/
structure Prelude where
  /-- members of React, each with its local name -/
  fields : List (Text × Text)
  constants : List Constant
deriving DecidableEq, Repr

namespace Prelude

/-! ### Names that are free -/

/-- The wishes whose names are free, each name granted once. -/
def granted {α : Type} (name : α → Text) : List Text → List α → List α
  | _, [] => []
  | bound, x :: xs =>
    if bound.contains (name x) then granted name bound xs
    else x :: granted name (name x :: bound) xs

/-! ### Wishes -/

/-- The members of React that are bound for all code. -/
def reactMembers : List Text :=
  ["useState", "useEffect", "useLayoutEffect", "useMemo", "useRef", "useCallback", "useContext",
    "useReducer", "useId", "useTransition", "useDeferredValue", "useImperativeHandle",
    "createContext", "forwardRef", "memo", "lazy", "Fragment", "Suspense", "Children",
    "cloneElement", "isValidElement"].map String.toList

/-- The sources that name React. -/
def reactSources : List Text := ["react", "react/jsx-runtime"].map String.toList

/-- The sources that name the renderer of React. -/
def rendererSources : List Text := ["react-dom", "react-dom/client"].map String.toList

/-- The global name of the renderer of React. -/
def rendererGlobal : Text := "ReactDOM".toList

/-- The names that the constants rest on. -/
def groundNames : List Text := ["React".toList, rendererGlobal]

/-- The members of React that are wished for, with their local names. -/
def reactWishes (imports : List Import) : List (Text × Text) :=
  reactMembers.map (fun n => (n, n)) ++
    (imports.filter fun i => reactSources.contains i.source).flatMap Import.named

/-- The global name behind a source, if it names a library. -/
def globalOf? (source : Text) : Option Text :=
  if rendererSources.contains source then some rendererGlobal
  else (Library.ofSource? source).map Library.global

/-- The members of a library that an import binds.  The global name itself stands for the
library already. -/
def memberWishes (i : Import) (global : Text) : List Constant :=
  let wishes := i.defaultName.toList.map (·, "default".toList) ++
    i.namespaceName.toList.map (·, ['*']) ++ i.named.map Prod.swap
  (wishes.filter fun (name, _) => name != global).map fun (name, part) =>
    .member name global part

/-- The placeholders for what an import binds. -/
def stubWishes (i : Import) : List Constant :=
  i.namespaceName.toList.map .stubModule ++ i.defaultName.toList.map .stub ++
    i.named.map fun (_, name) => .stub name

/-- The constants that an import wishes for. -/
def importWishes (stubs : Bool) (i : Import) : List Constant :=
  if i.typeOnly then []
  else if reactSources.contains i.source then
    (i.defaultName.toList ++ i.namespaceName.toList).map .react
  else match globalOf? i.source with
    | some global => memberWishes i global
    | none => if stubs then stubWishes i else []

/-- The tokens of a library that are names and stand in the code. -/
def tokenWishes (code : Text) (l : Library) : List Constant :=
  (l.tokens.filter fun t => t != l.global && isIdentifier t && Library.mentions code t).map
    fun t => .member t l.global t

/-- The constants that are wished for. -/
def wishes (stubs : Bool) (imports : List Import) (libraries : List Library) (code : Text) :
    List Constant :=
  imports.flatMap (importWishes stubs) ++ libraries.flatMap (tokenWishes code)

/-! ### Preludes -/

/-- What is bound in front of a code that declares some names itself. -/
def ofImports (imports : List Import) (declared : List Text) (libraries : List Library)
    (code : Text) (options : Options) : Prelude :=
  let fields := granted Prod.snd declared (reactWishes imports)
  let bound := groundNames ++ fields.map Prod.snd ++ declared
  ⟨fields, granted Constant.name bound
    (wishes options.stubUnknownImports imports libraries code)⟩

/-- The names of the placeholders. -/
def stubs (p : Prelude) : List Text := (p.constants.filter Constant.isStub).map Constant.name

/-- The names that are bound. -/
def names (p : Prelude) : List Text := p.fields.map Prod.snd ++ p.constants.map Constant.name

/-- A member of React with its local name. -/
def fieldText (field : Text × Text) : Text :=
  if field.1 = field.2 then field.2 else field.1 ++ ": ".toList ++ field.2

/-- The statement that binds the members of React. -/
def fieldsStatement (p : Prelude) : Text :=
  "const \x7b ".toList ++ Text.join ", ".toList (p.fields.map fieldText) ++
    " \x7d = React;".toList

/-- The statements, one on each line. -/
def render [Platform] (p : Prelude) : Text :=
  let first := if p.fields.isEmpty then [] else [p.fieldsStatement]
  Text.join ['\n'] (first ++ p.constants.map Constant.statement)

end Prelude

end LivePreview

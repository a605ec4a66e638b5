/-
From an answer to plain code.

The passes run in a fixed order: fences, files, modules, types.  What they leave is
verified, and the component is chosen among the names that it declares.  Every pass
leaves records of what it did; a doubt is a record and no failure, unless the settings
ask for code that parses.
-/
import LivePreview.Answer.Normalize
import LivePreview.Erasure.Step
import LivePreview.Options
import LivePreview.SourceFile.Merge
import LivePreview.Verification

namespace LivePreview

/-- What a host wants to see. -/
structure Draft where
  /-- an answer with code in it -/
  code : Text
  filename : Option Text := none
  /-- classes of the element around the component -/
  className : Option Text := none
deriving DecidableEq, Repr

/-- True if there is nothing to see. -/
def Draft.isBlank (d : Draft) : Bool := Text.isBlankText d.code

/-- Plain code, and what was found out on the way. -/
structure Processed where
  code : Text
  isMultiFile : Bool
  component : Component
  /-- the imports that were taken out of the code -/
  imports : List Import
  verification : Verification
  /-- the files that were put together, in order -/
  files : List Text
  diagnostics : Diagnostics
deriving DecidableEq, Repr

namespace Processed

/-! ### Records -/

/-- The words `true` and `false`. -/
def ofBool (b : Bool) : Text := (toString b).toList

/-- The records of the fences and markers. -/
def fenceRecords (n : Answer.Normalized) : Diagnostics :=
  (if n.fenceBlocks = 0 then []
    else [.info .fences
      ("kept ".toList ++ Text.ofNat n.fenceBlocks ++ " fenced block(s)".toList)]) ++
  (if n.markers.isEmpty then []
    else [.info .fences (Text.ofNat n.markers.length ++
      " file marker(s), multi-file: ".toList ++ ofBool n.isMultiFile)])

/-- The record of the imports. -/
def importRecords (imports : List Import) : Diagnostics :=
  if imports.isEmpty then []
  else [.info .modules ("removed ".toList ++ Text.ofNat imports.length ++ " import(s): ".toList ++
    Text.join ", ".toList (imports.map Import.source))]

/-- The record of the default exports. -/
def exportRecords : List Text → Diagnostics
  | [] => []
  | [name] => [.info .modules ("default export: ".toList ++ name)]
  | names => [.info .modules ("collapsed ".toList ++ Text.ofNat names.length ++
      " default exports: ".toList ++ Text.join ", ".toList names)]

/-- True of a name that looks given to a default export without one. -/
def looksGiven (name : Text) : Bool := (Text.after? (Module.anonymousName 1) name).isSome

/-- The record of names that were given to default exports. -/
def givenRecords (names : List Text) : Diagnostics :=
  if names.any looksGiven then [.info .modules "named an anonymous default export".toList]
  else []

/-- The records of the verification. -/
def verificationRecords (v : Verification) : Diagnostics :=
  v.moduleStatements.map (fun s => .warn .verify ("module statement survived: ".toList ++ s)) ++
    if v.parsed then [] else [.warn .verify (Failure.unparsableNote v.parseErrors)]

/-- The record of the component. -/
def componentRecord (c : Component) : Diagnostic :=
  if c.source = .fallback then
    .warn .resolve ("no component detected, falling back to ".toList ++ c.name)
  else .info .resolve ("component ".toList ++ c.name ++ " (".toList ++
    c.source.name.toList ++ [')'])

/-- Number of characters of the code that a record shows. -/
def excerptLength : Nat := 240

/-- The start of the code. -/
def excerpt (code : Text) : Text :=
  if code.length ≤ excerptLength then code else code.take excerptLength ++ ['…']

/-- The record of the code. -/
def codeRecord (code : Text) : Diagnostic := .info .verify ("final code: ".toList ++ excerpt code)

/-! ### Passes -/

/-- The file that a component may be named for. -/
def filenameHint (d : Draft) (n : Answer.Normalized) : Option Text :=
  d.filename.orElse fun _ => n.markers.getLast?.map Answer.Marker.path

/-- Plain code for a draft. -/
def ofDraft [Platform] (d : Draft) (options : Options) : Except Failure Processed := do
  if d.isBlank then throw .emptyInput
  let normalized := Answer.normalize d.code
  let merged := SourceFile.merge normalized.code normalized.isMultiFile
  let stripped := Module.strip merged.code
  match Erasure.eraseTypes stripped.code with
  | .error .overflow => throw .enumOverflow
  | .ok erased =>
    let code := Answer.trimBlankLines erased.code
    let verification := verify code
    if options.strictSyntaxCheck && !verification.parsed then
      throw (.unparsable verification.parseErrors)
    let component := Component.resolve verification.declarations stripped.defaultExports
      (filenameHint d normalized) options.fallbackComponent
    return {
      code := code
      isMultiFile := merged.isMultiFile
      component := component
      imports := stripped.imports
      verification := verification
      files := merged.files
      diagnostics :=
        fenceRecords normalized ++ merged.diagnostics ++ importRecords stripped.imports ++
          exportRecords stripped.defaultExports ++ givenRecords stripped.defaultExports ++
          [.info .types erased.report.summary] ++ verificationRecords verification ++
          [componentRecord component, codeRecord code] }

end Processed

end LivePreview

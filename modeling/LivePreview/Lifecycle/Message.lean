/-
Messages from a page to its host.

A host receives messages from many windows.  One counts only if it is a record whose
source and kind say that it comes from a page of this library and reports a failure, and
if it names the run that it comes from.  Anything else is not for us.
-/
import LivePreview.Options
import LivePreview.Page.Runtime

namespace LivePreview

/-- A failure that a running page reports. -/
structure FailureReport where
  runId : Text
  message : Text
deriving DecidableEq, Repr

namespace FailureReport

/-- The fields of a message, in order. -/
def fieldNames : List Text :=
  ["source", "type", "runId", "message", "stack"].map String.toList

/-- The kind of a message that reports a failure. -/
def errorKind : Text := "error".toList

/-- What is said of a failure without a message. -/
def unknownMessage : Text := "Unknown runtime error".toList

/-- The text of a field that may be null. -/
def optionalText? : Json → Option (Option Text)
  | .null => some none
  | v => v.asText?.map some

/-- The report in a message, if it is a well-formed one. -/
def ofJson? [Platform] (v : Json) : Option FailureReport := do
  match ← Platform.jsonRecord? fieldNames v with
  | [some source, some kind, run, message, stack] =>
    let source ← source.asText?
    let kind ← kind.asText?
    let run ← fieldOr optionalText? none run
    let message ← fieldOr optionalText? none message
    let _ ← fieldOr optionalText? none stack
    if source = Page.messageSource ∧ kind = errorKind then
      return ⟨← run, message.getD unknownMessage⟩
    else none
  | _ => none

/-- The report that a text writes. -/
def read? [Platform] (payload : Text) : Option FailureReport :=
  (Platform.readJson? payload).bind ofJson?

end FailureReport

end LivePreview

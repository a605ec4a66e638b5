/-
Why no page can be built.

A name that is not found is no failure: the tiers of the component, the stubs of the
page and the records of the passes take care of it.  What is left are the few causes
below.  Each has the title of the card that shows it and a message.
-/
import LivePreview.Text.Basic

namespace LivePreview

/-- Why no page can be built. -/
inductive Failure where
  /-- there is nothing but blanks -/
  | emptyInput
  /-- the settings are not a record of settings -/
  | invalidOptions
  /-- the component to mount has a name that is no identifier -/
  | invalidComponent (name : Text)
  /-- the code is no script, as these messages of the parser say, and the settings ask
  for one -/
  | unparsable (messages : List Text)
  /-- a member of an enum has no value, because the one before has no successor -/
  | enumOverflow
deriving DecidableEq, Repr

namespace Failure

/-- The title of the card that shows a failure. -/
def title : Failure → Text
  | emptyInput => "Nothing to preview".toList
  | invalidOptions => "Configuration Error".toList
  | invalidComponent _ | unparsable _ | enumOverflow => "Preview Build Error".toList

/-- What is said of code that does not parse. -/
def unparsableNote (messages : List Text) : Text :=
  "processed code does not parse: ".toList ++ Text.join "; ".toList messages

/-- A step of the build has failed. -/
def buildFailed (reason : Text) : Text := "Failed to build preview: ".toList ++ reason

/-- The message of a failure. -/
def message : Failure → Text
  | emptyInput => "No code to preview: the generated source is empty".toList
  | invalidOptions => "Invalid preview options".toList
  | invalidComponent name =>
    buildFailed ('\'' :: name ++ "' is not a valid component identifier".toList)
  | unparsable messages => buildFailed (unparsableNote messages)
  | enumOverflow => "Preview builder panicked: attempt to add with overflow".toList

end Failure

end LivePreview

/-
What the passes report.

A pass that does something worth knowing leaves a record.  Records are kept in the
order in which they were made; none of them changes what is built.
-/
import LivePreview.Text.Basic

namespace LivePreview

/-- The passes that leave records. -/
inductive Pass where
  | fences
  | files
  | modules
  | types
  | resolve
  | verify
  | page
  | lifecycle
deriving DecidableEq, Repr

namespace Pass

/-- The passes in the order in which they are listed. -/
def all : List Pass := [fences, files, modules, types, resolve, verify, page, lifecycle]

/-- The name of a pass. -/
def name : Pass → String
  | fences => "fences"
  | files => "files"
  | modules => "modules"
  | types => "types"
  | resolve => "resolve"
  | verify => "verify"
  | page => "harness"
  | lifecycle => "lifecycle"

end Pass

/-- How much a record matters. -/
inductive Level where
  | info
  | warn
deriving DecidableEq, Repr

/-- The name of a level. -/
def Level.name : Level → String
  | info => "info"
  | warn => "warn"

/-- A record of one pass. -/
structure Diagnostic where
  pass : Pass
  level : Level
  message : Text
deriving DecidableEq, Repr

namespace Diagnostic

/-- A record that something was done. -/
def info (pass : Pass) (message : Text) : Diagnostic := ⟨pass, .info, message⟩

/-- A record that something looks wrong. -/
def warn (pass : Pass) (message : Text) : Diagnostic := ⟨pass, .warn, message⟩

end Diagnostic

/-- Records, first one first. -/
abbrev Diagnostics := List Diagnostic

namespace Diagnostics

/-- True if something looks wrong. -/
def hasWarnings (ds : Diagnostics) : Bool := ds.any fun d => d.level == .warn

/-- Number of records of one pass. -/
def countOf (ds : Diagnostics) (pass : Pass) : Nat := ds.countP fun d => d.pass == pass

end Diagnostics

end LivePreview

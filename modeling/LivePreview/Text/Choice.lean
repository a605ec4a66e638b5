/-
Reading with second thoughts.

Some lines can be read in more than one way: the dashes in front of a path may be
decoration or belong to the path.  The readers here take what follows as an argument
and try their choices in order of preference until what follows succeeds.
-/
import LivePreview.Text.Basic

namespace LivePreview.Text

variable {α : Type}

/-- Pass over characters that satisfy `p`, as many as what follows allows. -/
def asManyAs (p : Char → Bool) (follow : Text → Option α) : Text → Option α
  | [] => follow []
  | c :: s => if p c then (asManyAs p follow s).or (follow (c :: s)) else follow (c :: s)

/-- At least one character that satisfies `p`, and as many as what follows allows. -/
def atLeastOne (p : Char → Bool) (follow : Text → Option α) : Text → Option α
  | [] => none
  | c :: s => if p c then asManyAs p follow s else none

/-- At least two characters that satisfy `p`, and as many as what follows allows. -/
def atLeastTwo (p : Char → Bool) (follow : Text → Option α) : Text → Option α
  | [] => none
  | c :: s => if p c then atLeastOne p follow s else none

/-- Read with `first`, unless what follows only succeeds without it. -/
def optionally (first : (Text → Option α) → Text → Option α) (follow : Text → Option α)
    (s : Text) : Option α :=
  (first follow s).or (follow s)

end LivePreview.Text

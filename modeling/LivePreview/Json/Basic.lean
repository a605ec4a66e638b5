/-
Values of the JSON format.
-/
import LivePreview.Text.Word

namespace LivePreview

/-- A value.  A string that no text can hold, because one half of a surrogate pair
stands alone in it, is `none`; so are the keys of an object. -/
inductive Json where
  | null
  | bool (b : Bool)
  /-- a number as it is written -/
  | number (digits : Text)
  | string (s : Option Text)
  | array (items : List Json)
  | object (members : List (Option Text × Json))
deriving Repr

namespace Json

/-- The text of a string. -/
def asText? : Json → Option Text
  | .string s => s
  | _ => none

/-- The value of `true` or `false`. -/
def asBool? : Json → Option Bool
  | .bool b => some b
  | _ => none

/-- The value of a whole number without sign, fraction and exponent, below `2 ^ 64`. -/
def asNat? : Json → Option Nat
  | .number digits =>
    if digits.all isAsciiDigit then
      let n := digits.foldl (fun n c => 10 * n + (c.toNat - '0'.toNat)) 0
      if n < UInt64.size then some n else none
    else none
  | _ => none

end Json

end LivePreview

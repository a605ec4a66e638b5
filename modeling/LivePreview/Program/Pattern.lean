/-
Patterns that bind names.
-/
import LivePreview.Program.Reader

namespace LivePreview.Program

open Reader

/-- An item of an array pattern, up to and with the comma behind it. -/
def arrayItem (inner : Inner) (p : Place) : Reader (Option Pattern) := do
  if ← sign? "]" then return none
  if ← sign? "," then return some .hole
  if ← sign? "..." then
    let target ← inner.pattern p
    if !(← atSign "]") then failure
    return some (.rest target)
  let element ← inner.elementPattern p
  if !(← sign? ",") && !(← atSign "]") then failure
  return some element

/-- A property of an object pattern. -/
def propertyPattern (inner : Inner) (p : Place) : Reader Pattern := do
  match ← ahead with
  | (_, .sign "...", rest) =>
    set rest
    let n ← bindable
    if !(← atSign "\x7d") then failure
    return .rest (.name n)
  | (_, .sign "[", rest) =>
    set rest
    inner.computedKey p
    sign ":"
    inner.elementPattern p
  | (_, .string, rest) | (_, .number, rest) =>
    set rest
    sign ":"
    inner.elementPattern p
  | (_, .name n _, rest) =>
    set rest
    if ← sign? ":" then inner.elementPattern p
    else if !isName n then failure
    else if ← sign? "=" then
      let _ ← inner.value { p with canIn := true }
      return .withDefault (.name n)
    else return .name n
  | _ => failure

/-- What is bound, without a default value. -/
def readPattern (inner : Inner) (p : Place) : Reader Pattern := do
  match ← ahead with
  | (_, .name n _, rest) =>
    set rest
    if isName n then return .name n else failure
  | (_, .sign "[", rest) =>
    set rest
    return .array (← many (arrayItem inner p))
  | (_, .sign "\x7b", rest) =>
    set rest
    return .object (← listUntil "\x7d" (propertyPattern inner p))
  | _ => failure

end LivePreview.Program

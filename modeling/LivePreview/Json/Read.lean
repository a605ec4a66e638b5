/-
Reading the JSON format.

The reader is strict: the format and nothing more.  Arrays and objects may be nested to
any depth; the number of characters bounds it, and so it bounds the recursion.
-/
import LivePreview.Json.Basic
import LivePreview.Text.Word

namespace LivePreview.Json

/-- The four blanks of the format. -/
def isBlank (c : Char) : Bool := c == ' ' || c == '\t' || c == '\n' || c == '\r'

/-- What remains behind blanks. -/
def skipBlanks (s : Text) : Text := s.dropWhile isBlank

/-! ### Strings -/

/-- The value of a digit to base sixteen. -/
def hexDigit? (c : Char) : Option Nat :=
  if isAsciiDigit c then some (c.toNat - '0'.toNat)
  else if 'a' ≤ c && c ≤ 'f' then some (c.toNat - 'a'.toNat + 10)
  else if 'A' ≤ c && c ≤ 'F' then some (c.toNat - 'A'.toNat + 10)
  else none

/-- The value of four digits to base sixteen. -/
def hex4? (a b c d : Char) : Option Nat := do
  return 4096 * (← hexDigit? a) + 256 * (← hexDigit? b) + 16 * (← hexDigit? c) +
    (← hexDigit? d)

/-- A unit of a written string: a character, or a number of sixteen bits. -/
inductive Unit16 where
  | char (c : Char)
  | code (n : Nat)
deriving DecidableEq, Repr

/-- The character that a short escape stands for. -/
def shortEscape? (c : Char) : Option Char :=
  match c with
  | '"' => some '"'
  | '\\' => some '\\'
  | '/' => some '/'
  | 'b' => some '\x08'
  | 'f' => some '\x0c'
  | 'n' => some '\n'
  | 'r' => some '\r'
  | 't' => some '\t'
  | _ => none

/-- The units of a string behind its opening quote, and what remains. -/
def unitsRest? : Text → Option (List Unit16 × Text)
  | [] => none
  | '"' :: s => some ([], s)
  | '\\' :: 'u' :: a :: b :: c :: d :: s => do
    let n ← hex4? a b c d
    let (units, rest) ← unitsRest? s
    return (.code n :: units, rest)
  | '\\' :: c :: s => do
    let c ← shortEscape? c
    let (units, rest) ← unitsRest? s
    return (.char c :: units, rest)
  | c :: s => do
    if c.toNat < 32 || c == '\\' then none
    let (units, rest) ← unitsRest? s
    return (.char c :: units, rest)

/-- True of the first half of a surrogate pair. -/
def isHighHalf (n : Nat) : Bool := 0xD800 ≤ n && n ≤ 0xDBFF

/-- True of the second half of a surrogate pair. -/
def isLowHalf (n : Nat) : Bool := 0xDC00 ≤ n && n ≤ 0xDFFF

/-- The text of a list of units, if each half of a pair stands beside its other half. -/
def textOf? : List Unit16 → Option Text
  | [] => some []
  | .char c :: units => (textOf? units).map (c :: ·)
  | .code a :: .code b :: units =>
    if isHighHalf a then
      if isLowHalf b then
        (textOf? units).map (Char.ofNat (0x10000 + 0x400 * (a - 0xD800) + (b - 0xDC00)) :: ·)
      else none
    else if isLowHalf a then none
    else (textOf? (.code b :: units)).map (Char.ofNat a :: ·)
  | .code a :: units =>
    if isHighHalf a || isLowHalf a then none else (textOf? units).map (Char.ofNat a :: ·)

/-- A string behind its opening quote, and what remains. -/
def stringRest? (s : Text) : Option (Option Text × Text) :=
  (unitsRest? s).map fun (units, rest) => (textOf? units, rest)

/-! ### Numbers -/

/-- What remains behind digits, of which there must be at least one. -/
def digits? (s : Text) : Option Text :=
  if s.head?.any isAsciiDigit then some (s.dropWhile isAsciiDigit) else none

/-- What remains behind the whole part of a number: no zero in front of other digits. -/
def whole? : Text → Option Text
  | '0' :: s => if s.head?.any isAsciiDigit then none else some s
  | s => digits? s

/-- What remains behind an optional fraction. -/
def fraction? : Text → Option Text
  | '.' :: s => digits? s
  | s => some s

/-- What remains behind an optional exponent. -/
def exponent? : Text → Option Text
  | [] => some []
  | e :: s =>
    if e = 'e' || e = 'E' then
      match s with
      | '+' :: t | '-' :: t => digits? t
      | t => digits? t
    else some (e :: s)

/-- What remains behind a number. -/
def number? (s : Text) : Option Text := do
  let unsigned := match s with
    | '-' :: t => t
    | t => t
  exponent? (← fraction? (← whole? unsigned))

/-! ### Values -/

/-- What can be read: a value, or what stands behind the opening bracket of an array or
object; `first` tells that nothing was read in there yet. -/
inductive Form where
  | value
  | items (first : Bool)
  | members (first : Bool)

/-- What was read: a value, or the contents of an array or object. -/
inductive Part where
  | value (v : Json)
  | items (vs : List Json)
  | members (ms : List (Option Text × Json))

/-- The part of a form at the front of the text, and what remains; `n` bounds the depth
of the calls. -/
def part? : Nat → Form → Text → Option (Part × Text)
  | 0, _, _ => none
  | n + 1, .value, s =>
    let s := skipBlanks s
    match s with
    | [] => none
    | c :: t =>
      if c = '"' then (stringRest? t).map fun (v, rest) => (.value (.string v), rest)
      else if c = '[' then
        match part? n (.items true) t with
        | some (.items vs, rest) => some (.value (.array vs), rest)
        | _ => none
      else if c = '{' then
        match part? n (.members true) t with
        | some (.members ms, rest) => some (.value (.object ms), rest)
        | _ => none
      else if c = '-' || isAsciiDigit c then
        (number? s).map fun rest => (.value (.number (Text.consumed s rest)), rest)
      else
        let literals : List (String × Json) :=
          [("null", .null), ("true", .bool true), ("false", .bool false)]
        literals.findSome? fun (w, v) =>
          (Text.after? w.toList s).map fun rest => (.value v, rest)
  | n + 1, .items first, s =>
    match skipBlanks s with
    | ']' :: rest => some (.items [], rest)
    | t =>
      let item := if first then some t else Text.after? [','] t
      match item.bind (part? n .value) with
      | some (.value v, rest) =>
        match part? n (.items false) rest with
        | some (.items vs, rest) => some (.items (v :: vs), rest)
        | _ => none
      | _ => none
  | n + 1, .members first, s =>
    match skipBlanks s with
    | '}' :: rest => some (.members [], rest)
    | t =>
      let member := if first then some t else (Text.after? [','] t).map skipBlanks
      match (member.bind (Text.after? ['"'])).bind stringRest? with
      | none => none
      | some (key, rest) =>
        match (Text.after? [':'] (skipBlanks rest)).bind (part? n .value) with
        | some (.value v, rest) =>
          match part? n (.members false) rest with
          | some (.members ms, rest) => some (.members ((key, v) :: ms), rest)
          | _ => none
        | _ => none

/-- The value that a text writes, with nothing but blanks around it. -/
def read? (s : Text) : Option Json :=
  match part? (2 * s.length + 2) .value s with
  | some (.value v, rest) => if (skipBlanks rest).isEmpty then some v else none
  | _ => none

/-! ### Records -/

/-- The member with this key, if there is just one. -/
inductive Found where
  | missing
  | once (v : Json)
  | repeated

/-- The member with this key. -/
def find (key : Text) (members : List (Option Text × Json)) : Found :=
  match members.filter fun m => m.1 == some key with
  | [] => .missing
  | [m] => .once m.2
  | _ => .repeated

/-- The values of a record with these fields, in order; a field can be missing.  A record
is an object in which no field stands twice, or an array of the values of its first
fields. -/
def record? (fields : List Text) : Json → Option (List (Option Json))
  | .object members =>
    if members.any fun m => m.1.isNone then none
    else fields.mapM fun key =>
      match find key members with
      | .missing => some none
      | .once v => some (some v)
      | .repeated => none
  | .array items =>
    if fields.length < items.length then none
    else some (items.map some ++ List.replicate (fields.length - items.length) none)
  | _ => none

end LivePreview.Json

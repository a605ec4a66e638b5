/-
Text as a list of characters.

Every pass of this library reads its input from the front and keeps what it has
not read yet, so a text is the list of its characters and a reader is a function
from a text to the text that remains.  What was read is then the difference of
the two, `consumed`, and an offset into the text is the number of bytes that the
difference takes up.

Three notions of blank are told apart because the passes tell them apart: the
two inline blanks (space and tab), the five ASCII blanks, and the blanks of
Unicode.
-/

namespace LivePreview

/-- A text, first character first. -/
abbrev Text := List Char

/-- Space and tab: the blanks that do not leave the line. -/
def isInline (c : Char) : Bool := c == ' ' || c == '\t'

/-- The five ASCII blanks. -/
def isBlank (c : Char) : Bool :=
  c == ' ' || c == '\t' || c == '\n' || c == '\r' || c == '\x0c'

/-- The characters with the Unicode property `White_Space`. -/
def isSpace (c : Char) : Bool :=
  let n := c.toNat
  (9 ≤ n && n ≤ 13) || n == 0x20 || n == 0x85 || n == 0xA0 || n == 0x1680 ||
    (0x2000 ≤ n && n ≤ 0x200A) || n == 0x2028 || n == 0x2029 || n == 0x202F ||
    n == 0x205F || n == 0x3000

namespace Text

/-! ### Reading from the front -/

/-- What remains behind the leading inline blanks. -/
def skipInline (s : Text) : Text := s.dropWhile isInline

/-- What remains behind the leading ASCII blanks. -/
def skipBlanks (s : Text) : Text := s.dropWhile isBlank

/-- What remains behind the leading Unicode blanks. -/
def skipSpaces (s : Text) : Text := s.dropWhile isSpace

/-- At least one Unicode blank, and then all of them. -/
def spaces? : Text → Option Text
  | [] => none
  | c :: s => if isSpace c then some (skipSpaces s) else none

/-- At least one inline blank, and then all of them. -/
def inlines? : Text → Option Text
  | [] => none
  | c :: s => if isInline c then some (skipInline s) else none

/-- What remains behind `lit`, if the text starts with it. -/
def after? : Text → Text → Option Text
  | [], s => some s
  | _ :: _, [] => none
  | c :: lit, d :: s => if c = d then after? lit s else none

/-- The part of `s` in front of its end piece `rest`. -/
def consumed (s rest : Text) : Text := s.take (s.length - rest.length)

/-- Number of bytes of the text in UTF-8. -/
def byteSize : Text → Nat
  | [] => 0
  | c :: s => c.utf8Size + byteSize s

/-- True if `lit` stands somewhere in the text. -/
def occurs (lit : Text) : Text → Bool
  | [] => lit.isEmpty
  | c :: s => (after? lit (c :: s)).isSome || occurs lit s

/-! ### Trimming -/

/-- Without the trailing characters that satisfy `p`. -/
def trimEndBy (p : Char → Bool) (s : Text) : Text := (s.reverse.dropWhile p).reverse

/-- Without the characters at both ends that satisfy `p`. -/
def trimBy (p : Char → Bool) (s : Text) : Text := trimEndBy p (s.dropWhile p)

/-- Without the Unicode blanks at the end. -/
def trimEnd (s : Text) : Text := trimEndBy isSpace s

/-- Without the Unicode blanks at both ends. -/
def trim (s : Text) : Text := trimBy isSpace s

/-- True if there is nothing but Unicode blanks. -/
def isBlankText (s : Text) : Bool := s.all isSpace

/-! ### Taking apart and putting together -/

/-- The fields between the characters that satisfy `p`; there is one more field than
there are such characters. -/
def splitBy (p : Char → Bool) : Text → List Text
  | [] => [[]]
  | c :: s =>
    if p c then [] :: splitBy p s
    else match splitBy p s with
      | field :: fields => (c :: field) :: fields
      | [] => [[c]]

/-- The fields between the occurrences of `sep`. -/
def fields (sep : Char) (s : Text) : List Text := splitBy (· == sep) s

/-- The maximal runs of characters that are no Unicode blank. -/
def words (s : Text) : List Text := (splitBy isSpace s).filter (!·.isEmpty)

/-- `parts` with `sep` between neighbours. -/
def join (sep : Text) (parts : List Text) : Text := sep.intercalate parts

/-- A line as a reader of lines sees it: one carriage return in front of the newline
belongs to the line end. -/
def chomp (line : Text) : Text :=
  if line.getLast? = some '\r' then line.dropLast else line

/-- The lines of a text.  A final newline ends the last line and opens no new one. -/
def lines (s : Text) : List Text :=
  let rows := fields '\n' s
  let closed := rows.dropLast.map chomp
  match rows.getLast? with
  | some (c :: tail) => closed ++ [c :: tail]
  | _ => closed

/-- Every line ended by a newline. -/
def unlines (rows : List Text) : Text := rows.flatMap (· ++ ['\n'])

/-- A carriage return and newline pair becomes a newline. -/
def unifyNewlines : Text → Text
  | [] => []
  | '\r' :: '\n' :: s => '\n' :: unifyNewlines s
  | c :: s => c :: unifyNewlines s

/-- The part in front of the first newline. -/
def firstLine (s : Text) : Text := s.takeWhile (· != '\n')

/-- What remains from the first newline on. -/
def skipLine (s : Text) : Text := s.dropWhile (· != '\n')

/-- The parts in front of and behind the first `sep`. -/
def cutFirst (sep : Char) (s : Text) : Option (Text × Text) :=
  match s.dropWhile (· != sep) with
  | [] => none
  | _ :: rest => some (s.takeWhile (· != sep), rest)

/-- The parts in front of and behind the last `sep`. -/
def cutLast (sep : Char) (s : Text) : Option (Text × Text) :=
  (cutFirst sep s.reverse).map fun (back, front) => (front.reverse, back.reverse)

/-- The decimal numeral of `n`. -/
def ofNat (n : Nat) : Text := (toString n).toList

/-! ### Byte offsets

An offset counts the bytes in front of a place.  One beyond the end leaves nothing behind it, and
one inside a character counts as the end of that character. -/

/-- The part in front of an offset, last character first and on top of `before`, and
the part behind it. -/
def seekFrom (before : Text) : Nat → Text → Text × Text
  | 0, s => (before, s)
  | _, [] => (before, [])
  | n + 1, c :: s => seekFrom (c :: before) (n + 1 - c.utf8Size) s

/-- The part in front of an offset, last character first, and the part behind it. -/
def seek (offset : Nat) (s : Text) : Text × Text := seekFrom [] offset s

/-- The offset of the end piece `rest` of a text that starts at `offset`. -/
def offsetAfter (offset : Nat) (s rest : Text) : Nat := offset + byteSize (consumed s rest)

end Text

end LivePreview

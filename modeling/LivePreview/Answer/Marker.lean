/-
Lines that name a file.

In code a file is named by a marker, a comment that holds nothing but a path and some
decoration; in prose by a heading.  A path is a run of word characters, dots, slashes,
hyphens and `@` that ends in one of the known extensions.  Where a line can be read in
more than one way, decoration in front of a path goes first to the decoration, and the
path reaches as far as the rest of the line allows.
-/
import LivePreview.Text.Choice
import LivePreview.Text.Case

namespace LivePreview.Answer

open Text (optionally)

variable {α : Type}

/-! ### Paths -/

/-- A character of a path. -/
def isPathChar (c : Char) : Bool :=
  isWordChar c || c == '@' || c == '.' || c == '/' || c == '-'

/-- The extensions that a path can end in, the preferred one first. -/
def extensions : List Text :=
  [".tsx", ".ts", ".jsx", ".js", ".mjs", ".cjs", ".css", ".scss", ".sass", ".less", ".json",
    ".md", ".mdx", ".html", ".svg", ".txt", ".yaml", ".yml"].map String.toList

/-- A path, and what remains behind it. -/
def readPath (follow : Text → Text → Option α) (s : Text) : Option α :=
  Text.atLeastOne isPathChar (fun t =>
    extensions.findSome? fun extension =>
      (Text.after? extension t).bind fun rest => follow (Text.consumed s rest) rest) s

/-- What remains behind a word in any mixture of capitals and small letters. -/
def afterAnyCase? : Text → Text → Option Text
  | [], s => some s
  | _ :: _, [] => none
  | c :: w, d :: s => if c = d.toLower then afterAnyCase? w s else none

/-- What remains behind one of the words, a colon, and the blanks around it. -/
def afterLabel? (words : List Text) (s : Text) : Option Text :=
  words.findSome? fun w => do
    let s ← afterAnyCase? w s
    let s ← Text.after? [':'] (Text.skipInline s)
    return Text.skipInline s

/-- A label in front of a path. -/
def readLabel (words : List Text) (follow : Text → Option α) (s : Text) : Option α :=
  (afterLabel? words s).bind follow

/-- True if nothing but inline blanks remains. -/
def atLineEnd (s : Text) : Bool := (Text.skipInline s).isEmpty

/-! ### Markers -/

/-- A character of the rules that decorate a marker. -/
def isRuleChar (c : Char) : Bool := c == '-' || c == '=' || c == '*'

/-- The words that can stand in front of the path of a marker. -/
def markerLabels : List Text := ["filename", "file", "path"].map String.toList

/-- The end of a marker behind its path. -/
def closesMarker (s : Text) : Bool :=
  let closing (s : Text) : Option Unit :=
    optionally
      (fun follow => Text.atLeastOne (· == '*') fun t => (Text.after? ['/'] t).bind follow)
      (fun t => if atLineEnd t then some () else none)
      (Text.skipInline s)
  (optionally (Text.atLeastTwo isRuleChar) closing (Text.skipInline s)).isSome

/-- A marker behind the sign that opens the comment. -/
def markerBody? (s : Text) : Option Text :=
  optionally
    (fun follow => Text.atLeastTwo isRuleChar fun t => follow (Text.skipInline t))
    (optionally (readLabel markerLabels) <|
      readPath fun path rest => if closesMarker rest then some path else none)
    (Text.skipInline s)

/-- The path that a marker line names, if the line is a marker. -/
def markerPath? (line : Text) : Option Text :=
  match Text.skipInline line with
  | '/' :: '/' :: s => markerBody? s
  | '/' :: '*' :: s => Text.asManyAs (· == '*') markerBody? s
  | _ => none

/-! ### Headings -/

/-- The signs that emphasise the text between them. -/
def emphasisSigns : List Text := ["**", "__", "\x60"].map String.toList

/-- One of the signs. -/
def readSign (signs : List Text) (follow : Text → Option α) (s : Text) : Option α :=
  signs.findSome? fun sign => (Text.after? sign s).bind follow

/-- What remains behind one of the signs; without one, the text itself. -/
def skipSign (signs : List Text) (s : Text) : Text :=
  (signs.findSome? fun sign => Text.after? sign s).getD s

/-- What remains behind the sign of a heading or of a list item, and blanks. -/
def afterBullet? (s : Text) : Option Text :=
  match s with
  | [] => none
  | c :: t =>
    if c = '#' then
      let rest := s.dropWhile (· == '#')
      if s.length - rest.length ≤ 6 then Text.inlines? rest else none
    else if c = '-' || c = '*' then Text.inlines? t
    else if isDecimalDigit c then
      (Text.after? ['.'] (t.dropWhile isDecimalDigit)).bind Text.inlines?
    else none

/-- The words that can stand in front of the path of a heading. -/
def headingLabels : List Text := ["filename", "file"].map String.toList

/-- The end of a heading behind its path. -/
def closesHeading (s : Text) : Bool :=
  let named := Text.skipInline (skipSign emphasisSigns s)
  let behind := Text.skipInline ((Text.after? [':'] named).getD named)
  atLineEnd (skipSign (emphasisSigns.take 2) behind)

/-- The path that a heading names, if the line is one. -/
def namedInHeading? (line : Text) : Option Text :=
  optionally (fun follow s => (afterBullet? s).bind follow)
    (optionally (readSign emphasisSigns) <|
      optionally (readLabel headingLabels) <|
        optionally (readSign emphasisSigns) <|
          readPath fun path rest => if closesHeading rest then some path else none)
    (Text.skipInline line)

/-- The path that a line between code blocks names. -/
def headingPath? (line : Text) : Option Text := (markerPath? line).or (namedInHeading? line)

/-- The first path in a text that no word goes on behind. -/
def pathIn? : Text → Option Text
  | [] => none
  | c :: s =>
    (readPath (fun path rest => if Text.wordEnds rest then some path else none) (c :: s)).or
      (pathIn? s)

end LivePreview.Answer

/-
Text inside of a page.

Text between tags and in attributes is written with entities for the five characters
that mean something there.  Code inside of a script element cannot be written so; it is
kept as it is, but for one backslash behind each `<` at which the element would end or a
comment begin.  In code that is meant to run, both stand in strings and in regular
expressions alone, where the backslash changes nothing.
-/
import LivePreview.Text.Basic

namespace LivePreview.Page

/-- A character of text between tags or in an attribute. -/
def entity (c : Char) : Text :=
  match c with
  | '&' => "&amp;".toList
  | '<' => "&lt;".toList
  | '>' => "&gt;".toList
  | '"' => "&quot;".toList
  | '\'' => "&#39;".toList
  | c => [c]

/-- Text between tags or in an attribute. -/
def escapeText (s : Text) : Text := s.flatMap entity

/-- True if `c` is the lower-case letter `l` in some case.  The long s is an s. -/
def isLetter (l c : Char) : Bool := c.toLower == l || (l == 's' && c == '\u017f')

/-- True if the text starts with the letters of `w` in some case. -/
def startsWithLetters : Text → Text → Bool
  | [], _ => true
  | _ :: _, [] => false
  | l :: w, c :: s => isLetter l c && startsWithLetters w s

/-- True of what makes a `<` in front of it end a script element or open a comment. -/
def isHazard : Text → Bool
  | '/' :: s => startsWithLetters "script".toList s
  | '!' :: '-' :: '-' :: _ => true
  | _ => false

/-- Code inside of a script element. -/
def escapeCode : Text → Text
  | [] => []
  | c :: s =>
    if c = '<' && isHazard s then '<' :: '\\' :: escapeCode s else c :: escapeCode s

end LivePreview.Page

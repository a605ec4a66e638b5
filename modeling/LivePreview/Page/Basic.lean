/-
Pages.

A page is one HTML document with all that it takes to show a component.  It is put
together row by row: what varies is escaped where it is written, and every other
character is part of a fixed row.
-/
import LivePreview.Page.Escape

namespace LivePreview

/-- A page to load into a frame. -/
structure Page where
  html : Text
  runId : Text
  /-- the component that is mounted, empty if none is -/
  componentName : Text
  /-- the libraries that are loaded, by name -/
  libraries : List Text
  /-- true of a page that only shows a failure -/
  isError : Bool
deriving DecidableEq, Repr

namespace Page

/-- Rows from strings. -/
def rows (strings : List String) : List Text := strings.map String.toList

/-- An attribute of a tag, with a space in front. -/
def attributeText (name : String) (value : Text) : Text :=
  ' ' :: name.toList ++ "=\"".toList ++ escapeText value ++ ['"']

/-- The rules of the cards and placeholders. -/
def styleRules : List Text := rows [
  "  html, body \x7b margin: 0; padding: 0; \x7d",
  "  body \x7b font-family: system-ui, -apple-system, \"Segoe UI\", Roboto, sans-serif; \x7d",
  "  .preview-error \x7b margin: 16px; padding: 16px; border: 1px solid #fca5a5; " ++
    "border-radius: 8px; background: #fef2f2; color: #7f1d1d; \x7d",
  "  .preview-error h2 \x7b margin: 0 0 8px; font-size: 16px; \x7d",
  "  .preview-error pre \x7b margin: 8px 0 0; white-space: pre-wrap; " ++
    "word-break: break-word; font-size: 12px; \x7d",
  "  .preview-error .preview-error-stack \x7b color: #991b1b; opacity: 0.8; " ++
    "max-height: 240px; overflow: auto; \x7d",
  "  [data-preview-stub] \x7b display: inline-block; padding: 4px 8px; " ++
    "border: 1px dashed #cbd5e1; border-radius: 4px; color: #64748b; font-size: 12px; \x7d"]

/-- The element of the style rules. -/
def styleRow : Text := "<style>\n".toList ++ Text.unlines styleRules ++ "</style>".toList

/-- The declaration of the encoding. -/
def charsetRow : Text := "<meta charset=\"UTF-8\" />".toList

/-- The title of every page. -/
def titleRow : Text := "<title>Preview</title>".toList

/-- A document with these rows in its head and in its body. -/
def document (head body : List Text) : Text :=
  Text.unlines (rows ["<!DOCTYPE html>", "<html lang=\"en\">", "<head>"] ++ head ++
    rows ["</head>", "<body>"] ++ body ++ rows ["</body>", "</html>"])

end Page

end LivePreview

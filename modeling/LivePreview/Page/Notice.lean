/-
Pages that show a failure.

Such a page runs no script.  Title and message stand between tags and are escaped, so
they are all that can differ from one notice to the next, apart from the name of the
element around them.
-/
import LivePreview.Options
import LivePreview.Page.Basic
import LivePreview.Page.RunId

namespace LivePreview.Page

/-- The rows of the card of a failure. -/
def card (title message rootId : Text) : List Text :=
  ["<div".toList ++ attributeText "id" rootId ++ ['>'],
    "<div class=\"preview-error\" role=\"alert\">".toList,
    "<h2>".toList ++ escapeText title ++ "</h2>".toList,
    "<pre class=\"preview-error-message\">".toList ++ escapeText message ++ "</pre>".toList,
    "</div>".toList,
    "</div>".toList]

/-- The page that shows a title and a message. -/
def notice (title message run : Text) (options : Options) : Page :=
  { html := document [charsetRow, titleRow, styleRow] (card title message options.rootElementId)
    runId := run
    componentName := []
    libraries := []
    isError := true }

/-- The page that shows why there is no page for a code. -/
def ofFailure [Platform] (failure : Failure) (token : Nat) (code : Text) (options : Options) :
    Page :=
  notice failure.title failure.message (runIdOf token code) options

end LivePreview.Page

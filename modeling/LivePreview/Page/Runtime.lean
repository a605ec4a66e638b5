/-
The scripts of a page that are not its code.

The first one runs before the code.  It reports what goes wrong to the host, once: the
first failure is shown on a card and posted with the name of the run, so that the host
can tell it from a failure of an earlier run.  It also makes the values that the prelude
binds.  The second one stands behind the code and mounts the component.
-/
import LivePreview.Platform
import LivePreview.Page.Basic

namespace LivePreview.Page

/-- What every message of a page to its host names as its source. -/
def messageSource : Text := "preview-harness".toList

/-! ### In front of the code -/

/-- The settings of a run. -/
def settings [Platform] (run : Text) (stubs : Bool) : List Text :=
  ["  window.__PREVIEW_RUN_ID__ = ".toList ++ Platform.jsonString run ++ [';'],
    "  var __PREVIEW_STUBS__ = ".toList ++ (toString stubs).toList ++ [';'],
    "  var __previewFailed = false;".toList]

/-- Report a failure to the host. -/
def reportFunction [Platform] : List Text := rows [
    "  function __previewReport(error, extraStack) \x7b",
    "    var message = (error && error.message) ? error.message : String(error);",
    "    var stack = (error && error.stack) ? String(error.stack) : \"\";",
    "    if (extraStack) \x7b stack = stack ? stack + \"\\n\" + extraStack : " ++
      "String(extraStack); \x7d",
    "    try \x7b"] ++
  ["      window.parent.postMessage(\x7b source: ".toList ++
    Platform.jsonString messageSource ++
    (", type: \"error\", runId: window.__PREVIEW_RUN_ID__, message: message, " ++
      "stack: stack \x7d, \"*\");").toList] ++ rows [
    "    \x7d catch (_) \x7b\x7d",
    "    return \x7b message: message, stack: stack \x7d;",
    "  \x7d"]

/-- Report the first failure and show it in place of the component. -/
def showFunction [Platform] (rootId : Text) : List Text := rows [
    "  function __previewShowError(title, error, extraStack) \x7b",
    "    if (__previewFailed) return;",
    "    __previewFailed = true;",
    "    var info = __previewReport(error, extraStack);"] ++
  ["    var root = document.getElementById(".toList ++ Platform.jsonString rootId ++
    ");".toList] ++ rows [
    "    if (root) root.style.display = \"none\";",
    "    var card = document.getElementById(\"preview-error\");",
    "    if (!card) return;",
    "    card.innerHTML = \"\";",
    "    var heading = document.createElement(\"h2\");",
    "    heading.textContent = title;",
    "    var message = document.createElement(\"pre\");",
    "    message.className = \"preview-error-message\";",
    "    message.textContent = info.message;",
    "    card.appendChild(heading);",
    "    card.appendChild(message);",
    "    if (info.stack) \x7b",
    "      var stack = document.createElement(\"pre\");",
    "      stack.className = \"preview-error-stack\";",
    "      stack.textContent = info.stack;",
    "      card.appendChild(stack);",
    "    \x7d",
    "    card.hidden = false;",
    "  \x7d"]

/-- Failures that nothing else catches. -/
def listeners : List Text := rows [
  "  window.addEventListener(\"error\", function (event) \x7b",
  "    __previewShowError(\"Runtime Error\", event.error || event.message);",
  "  \x7d);",
  "  window.addEventListener(\"unhandledrejection\", function (event) \x7b",
  "    __previewShowError(\"Unhandled Promise Rejection\", event.reason);",
  "  \x7d);"]

/-- A placeholder for a component. -/
def stubFunction : List Text := rows [
  "  function __previewStub(name) \x7b",
  "    var Stub = function (props) \x7b",
  "      return React.createElement(\"span\", \x7b \"data-preview-stub\": name \x7d, " ++
    "(props && props.children) || name);",
  "    \x7d;",
  "    Stub.displayName = name;",
  "    return Stub;",
  "  \x7d"]

/-- A placeholder for a module. -/
def stubModuleFunction : List Text := rows [
  "  function __previewStubModule(name) \x7b",
  "    return new Proxy(\x7b\x7d, \x7b get: function (_, key) \x7b " ++
    "return __previewStub(name + \".\" + String(key)); \x7d \x7d);",
  "  \x7d"]

/-- A part of a library. -/
def importFunction : List Text := rows [
  "  function __previewImport(global, name) \x7b",
  "    var mod = window[global];",
  "    if (name === \"*\") return mod || " ++
    "(__PREVIEW_STUBS__ ? __previewStubModule(global) : undefined);",
  "    if (name === \"default\") return mod && mod.__esModule && mod.default ? mod.default : mod;",
  "    if (mod && mod[name] !== undefined) return mod[name];",
  "    return __PREVIEW_STUBS__ ? __previewStub(name) : undefined;",
  "  \x7d"]

/-- The component around the mounted one, which catches its failures. -/
def boundaryClass : List Text := rows [
  "  class __PreviewErrorBoundary extends React.Component \x7b",
  "    constructor(props) \x7b",
  "      super(props);",
  "      this.state = \x7b failed: false \x7d;",
  "    \x7d",
  "    static getDerivedStateFromError() \x7b",
  "      return \x7b failed: true \x7d;",
  "    \x7d",
  "    componentDidCatch(error, info) \x7b",
  "      __previewShowError(\"Render Error\", error, info && info.componentStack);",
  "    \x7d",
  "    render() \x7b",
  "      return this.state.failed ? null : this.props.children;",
  "    \x7d",
  "  \x7d"]

/-- The script that runs before the code. -/
def runtime [Platform] (run rootId : Text) (stubs : Bool) : Text :=
  let parts := [settings run stubs, reportFunction, showFunction rootId, listeners, stubFunction,
    stubModuleFunction, importFunction, boundaryClass]
  '\n' :: Text.join ['\n'] (parts.map Text.unlines)

/-! ### Behind the code -/

/-- Mount a component. -/
def mountStatement [Platform] (component rootId : Text) : Text :=
  '\n' :: Text.unlines (rows ["try \x7b"] ++
    ["  const __previewContainer = document.getElementById(".toList ++
        Platform.jsonString rootId ++ ");".toList,
      ("  const __previewElement = React.createElement(__PreviewErrorBoundary, null, " ++
        "React.createElement(").toList ++ component ++ "));".toList] ++ rows [
    "  if (ReactDOM.createRoot) \x7b",
    "    ReactDOM.createRoot(__previewContainer).render(__previewElement);",
    "  \x7d else \x7b",
    "    ReactDOM.render(__previewElement, __previewContainer);",
    "  \x7d",
    "\x7d catch (error) \x7b",
    "  __previewShowError(\"Render Error\", error);",
    "\x7d"])

end LivePreview.Page

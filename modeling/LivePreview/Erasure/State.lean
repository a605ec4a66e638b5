/-
Where the eraser stands.

The eraser goes over a text once, front to back.  What it has to know about the part
behind it is kept in a list of modes, innermost first: code, a template, the inside of
a tag, or the children of an element.  Code in braces inside a template or markup is a
mode of its own, so leaving it returns to what was there before.

Code keeps a stack of brackets and the token in front.  A `:` directly inside round
brackets without a pending `?` can only open a type, and a `<` can only open markup
where an expression may start; these two facts carry most of the rules.

The output is kept last character first, which makes taking blanks off its end a
`dropWhile`.
-/
import LivePreview.Erasure.Report
import LivePreview.Script.TypeExtent

namespace LivePreview.Erasure

open Script

/-! ### Modes -/

/-- What opened the innermost bracket. -/
inductive FrameKind where
  /-- no bracket is open -/
  | root
  /-- round brackets; `parameters` tells that they may list the parameters of a function -/
  | round (parameters : Bool)
  | square
  | block
  | classBody
deriving DecidableEq, Repr

/-- A bracket that is open. -/
structure Frame where
  kind : FrameKind
  /-- question marks that still wait for their colon -/
  ternaries : Nat := 0
  /-- true inside a list of variable declarators -/
  declarators : Bool := false
deriving DecidableEq, Repr

/-- The token in front. -/
inductive Previous where
  | nothing
  | sign (c : Char)
  | arrow
  | word (w : Text)
  | value
deriving DecidableEq, Repr

/-- What is known about the code in front. -/
structure CodeMode where
  /-- the innermost open bracket -/
  top : Frame := ⟨.root, 0, false⟩
  /-- the brackets around it -/
  outer : List Frame := []
  previous : Previous := .nothing
  /-- true if a line ended since the token in front -/
  newline : Bool := true
  /-- true between a class header and its body -/
  header : Bool := false
deriving DecidableEq, Repr

/-- What the eraser is inside of. -/
inductive Mode where
  | code (m : CodeMode)
  | template
  /-- a tag behind its name -/
  | tag
  /-- an element behind its opening tag -/
  | children
deriving DecidableEq, Repr

/-- The eraser in the middle of a text. -/
structure Eraser where
  /-- the character in front, whether kept or not -/
  before : Option Char := none
  /-- what was not read yet -/
  rest : Text
  /-- what was kept, last character first -/
  out : Text := []
  report : ErasureReport := {}
  /-- innermost first -/
  modes : List Mode
deriving DecidableEq, Repr

namespace Eraser

/-- The last character in front of the end piece `rest`. -/
def lastBefore (e : Eraser) (rest : Text) : Option Char :=
  (Text.consumed e.rest rest).getLast?.or e.before

/-- Read up to `rest` and keep what was read. -/
def keep (e : Eraser) (rest : Text) : Eraser :=
  { e with
    before := e.lastBefore rest
    rest := rest
    out := (Text.consumed e.rest rest).reverse ++ e.out }

/-- Read up to `rest` and remove what was read, as a hit of `rule`. -/
def erase (e : Eraser) (rule : ErasureRule) (rest : Text) : Eraser :=
  { e with
    before := e.lastBefore rest
    rest := rest
    report := e.report.hit rule }

/-- Take the inline blanks off the end of the output. -/
def trimOut (e : Eraser) : Eraser := { e with out := e.out.dropWhile isInline }

/-- Write a text that was not read. -/
def write (e : Eraser) (s : Text) : Eraser := { e with out := s.reverse ++ e.out }

/-- Enter a mode. -/
def enter (e : Eraser) (mode : Mode) : Eraser := { e with modes := mode :: e.modes }

end Eraser

/-! ### Questions about the token in front -/

/-- Words after which `(` opens no parameter list. -/
def controlWords : List Text :=
  ["if", "for", "while", "switch", "catch", "with", "return", "typeof", "await", "yield", "in",
    "of", "void", "delete", "case", "do", "else", "new", "throw",
    "instanceof"].map String.toList

/-- Words after which an expression may start. -/
def expressionWords : List Text :=
  ["return", "yield", "await", "case", "default", "else", "in", "of", "typeof", "void", "do",
    "throw", "delete", "instanceof"].map String.toList

/-- Reserved words that are values. -/
def valueWords : List Text := ["this", "null", "true", "false"].map String.toList

/-- Functions whose arguments between angle brackets are types wherever they stand. -/
def hookNames : List Text :=
  ["useState", "useEffect", "useLayoutEffect", "useMemo", "useRef", "useCallback", "useContext",
    "createContext", "useReducer", "useImperativeHandle", "forwardRef", "memo", "createRef",
    "useId", "useTransition", "useDeferredValue"].map String.toList

namespace Previous

/-- True if an expression may start here. -/
def expressionMayStart : Previous → Bool
  | nothing | arrow => true
  | sign c => c != '.'
  | word w => expressionWords.contains w
  | value => false

/-- True if the token in front ends an expression. -/
def endsExpression : Previous → Bool
  | value => true
  | word w => !isReserved w || valueWords.contains w
  | _ => false

/-- True if a statement may start here. -/
def statementMayStart (newline : Bool) : Previous → Bool
  | nothing => true
  | sign c => c == ';' || c == '{' || c == '}'
  | value | word _ => newline
  | arrow => false

/-- True if round brackets opened here may list parameters. -/
def opensParameters : Previous → Bool
  | word w => !controlWords.contains w
  | _ => false

/-- True if the token in front is a word. -/
def isWord : Previous → Bool
  | word _ => true
  | _ => false

end Previous

/-- True of round brackets and class bodies, the places of parameters and fields. -/
def FrameKind.takesTypes : FrameKind → Bool
  | round _ | classBody => true
  | _ => false

namespace CodeMode

/-- The same code behind one more token. -/
def next (m : CodeMode) (previous : Previous) : CodeMode :=
  { m with previous := previous, newline := false }

/-- The same code inside one more bracket. -/
def push (m : CodeMode) (kind : FrameKind) : CodeMode :=
  { m with top := ⟨kind, 0, false⟩, outer := m.top :: m.outer }

/-- The same code behind the innermost bracket. -/
def pop (m : CodeMode) : CodeMode :=
  match m.outer with
  | frame :: outer => { m with top := frame, outer := outer }
  | [] => m

end CodeMode

end LivePreview.Erasure

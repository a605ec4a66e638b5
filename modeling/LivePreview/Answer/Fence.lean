/-
Fenced code in an answer.

An answer is prose with fenced blocks of code.  Reading goes line by line and keeps the
blocks; of the prose it keeps only the last path that was named, which is the name of
the next block.  An answer that starts with code is no prose with blocks: there the
fences belong to the code, and nothing is taken out.
-/
import LivePreview.Answer.Marker

namespace LivePreview.Answer

/-! ### Lines -/

/-- The line that opens a block. -/
structure Fence where
  /-- a backtick or a tilde -/
  sign : Char
  /-- number of signs -/
  length : Nat
  /-- the text behind the signs, trimmed -/
  info : Text
deriving DecidableEq, Repr

/-- The fence that a line is, if it is one. -/
def fence? (line : Text) : Option Fence :=
  match Text.skipInline line with
  | [] => none
  | c :: s =>
    let rest := s.dropWhile (· == c)
    let length := s.length - rest.length + 1
    if (c == '\x60' || c == '~') && 3 ≤ length && !rest.contains '\x60' then
      some ⟨c, length, Text.trimBy isInline rest⟩
    else none

/-- True if the line closes the block that `f` opened. -/
def Fence.closedBy (f : Fence) (line : Text) : Bool :=
  let signs := Text.trim line
  f.length ≤ signs.length && signs.all (· == f.sign)

/-- The words that can open a line of code. -/
def codeWords : List Text :=
  ["import", "export", "const", "let", "var", "function", "class",
    "interface"].map String.toList

/-- True if a line looks like code. -/
def looksLikeCode (line : Text) : Bool :=
  let s := Text.skipInline line
  let namesType := do
    let s ← (Text.after? "type".toList s).bind Text.spaces?
    let rest := s.dropWhile isWordChar
    if rest.length < s.length then Text.after? ['='] (Text.skipSpaces rest) else none
  let tag := match s with
    | '<' :: c :: _ => isAsciiLetter c
    | _ => false
  let ending := (Text.trimEndBy isInline line).getLast?.any fun c =>
    c == ';' || c == '{' || c == '}'
  codeWords.any (fun w => (Text.afterWord? w s).isSome) || namesType.isSome || tag || ending

/-- Tags of blocks that hold no script. -/
def otherLanguages : List Text :=
  ["bash", "sh", "shell", "zsh", "console", "terminal", "powershell", "ps", "cmd", "bat", "css",
    "scss", "sass", "less", "json", "jsonc", "html", "xml", "svg", "yaml", "yml", "toml", "ini",
    "env", "dotenv", "text", "txt", "plaintext", "markdown", "md", "diff", "sql", "graphql",
    "python", "py"].map String.toList

/-- The tag at the front of the text behind a fence. -/
def tagOf (info : Text) : Text := info.takeWhile fun c => !(isSpace c || c == '{' || c == ',')

/-- True if the text behind a fence names a language that is no script. -/
def namesOtherLanguage (info : Text) : Bool :=
  otherLanguages.contains (Text.lowerAscii (tagOf info))

/-! ### Blocks -/

/-- A block that is kept. -/
structure Block where
  /-- the file that the block is, if it was named -/
  path : Option Text
  body : List Text
deriving DecidableEq, Repr

/-- An answer that was read up to some line. -/
structure Reading where
  /-- the blocks that are kept, last one first -/
  blocks : List Block := []
  /-- the path that was named last and not used yet -/
  named : Option Text := none
  /-- true if some block was not blank -/
  hasContent : Bool := false
  /-- the block that is open, and its lines, last one first -/
  inside : Option (Fence × List Text) := none
deriving DecidableEq, Repr

namespace Reading

/-- Close the block that is open.  The path in its fence counts more than the one that
was named in front; a block with a path is kept whatever its language. -/
def close (r : Reading) : Reading :=
  match r.inside with
  | none => r
  | some (f, lines) =>
    let body := lines.reverse
    let content := r.hasContent || body.any fun line => !Text.isBlankText line
    let inInfo := pathIn? f.info
    let path := inInfo.or r.named
    let named := if inInfo.isSome then r.named else none
    let blocks := if path.isNone && namesOtherLanguage f.info then r.blocks
      else ⟨path, body⟩ :: r.blocks
    { blocks := blocks, named := named, hasContent := content, inside := none }

/-- Read one more line; `none` if the answer starts with code. -/
def readLine (r : Reading) (line : Text) : Option Reading :=
  match r.inside with
  | some (f, lines) =>
    if f.closedBy line then some r.close else some { r with inside := some (f, line :: lines) }
  | none =>
    match fence? line with
    | some f => some { r with inside := some (f, []) }
    | none =>
      if r.blocks.isEmpty && looksLikeCode line && (markerPath? line).isNone then none
      else some { r with named := (headingPath? line).or r.named }

end Reading

/-- The lines of a block, with a marker in front unless it starts with one. -/
def Block.lines (b : Block) : List Text :=
  match b.path with
  | none => b.body
  | some path =>
    let first := b.body.find? fun line => !Text.isBlankText line
    if (first.bind markerPath?).isSome then b.body else ("// ".toList ++ path) :: b.body

/-- The blocks of an answer; `none` if it starts with code or if no block holds anything. -/
def blocks? (text : Text) : Option (List Block) :=
  ((Text.fields '\n' text).foldlM Reading.readLine {}).bind fun r =>
    let r := r.close
    if r.hasContent then some r.blocks.reverse else none

end LivePreview.Answer

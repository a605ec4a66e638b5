/-
The libraries that a page can load.

A library is one or more scripts that put a value under a global name.  Code needs it if
it imports one of its modules, or if it mentions one of its tokens; so a page works even
where an import was left out.
-/
import LivePreview.Module.Import

namespace LivePreview

open Script

/-- A library that a page can load. -/
structure Library where
  name : Text
  /-- the sources of imports that name it -/
  modules : List Text
  /-- the global name that its scripts bind -/
  global : Text
  scripts : List Text
  /-- what code mentions only if it uses the library -/
  tokens : List Text
deriving DecidableEq, Repr

namespace Library

/-- A library from strings. -/
def ofStrings (name : String) (modules : List String) (global : String)
    (scripts tokens : List String) : Library :=
  ⟨name.toList, modules.map String.toList, global.toList, scripts.map String.toList,
    tokens.map String.toList⟩

/-- The libraries that are known, in the order in which they are loaded. -/
def all : List Library :=
  [ofStrings "recharts" ["recharts"] "Recharts"
      ["https://unpkg.com/prop-types@15/prop-types.min.js",
        "https://unpkg.com/recharts@2/umd/Recharts.js"]
      ["Recharts", "ResponsiveContainer", "LineChart", "BarChart", "AreaChart", "PieChart"],
    ofStrings "lodash" ["lodash", "lodash-es"] "_"
      ["https://unpkg.com/lodash@4/lodash.min.js"] ["_."],
    ofStrings "d3" ["d3"] "d3" ["https://unpkg.com/d3@7/dist/d3.min.js"] ["d3."],
    ofStrings "chart.js" ["chart.js", "chart.js/auto"] "Chart"
      ["https://unpkg.com/chart.js@4/dist/chart.umd.js"] ["new Chart("],
    ofStrings "axios" ["axios"] "axios"
      ["https://unpkg.com/axios@1/dist/axios.min.js"] ["axios."],
    ofStrings "dayjs" ["dayjs"] "dayjs" ["https://unpkg.com/dayjs@1/dayjs.min.js"] ["dayjs("],
    ofStrings "socket.io" ["socket.io-client"] "io"
      ["https://cdn.socket.io/4.7.5/socket.io.min.js"] ["io("],
    ofStrings "framer-motion" ["framer-motion"] "Motion"
      ["https://unpkg.com/framer-motion@10/dist/framer-motion.js"]
      ["<motion.", "AnimatePresence"],
    ofStrings "lucide" ["lucide-react"] "LucideReact"
      ["https://unpkg.com/lucide-react@0.294.0/dist/umd/lucide-react.js"] []]

/-- The library that a source of imports names. -/
def ofSource? (source : Text) : Option Library := all.find? fun l => l.modules.contains source

/-! ### Mentions -/

/-- True of a token that starts like a word, so that it can be the end of a longer one. -/
def startsLikeWord (token : Text) : Bool :=
  token.head?.any fun c => isAsciiLetter c || isAsciiDigit c || c == '_'

/-- True if the token stands in the text, which stands behind `before`. -/
def mentionedBehind (token : Text) : Option Char → Text → Bool
  | _, [] => false
  | before, c :: s =>
    let whole := !startsLikeWord token || !before.any isIdentChar
    (whole && (Text.after? token (c :: s)).isSome) || mentionedBehind token (some c) s

/-- True if the token stands in the code, and is not the end of a longer word there. -/
def mentions (code token : Text) : Bool := mentionedBehind token none code

/-- True if the code needs the library. -/
def isNeeded (code : Text) (imports : List Import) (l : Library) : Bool :=
  imports.any (fun i => l.modules.contains i.source) || l.tokens.any (mentions code)

/-- The libraries that the code needs. -/
def needed (code : Text) (imports : List Import) : List Library :=
  all.filter (isNeeded code imports)

end Library

end LivePreview

/-
The names that a program declares at its top level.

`Declared` takes a program apart into statements and tells the names that each of them declares: all
names in the patterns of a variable declaration, whichever of its declarators they are in, and the
names of functions, classes and enumerations.  Interfaces and aliases of types declare no value, and
neither does a statement that is an expression or, where no `var` stands in it, a block.

A statement that is ended by a line break could go on with a line that starts with a sign or a
bracket.  So no statement here starts like that, and the statements of two texts, one above the
other, are those of both: `Declared.newline`.
-/
import LivePreview.Program.Tree
import LivePreview.Proofs.Script.TypeGrammar
import LivePreview.Proofs.Syntax.Token

namespace LivePreview.Syntax

open Program (Pattern)
open Script (Bracket TypeText isReserved)

variable {d : Due} {s t : Text} {names later : List Text}

/-! ### Patterns -/

/-- True of the words that can name a binding. -/
def isBindingName (x : Text) : Bool :=
  x.head?.any (fun c => isNamePart c && !isAsciiDigit c) && x.all isNamePart && !isReserved x

/-- Blanks and comments. -/
inductive Gap : Text → Prop
  | nil : Gap []
  | cons {d : Due} {t s : Text} (ht : Token d .gap t d) (hs : Gap s) : Gap (t ++ s)

/-- The key of a property: a word, a string, or an expression in brackets. -/
inductive Key : Text → Prop
  | token {k : Kind} {t : Text} {d : Due} (hk : k ∈ [.word, .literal, .group .square])
      (ht : Token .operand k t d) : Key t

/-- An expression behind an equals sign. -/
inductive Initialiser : Text → Prop
  | given {s : Text} (hfront : s.head? ≠ some '=') (hfront' : s.head? ≠ some '>')
      (hs : Expression .operand s) : Initialiser ('=' :: s)

mutual

/-- What a declaration binds: a name, an object or an array. -/
inductive Target : Pattern → Text → Prop
  | name {x : Text} (hx : isBindingName x = true) : Target (.name x) x
  | object {ps : List Pattern} {s : Text} (hs : Fields ps s) :
      Target (.object ps) ('{' :: (s ++ ['}']))
  | array {ps : List Pattern} {s : Text} (hs : Elements ps s) :
      Target (.array ps) ('[' :: (s ++ [']']))

/-- A target, with or without a value for the case that there is none. -/
inductive Element : Pattern → Text → Prop
  | plain {p : Pattern} {t : Text} (ht : Target p t) : Element p t
  | withDefault {p : Pattern} {t g s : Text} (ht : Target p t) (hg : Gap g) (hs : Initialiser s) :
      Element (.withDefault p) (t ++ (g ++ s))

/-- A property in the pattern of an object. -/
inductive Field : Pattern → Text → Prop
  /-- a name, which is the key as well -/
  | short {x : Text} (hx : isBindingName x = true) : Field (.name x) x
  | shortWithDefault {x g s : Text} (hx : isBindingName x = true) (hg : Gap g)
      (hs : Initialiser s) : Field (.withDefault (.name x)) (x ++ (g ++ s))
  | keyed {p : Pattern} {k g g' t : Text} (hk : Key k) (hg : Gap g) (hg' : Gap g')
      (ht : Element p t) : Field p (k ++ (g ++ ':' :: (g' ++ t)))
  | rest {p : Pattern} {t : Text} (ht : Target p t) : Field (.rest p) ("...".toList ++ t)

/-- What stands between the braces of a pattern. -/
inductive Fields : List Pattern → Text → Prop
  | done {g : Text} (hg : Gap g) : Fields [] g
  | last {p : Pattern} {g t g' : Text} (hg : Gap g) (ht : Field p t) (hg' : Gap g') :
      Fields [p] (g ++ (t ++ g'))
  | next {p : Pattern} {ps : List Pattern} {g t g' s : Text} (hg : Gap g) (ht : Field p t)
      (hg' : Gap g') (hs : Fields ps s) : Fields (p :: ps) (g ++ (t ++ (g' ++ ',' :: s)))

/-- What stands between the brackets of a pattern. -/
inductive Elements : List Pattern → Text → Prop
  | done {g : Text} (hg : Gap g) : Elements [] g
  | hole {ps : List Pattern} {g s : Text} (hg : Gap g) (hs : Elements ps s) :
      Elements (.hole :: ps) (g ++ ',' :: s)
  | rest {p : Pattern} {g t g' : Text} (hg : Gap g) (ht : Target p t) (hg' : Gap g') :
      Elements [.rest p] (g ++ ("...".toList ++ (t ++ g')))
  | last {p : Pattern} {g t g' : Text} (hg : Gap g) (ht : Element p t) (hg' : Gap g') :
      Elements [p] (g ++ (t ++ g'))
  | next {p : Pattern} {ps : List Pattern} {g t g' s : Text} (hg : Gap g) (ht : Element p t)
      (hg' : Gap g') (hs : Elements ps s) : Elements (p :: ps) (g ++ (t ++ (g' ++ ',' :: s)))

end

/-! ### Statements that declare -/

/-- The type of what is declared, or nothing. -/
inductive Annotation : Text → Prop
  | none : Annotation []
  | type {g g' t : Text} (hg : Gap g) (hg' : Gap g') (ht : TypeText .whole t) :
      Annotation (g ++ ':' :: (g' ++ t))

/-- What is declared between two commas, with the names that are bound. -/
inductive Declarator : Text → List Text → Prop
  | plain {p : Pattern} {g t a g' : Text} (hg : Gap g) (ht : Target p t) (ha : Annotation a)
      (hg' : Gap g') : Declarator (g ++ (t ++ (a ++ g'))) p.bound
  | initialised {p : Pattern} {g t a g' s : Text} (hg : Gap g) (ht : Target p t)
      (ha : Annotation a) (hg' : Gap g') (hs : Initialiser s) :
      Declarator (g ++ (t ++ (a ++ (g' ++ s)))) p.bound

/-- One or more declarators. -/
inductive Declarators : Text → List Text → Prop
  | last {t : Text} {names : List Text} (ht : Declarator t names) : Declarators t names
  | next {t s : Text} {names later : List Text} (ht : Declarator t names)
      (hs : Declarators s later) : Declarators (t ++ ',' :: s) (names ++ later)

/-- The words in front of the name of a function or class. -/
inductive Front : Text → Prop
  | function : Front "function".toList
  | generator {g : Text} (hg : Gap g) : Front ("function".toList ++ (g ++ ['*']))
  | classDecl : Front "class".toList
  | worded {w u t : Text} (hw : w = "async".toList ∨ w = "abstract".toList) (hne : u ≠ [])
      (hu : ∀ c ∈ u, isInline c = true) (ht : Front t) : Front (w ++ (u ++ t))

/-- What stands behind the name of a function or class, up to the end of its body. -/
inductive HeadText : Text → Prop
  | body {t : Text} (ht : Token (.head true) (.group .curly) t .statement) : HeadText t
  | cons {k : Kind} {t s : Text} (ht : Token (.head true) k t (.head true)) (hapart : Apart t s)
      (hs : HeadText s) : HeadText (t ++ s)

/-- A declaration that its last brace ends. -/
inductive Item : Text → List Text → Prop
  | headed {w g x s : Text} (hw : Front w) (hg : Gap g) (hx : isBindingName x = true)
      (hapart : Apart w (g ++ x)) (hapart' : Apart x s) (hs : HeadText s) :
      Item (w ++ (g ++ (x ++ s))) [x]
  | enumeration {w g x g' t : Text} (hw : w = "enum".toList ∨ w = "const enum".toList)
      (hg : Gap g) (hne : g ≠ []) (hx : isBindingName x = true) (hg' : Gap g')
      (ht : Token .statement (.group .curly) t .statement) : Item (w ++ (g ++ (x ++ (g' ++ t)))) [x]
  | interface {g x s : Text} (hg : Gap g) (hne : g ≠ []) (hx : isBindingName x = true)
      (hapart : Apart x s) (hs : HeadText s) : Item ("interface".toList ++ (g ++ (x ++ s))) []

/-- A statement that the end of its line, a semicolon or a comment ends. -/
inductive Line : Text → List Text → Prop
  | variables {w s : Text} {names : List Text}
      (hw : w ∈ ["const".toList, "let".toList, "var".toList]) (hapart : Apart w s)
      (hs : Declarators s names) : Line (w ++ s) names
  | alias {g x ps g' g'' t : Text} (hg : Gap g) (hne : g ≠ []) (hx : isBindingName x = true)
      (hps : ps = [] ∨ ∃ qs, ps = '<' :: qs ∧ TypeText (.parameters false) qs) (hg' : Gap g')
      (hg'' : Gap g'') (ht : TypeText .whole t) :
      Line ("type".toList ++ (g ++ (x ++ (ps ++ (g' ++ '=' :: (g'' ++ t)))))) []
  | expression {t : Text} (ht : Expression .operand t) (hstart : startsLine t = true) : Line t []

/-! ### Programs -/

/-- A word stands somewhere in a text. -/
def HoldsWord (w t : Text) : Prop :=
  ∃ u v, t = u ++ (w ++ v) ∧ (∀ c ∈ u.getLast?, isNamePart c = false) ∧ Text.Stops isNamePart v

/-- A token that stands between statements, or is a part of one that declares nothing: the words and
the condition of control flow, and a block.  `var` would declare from inside of brackets too. -/
def Due.passes : Due → Kind → Text → Prop
  | .statement, .gap, _ | .condition, .gap, _ | .statement, .semicolon, _ => True
  | .statement, .word, w => w ∈ conditionWords ++ branchWords
  | .condition, .word, w => w = "await".toList
  | .statement, .group .curly, t => ¬HoldsWord "var".toList t
  | .condition, .group b, t => b ≠ .square ∧ ¬HoldsWord "var".toList t
  | _, _, _ => False

/-- A statement can end in front of the text. -/
def Ends (s : Text) : Prop := ∀ c ∈ s.head?, c = '\n' ∨ c = ';' ∨ ['/', '/'] <+: s

/-- The names that a program declares, in order; in front of it `d` is due. -/
inductive Declared : Due → Text → List Text → Prop
  | done : Declared .statement [] []
  | comment {body : Text} (hbody : '\n' ∉ body) : Declared .statement ('/' :: '/' :: body) []
  | pass {d d' : Due} {k : Kind} {t s : Text} {names : List Text} (ht : Token d k t d')
      (hpass : d.passes k t) (hapart : Apart t s) (hs : Declared d' s names) :
      Declared d (t ++ s) names
  | item {t s : Text} {names later : List Text} (ht : Item t names)
      (hs : Declared .statement s later) : Declared .statement (t ++ s) (names ++ later)
  | line {t s : Text} {names later : List Text} (ht : Line t names) (hend : Ends s)
      (hs : Declared .statement s later) : Declared .statement (t ++ s) (names ++ later)

theorem apart_nil (t : Text) : Apart t [] := fun _ _ _ h => nomatch h

/-- Blanks keep apart what is on both sides of them. -/
theorem apart_front {c : Char} (hc : c ∈ [' ', '\n']) (t s : Text) : Apart t (c :: s) := by
  intro c₁ _ c₂ hc₂
  obtain rfl := Option.some.inj hc₂
  fin_cases hc <;> exact ⟨fun _ => rfl, fun _ => rfl, fun _ => by decide⟩

theorem apart_behind {c : Char} (hc : c ∈ [' ', '\n']) (t s : Text) : Apart (t ++ [c]) s := by
  intro c₁ hc₁ c₂ _
  rw [List.getLast?_concat] at hc₁
  obtain rfl := Option.some.inj hc₁
  fin_cases hc <;> exact ⟨fun h => absurd h (by decide), fun h => absurd h (by decide),
    fun h => absurd h (by decide)⟩

theorem Apart.append_newline (h : Apart t s) (rest : Text) : Apart t (s ++ '\n' :: rest) := by
  cases s with
  | nil => exact apart_front (by simp) t rest
  | cons c s => exact h

theorem Ends.append_newline (h : Ends s) (rest : Text) : Ends (s ++ '\n' :: rest) := by
  cases s with
  | nil =>
    intro c hc
    exact .inl (Option.some.inj hc).symm
  | cons c s =>
    intro c' hc'
    obtain hline | hsemicolon | hcomment := h c' hc'
    · exact .inl hline
    · exact .inr (.inl hsemicolon)
    · exact .inr (.inr (hcomment.trans (List.prefix_append _ _)))

/-- A line break can be passed over. -/
theorem Declared.behind_newline (h : Declared .statement s names) :
    Declared .statement ('\n' :: s) names :=
  .pass (t := ['\n']) (.blank rfl) trivial (apart_behind (by simp) [] s) h

/-- **Two programs, one above the other, declare what each of them declares.** -/
theorem Declared.newline (hs : Declared d s names) (ht : Declared .statement t later) :
    Declared d (s ++ '\n' :: t) (names ++ later) := by
  induction hs with
  | done => exact ht.behind_newline
  | @comment body hbody =>
    have htext : '/' :: '/' :: body ++ '\n' :: t = '/' :: '/' :: (body ++ ['\n']) ++ t := by simp
    rw [htext]
    exact .pass (.lineComment hbody) trivial (apart_behind (by simp) ('/' :: '/' :: body) t) ht
  | pass htoken hpass hapart _ ih =>
    rw [List.append_assoc]
    exact .pass htoken hpass (hapart.append_newline t) ih
  | item hitem _ ih =>
    rw [List.append_assoc, List.append_assoc]
    exact .item hitem ih
  | line hline hend _ ih =>
    rw [List.append_assoc, List.append_assoc]
    exact .line hline (hend.append_newline t) ih

/-! ### Declarations with a given name -/

theorem gap_space : Gap [' '] := .cons (d := .statement) (t := [' ']) (.blank rfl) .nil

/-- A name ends where no character of a name follows. -/
theorem apart_of_stops {x : Text} (hx : isBindingName x = true) (hs : Text.Stops isNamePart s) :
    Apart x s := by
  intro c hc c' hc'
  have hpart : isNamePart c = true := by
    rw [isBindingName, Bool.and_eq_true, Bool.and_eq_true] at hx
    exact List.all_eq_true.mp hx.1.2 c (List.mem_of_getLast? hc)
  have hsign : isSignChar c = false := by
    by_contra hsign
    have hmem : c ∈ signChars := by simpa [isSignChar] using hsign
    have hnone : signChars.all (fun c => !isNamePart c) = true := by decide
    simpa [hpart] using List.all_eq_true.mp hnone c hmem
  refine ⟨fun _ => hs c' hc', fun h => ?_, ?_⟩
  · rw [hsign] at h
    cases h
  · rintro rfl
    exact absurd hpart (by decide)

/-- **A constant that is set to an expression declares its name.** -/
theorem Declared.constant {x : Text} (hx : isBindingName x = true) (ht : Expression .operand t)
    (hend : Ends s) (hs : Declared .statement s names) :
    Declared .statement ("const ".toList ++ (x ++ (" = ".toList ++ (t ++ s)))) (x :: names) := by
  have hvalue : Expression .operand (' ' :: t) := .cons (.blank rfl) rfl (apart_behind (by simp) [] t) ht
  have hinitialiser : Initialiser ('=' :: (' ' :: t)) := .given (by simp) (by simp) hvalue
  have hdeclarator : Declarator ([' '] ++ (x ++ ([] ++ ([' '] ++ '=' :: (' ' :: t))))) [x] :=
    .initialised gap_space (.name hx) .none gap_space hinitialiser
  have hline : Line ("const".toList ++ ([' '] ++ (x ++ ([] ++ ([' '] ++ '=' :: (' ' :: t)))))) [x] :=
    .variables (by simp) (apart_front (by simp) _ _) (.last hdeclarator)
  have htext : "const ".toList ++ (x ++ (" = ".toList ++ (t ++ s)))
      = "const".toList ++ ([' '] ++ (x ++ ([] ++ ([' '] ++ '=' :: (' ' :: t))))) ++ s := by
    have hconst : "const ".toList = "const".toList ++ [' '] := rfl
    have hequals : " = ".toList = [' ', '=', ' '] := rfl
    rw [hconst, hequals]
    simp only [List.append_assoc, List.cons_append, List.nil_append]
  rw [htext]
  exact .line hline hend hs

/-- **A function or class that gets a name declares it.** -/
theorem Declared.headed {w x : Text} (hw : Front w) (hx : isBindingName x = true) (hapart : Apart x t)
    (ht : HeadText t) (hs : Declared .statement s names) :
    Declared .statement (w ++ ' ' :: (x ++ (t ++ s))) (x :: names) := by
  have hitem : Item (w ++ ([' '] ++ (x ++ t))) [x] :=
    .headed hw gap_space hx (apart_front (by simp) _ _) hapart ht
  have htext : w ++ ' ' :: (x ++ (t ++ s)) = w ++ ([' '] ++ (x ++ t)) ++ s := by
    simp only [List.append_assoc, List.cons_append, List.nil_append]
  rw [htext]
  exact .item hitem hs

end LivePreview.Syntax

/-
Forms of declarations, as programs and as they are found without a syntax tree.

A declaration of one of the forms starts with its word and its name, and with what stands behind the
name: the class that is extended, or the head of the value.  The scan for declarations goes by these
heads alone, and a syntax tree has the form as a whole.  So each form has two declarations, the one
of its syntax tree and the one that is found.  They are spelled out here, and with them the
condition under which they are the same.
-/
import LivePreview.Declaration.Collect
import LivePreview.Proofs.Declaration.Lookahead
import LivePreview.Proofs.Script.TypeGrammarReading

namespace LivePreview

open Script Program
open Text (Stops)

variable {s t u v w x b r rest : Text}

/-! ### Dotted names -/

namespace Script.TypePath

variable (path : TypePath)

/-- The last of the words. -/
def last : Text := path.further.getLast?.getD path.first

/-- In front of the last word stands nothing, or a dot behind the words before. -/
theorem exists_front : ∃ front, path.text = front ++ path.last ∧
    (front = [] ∨ ∃ more, front = more ++ ['.']) := by
  obtain ⟨first, further, hfirst, hfurther⟩ := path
  rcases List.eq_nil_or_concat further with rfl | ⟨words, w, rfl⟩
  · exact ⟨[], List.append_nil first, Or.inl rfl⟩
  · refine ⟨first ++ dottedWords words ++ ['.'], ?_, Or.inr ⟨_, rfl⟩⟩
    simp [text, last, dottedWords]

theorem last_isWord : IsWord path.last := by
  unfold last
  cases hlast : path.further.getLast? with
  | none => exact path.first_isWord
  | some w => exact path.further_isWord w (List.mem_of_getLast? hlast)

theorem dot_not_mem_last : '.' ∉ path.last :=
  fun h => absurd (path.last_isWord.identChars _ h) (by decide)

end Script.TypePath

namespace Program

/-- A dotted name as an expression. -/
def pathExpr (path : TypePath) : Expr := path.further.foldl Expr.member (.name path.first)

/-- A dotted name is called and extended by its last word. -/
theorem isKnownAs_pathExpr (names : List Text) (path : TypePath) :
    (pathExpr path).isKnownAs names = names.contains path.last := by
  have hknown : (pathExpr path).knownAs = some path.last := by
    obtain ⟨first, further, hfirst, hfurther⟩ := path
    rcases List.eq_nil_or_concat further with rfl | ⟨words, w, rfl⟩
    · rfl
    · simp [pathExpr, TypePath.last, Expr.knownAs]
  rw [Expr.isKnownAs, hknown]
  rfl

end Program

namespace Declaration

theorem lastPart_path (path : TypePath) : lastPart path.text = path.last := by
  obtain ⟨front, htext, hfront⟩ := path.exists_front
  have hplain : ∀ c ∈ path.last.reverse, (c != '.') = true := by
    intro c hc
    rw [bne_iff_ne]
    rintro rfl
    exact path.dot_not_mem_last (List.mem_reverse.mp hc)
  have hstops : Stops (· != '.') front.reverse := by
    obtain rfl | ⟨more, rfl⟩ := hfront
    · exact Text.stops_nil _
    · rw [List.reverse_append]
      exact Text.stops_cons.mpr rfl
  rw [lastPart, htext, List.reverse_append, Text.takeWhile_append hplain hstops, List.reverse_reverse]

/-- An ending without a dot belongs to the last word of a dotted name. -/
theorem hasEnding_path {ending : Text} (hdot : '.' ∉ ending) (path : TypePath) :
    hasEnding ending path.text = hasEnding ending path.last := by
  have hdot : '.' ∉ ending.reverse := fun h => hdot (List.mem_reverse.mp h)
  obtain ⟨front, htext, rfl | ⟨more, rfl⟩⟩ := path.exists_front
  · rw [htext, List.nil_append]
  · rw [hasEnding, htext, List.reverse_append, List.reverse_append, List.reverse_singleton,
      List.singleton_append, Text.after?_append_cons hdot, Option.isSome_map, hasEnding]

/-! ### Words -/

/-- A word stands at the front, and behind it the rest. -/
structure WordAt (w s t : Text) : Prop where
  isWord : IsWord w
  text : s = w ++ t
  stops : Stops isIdentChar t

namespace WordAt

theorem word? (h : WordAt w s t) : word? s = some w := by
  rw [h.text, h.isWord.word?_append h.stops]

theorem skipIdent (h : WordAt w s t) : skipIdent s = t := by
  rw [h.text, h.isWord.skipIdent_append h.stops]

theorem afterKeyword? (h : WordAt w s t) : afterKeyword? w s = some t := by
  rw [Script.afterKeyword?, h.word?, if_pos rfl, h.skipIdent]

theorem afterKeyword?_of_ne (h : WordAt w s t) {v : Text} (hv : w ≠ v) :
    Script.afterKeyword? v s = none := by
  rw [Script.afterKeyword?, h.word?, if_neg (by simpa using hv)]

theorem exists_cons (h : WordAt w s t) : ∃ c v, s = c :: v ∧ isIdentStart c = true := by
  obtain ⟨c, v, hw, hc⟩ := h.isWord.head
  exact ⟨c, v ++ t, by rw [h.text, hw, List.cons_append], hc⟩

end WordAt

/-! ### Values of variables -/

/-- What a variable is set to. -/
inductive Value where
  | arrow
  | function
  /-- an expression in round brackets -/
  | parens (e : Expr)
  /-- a call of a component wrapper -/
  | wrapped (wrapper : TypePath) (isWrapper : wrapper.last ∈ componentWrappers) (values : List Expr)
  /-- any expression, as it is written and as it is read -/
  | other (text : Text) (e : Expr)

/-- Behind blanks, and perhaps behind the word for what is asynchronous. -/
inductive AsyncTo (s : Text) : Text → Prop
  | plain : AsyncTo s (Text.skipBlanks s)
  | async {u : Text} (hasync : WordAt "async".toList (Text.skipBlanks s) u) :
      AsyncTo s (Text.skipBlanks u)

namespace Value

/-- The syntax tree of a value. -/
def expr : Value → Expr
  | .arrow => .arrow
  | .function => .function
  | .parens e => .parens e
  | .wrapped wrapper _ values => .call (pathExpr wrapper) values
  | .other _ e => e

/-- True if the value is taken for a function where there is no tree. -/
def looksLikeFunction : Value → Bool
  | .arrow | .function | .wrapped _ _ _ => true
  | .parens _ => false
  | .other text _ => startsFunction text

/-- The text starts with a value of the form. -/
inductive At (s : Text) : Value → Prop
  | arrowOfName {v x t b : Text} (hstart : AsyncTo s v) (hx : WordAt x v t)
      (hplain : x ∉ ["async".toList, "function".toList]) (harrow : Text.skipBlanks t = '=' :: '>' :: b) :
      At s .arrow
  | arrowOfGroup {t b : Text} (g : BracketGroup) (hround : g.bracket = .round)
      (hstart : AsyncTo s (g.text ++ t)) (harrow : Text.skipBlanks t = '=' :: '>' :: b) : At s .arrow
  | function {v t : Text} (hstart : AsyncTo s v) (hv : WordAt "function".toList v t) : At s .function
  | parens {t : Text} {e : Expr} (g : BracketGroup) (hround : g.bracket = .round)
      (hstart : Text.skipBlanks s = g.text ++ t) (hend : ∀ b, Text.skipBlanks t ≠ '=' :: '>' :: b) :
      At s (.parens e)
  | wrapped {path : TypePath} {t g : Text} {values : List Expr}
      (hpath : Text.skipBlanks s = path.text ++ t) (hstop : Stops isPathChar t)
      (hplain : path.first ∉ ["async".toList, "function".toList])
      (hwrapper : path.last ∈ componentWrappers) (hround : Text.skipBlanks t = '(' :: g) :
      At s (.wrapped path hwrapper values)
  | other {e : Expr} : At s (.other (Text.skipBlanks s) e)

end Value

/-! ### Values without a tree -/

/-- A class without blanks stops in front of what it stops at behind them. -/
theorem stops_of_skipBlanks {q : Char → Bool} {c : Char} (h : Text.skipBlanks s = c :: t)
    (hc : q c = false) (hq : ∀ c, isBlank c = true → q c = false) : Stops q s := by
  cases s with
  | nil => exact Text.stops_nil q
  | cons d s =>
    refine Text.stops_cons.mpr ?_
    by_cases hd : isBlank d = true
    · exact hq d hd
    · rw [Text.skipBlanks, List.dropWhile_cons_of_neg hd] at h
      rw [(List.cons.inj h).1]
      exact hc

theorem isPathChar_eq_false_of_isBlank {c : Char} (hc : isBlank c = true) : isPathChar c = false := by
  by_contra hpath
  rw [Bool.not_eq_false, isPathChar, Bool.or_eq_true, beq_iff_eq] at hpath
  obtain hident | rfl := hpath
  · rw [isBlank_eq_false_of_identChar hident] at hc
    cases hc
  · cases hc

/-- Behind the word for what is asynchronous the same function starts for the scan. -/
theorem functionStart_of_asyncTo (h : AsyncTo s v)
    (hasync : afterKeyword? "async".toList v = none) : functionStart (Text.skipBlanks s) = v := by
  cases h with
  | plain => rw [functionStart, hasync]
  | async hword => rw [functionStart, hword.afterKeyword?]

theorem startsFunction_word (h : AsyncTo s v) (hv : WordAt w v t) (hasync : w ≠ "async".toList) :
    startsFunction (Text.skipBlanks s) = if w = "function".toList then true else startsArrow v := by
  rw [startsFunction_eq, functionStart_of_asyncTo h (hv.afterKeyword?_of_ne hasync), hv.word?]
  simp only [Option.some.injEq]

theorem startsFunction_group {g : BracketGroup} (hround : g.bracket = .round)
    (h : AsyncTo s (g.text ++ t)) : startsFunction (Text.skipBlanks s) = arrowFollows t := by
  have hclosed := g.afterGroup?_text t
  have htext : g.text ++ t = '(' :: (g.body ++ [')'] ++ t) := by
    rw [BracketGroup.text, hround]
    rfl
  rw [htext] at h hclosed
  have hstops : Stops isIdentStart ('(' :: (g.body ++ [')'] ++ t)) := Text.stops_cons.mpr rfl
  rw [startsFunction_eq, functionStart_of_asyncTo h (afterKeyword?_of_stops hstops),
    word?_of_stops hstops, if_neg (by simp), startsArrow, if_pos rfl, hclosed, Option.any_some]

theorem arrowFollows_of_skipBlanks (h : Text.skipBlanks t = '=' :: '>' :: b) :
    arrowFollows t = true := by
  rw [arrowFollows, h]
  rfl

theorem arrowFollows_eq_false (h : ∀ b, Text.skipBlanks t ≠ '=' :: '>' :: b) :
    arrowFollows t = false := by
  by_contra hfollows
  rw [Bool.not_eq_false, arrowFollows, Option.isSome_iff_exists] at hfollows
  obtain ⟨b, hafter⟩ := hfollows
  exact h b (Text.eq_append_of_after? hafter)

/-- A dotted name opens a function in front of an arrow, or in front of a bracket if it is a
wrapper. -/
theorem startsArrow_path {path : TypePath} (h : s = path.text ++ t) (ht : Stops isPathChar t) :
    startsArrow s = ((componentWrappers.contains path.last && (Text.skipBlanks t).head? == some '(') ||
      arrowFollows t) := by
  have hrest := path.dottedRest_text ht
  rw [← h] at hrest
  obtain ⟨c, v, hs, hc⟩ : ∃ c v, s = c :: v ∧ isIdentStart c = true := by
    obtain ⟨c, v, hfirst, hc⟩ := path.first_isWord.head
    exact ⟨c, v ++ (dottedWords path.further ++ t), by
      rw [h, path.text_append, hfirst, List.cons_append], hc⟩
  have hround : c ≠ '(' := by
    rintro rfl
    cases hc
  have hcallee : Text.consumed s t = path.text := by rw [h, Text.consumed_append]
  subst hs
  rw [startsArrow]
  dsimp only
  rw [if_neg hround, if_pos hc, hrest, hcallee, lastPart_path]

theorem startsArrow_name (h : WordAt x s t) (ht : Stops isPathChar t) :
    startsArrow s = ((componentWrappers.contains x && (Text.skipBlanks t).head? == some '(') ||
      arrowFollows t) := by
  have hs : s = TypePath.text ⟨x, [], h.isWord, List.forall_mem_nil _⟩ ++ t := by
    rw [TypePath.text_append]
    exact h.text
  exact startsArrow_path hs ht

/-- A dotted name starts with its first word. -/
theorem wordAt_path {path : TypePath} (h : s = path.text ++ t) (ht : Stops isPathChar t) :
    WordAt path.first s (dottedWords path.further ++ t) := by
  refine ⟨path.first_isWord, by rw [h, path.text_append], ?_⟩
  cases path.further with
  | nil => exact stops_isIdentChar ht
  | cons w ws => exact Text.stops_cons.mpr (by decide)

/-- **A value looks like a function or not by its head alone.** -/
theorem Value.At.startsFunction {value : Value} (h : value.At s) :
    startsFunction (Text.skipBlanks s) = value.looksLikeFunction := by
  cases h with
  | @arrowOfName v x t b hstart hx hplain harrow =>
    simp only [List.mem_cons, List.not_mem_nil, or_false, not_or] at hplain
    have hstops : Stops isPathChar t :=
      stops_of_skipBlanks harrow rfl fun c => isPathChar_eq_false_of_isBlank
    rw [startsFunction_word hstart hx hplain.1, if_neg hplain.2, startsArrow_name hx hstops,
      arrowFollows_of_skipBlanks harrow, Bool.or_true]
    rfl
  | arrowOfGroup g hround hstart harrow =>
    rw [startsFunction_group hround hstart, arrowFollows_of_skipBlanks harrow]
    rfl
  | function hstart hv =>
    rw [startsFunction_word hstart hv (by decide), if_pos rfl]
    rfl
  | parens g hround hstart hend =>
    have hasync : AsyncTo s (Text.skipBlanks s) := .plain
    rw [hstart] at hasync
    rw [startsFunction_group hround hasync, arrowFollows_eq_false hend]
    rfl
  | wrapped hpath hstop hplain hwrapper hround =>
    simp only [List.mem_cons, List.not_mem_nil, or_false, not_or] at hplain
    have hcontains : componentWrappers.contains _ = true := List.contains_iff_mem.mpr hwrapper
    rw [startsFunction_word .plain (wordAt_path hpath hstop) hplain.1, if_neg hplain.2,
      startsArrow_path hpath hstop, hcontains, hround]
    rfl
  | other => rfl

/-! ### Declarations -/

/-- The words that declare variables. -/
def variableWords : List Text := ["const".toList, "let".toList, "var".toList]

/-- A declaration. -/
inductive Form where
  | function (name : Text)
  | classDecl (name : Text) (parent : Option TypePath)
  | binding (name : Text) (hoisted : Bool) (value : Value)

namespace Form

/-- The declared name. -/
def name : Form → Text
  | .function name => name
  | .classDecl name _ => name
  | .binding name _ _ => name

/-- The syntax tree of a declaration. -/
def statement : Form → Statement
  | .function name => .function name
  | .classDecl name parent => .classDecl name (parent.map pathExpr)
  | .binding name hoisted value => .bindings hoisted [(.name name, some value.expr)]

/-- What a declaration is by its syntax tree. -/
def declared : Form → Declaration
  | .function name => ⟨name, .function⟩
  | .classDecl name parent =>
    ⟨name, .classDecl (parent.any fun path => componentClasses.contains path.last)⟩
  | .binding name _ value => ⟨name, if value.expr.isComponent then .functionBinding else .binding⟩

/-- What a declaration is taken for where there is no tree. -/
def found : Form → Declaration
  | .function name => ⟨name, .function⟩
  | .classDecl name parent =>
    ⟨name, .classDecl (parent.any fun path => hasEnding "Component".toList path.last)⟩
  | .binding name _ value => ⟨name, if value.looksLikeFunction then .functionBinding else .binding⟩

/-- The text starts with the head of a declaration, and `u` is what stands behind its first word. -/
inductive At (s u : Text) : Form → Prop
  | function {name t g : Text} (hword : WordAt "function".toList s u)
      (hname : WordAt name (Text.skipBlanks u) t) (hround : Text.skipBlanks t = '(' :: g) :
      At s u (.function name)
  | classDecl {name t b : Text} (hword : WordAt "class".toList s u)
      (hname : WordAt name (Text.skipBlanks u) t) (hbrace : Text.skipBlanks t = '{' :: b) :
      At s u (.classDecl name none)
  | derived {name t v w b : Text} {parent : TypePath} (hword : WordAt "class".toList s u)
      (hname : WordAt name (Text.skipBlanks u) t)
      (hextends : WordAt "extends".toList (Text.skipBlanks t) v)
      (hparent : Text.skipBlanks v = parent.text ++ w) (hstop : Stops isPathChar w)
      (hbrace : Text.skipBlanks w = '{' :: b) : At s u (.classDecl name (some parent))
  | binding {word name t v : Text} {hoisted : Bool} {value : Value} (hword : WordAt word s u)
      (hvariable : word ∈ variableWords) (hhoisted : hoisted = true ↔ word = "var".toList)
      (hname : WordAt name (Text.skipBlanks u) t) (hequals : Text.skipBlanks t = '=' :: v)
      (hsingle : v.head? ≠ some '=') (hvalue : value.At v) : At s u (.binding name hoisted value)

theorem ofStatement_statement (form : Form) : ofStatement form.statement = [form.declared] := by
  cases form with
  | function name => rfl
  | classDecl name parent =>
    cases parent with
    | none => rfl
    | some path =>
      show [(⟨name, .classDecl ((pathExpr path).isKnownAs componentClasses)⟩ : Declaration)] = _
      rw [isKnownAs_pathExpr]
      rfl
  | binding name hoisted value => rfl

theorem At.exists_word {form : Form} (h : form.At s u) : ∃ w, WordAt w s u := by
  cases h with
  | function hword => exact ⟨_, hword⟩
  | classDecl hword => exact ⟨_, hword⟩
  | derived hword => exact ⟨_, hword⟩
  | binding hword => exact ⟨_, hword⟩

end Form

/-- The first two words tell what is declared, the second one by its name. -/
theorem startingAt?_word (hword : WordAt w s u) (hasync : w ≠ "async".toList)
    (hname : WordAt x (Text.skipBlanks u) t) : startingAt? s = declared? w x t := by
  obtain ⟨c, v, hv, hc⟩ := hname.exists_cons
  have hstar : ∀ keyword, nameStart keyword (Text.skipBlanks u) = Text.skipBlanks u := by
    intro keyword
    rw [hv]
    unfold nameStart
    split
    · rename_i heq
      rw [(List.cons.inj heq).1] at hc
      cases hc
    · rfl
  have hstart : declarationStart s = s := by
    rw [declarationStart, hword.afterKeyword?_of_ne hasync]
  rw [startingAt?_eq, hstart, hword.word?, Option.bind_some, hword.skipIdent, hstar,
    hname.word?, Option.bind_some, hname.skipIdent]

theorem namesComponentParent_brace (h : Text.skipBlanks t = '{' :: b) :
    namesComponentParent t = false := by
  have hnone : afterKeyword? "extends".toList ('{' :: b) = none :=
    afterKeyword?_of_stops (Text.stops_cons.mpr rfl)
  rw [namesComponentParent, h, hnone]

theorem namesComponentParent_path {parent : TypePath}
    (hextends : WordAt "extends".toList (Text.skipBlanks t) v)
    (hparent : Text.skipBlanks v = parent.text ++ w) (hstop : Stops isPathChar w) :
    namesComponentParent t = hasEnding "Component".toList parent.last := by
  have hdotted : afterDotted? (Text.skipBlanks v) = some w := by
    have hrest := parent.dottedRest_text hstop
    rw [hparent, afterDotted?, if_pos parent.startsIdent, hrest]
  have hconsumed : Text.consumed (Text.skipBlanks v) w = parent.text := by
    rw [hparent, Text.consumed_append]
  rw [namesComponentParent, hextends.afterKeyword?]
  dsimp only
  rw [hdotted, Option.getD_some, hconsumed, hasEnding_path (by decide)]

theorem declared?_variable (h : w ∈ variableWords) : w ≠ "async".toList ∧
    ∀ x t, declared? w x t = some ⟨x, variableKind t⟩ := by
  simp only [variableWords, List.mem_cons, List.not_mem_nil, or_false] at h
  obtain rfl | rfl | rfl := h
  · exact ⟨by decide, fun _ _ => rfl⟩
  · exact ⟨by decide, fun _ _ => rfl⟩
  · exact ⟨by decide, fun _ _ => rfl⟩

theorem variableKind_value {value : Value} (hequals : Text.skipBlanks t = '=' :: v)
    (hsingle : v.head? ≠ some '=') (hvalue : value.At v) :
    variableKind t = if value.looksLikeFunction then .functionBinding else .binding := by
  rw [variableKind, hequals]
  show (if (v.head? == some '=') = true then DeclarationKind.binding
    else if startsFunction (Text.skipBlanks v) = true then _ else _) = _
  rw [if_neg (by rwa [beq_iff_eq]), hvalue.startsFunction]

/-- **What is found where a declaration starts**, told by its head. -/
theorem Form.At.startingAt? {form : Form} (h : form.At s u) : startingAt? s = some form.found := by
  cases h with
  | function hword hname hround =>
    rw [startingAt?_word hword (by decide) hname]
    rfl
  | classDecl hword hname hbrace =>
    rw [startingAt?_word hword (by decide) hname, declared?, if_neg (by decide), if_pos rfl,
      namesComponentParent_brace hbrace]
    rfl
  | derived hword hname hextends hparent hstop hbrace =>
    rw [startingAt?_word hword (by decide) hname, declared?, if_neg (by decide), if_pos rfl,
      namesComponentParent_path hextends hparent hstop]
    rfl
  | binding hword hvariable hhoisted hname hequals hsingle hvalue =>
    obtain ⟨hasync, hdeclared⟩ := declared?_variable hvariable
    rw [startingAt?_word hword hasync hname, hdeclared, variableKind_value hequals hsingle hvalue]
    rfl

end Declaration

end LivePreview

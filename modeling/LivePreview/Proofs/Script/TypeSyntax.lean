/-
Types that were printed are read to their end.

`TypeExpr` is the part of the type grammar that typed programs are printed with: dotted
names with type arguments, bracket groups, array suffixes, intersections and unions.  No
round brackets are printed, so a tree and its text need not have the same shape; the
text `A | B[]` belongs to two trees.  The end of the text is all that matters.

A reader that has just passed an operand goes on with brackets, then with `&`, then with
`|`; `afterOperand?` is what it makes of the text behind.  So the statement that goes
through an induction on trees is that reading a printed type and going on is the same as
going on behind it.  Where the text behind cannot belong to a type, going on stops at
once, and what is left is that text.
-/
import LivePreview.Proofs.Script.TypeReading

namespace LivePreview.Script

open Text (Stops)

/-! ### Trees and their texts -/

/-- The character that opens a group. -/
def Bracket.opening : Bracket → Char
  | round => '('
  | square => '['
  | curly => '{'

/-- The character that closes a group. -/
def Bracket.closing : Bracket → Char
  | round => ')'
  | square => ']'
  | curly => '}'

/-- Square brackets or braces around a text in which all that opens is closed. -/
structure TypeGroup where
  bracket : Bracket
  body : Text
  not_round : bracket ≠ .round
  balanced : leave [.group bracket] (body ++ [bracket.closing]) = some []
deriving DecidableEq

/-- The text of a group. -/
def TypeGroup.text (g : TypeGroup) : Text := g.bracket.opening :: g.body ++ [g.bracket.closing]

/-- A name with further names behind dots. -/
structure DottedName where
  first : Name
  further : List Name := []
deriving DecidableEq

/-- The names behind the dots, each with its dot. -/
def dotted (names : List Name) : Text := names.flatMap fun x => '.' :: x.text

/-- The text of a dotted name. -/
def DottedName.text (p : DottedName) : Text := p.first.text ++ dotted p.further

/-- Types as they are printed. -/
inductive TypeExpr where
  /-- a name, with type arguments if there are any -/
  | named (path : DottedName) (arguments : List TypeExpr)
  | group (g : TypeGroup)
  | array (t : TypeExpr)
  | intersection (t u : TypeExpr)
  | union (t u : TypeExpr)

/-- `items` with a comma and a space between neighbours. -/
def commaSeparated (items : List Text) : Text := Text.join ", ".toList items

mutual

/-- The text of a type. -/
def TypeExpr.text : TypeExpr → Text
  | .named path [] => path.text
  | .named path (t :: ts) => path.text ++ '<' :: commaSeparated (TypeExpr.texts (t :: ts)) ++ ['>']
  | .group g => g.text
  | .array t => t.text ++ ['[', ']']
  | .intersection t u => t.text ++ ' ' :: '&' :: ' ' :: u.text
  | .union t u => t.text ++ ' ' :: '|' :: ' ' :: u.text

/-- The texts of types. -/
def TypeExpr.texts : List TypeExpr → List Text
  | [] => []
  | t :: ts => t.text :: TypeExpr.texts ts

end

@[simp] theorem commaSeparated_singleton (t : Text) : commaSeparated [t] = t := by
  simp [commaSeparated, Text.join]

theorem commaSeparated_cons_cons (t u : Text) (ts : List Text) :
    commaSeparated (t :: u :: ts) = t ++ ',' :: ' ' :: commaSeparated (u :: ts) := by
  simp [commaSeparated, Text.join, List.intercalate]

/-! ### The text behind a type -/

/-- Characters that can go on a type, blanks in front or not. -/
def continuesType (c : Char) : Bool :=
  isIdentChar c || c == '.' || c == '<' || c == '[' || c == '&' || c == '|'

/-- The text cannot go on a type. -/
def EndsType (s : Text) : Prop := Stops continuesType (Text.skipBlanks s)

/-- The text cannot go on a name and its type arguments. -/
structure EndsName (s : Text) : Prop where
  char : Stops (fun c => isIdentChar c || c == '.' || c == '<') s
  word : afterKeyword? "is".toList (Text.skipInline s) = none

theorem EndsType.endsName {s : Text} (h : EndsType s) : EndsName s := by
  have hstop : ∀ {t : Text}, Text.skipBlanks t = Text.skipBlanks s → ∀ {p : Char → Bool},
      (∀ c, p c = true → isBlank c = false) → (∀ c, p c = true → continuesType c = true) →
      Stops p t := by
    intro t ht p hblank hcont c hc
    by_contra hp
    have hp : p c = true := by simpa using hp
    cases t with
    | nil => cases hc
    | cons d t =>
      obtain rfl : d = c := by simpa using hc
      rw [Text.skipBlanks_cons (hblank _ hp)] at ht
      have := h d (by rw [← ht]; rfl)
      rw [hcont _ hp] at this
      exact Bool.noConfusion this
  refine ⟨hstop rfl ?_ ?_, afterKeyword?_of_stops (hstop (Text.skipBlanks_skipInline s) ?_ ?_)⟩
  · intro c hc
    simp only [Bool.or_eq_true, beq_iff_eq] at hc
    rcases hc with (hc | rfl) | rfl
    · exact isBlank_eq_false_of_identChar hc
    · decide
    · decide
  · intro c hc
    simp only [continuesType, Bool.or_eq_true] at hc ⊢
    tauto
  · intro c hc
    exact isBlank_eq_false_of_identChar (isIdentChar_of_start hc)
  · intro c hc
    simp [continuesType, isIdentChar_of_start hc]

/-- What is left when a reader behind an operand has gone on. -/
def afterOperand? (s : Text) : Option Text :=
  ((rest? .brackets s).bind (rest? (.more .intersection))).bind (rest? (.more .union))

theorem rest?_brackets_of_ne {s : Text} (h : startsWithChar '[' s = false) :
    rest? .brackets s = some s := by
  rw [rest?_eq]
  simp [formRest?, bracketsRest?, h]

theorem rest?_more_of_ne {j : Joint} {s : Text} (h : Stops (· == j.sign) (Text.skipBlanks s)) :
    rest? (.more j) s = some s := by
  rw [rest?_eq]
  simp only [formRest?, moreRest?]
  split
  · rename_i c t hc
    rw [hc] at h
    have hne : c ≠ j.sign := by simpa using h
    simp [hne]
  · rfl

/-- Nothing goes on where no bracket and no sign stands. -/
theorem afterOperand?_of_stops {s : Text} (hbrackets : startsWithChar '[' s = false)
    (hsign : ∀ j : Joint, Stops (· == j.sign) (Text.skipBlanks s)) :
    afterOperand? s = some s := by
  simp [afterOperand?, rest?_brackets_of_ne hbrackets, rest?_more_of_ne (hsign _)]

/-- Nothing goes on where no type can go on. -/
theorem afterOperand?_of_endsType {s : Text} (h : EndsType s) : afterOperand? s = some s := by
  have hsign : ∀ j : Joint, Stops (· == j.sign) (Text.skipBlanks s) := by
    intro j
    refine Text.stops_mono (fun c hc => ?_) h
    obtain rfl : c = j.sign := by simpa using hc
    cases j <;> decide
  have hbrackets : startsWithChar '[' s = false := by
    cases s with
    | nil => rfl
    | cons c s =>
      by_contra hc
      obtain rfl : c = '[' := by simpa [startsWithChar] using hc
      have := h '[' (by simp [Text.skipBlanks_cons (show isBlank '[' = false by decide)])
      exact absurd this (by decide)
  exact afterOperand?_of_stops hbrackets hsign

/-! ### Blanks in front -/

/-- Blanks, or nothing. -/
def AllBlank (s : Text) : Prop := ∀ c ∈ s, isBlank c = true

theorem allBlank_space : AllBlank [' '] := by simp [AllBlank, isBlank]

theorem rest?_operand_eq (s : Text) :
    rest? .operand s = (rest? .primary s).bind (rest? .brackets) := by
  rw [rest?_eq]
  rfl

theorem rest?_joined_eq (j : Joint) (s : Text) :
    rest? (.joined j) s = (rest? j.part (skipSign j s)).bind (rest? (.more j)) := by
  rw [rest?_eq]
  rfl

section Blanks

variable {gap : Text} (hgap : AllBlank gap) (s : Text)

include hgap

theorem skipBlanks_append : Text.skipBlanks (gap ++ s) = Text.skipBlanks s :=
  List.dropWhile_append_of_pos hgap

theorem rest?_primary_append : rest? .primary (gap ++ s) = rest? .primary s := by
  rw [rest?_eq, rest?_eq, formRest?, formRest?, primaryRest?, primaryRest?, skipBlanks_append hgap]

theorem rest?_operand_append : rest? .operand (gap ++ s) = rest? .operand s := by
  rw [rest?_operand_eq, rest?_operand_eq, rest?_primary_append hgap]

theorem rest?_joined_append (j : Joint) : rest? (.joined j) (gap ++ s) = rest? (.joined j) s := by
  rw [rest?_joined_eq, rest?_joined_eq, skipSign, skipSign, skipBlanks_append hgap]

theorem rest?_part_append (j : Joint) : rest? j.part (gap ++ s) = rest? j.part s := by
  cases j with
  | union => exact rest?_joined_append hgap s .intersection
  | intersection => exact rest?_operand_append hgap s

theorem rest?_whole_append : rest? .whole (gap ++ s) = rest? .whole s := by
  rw [rest?_eq, rest?_eq, formRest?, formRest?, wholeRest?, wholeRest?, rest?_joined_append hgap]

theorem rest?_arguments_append (any : Bool) :
    rest? (.arguments any) (gap ++ s) = rest? (.arguments any) s := by
  rw [rest?_eq, rest?_eq, formRest?, formRest?, argumentsRest?, argumentsRest?,
    skipBlanks_append hgap]

theorem rest?_parameters_append (any : Bool) :
    rest? (.parameters any) (gap ++ s) = rest? (.parameters any) s := by
  rw [rest?_eq, rest?_eq, formRest?, formRest?, parametersRest?, parametersRest?,
    skipBlanks_append hgap]

end Blanks

theorem rest?_operand_space (s : Text) : rest? .operand (' ' :: s) = rest? .operand s :=
  rest?_operand_append allBlank_space s

theorem rest?_joined_space (j : Joint) (s : Text) :
    rest? (.joined j) (' ' :: s) = rest? (.joined j) s :=
  rest?_joined_append allBlank_space s j

theorem rest?_whole_space (s : Text) : rest? .whole (' ' :: s) = rest? .whole s :=
  rest?_whole_append allBlank_space s

theorem rest?_arguments_space (any : Bool) (s : Text) :
    rest? (.arguments any) (' ' :: s) = rest? (.arguments any) s :=
  rest?_arguments_append allBlank_space s any

theorem rest?_parameters_space (any : Bool) (s : Text) :
    rest? (.parameters any) (' ' :: s) = rest? (.parameters any) s :=
  rest?_parameters_append allBlank_space s any

/-! ### Going on behind signs -/

/-- Behind an operand, `[]` is passed over. -/
theorem afterOperand?_array (s : Text) : afterOperand? ('[' :: ']' :: s) = afterOperand? s := by
  have hgroup : afterGroup? ('[' :: ']' :: s) = some s := by
    cases s <;> simp [afterGroup?, Bracket.opened?, Bracket.closed?, leave, isQuote]
  have : rest? .brackets ('[' :: ']' :: s) = rest? .brackets s := by
    rw [rest?_eq]
    simp [formRest?, bracketsRest?, startsWithChar, hgroup]
  rw [afterOperand?, this, afterOperand?]

/-- Behind an operand, `&` goes on with an operand. -/
theorem afterOperand?_intersection (s : Text) :
    afterOperand? (' ' :: '&' :: ' ' :: s)
      = ((rest? .operand s).bind (rest? (.more .intersection))).bind (rest? (.more .union)) := by
  have hmore : rest? (.more .intersection) (' ' :: '&' :: ' ' :: s)
      = (rest? .operand s).bind (rest? (.more .intersection)) := by
    rw [rest?_eq, ← rest?_operand_space]
    rfl
  rw [afterOperand?, rest?_brackets_of_ne rfl, Option.bind_some, hmore]

/-- Behind an operand, `|` goes on with an intersection. -/
theorem afterOperand?_union (s : Text) :
    afterOperand? (' ' :: '|' :: ' ' :: s)
      = (rest? (.joined .intersection) s).bind (rest? (.more .union)) := by
  have hmore : rest? (.more .union) (' ' :: '|' :: ' ' :: s)
      = (rest? (.joined .intersection) s).bind (rest? (.more .union)) := by
    rw [rest?_eq, ← rest?_joined_space]
    rfl
  have hpass : rest? (.more .intersection) (' ' :: '|' :: ' ' :: s)
      = some (' ' :: '|' :: ' ' :: s) :=
    rest?_more_of_ne (by simp [Text.skipBlanks_cons (show isBlank '|' = false by decide), Joint.sign])
  rw [afterOperand?, rest?_brackets_of_ne rfl, Option.bind_some, hpass, Option.bind_some, hmore]

/-! ### The front of a type -/

/-- The characters that a printed type starts with. -/
def opensType (c : Char) : Bool := isIdentStart c || c == '{' || c == '['

theorem isBlank_eq_false_of_opensType {c : Char} (h : opensType c = true) : isBlank c = false := by
  simp only [opensType, Bool.or_eq_true, beq_iff_eq] at h
  rcases h with (h | rfl) | rfl
  · exact isBlank_eq_false_of_identChar (isIdentChar_of_start h)
  · decide
  · decide

theorem IsWord.head {w : Text} (hw : IsWord w) : ∃ c t, w = c :: t ∧ isIdentStart c = true := by
  cases w with
  | nil => exact hw.elim
  | cons c t => exact ⟨c, t, rfl, hw.1⟩

theorem TypeExpr.head (t : TypeExpr) : ∃ c s, t.text = c :: s ∧ opensType c = true := by
  induction t using TypeExpr.text.induct (motive_2 := fun _ => True) with
  | case1 path =>
    obtain ⟨c, s, hs, hc⟩ := path.first.isWord.head
    exact ⟨c, s ++ dotted path.further, by simp [TypeExpr.text, DottedName.text, hs],
      by simp [opensType, hc]⟩
  | case2 path t ts _ =>
    obtain ⟨c, s, hs, hc⟩ := path.first.isWord.head
    exact ⟨c, _, by simp [TypeExpr.text, DottedName.text, hs]; rfl, by simp [opensType, hc]⟩
  | case3 g =>
    refine ⟨g.bracket.opening, _, rfl, ?_⟩
    have := g.not_round
    cases hb : g.bracket with
    | round => exact absurd hb this
    | square => rfl
    | curly => rfl
  | case4 t ih =>
    obtain ⟨c, s, hs, hc⟩ := ih
    exact ⟨c, _, by rw [TypeExpr.text, hs]; rfl, hc⟩
  | case5 t u ih _ =>
    obtain ⟨c, s, hs, hc⟩ := ih
    exact ⟨c, _, by rw [TypeExpr.text, hs]; rfl, hc⟩
  | case6 t u ih _ =>
    obtain ⟨c, s, hs, hc⟩ := ih
    exact ⟨c, _, by rw [TypeExpr.text, hs]; rfl, hc⟩
  | case7 => trivial
  | case8 => trivial

theorem stops_dotted (names : List Name) {rest : Text} (h : Stops isIdentChar rest) :
    Stops isIdentChar (dotted names ++ rest) := by
  cases names with
  | nil => simpa [dotted] using h
  | cons x names => exact Text.stops_cons.mpr (by decide)

theorem DottedName.word?_text (p : DottedName) {rest : Text} (h : Stops isIdentChar rest) :
    word? (p.text ++ rest) = some p.first.text := by
  rw [DottedName.text, List.append_assoc, p.first.isWord.word?_append (stops_dotted _ h)]

/-- The word that a type starts with is not reserved. -/
theorem TypeExpr.word?_text (t : TypeExpr) {rest w : Text} (hrest : Stops isIdentChar rest)
    (h : word? (t.text ++ rest) = some w) : isReserved w = false := by
  induction t using TypeExpr.text.induct (motive_2 := fun _ => True) generalizing rest with
  | case1 path =>
    rw [TypeExpr.text, path.word?_text hrest] at h
    obtain rfl : path.first.text = w := by simpa using h
    exact path.first.not_isReserved
  | case2 path t ts _ =>
    have htext : (TypeExpr.named path (t :: ts)).text ++ rest
        = path.text ++ '<' :: (commaSeparated (TypeExpr.texts (t :: ts)) ++ '>' :: rest) := by
      simp [TypeExpr.text]
    rw [htext, path.word?_text (Text.stops_cons.mpr (by decide))] at h
    obtain rfl : path.first.text = w := by simpa using h
    exact path.first.not_isReserved
  | case3 g =>
    have hstop : Stops isIdentStart (g.text ++ rest) := by
      cases hb : g.bracket <;> simp [TypeGroup.text, hb, Bracket.opening, isIdentStart,
        isAsciiLetter]
    rw [TypeExpr.text, word?_of_stops hstop] at h
    cases h
  | case4 t ih =>
    rw [TypeExpr.text, List.append_assoc] at h
    exact ih (Text.stops_cons.mpr (by decide)) h
  | case5 t u ih _ =>
    rw [TypeExpr.text, List.append_assoc] at h
    exact ih (Text.stops_cons.mpr (by decide)) h
  | case6 t u ih _ =>
    rw [TypeExpr.text, List.append_assoc] at h
    exact ih (Text.stops_cons.mpr (by decide)) h
  | case7 => trivial
  | case8 => trivial

/-- No sign and no blank stands in front of a type. -/
theorem TypeExpr.skipSign_text (j : Joint) (t : TypeExpr) (rest : Text) :
    skipSign j (t.text ++ rest) = t.text ++ rest := by
  obtain ⟨c, s, hs, hc⟩ := t.head
  have hsign : c ≠ j.sign := by
    rintro rfl
    cases j <;> exact absurd hc (by decide)
  rw [hs, List.cons_append, skipSign, Text.skipBlanks_cons (isBlank_eq_false_of_opensType hc)]
  simp [hsign]

/-! ### Names -/

/-- Words behind dots, each with its dot. -/
def dottedWords (ws : List Text) : Text := ws.flatMap fun w => '.' :: w

theorem dotted_eq_dottedWords (names : List Name) :
    dotted names = dottedWords (names.map Name.text) := by
  simp [dotted, dottedWords, List.flatMap_map]

/-- A word and words behind dots are passed over. -/
theorem dottedRest_words {first : Text} (hfirst : IsWord first) {ws : List Text}
    (hws : ∀ w ∈ ws, IsWord w) {rest : Text} (hchar : Stops isIdentChar rest)
    (hdot : Stops (· == '.') rest) {n : Nat} (hn : ws.length < n) :
    dottedRest n (first ++ (dottedWords ws ++ rest)) = rest := by
  induction ws generalizing n first with
  | nil =>
    obtain ⟨n, rfl⟩ : ∃ m, n = m + 1 := ⟨n - 1, by simp at hn; omega⟩
    have hskip : skipIdent (first ++ (dottedWords [] ++ rest)) = rest :=
      hfirst.skipIdent_append hchar
    rw [dottedRest, hskip]
    split
    · exact absurd hdot (by simp)
    · rfl
  | cons w ws ih =>
    obtain ⟨n, rfl⟩ : ∃ m, n = m + 1 := ⟨n - 1, by simp at hn; omega⟩
    have hw : IsWord w := hws w (List.mem_cons_self ..)
    have hskip : skipIdent (first ++ (dottedWords (w :: ws) ++ rest))
        = '.' :: (w ++ (dottedWords ws ++ rest)) := by
      have hdotted : dottedWords (w :: ws) ++ rest = '.' :: (w ++ (dottedWords ws ++ rest)) := by
        simp [dottedWords]
      rw [hdotted, hfirst.skipIdent_append (Text.stops_cons.mpr (by decide))]
    rw [dottedRest, hskip]
    simp only [hw.startsIdent, if_true]
    exact ih hw (fun v hv => hws v (List.mem_cons_of_mem _ hv)) (by simp at hn ⊢; omega)

theorem length_le_dottedWords (ws : List Text) : ws.length ≤ (dottedWords ws).length := by
  induction ws with
  | nil => exact Nat.le_refl _
  | cons w ws ih =>
    simp only [dottedWords, List.flatMap_cons, List.length_append, List.length_cons] at ih ⊢
    omega

theorem predicateRest?_of_endsName {read : TypeReader} {s : Text} (h : EndsName s) :
    predicateRest? read s = some s := by
  rw [predicateRest?, h.word]

theorem primaryRest?_word {read : TypeReader} {s : Text} (h : startsIdent s = true) :
    primaryRest? read s = wordRest? read s := by
  cases s with
  | nil => exact absurd h (by simp [startsIdent])
  | cons c s =>
    have hc : isIdentStart c = true := h
    have hchar := isIdentChar_of_start hc
    have hne : ∀ d, isIdentStart d = false → c ≠ d := by
      rintro d hd rfl
      rw [hc] at hd
      exact Bool.noConfusion hd
    simp [primaryRest?, Text.skipBlanks_cons (isBlank_eq_false_of_identChar hchar), isQuote,
      hne '(' (by decide), hne '{' (by decide), hne '[' (by decide), hne '"' (by decide),
      hne '\'' (by decide), hne '\x60' (by decide), hne '<' (by decide), hne '-' (by decide),
      isAsciiDigit_eq_false_of_identStart hc, hc]

/-- A name that is no word of the type grammar is read as a name. -/
theorem wordRest?_name {read : TypeReader} (x : Name) {rest : Text} (h : Stops isIdentChar rest) :
    wordRest? read (x.text ++ rest) = predicateRest? read
      (skipArguments read (dottedRest (x.text ++ rest).length (x.text ++ rest))) := by
  have hne : ∀ w : String, isReserved w.toList || contextualWords.contains w.toList →
      x.text ≠ w.toList := fun w hw => x.ne_of_special hw
  have hop : typeOperators.contains x.text = false := x.not_contains (by decide +kernel)
  simp only [wordRest?, x.isWord.ident_append h, hne "typeof" (by decide), hop,
    hne "new" (by decide), hne "abstract" (by decide), hne "asserts" (by decide),
    x.not_isReserved]
  simp

/-- A dotted name is passed over, and then its arguments are looked for. -/
theorem rest?_primary_name (p : DottedName) {behind : Text} (h : Stops isIdentChar behind)
    (hdot : Stops (· == '.') behind) :
    rest? .primary (p.text ++ behind) = predicateRest? rest? (skipArguments rest? behind) := by
  have hstop : Stops isIdentChar (dotted p.further ++ behind) := stops_dotted _ h
  have hwords : ∀ w ∈ p.further.map Name.text, IsWord w := by
    intro w hw
    obtain ⟨x, -, rfl⟩ := List.mem_map.mp hw
    exact x.isWord
  have hlength : (p.further.map Name.text).length
      < (p.first.text ++ (dotted p.further ++ behind)).length := by
    have h₁ := length_le_dottedWords (p.further.map Name.text)
    have h₂ := List.length_pos_iff.mpr p.first.isWord.ne_nil
    rw [dotted_eq_dottedWords]
    simp only [List.length_append]
    omega
  have hdotted := dottedRest_words p.first.isWord hwords h hdot hlength
  rw [← dotted_eq_dottedWords] at hdotted
  rw [DottedName.text, List.append_assoc, rest?_eq, formRest?,
    primaryRest?_word p.first.isWord.startsIdent, wordRest?_name p.first hstop, hdotted]

/-! ### Groups and lists -/

theorem TypeGroup.rest?_primary_text (g : TypeGroup) (rest : Text) :
    rest? .primary (g.text ++ rest) = some rest := by
  have hgroup : afterGroup? (g.text ++ rest) = some rest := by
    have : afterGroup? g.text = some [] := by
      refine Option.bind_eq_some_iff.mpr ⟨g.bracket, ?_, g.balanced⟩
      cases g.bracket <;> rfl
    exact afterGroup?_append rest this
  rw [rest?_eq, formRest?, primaryRest?]
  have hopen := g.not_round
  rw [TypeGroup.text] at hgroup ⊢
  cases hb : g.bracket with
  | round => exact absurd hb hopen
  | square =>
    rw [hb] at hgroup
    exact hgroup
  | curly =>
    rw [hb] at hgroup
    exact hgroup

/-- In front of a type, a list of types goes on with that type. -/
theorem TypeExpr.rest?_arguments_eq (t : TypeExpr) (any : Bool) (behind : Text) :
    rest? (.arguments any) (t.text ++ behind) = (rest? .whole (t.text ++ behind)).bind fun rest =>
      listRest? rest? (.arguments true) (Text.skipBlanks rest) := by
  obtain ⟨c, s, hs, hc⟩ := t.head
  have hne : c ≠ '>' := by
    rintro rfl
    exact absurd hc (by decide)
  have hpass : Text.skipBlanks (t.text ++ behind) = t.text ++ behind := by
    rw [hs]
    exact Text.skipBlanks_cons (isBlank_eq_false_of_opensType hc)
  have hopen : startsWithChar '>' (t.text ++ behind) = false := by
    simp [hs, startsWithChar, hne]
  rw [rest?_eq]
  simp only [formRest?, argumentsRest?, hpass, hopen, Bool.and_false, Bool.false_eq_true, if_false]

/-! ### Whole types -/

section Going

variable {t : TypeExpr} {rest : Text}
  (h : ((rest? .operand (t.text ++ rest)).bind (rest? (.more .intersection))).bind
    (rest? (.more .union)) = afterOperand? rest)

include h

theorem rest?_intersection_of_operand :
    (rest? (.joined .intersection) (t.text ++ rest)).bind (rest? (.more .union))
      = afterOperand? rest := by
  rw [rest?_joined_eq, t.skipSign_text]
  exact h

theorem rest?_union_of_operand : rest? (.joined .union) (t.text ++ rest) = afterOperand? rest := by
  rw [rest?_joined_eq, t.skipSign_text]
  exact rest?_intersection_of_operand h

theorem rest?_whole_of_operand (hrest : EndsType rest) :
    rest? .whole (t.text ++ rest) = some rest := by
  have hword : Stops isIdentStart (Text.skipBlanks rest) :=
    Text.stops_mono (fun c hc => by simp [continuesType, isIdentChar_of_start hc]) hrest
  rw [rest?_eq]
  simp only [formRest?, wholeRest?, rest?_union_of_operand h, afterOperand?_of_endsType hrest,
    afterKeyword?_of_stops hword, Option.bind_none]

end Going

theorem endsName_space_sign {c : Char} {s : Text} (h : isIdentStart c = false)
    (hblank : isInline c = false) : EndsName (' ' :: c :: s) := by
  refine ⟨Text.stops_cons.mpr (by decide), ?_⟩
  have : Text.skipInline (' ' :: c :: s) = c :: s := by
    show Text.skipInline (c :: s) = c :: s
    exact Text.skipInline_cons hblank
  rw [this]
  exact afterKeyword?_of_stops (Text.stops_cons.mpr h)

theorem endsName_sign {c : Char} {s : Text} (hchar : isIdentChar c = false)
    (hsign : c ≠ '.' ∧ c ≠ '<') (hblank : isInline c = false) : EndsName (c :: s) := by
  refine ⟨Text.stops_cons.mpr (by simp [hchar, hsign]), ?_⟩
  rw [Text.skipInline_cons hblank]
  refine afterKeyword?_of_stops (Text.stops_cons.mpr ?_)
  by_contra hc
  rw [isIdentChar_of_start (by simpa using hc)] at hchar
  exact Bool.noConfusion hchar

theorem endsType_sign {c : Char} {s : Text} (h : continuesType c = false)
    (hblank : isBlank c = false) : EndsType (c :: s) := by
  rw [EndsType, Text.skipBlanks_cons hblank]
  exact Text.stops_cons.mpr h

mutual

/-- **Reading a printed type and going on is going on behind it.** -/
theorem TypeExpr.rest?_operand_text : (t : TypeExpr) → {rest : Text} → EndsName rest →
    ((rest? .operand (t.text ++ rest)).bind (rest? (.more .intersection))).bind
      (rest? (.more .union)) = afterOperand? rest
  | .named path [], rest, h => by
    have hchar : Stops isIdentChar rest := Text.stops_mono (fun c hc => by simp [hc]) h.char
    have hdot : Stops (· == '.') rest := Text.stops_mono (fun c hc => by simp_all) h.char
    have hargs : skipArguments rest? rest = rest := by
      simp only [skipArguments]
      split
      · exact absurd h.char (by simp)
      · rfl
    rw [TypeExpr.text, rest?_operand_eq, rest?_primary_name path hchar hdot, hargs,
      predicateRest?_of_endsName h, Option.bind_some, afterOperand?]
  | .named path (t :: ts), rest, h => by
    have hlist := TypeExpr.rest?_arguments_text (t :: ts) (by simp) rest false
    have happlied : skipArguments rest?
        ('<' :: (commaSeparated (TypeExpr.texts (t :: ts)) ++ '>' :: rest)) = rest := by
      rw [skipArguments, hlist, Option.getD_some]
    have htext : (TypeExpr.named path (t :: ts)).text ++ rest
        = path.text ++ '<' :: (commaSeparated (TypeExpr.texts (t :: ts)) ++ '>' :: rest) := by
      simp [TypeExpr.text]
    rw [htext, rest?_operand_eq,
      rest?_primary_name path (Text.stops_cons.mpr (by decide)) (Text.stops_cons.mpr (by decide)),
      happlied, predicateRest?_of_endsName h, Option.bind_some, afterOperand?]
  | .group g, rest, _ => by
    rw [TypeExpr.text, rest?_operand_eq, g.rest?_primary_text, Option.bind_some, afterOperand?]
  | .array t, rest, _ => by
    have hbehind : EndsName ('[' :: ']' :: rest) :=
      endsName_sign (by decide) (by decide) (by decide)
    have htext : (TypeExpr.array t).text ++ rest = t.text ++ ('[' :: ']' :: rest) := by
      simp [TypeExpr.text]
    rw [htext, TypeExpr.rest?_operand_text t hbehind, afterOperand?_array]
  | .intersection t u, rest, h => by
    have hbehind : EndsName (' ' :: '&' :: ' ' :: (u.text ++ rest)) :=
      endsName_space_sign (by decide) (by decide)
    have htext : (TypeExpr.intersection t u).text ++ rest
        = t.text ++ (' ' :: '&' :: ' ' :: (u.text ++ rest)) := by
      simp [TypeExpr.text]
    rw [htext, TypeExpr.rest?_operand_text t hbehind, afterOperand?_intersection,
      TypeExpr.rest?_operand_text u h]
  | .union t u, rest, h => by
    have hbehind : EndsName (' ' :: '|' :: ' ' :: (u.text ++ rest)) :=
      endsName_space_sign (by decide) (by decide)
    have htext : (TypeExpr.union t u).text ++ rest
        = t.text ++ (' ' :: '|' :: ' ' :: (u.text ++ rest)) := by
      simp [TypeExpr.text]
    rw [htext, TypeExpr.rest?_operand_text t hbehind, afterOperand?_union,
      rest?_intersection_of_operand (TypeExpr.rest?_operand_text u h)]

/-- A printed list of types is read to its closing bracket. -/
theorem TypeExpr.rest?_arguments_text : (ts : List TypeExpr) → ts ≠ [] → (rest : Text) →
    (any : Bool) →
    rest? (.arguments any) (commaSeparated (TypeExpr.texts ts) ++ '>' :: rest) = some rest
  | [], hne, _, _ => absurd rfl hne
  | [t], _, rest, any => by
    have hbehind : EndsType ('>' :: rest) := endsType_sign (by decide) (by decide)
    have hwhole : rest? .whole (t.text ++ '>' :: rest) = some ('>' :: rest) :=
      rest?_whole_of_operand (TypeExpr.rest?_operand_text t hbehind.endsName) hbehind
    rw [TypeExpr.texts, TypeExpr.texts, commaSeparated_singleton, t.rest?_arguments_eq, hwhole]
    rfl
  | t :: u :: us, _, rest, any => by
    have hbehind :
        EndsType (',' :: ' ' :: (commaSeparated (TypeExpr.texts (u :: us)) ++ '>' :: rest)) :=
      endsType_sign (by decide) (by decide)
    have hwhole := rest?_whole_of_operand (TypeExpr.rest?_operand_text t hbehind.endsName) hbehind
    have htext : commaSeparated (TypeExpr.texts (t :: u :: us)) ++ '>' :: rest
        = t.text ++ (',' :: ' ' :: (commaSeparated (TypeExpr.texts (u :: us)) ++ '>' :: rest)) := by
      simp [TypeExpr.texts, commaSeparated_cons_cons]
    rw [htext, t.rest?_arguments_eq, hwhole]
    rw [Option.bind_some, Text.skipBlanks_cons (show isBlank ',' = false by decide), listRest?,
      rest?_arguments_space]
    exact TypeExpr.rest?_arguments_text (u :: us) (by simp) rest true

end

/-- **A printed type is read to its end.** -/
theorem TypeExpr.rest?_whole_text (t : TypeExpr) {rest : Text} (h : EndsType rest) :
    rest? .whole (t.text ++ rest) = some rest :=
  rest?_whole_of_operand (t.rest?_operand_text h.endsName) h

theorem TypeExpr.afterType?_space (t : TypeExpr) {rest : Text} (h : EndsType rest) :
    afterType? (' ' :: (t.text ++ rest)) = some rest := by
  rw [afterType?_eq, rest?_whole_space, t.rest?_whole_text h]

end LivePreview.Script

/-
What the eraser does with one token and the blanks in front of it.

Blanks only tell the eraser that a line ended, which no token here looks at but `!`.  So behind a
token the eraser stands in the code that `next` names, whatever the blanks were.  What it has to
know beyond the token are the bracket that is open, the question marks that wait, and for a closing
round bracket, whether a colon follows.
-/
import LivePreview.Proofs.Erasure.FreeForm
import LivePreview.Proofs.Erasure.Removal

namespace LivePreview.Erasure.FreeForm

open Script Eraser
open Text (Stops)

/-! ### The front of a token -/

theorem isBlank_of_isGapChar {c : Char} (h : isGapChar c = true) : isBlank c = true := by
  simp only [isGapChar, isBlank, Bool.or_eq_true] at h ⊢
  tauto

/-- A token starts with a character that is no blank. -/
theorem Token.exists_head (t : Token) : ∃ c s, t.text = c :: s ∧ isBlank c = false := by
  cases t with
  | name x =>
    obtain ⟨c, s, hs, hc⟩ := x.isWord.head
    exact ⟨c, s, hs, isBlank_eq_false_of_identChar (isIdentChar_of_start hc)⟩
  | integer d =>
    obtain ⟨c, s, hs⟩ := List.exists_cons_of_ne_nil d.ne_nil
    have hdigit : isAsciiDigit c = true := d.isDigit c (by simp [hs])
    exact ⟨c, s, hs, isBlank_eq_false_of_identChar (by simp [isIdentChar, hdigit])⟩
  | string q =>
    refine ⟨q.quote, _, rfl, ?_⟩
    have hquote := q.isQuote
    simp only [Script.isQuote, Bool.or_eq_true, beq_iff_eq] at hquote
    rcases hquote with h | h <;> rw [h] <;> decide
  | keyword k => cases k <;> exact ⟨_, _, rfl, by decide⟩
  | sign s => cases s <;> exact ⟨_, _, rfl, by decide⟩

section

variable {x y : Spaced} (rest : Text)

theorem Spaced.skipBlanks_text (x : Spaced) :
    Text.skipBlanks (x.text ++ rest) = x.token.text ++ rest := by
  obtain ⟨c, s, hs, hc⟩ := x.token.exists_head
  rw [Spaced.text, List.append_assoc, Text.skipBlanks,
    Text.dropWhile_append (fun d hd => isBlank_of_isGapChar (x.isGap d hd))]
  rw [hs]
  exact Text.stops_cons.mpr hc

/-- Behind a token stands nothing that it would go on with. -/
theorem Spaced.Fits.stops (h : x.Fits y) : Stops x.token.goesOn (y.text ++ rest) := by
  obtain ⟨c, s, hs, -⟩ := y.token.exists_head
  cases hgap : y.gap with
  | nil =>
    rw [Spaced.text, hgap, List.nil_append, hs]
    refine Text.stops_cons.mpr ?_
    by_contra hgo
    refine h c ?_ (by simpa using hgo) hgap
    rw [hs]
    rfl
  | cons d gap =>
    rw [Spaced.text, hgap, List.cons_append, List.cons_append]
    refine Text.stops_cons.mpr ?_
    have hd : isGapChar d = true := y.isGap d (by simp [hgap])
    have hchar : isIdentChar d = false ∧ d ≠ '.' := by
      simp only [isGapChar, Bool.or_eq_true, beq_iff_eq] at hd
      rcases hd with ((rfl | rfl) | rfl) | rfl <;> decide
    cases x.token with
    | name n => exact hchar.1
    | keyword k => exact hchar.1
    | integer n => simp [Token.goesOn, hchar.1, hchar.2]
    | string q => rfl
    | sign s => rfl

end

/-! ### Blanks -/

section

variable {e : Eraser} {m : CodeMode} {rest : Text}

theorem reaches_gapChar {c : Char} (hc : isGapChar c = true) (h : e.rest = c :: rest) :
    ∃ b, Reaches (e.enter (.code m))
      ((e.past [.kept [c]] rest).enter (.code { m with newline := b })) := by
  simp only [isGapChar, Bool.or_eq_true, beq_iff_eq] at hc
  by_cases hline : c = '\n'
  · rw [hline] at h ⊢
    exact ⟨true, reaches_newline h⟩
  · refine ⟨m.newline, reaches_past h (List.cons_ne_nil _ _) ?_⟩
    rw [step_code h, ← keep_cons h]
    rcases hc with ((rfl | rfl) | rfl) | rfl
    · rfl
    · exact absurd rfl hline
    · rfl
    · rfl

theorem past_nil (h : e.rest = rest) : e.past [.kept []] rest = e := by
  subst h
  rfl

/-- Behind blanks the eraser stands in the same code, but for the line. -/
theorem reaches_gap {gap : Text} (hgap : ∀ c ∈ gap, isGapChar c = true) (h : e.rest = gap ++ rest) :
    ∃ b, Reaches (e.enter (.code m))
      ((e.past [.kept gap] rest).enter (.code { m with newline := b })) := by
  induction gap generalizing e m with
  | nil =>
    have h : e.rest = rest := h
    refine ⟨m.newline, ?_⟩
    rw [past_nil h]
    exact .refl _
  | cons c gap ih =>
    obtain ⟨b, h₁⟩ := reaches_gapChar (m := m) (hgap c List.mem_cons_self) h
    obtain ⟨b', h₂⟩ := ih (e := e.past [.kept [c]] (gap ++ rest)) (m := { m with newline := b })
      (fun d hd => hgap d (List.mem_cons_of_mem c hd)) rfl
    refine ⟨b', (h₁.andThen fun _ => h₂).regroup ?_ ?_ ?_⟩ <;> simp

/-- A token is passed over if it is on either side of a line end. -/
theorem reaches_spaced {x : Spaced} {m' : CodeMode} (h : e.rest = x.text ++ rest)
    (htoken : ∀ (e : Eraser) (b : Bool), e.rest = x.token.text ++ rest →
      Reaches (e.enter (.code { m with newline := b }))
        ((e.past [.kept x.token.text] rest).enter (.code m'))) :
    Reaches (e.enter (.code m)) ((e.past x.kept rest).enter (.code m')) := by
  rw [Spaced.text, List.append_assoc] at h
  obtain ⟨b, hgap⟩ := reaches_gap (m := m) x.isGap h
  exact hgap.andThen fun h => htoken _ b h

/-! ### Words and literals -/

variable {x y : Spaced}

theorem reaches_spaced_name {n : Name} (hx : x.token = .name n) (h : e.rest = x.text ++ (y.text ++ rest))
    (hfit : x.Fits y) :
    Reaches (e.enter (.code m))
      ((e.past x.kept (y.text ++ rest)).enter (.code (m.next (.word n.text)))) := by
  have hstop := hfit.stops rest
  rw [hx] at hstop
  refine reaches_spaced h fun e b h => ?_
  rw [hx] at h ⊢
  exact reaches_name (m := { m with newline := b }) n h hstop

theorem Keyword.isWord (k : Keyword) : IsWord k.text := by
  cases k <;> exact isWord_of_all (by decide) (by decide)

theorem reaches_spaced_keyword {k : Keyword} (hx : x.token = .keyword k)
    (h : e.rest = x.text ++ (y.text ++ rest)) (hfit : x.Fits y) :
    Reaches (e.enter (.code m))
      ((e.past x.kept (y.text ++ rest)).enter (.code (m.next (.word k.text)))) := by
  have hstop := hfit.stops rest
  have hplain : watchedWords.contains k.text = false := by cases k <;> decide
  rw [hx] at hstop
  refine reaches_spaced h fun e b h => ?_
  rw [hx] at h ⊢
  exact reaches_word (m := { m with newline := b }) k.isWord h hstop hplain

theorem reaches_spaced_integer {d : Digits} (hx : x.token = .integer d)
    (h : e.rest = x.text ++ (y.text ++ rest)) (hfit : x.Fits y) :
    Reaches (e.enter (.code m))
      ((e.past x.kept (y.text ++ rest)).enter (.code (m.next .value))) := by
  have hstop := hfit.stops rest
  rw [hx] at hstop
  refine reaches_spaced h fun e b h => ?_
  rw [hx] at h ⊢
  exact reaches_digits (m := { m with newline := b }) d h hstop

theorem stringRest_body {quote : Char} {body : Text} (hquote : Script.isQuote quote = true)
    (hbody : isStringBody quote body = true) (rest : Text) :
    stringRest quote (body ++ quote :: rest) = rest := by
  have hne : quote ≠ '\\' ∧ quote ≠ '\n' := by
    constructor <;> rintro rfl <;> exact absurd hquote (by decide)
  induction body using isStringBody.induct with
  | case1 =>
    rw [List.nil_append, stringRest]
    · exact if_pos rfl
    · exact fun _ _ h _ => hne.1 h
    · exact hne.2
  | case2 c s ih =>
    rw [isStringBody] at hbody
    exact ih hbody
  | case3 c s hescape ih =>
    rw [isStringBody] at hbody
    · simp only [Bool.and_eq_true, bne_iff_ne] at hbody
      obtain ⟨⟨⟨hc, hslash⟩, hline⟩, hbody⟩ := hbody
      rw [List.cons_append, stringRest, if_neg hc, ih hbody]
      · exact fun _ _ h _ => hslash h
      · exact hline
    · exact hescape

theorem reaches_spaced_string {q : StringLiteral} (hx : x.token = .string q)
    (h : e.rest = x.text ++ rest) :
    Reaches (e.enter (.code m)) ((e.past x.kept rest).enter (.code (m.next .value))) := by
  refine reaches_spaced h fun e b h => ?_
  rw [hx] at h ⊢
  have hrest := stringRest_body q.isQuote q.isBody rest
  have hquote := q.isQuote
  have htext : e.rest = q.quote :: ((q.body ++ [q.quote]) ++ rest) := h
  have hread : ∀ s, e.stepCode { m with newline := b } q.quote s
      = .ok (e.keepToken { m with newline := b } (stringRest q.quote s) .value) := by
    intro s
    simp only [Script.isQuote, Bool.or_eq_true, beq_iff_eq] at hquote
    rcases hquote with hquote | hquote <;> rw [hquote] <;> rfl
  have hstep := hread ((q.body ++ [q.quote]) ++ rest)
  rw [List.append_assoc, List.singleton_append, hrest, ← List.singleton_append,
    ← List.append_assoc] at hstep
  exact reaches_token htext hstep

/-! ### Signs that nothing is looked up for -/

/-- A sign that is kept. -/
theorem reaches_sign {n : CodeMode} {c : Char} {p : Previous} (h : e.rest = c :: rest)
    (hstep : e.stepCode m c rest = .ok (e.keepToken n rest p)) :
    Reaches (e.enter (.code m)) ((e.past [.kept [c]] rest).enter (.code (n.next p))) :=
  reaches_token (t := []) h hstep

/-- A sign of one character that the eraser keeps wherever it stands. -/
theorem reaches_spaced_sign {c : Char} {m' : CodeMode} (hx : x.token.text = [c])
    (h : e.rest = x.text ++ rest)
    (hstep : ∀ (e : Eraser) (b : Bool), e.rest = c :: rest →
      Reaches (e.enter (.code { m with newline := b })) ((e.past [.kept [c]] rest).enter (.code m'))) :
    Reaches (e.enter (.code m)) ((e.past x.kept rest).enter (.code m')) := by
  refine reaches_spaced h fun e b h => ?_
  rw [hx] at h ⊢
  exact hstep e b h

theorem reaches_spaced_openRound (hx : x.token = .sign .openRound) (h : e.rest = x.text ++ rest) :
    Reaches (e.enter (.code m)) ((e.past x.kept rest).enter
      (.code ((m.push (.round m.previous.opensParameters)).next (.sign '(')))) :=
  reaches_spaced_sign (by rw [hx]; rfl) h fun _ _ h => reaches_open_round h

theorem reaches_spaced_openCurly (hx : x.token = .sign .openCurly) (h : e.rest = x.text ++ rest)
    (hheader : m.header = false) :
    Reaches (e.enter (.code m))
      ((e.past x.kept rest).enter (.code ((m.push .block).next (.sign '{')))) :=
  reaches_spaced_sign (by rw [hx]; rfl) h fun _ b h =>
    reaches_open_curly (m := { m with newline := b }) h hheader

theorem pop_newline_next (m : CodeMode) (b : Bool) (p : Previous) :
    ({ m with newline := b } : CodeMode).pop.next p = m.pop.next p := by
  obtain ⟨top, outer, previous, newline, header⟩ := m
  cases outer <;> rfl

theorem reaches_spaced_closeCurly (hx : x.token = .sign .closeCurly) (h : e.rest = x.text ++ rest)
    (houter : m.outer ≠ []) :
    Reaches (e.enter (.code m))
      ((e.past x.kept rest).enter (.code (m.pop.next (.sign '\x7d')))) := by
  refine reaches_spaced_sign (by rw [hx]; rfl) h fun _ b h => ?_
  rw [← pop_newline_next m b]
  exact reaches_close_curly (m := { m with newline := b }) h houter

theorem reaches_spaced_openSquare (hx : x.token = .sign .openSquare) (h : e.rest = x.text ++ rest) :
    Reaches (e.enter (.code m))
      ((e.past x.kept rest).enter (.code ((m.push .square).next (.sign '[')))) :=
  reaches_spaced_sign (by rw [hx]; rfl) h fun e b h => reaches_sign h rfl

theorem reaches_spaced_closeSquare (hx : x.token = .sign .closeSquare)
    (h : e.rest = x.text ++ rest) (hkind : m.top.kind = .square) :
    Reaches (e.enter (.code m)) ((e.past x.kept rest).enter (.code (m.pop.next .value))) := by
  refine reaches_spaced_sign (by rw [hx]; rfl) h fun e b h => ?_
  rw [← pop_newline_next m b]
  have hstep : e.stepCode { m with newline := b } ']' rest = .ok (e.keepToken
      (if m.top.kind = .square then ({ m with newline := b } : CodeMode).pop
        else { m with newline := b }) rest .value) := rfl
  rw [if_pos hkind] at hstep
  exact reaches_sign h hstep

theorem reaches_spaced_semicolon (hx : x.token = .sign .semicolon) (h : e.rest = x.text ++ rest) :
    Reaches (e.enter (.code m)) ((e.past x.kept rest).enter (.code m.endDeclarators)) :=
  reaches_spaced_sign (by rw [hx]; rfl) h fun _ _ h => reaches_semicolon h

theorem reaches_spaced_comma (hx : x.token = .sign .comma) (h : e.rest = x.text ++ rest)
    (hplain : m.top.declarators = false) :
    Reaches (e.enter (.code m)) ((e.past x.kept rest).enter (.code (m.next (.sign ',')))) :=
  reaches_spaced_sign (by rw [hx]; rfl) h fun _ b h =>
    reaches_comma (m := { m with newline := b }) h hplain

/-- A connective is two signs to the eraser, with nothing between them. -/
theorem reaches_spaced_connective (k : Connective) (hx : x.token = .sign k.sign)
    (h : e.rest = x.text ++ rest) :
    ∃ c, Reaches (e.enter (.code m)) ((e.past x.kept rest).enter (.code (m.next (.sign c)))) := by
  cases k with
  | both =>
    refine ⟨'&', reaches_spaced h fun e b h => ?_⟩
    rw [hx] at h ⊢
    have h₁ : Reaches (e.enter (.code { m with newline := b }))
        ((e.past [.kept ['&']] ('&' :: rest)).enter (.code (m.next (.sign '&')))) :=
      reaches_sign h rfl
    have h₂ := h₁.andThen fun h => reaches_sign (p := .sign '&') h rfl
    exact h₂.regroup rfl rfl rfl
  | either =>
    refine ⟨'|', reaches_spaced h fun e b h => ?_⟩
    rw [hx] at h ⊢
    have h₁ : Reaches (e.enter (.code { m with newline := b }))
        ((e.past [.kept ['|']] ('|' :: rest)).enter (.code (m.next (.sign '|')))) :=
      reaches_sign h rfl
    have h₂ := h₁.andThen fun h => reaches_sign (p := .sign '|') h rfl
    exact h₂.regroup rfl rfl rfl

/-! ### Signs that the eraser looks behind -/

/-- True of the tokens that an expression starts with. -/
def Token.opens : Token → Bool
  | .name _ | .integer _ | .string _ => true
  | .sign s => s == .bang || s == .openRound || s == .openCurly
  | .keyword _ => false

/-- The characters that the eraser looks for behind a `?` or a `!`. -/
def soughtChars : List Char := ['?', '.', '=', ':', ',', ')', ';']

theorem notMem_soughtChars {p : Char → Bool} (hp : (soughtChars.all fun d => !p d) = true) {c : Char}
    (hc : p c = true) : c ∉ soughtChars := by
  intro hmem
  have hnone := List.all_eq_true.mp hp c hmem
  rw [hc] at hnone
  cases hnone

theorem Token.head_notMem_soughtChars {t : Token} (h : t.opens = true) {c : Char} {s : Text}
    (hs : t.text = c :: s) : c ∉ soughtChars := by
  cases t with
  | name x =>
    obtain ⟨d, s', hs', hd⟩ := x.isWord.head
    obtain ⟨rfl, -⟩ := List.cons.inj (hs'.symm.trans hs)
    exact notMem_soughtChars (by decide) hd
  | integer n =>
    have htext : n.text = c :: s := hs
    exact notMem_soughtChars (by decide) (n.isDigit c (by simp [htext]))
  | string q =>
    obtain ⟨rfl, -⟩ := List.cons.inj hs
    exact notMem_soughtChars (by decide) q.isQuote
  | keyword k => cases h
  | sign s' =>
    cases s'
    case bang => cases hs; decide
    case openRound => cases hs; decide
    case openCurly => cases hs; decide
    all_goals cases h

/-- What stands in front of an expression or in its blanks is not looked for. -/
theorem Spaced.exists_head {y : Spaced} (hy : y.token.opens = true) (rest : Text) :
    ∃ c s, y.text ++ rest = c :: s ∧ c ∉ soughtChars := by
  cases hgap : y.gap with
  | nil =>
    obtain ⟨c, s, hs, -⟩ := y.token.exists_head
    refine ⟨c, s ++ rest, ?_, Token.head_notMem_soughtChars hy hs⟩
    rw [Spaced.text, hgap, List.nil_append, hs, List.cons_append]
  | cons c gap =>
    refine ⟨c, gap ++ y.token.text ++ rest, ?_, ?_⟩
    · rw [Spaced.text, hgap, List.cons_append, List.cons_append]
    · exact notMem_soughtChars (by decide) (y.isGap c (by simp [hgap]))

/-- The code with one more question mark that waits. -/
def waiting (m : CodeMode) : CodeMode :=
  { m with top := { m.top with ternaries := m.top.ternaries + 1 } }

/-- A `?` in front of an expression waits for its colon. -/
theorem stepQuestion_eq {s : Text} {c d : Char} {t t' : Text} (hs : s = c :: t)
    (hc : c ∉ soughtChars) (hnext : Text.skipBlanks s = d :: t') (hd : d ∉ soughtChars) :
    e.stepQuestion m s = e.keepToken (waiting m) s (.sign '?') := by
  have hne : ∀ x ∈ soughtChars, c ≠ x ∧ d ≠ x := by
    refine fun x hx => ⟨?_, ?_⟩ <;> rintro rfl
    · exact hc hx
    · exact hd hx
  have hquestion := (hne '?' (by decide)).1
  have hdot := (hne '.' (by decide)).1
  have hequals := (hne '=' (by decide)).1
  have hcolon := (hne ':' (by decide)).2
  have hcomma := (hne ',' (by decide)).2
  have hround := (hne ')' (by decide)).2
  have hbehind := (hne '=' (by decide)).2
  have hsemicolon := (hne ';' (by decide)).2
  have hmarks : (m.previous.isWord && (startsWithChar ':' (d :: t') ||
      (m.top.kind.takesTypes && !startsWithChar '=' (c :: t) &&
        (d == ',' || d == ')' || d == '=' || d == ';')))) = false := by
    simp [startsWithChar, hcolon, hcomma, hround, hbehind, hsemicolon]
  subst hs
  unfold stepQuestion
  split
  · rename_i heq
    exact absurd (List.cons.inj heq).1 hquestion
  split
  · rename_i heq
    exact absurd (List.cons.inj heq).1 hdot
  dsimp only
  rw [hnext]
  dsimp only
  rw [hmarks]
  rfl

theorem reaches_spaced_question (hx : x.token = .sign .question)
    (h : e.rest = x.text ++ (y.text ++ rest)) (hy : y.token.opens = true) :
    Reaches (e.enter (.code m))
      ((e.past x.kept (y.text ++ rest)).enter (.code ((waiting m).next (.sign '?')))) := by
  obtain ⟨c, t, hs, hc⟩ := Spaced.exists_head hy rest
  obtain ⟨d, t', htoken, -⟩ := y.token.exists_head
  have hnext : Text.skipBlanks (y.text ++ rest) = d :: (t' ++ rest) := by
    rw [y.skipBlanks_text, htoken, List.cons_append]
  refine reaches_spaced_sign (by rw [hx]; rfl) h fun e b h => ?_
  exact reaches_sign h (congrArg Except.ok (stepQuestion_eq (m := { m with newline := b }) hs hc
    hnext (Token.head_notMem_soughtChars hy htoken)))

/-- The code with one question mark less that waits. -/
def answered (m : CodeMode) : CodeMode :=
  { m with top := { m.top with ternaries := m.top.ternaries - 1 } }

/-- A `:` where a question mark waits. -/
theorem reaches_spaced_colon_waiting (hx : x.token = .sign .colon) (h : e.rest = x.text ++ rest)
    (hwaits : 0 < m.top.ternaries) :
    Reaches (e.enter (.code m))
      ((e.past x.kept rest).enter (.code ((answered m).next (.sign ':')))) := by
  refine reaches_spaced_sign (by rw [hx]; rfl) h fun e b h => ?_
  have hstep : e.stepColon { m with newline := b } rest
      = e.keepToken (answered { m with newline := b }) rest (.sign ':') := by
    rw [stepColon, if_pos hwaits]
    rfl
  exact reaches_sign h (congrArg Except.ok hstep)

/-- A `:` between braces, where none waits. -/
theorem reaches_spaced_colon_block (hx : x.token = .sign .colon) (h : e.rest = x.text ++ rest)
    (hnone : m.top.ternaries = 0) (hkind : m.top.kind = .block) :
    Reaches (e.enter (.code m)) ((e.past x.kept rest).enter (.code (m.next (.sign ':')))) := by
  refine reaches_spaced_sign (by rw [hx]; rfl) h fun e b h => ?_
  have htypes : ({ m with newline := b } : CodeMode).top.kind.takesTypes = false := by
    rw [hkind]
    rfl
  have hsame : ({ m with newline := b } : CodeMode).top.ternaries = 0 := hnone
  have hstep : e.stepColon { m with newline := b } rest
      = e.keepToken { m with newline := b } rest (.sign ':') := by
    rw [stepColon, if_neg (by omega)]
    simp only [htypes, Bool.false_and]
    rfl
  exact reaches_sign h (congrArg Except.ok hstep)

/-- A `.` in front of a name. -/
theorem reaches_spaced_dot {n : Name} (hx : x.token = .sign .dot) (hy : y.token = .name n)
    (h : e.rest = x.text ++ (y.text ++ rest)) :
    Reaches (e.enter (.code m))
      ((e.past x.kept (y.text ++ rest)).enter (.code (m.next (.sign '.')))) := by
  have hdigit : (y.text ++ rest).head?.any isAsciiDigit = false := by
    cases hgap : y.gap with
    | nil =>
      obtain ⟨c, s, hs, hc⟩ := n.isWord.head
      have htext : y.text ++ rest = c :: (s ++ rest) := by
        rw [Spaced.text, hgap, hy, List.nil_append, ← List.cons_append, ← hs]
        rfl
      rw [htext]
      exact isAsciiDigit_eq_false_of_identStart hc
    | cons c gap =>
      have hc : isGapChar c = true := y.isGap c (by simp [hgap])
      rw [Spaced.text, hgap]
      show isAsciiDigit c = false
      simp only [isGapChar, Bool.or_eq_true, beq_iff_eq] at hc
      rcases hc with ((rfl | rfl) | rfl) | rfl <;> rfl
  refine reaches_spaced_sign (by rw [hx]; rfl) h fun e b h => ?_
  have hstep : e.stepCode { m with newline := b } '.' (y.text ++ rest) =
      if (y.text ++ rest).head?.any isAsciiDigit then
        .ok (e.keepToken { m with newline := b } ((y.text ++ rest).dropWhile isIdentChar) .value)
      else .ok (e.keepToken { m with newline := b } (y.text ++ rest) (.sign '.')) := rfl
  rw [hdigit, if_neg Bool.false_ne_true] at hstep
  exact reaches_sign h hstep

/-- A token that is no colon does not start like one. -/
theorem Token.stops_colon {t : Token} (h : t.isColon = false) (rest : Text) :
    Stops (· == ':') (t.text ++ rest) := by
  have hne : ∀ {c : Char} {s : Text} {p : Char → Bool}, t.text = c :: s → p c = true →
      p ':' = false → Stops (· == ':') (t.text ++ rest) := by
    intro c s p hs hc hp
    rw [hs]
    refine Text.stops_cons.mpr (beq_eq_false_iff_ne.mpr ?_)
    rintro rfl
    rw [hc] at hp
    cases hp
  cases t with
  | name x =>
    obtain ⟨c, s, hs, hc⟩ := x.isWord.head
    exact hne hs hc (by decide)
  | integer d =>
    obtain ⟨c, s, hs⟩ := List.exists_cons_of_ne_nil d.ne_nil
    exact hne hs (d.isDigit c (by simp [hs])) (by decide)
  | string q => exact hne rfl q.isQuote (by decide)
  | keyword k =>
    obtain ⟨c, s, hs, hc⟩ := k.isWord.head
    exact hne hs hc (by decide)
  | sign s =>
    cases s
    case colon => cases h
    all_goals exact Text.stops_cons.mpr (by decide)

/-- Where a question mark waits, no `:` opens a return type. -/
theorem eraseReturnType_of_waiting {closed outer : Frame} (h : 0 < outer.ternaries) :
    e.eraseReturnType closed outer = e := by
  unfold eraseReturnType
  split
  · exact if_pos h
  · rfl

/-- A `)` in front of another token.  Only in front of a colon it is looked at, and not even there
if the colon is waited for. -/
theorem reaches_spaced_closeRound {b : Bool} (hx : x.token.text = [')'])
    (h : e.rest = x.text ++ (y.text ++ rest)) (hkind : m.top.kind = .round b)
    (hcolon : y.token.isColon = true → 0 < m.pop.top.ternaries) :
    Reaches (e.enter (.code m))
      ((e.past x.kept (y.text ++ rest)).enter (.code (m.pop.next .value))) := by
  refine reaches_spaced_sign hx h fun e b' h => ?_
  have hplain : (e.keep (y.text ++ rest)).eraseReturnType m.top m.pop.top
      = e.keep (y.text ++ rest) := by
    by_cases hwaits : y.token.isColon = true
    · exact eraseReturnType_of_waiting (hcolon hwaits)
    · refine eraseReturnType_of_stops ?_
      have hrest : (e.keep (y.text ++ rest)).rest = y.text ++ rest := rfl
      rw [hrest, y.skipBlanks_text]
      exact Token.stops_colon (by simpa using hwaits) rest
  refine reaches_past h (List.cons_ne_nil _ _) ?_
  have hpop := congrArg CodeMode.top (pop_newline_next m b' .value)
  have hpop : ({ m with newline := b' } : CodeMode).pop.top = m.pop.top := hpop
  have hstep : e.stepCode { m with newline := b' } ')' (y.text ++ rest)
    = .ok (((e.keep (y.text ++ rest)).eraseReturnType m.top
      ({ m with newline := b' } : CodeMode).pop.top).inCode
        ({ m with newline := b' } : CodeMode).pop .value) :=
    congrArg Except.ok (stepRoundEnd_eq (m := { m with newline := b' }) hkind)
  rw [step_code h, hstep, hpop, hplain, keep_cons h, inCode, pop_newline_next]

/-! ### Bangs -/

/-- Where an expression starts.  It is attached where the eraser takes the token in front for the
end of another expression, and no blank was read since. -/
inductive Entry : Bool → Eraser → CodeMode → Prop where
  | apart {e : Eraser} {m : CodeMode} (hprevious : m.previous.endsExpression = false) :
      Entry false e m
  | attached {e : Eraser} {m : CodeMode} (hbefore : (e.before.any fun c => !isBlank c) = true)
      (hprevious : m.previous.endsExpression = true) (hnewline : m.newline = false) : Entry true e m

theorem stepBang_kept {s : Text} (h : m.previous.endsExpression = false ∨
    (e.before.any fun c => !isBlank c) = false) : e.stepBang m s = e.keepToken m s (.sign '!') := by
  rw [stepBang]
  rcases h with h | h
  · rw [h, Bool.and_false, Bool.false_and]
    rfl
  · rw [h, Bool.and_false, Bool.false_and, Bool.false_and]
    rfl

theorem reaches_bang_kept (h : e.rest = '!' :: rest) (hkept : m.previous.endsExpression = false ∨
    (e.before.any fun c => !isBlank c) = false) :
    Reaches (e.enter (.code m)) ((e.past [.kept ['!']] rest).enter (.code (m.next (.sign '!')))) :=
  reaches_sign h (congrArg Except.ok (stepBang_kept hkept))

theorem reaches_bang_erased (h : e.rest = '!' :: rest) (hequals : startsWithChar '=' rest = false)
    (hentry : Entry true e m) : Reaches (e.enter (.code m))
      ((e.past [.erased .nonNull ['!']] rest).enter (.code (m.next m.previous))) := by
  refine reaches_erased (t := []) h ?_
  have hstep : e.stepCode m '!' rest = .ok (e.stepBang m rest) := rfl
  cases hentry with
  | attached hbefore hprevious hnewline =>
    rw [List.nil_append, hstep, stepBang, hequals, hbefore, hprevious, hnewline]
    rfl

/-- Behind blanks nothing is attached. -/
theorem before_gap {gap : Text} (hgap : ∀ c ∈ gap, isGapChar c = true) (hne : gap ≠ []) (s : Text) :
    ((e.past [.kept gap] s).before.any fun c => !isBlank c) = false := by
  have hlast : isBlank (gap.getLast hne) = true :=
    isBlank_of_isGapChar (hgap _ (List.getLast_mem hne))
  simp [List.getLast?_eq_some_getLast hne, hlast]

/-- **A `!` in front of an expression is kept, unless it is attached.** -/
theorem reaches_spaced_bang {attached : Bool} (hx : x.token = .sign .bang)
    (h : e.rest = x.text ++ (y.text ++ rest)) (hy : y.token.opens = true)
    (hentry : Entry attached e m) :
    ∃ ps attached' p, (∀ l, pieces attached (x :: l) = ps ++ pieces attached' l) ∧
      Entry attached' (e.past ps (y.text ++ rest)) (m.next p) ∧
      Reaches (e.enter (.code m)) ((e.past ps (y.text ++ rest)).enter (.code (m.next p))) := by
  have hbang : x.token.isBang = true := by
    rw [hx]
    rfl
  have hsign : x.token.text = ['!'] := by
    rw [hx]
    rfl
  by_cases hattached : (attached && x.gap.isEmpty) = true
  · -- the `!` is removed, and the next one would be attached to it
    rw [Bool.and_eq_true, List.isEmpty_iff] at hattached
    obtain ⟨rfl, hgap⟩ := hattached
    obtain ⟨c, s, hs, hc⟩ := Spaced.exists_head hy rest
    have hequals : startsWithChar '=' (y.text ++ rest) = false := by
      rw [hs]
      refine beq_eq_false_iff_ne.mpr fun heq => ?_
      cases heq
      exact hc (by decide)
    have htext : e.rest = '!' :: (y.text ++ rest) := by
      rw [h, Spaced.text, hgap, hsign]
      rfl
    have hprevious : m.previous.endsExpression = true := by
      cases hentry with
      | attached _ hprevious _ => exact hprevious
    refine ⟨[.erased .nonNull ['!']], true, m.previous, fun l => ?_, ?_,
      reaches_bang_erased htext hequals hentry⟩
    · rw [pieces, hbang, hgap, hsign]
      rfl
    · exact .attached rfl hprevious rfl
  · -- the `!` is kept, and an operator stands in front of what follows
    refine ⟨x.kept, false, .sign '!', fun l => ?_, .apart rfl, ?_⟩
    · have hclose : x.token.closesCondition = false := by
        rw [hx]
        rfl
      rw [pieces, if_neg (by
        rw [Bool.and_right_comm, Bool.and_eq_true]
        exact fun h => hattached h.1), hclose]
    cases hentry with
    | apart hprevious =>
      exact reaches_spaced_sign hsign h fun e b h =>
        reaches_bang_kept (m := { m with newline := b }) h (Or.inl hprevious)
    | attached _ _ _ =>
      have hgap : x.gap ≠ [] := by
        intro hgap
        rw [hgap] at hattached
        exact hattached rfl
      rw [Spaced.text, List.append_assoc, hsign] at h
      obtain ⟨b, hblank⟩ := reaches_gap (m := m) x.isGap h
      have hend := hblank.andThen fun hrest =>
        reaches_bang_kept (m := { m with newline := b }) hrest (Or.inr (before_gap x.isGap hgap _))
      rw [← hsign] at hend
      exact hend

end

end LivePreview.Erasure.FreeForm

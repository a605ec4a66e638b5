/-
What the eraser does with the tokens that it keeps.

There is one lemma for each kind of token, and each of them says that steps lead from in
front of the token to behind it, and what is then known about the code in front.  A word
is kept if no rule looks for it.  A closing bracket leads back to the code in front of the
opening one.
-/
import LivePreview.Proofs.Erasure.Progress
import LivePreview.Proofs.Script.TypeParameter

namespace LivePreview.Erasure

open Script
open Text (Stops)

namespace CodeMode

/-- The same code inside a list of declarators. -/
def listDeclarators (m : CodeMode) : CodeMode :=
  { m with top := { m.top with declarators := true } }

/-- The code behind a semicolon, which ends a list of declarators. -/
def endDeclarators (m : CodeMode) : CodeMode :=
  { m with top := { m.top with declarators := false } }.next (.sign ';')

end CodeMode

namespace Eraser

variable {e : Eraser} {m : CodeMode} {rest : Text}

/-! ### Steps in code -/

theorem step_code {c : Char} {s : Text} (h : e.rest = c :: s) :
    (e.enter (.code m)).step = e.stepCode m c s := by
  obtain ⟨before, text, out, report, modes⟩ := e
  obtain rfl : text = c :: s := h
  rfl

/-- A token that is kept. -/
theorem reaches_token {c : Char} {t : Text} {m' : CodeMode} {p : Previous}
    (h : e.rest = c :: (t ++ rest))
    (hstep : e.stepCode m c (t ++ rest) = .ok (e.keepToken m' rest p)) :
    Reaches (e.enter (.code m))
      ((e.past [.kept (c :: t)] rest).enter (.code (m'.next p))) := by
  refine reaches_past h (List.cons_ne_nil _ _) ?_
  rw [step_code h, hstep, keepToken, keep_eq (r := c :: t) h, inCode]

theorem reaches_newline (h : e.rest = '\n' :: rest) :
    Reaches (e.enter (.code m))
      ((e.past [.kept ['\n']] rest).enter (.code { m with newline := true })) := by
  refine reaches_past h (List.cons_ne_nil _ _) ?_
  rw [step_code h, ← keep_cons h]
  rfl

theorem reaches_space (h : e.rest = ' ' :: rest) :
    Reaches (e.enter (.code m)) ((e.past [.kept [' ']] rest).enter (.code m)) := by
  refine reaches_past h (List.cons_ne_nil _ _) ?_
  rw [step_code h, ← keep_cons h]
  rfl

/-- What is neither a blank nor a slash is a token. -/
theorem stepCode_eq_stepToken {c : Char} {s : Text} (hblank : isBlank c = false) (hc : c ≠ '/') :
    e.stepCode m c s = e.stepToken m c s := by
  have hne : ∀ d, isBlank d = true → c ≠ d := by
    rintro d hd rfl
    rw [hd] at hblank
    exact Bool.noConfusion hblank
  simp only [stepCode, hne '\n' (by decide), hne ' ' (by decide), hne '\t' (by decide),
    hne '\r' (by decide), decide_false, Bool.or_self, Bool.false_eq_true, if_false]
  split
  · rename_i heq
    exact absurd (List.cons.inj heq).1 hc
  · rename_i heq
    exact absurd (List.cons.inj heq).1 hc
  · rfl

/-! ### Brackets and signs -/

theorem reaches_open_round (h : e.rest = '(' :: rest) :
    Reaches (e.enter (.code m)) ((e.past [.kept ['(']] rest).enter
      (.code ((m.push (.round m.previous.opensParameters)).next (.sign '(')))) :=
  reaches_token (t := []) h rfl

theorem reaches_open_curly (h : e.rest = '{' :: rest) (hheader : m.header = false) :
    Reaches (e.enter (.code m))
      ((e.past [.kept ['{']] rest).enter (.code ((m.push .block).next (.sign '{')))) := by
  refine reaches_token (t := []) h ?_
  have : e.stepCode m '{' rest = .ok (e.keepToken
      (if m.header then { m with header := false }.push .classBody else m.push .block)
      rest (.sign '{')) := rfl
  rw [List.nil_append, this, hheader]
  rfl

theorem reaches_close_curly (h : e.rest = '\x7d' :: rest) (houter : m.outer ≠ []) :
    Reaches (e.enter (.code m))
      ((e.past [.kept ['\x7d']] rest).enter (.code (m.pop.next (.sign '\x7d')))) := by
  refine reaches_token (t := []) h ?_
  have : e.stepCode m '\x7d' rest = .ok (e.stepCurlyEnd m rest) := rfl
  have hnone : m.outer.isEmpty = false := by simpa using houter
  rw [List.nil_append, this, stepCurlyEnd, hnone]
  rfl

theorem reaches_semicolon (h : e.rest = ';' :: rest) :
    Reaches (e.enter (.code m))
      ((e.past [.kept [';']] rest).enter (.code m.endDeclarators)) :=
  reaches_token (t := []) h rfl

theorem reaches_comma (h : e.rest = ',' :: rest) (hplain : m.top.declarators = false) :
    Reaches (e.enter (.code m))
      ((e.past [.kept [',']] rest).enter (.code (m.next (.sign ',')))) := by
  refine reaches_token (t := []) h ?_
  have : e.stepCode m ',' rest = .ok (e.stepComma m rest) := rfl
  rw [List.nil_append, this, stepComma, hplain]
  rfl

theorem reaches_arrow (h : e.rest = '=' :: '>' :: rest) :
    Reaches (e.enter (.code m)) ((e.past [.kept ['=', '>']] rest).enter (.code (m.next .arrow))) :=
  reaches_token (t := ['>']) h rfl

theorem reaches_equals (h : e.rest = '=' :: rest) (hsign : Stops (· == '>') rest) :
    Reaches (e.enter (.code m))
      ((e.past [.kept ['=']] rest).enter (.code (m.next (.sign '=')))) := by
  refine reaches_token (t := []) h ?_
  rw [List.nil_append]
  cases rest with
  | nil => rfl
  | cons c rest =>
    have hc : c ≠ '>' := by simpa using hsign
    have hstep : e.stepCode m '=' (c :: rest) = e.stepToken m '=' (c :: rest) := rfl
    have hstart : isIdentStart '=' = false := by decide
    have hquote : isQuote '=' = false := by decide
    rw [hstep]
    simp only [stepToken, hstart, hquote, Bool.false_eq_true, Char.reduceEq, if_false, if_true]
    split
    · rename_i heq
      exact absurd (List.cons.inj heq).1 hc
    · rfl

end Eraser

/-! ### Literals -/

/-- A printed integer. -/
@[ext] structure Digits where
  text : Text
  ne_nil : text ≠ []
  isDigit : ∀ c ∈ text, isAsciiDigit c = true

instance : DecidableEq Digits := fun _ _ => decidable_of_iff _ Digits.ext_iff.symm

/-- A printed string: a quote, a text in which nothing has to be escaped, and the quote
again. -/
@[ext] structure QuotedText where
  quote : Char
  body : Text
  isQuote : isQuote quote = true
  isPlain : ∀ c ∈ body, c ≠ quote ∧ c ≠ '\\' ∧ c ≠ '\n'

instance : DecidableEq QuotedText := fun _ _ => decidable_of_iff _ QuotedText.ext_iff.symm

/-- The text of a string, with its quotes. -/
def QuotedText.text (q : QuotedText) : Text := q.quote :: q.body ++ [q.quote]

theorem QuotedText.endsVisibly (q : QuotedText) : Eraser.EndsVisibly q.text := by
  have hquote : isInline q.quote = false := by
    have := q.isQuote
    simp only [Script.isQuote, Bool.or_eq_true, beq_iff_eq] at this
    rcases this with h | h <;> rw [h] <;> decide
  exact (Eraser.endsVisibly_singleton hquote).append (q.quote :: q.body)

theorem stringRest_append {quote : Char} {body : Text}
    (h : ∀ c ∈ body, c ≠ quote ∧ c ≠ '\\' ∧ c ≠ '\n') (hquote : isQuote quote = true)
    (rest : Text) : stringRest quote (body ++ quote :: rest) = rest := by
  induction body with
  | nil =>
    have hne : quote ≠ '\\' ∧ quote ≠ '\n' := by
      constructor <;> rintro rfl <;> exact absurd hquote (by decide)
    rw [List.nil_append, stringRest]
    · simp
    · exact fun _ _ h _ => hne.1 h
    · exact hne.2
  | cons c body ih =>
    obtain ⟨hq, hb, hn⟩ := h c (List.mem_cons_self ..)
    rw [List.cons_append, stringRest, if_neg hq]
    · exact ih fun d hd => h d (List.mem_cons_of_mem _ hd)
    · exact fun _ _ h _ => hb h
    · exact hn

namespace Eraser

variable {e : Eraser} {m : CodeMode} {rest : Text}

theorem reaches_digits (d : Digits) (h : e.rest = d.text ++ rest)
    (hrest : Stops (fun c => isIdentChar c || c == '.') rest) :
    Reaches (e.enter (.code m))
      ((e.past [.kept d.text] rest).enter (.code (m.next .value))) := by
  obtain ⟨c, tail, hd⟩ := List.exists_cons_of_ne_nil d.ne_nil
  have hdigit : isAsciiDigit c = true := d.isDigit c (by simp [hd])
  have hne : ∀ x, isAsciiDigit x = false → c ≠ x := by
    rintro x hx rfl
    rw [hdigit] at hx
    exact Bool.noConfusion hx
  have hstart : isIdentStart c = false := by
    by_contra hc
    rw [isAsciiDigit_eq_false_of_identStart (by simpa using hc)] at hdigit
    exact Bool.noConfusion hdigit
  have hdrop : (tail ++ rest).dropWhile (fun c => isIdentChar c || c == '.') = rest := by
    refine Text.dropWhile_append (fun x hx => ?_) hrest
    have := d.isDigit x (by simp [hd, hx])
    simp [isIdentChar, this]
  rw [hd] at h ⊢
  refine reaches_token h ?_
  rw [stepCode_eq_stepToken _ (hne '/' (by decide))]
  · simp [stepToken, hstart, hdigit, hdrop, isQuote, hne '/' (by decide), hne '"' (by decide),
      hne '\'' (by decide), hne '\x60' (by decide), hne '(' (by decide), hne ')' (by decide),
      hne '[' (by decide), hne ']' (by decide), hne '{' (by decide), hne '\x7d' (by decide),
      hne '?' (by decide), hne ':' (by decide), hne '!' (by decide), hne '<' (by decide),
      hne '=' (by decide)]
  · exact isBlank_eq_false_of_identChar (by simp [isIdentChar, hdigit])

theorem reaches_quoted (q : QuotedText) (h : e.rest = q.text ++ rest) :
    Reaches (e.enter (.code m))
      ((e.past [.kept q.text] rest).enter (.code (m.next .value))) := by
  have hrest := stringRest_append q.isPlain q.isQuote rest
  have hquote := q.isQuote
  rw [QuotedText.text] at h ⊢
  refine reaches_token (t := q.body ++ [q.quote]) (by simpa using h) ?_
  rw [List.append_assoc, List.singleton_append]
  simp only [isQuote, Bool.or_eq_true, beq_iff_eq] at hquote
  rcases hquote with hquote | hquote
  · rw [hquote] at hrest ⊢
    have : e.stepCode m '"' (q.body ++ '"' :: rest)
      = .ok (e.keepToken m (stringRest '"' (q.body ++ '"' :: rest)) .value) := rfl
    rw [this, hrest]
  · rw [hquote] at hrest ⊢
    have : e.stepCode m '\'' (q.body ++ '\'' :: rest)
      = .ok (e.keepToken m (stringRest '\'' (q.body ++ '\'' :: rest)) .value) := rfl
    rw [this, hrest]

/-! ### Words -/

/-- The words that a step looks at. -/
def watchedWords : List Text :=
  ["interface", "type", "declare", "enum", "const", "abstract", "class", "let", "var", "this",
    "as", "satisfies", "public", "private", "protected", "readonly",
    "override"].map String.toList

/-- In front of a word a step is a step over that word. -/
theorem step_word {w : Text} (hw : IsWord w) (h : e.rest = w ++ rest) :
    (e.enter (.code m)).step = e.stepWord m := by
  obtain ⟨c, tail, rfl, hc⟩ := hw.head
  have hne : c ≠ '/' := by
    rintro rfl
    exact absurd hc (by decide)
  have hblank := isBlank_eq_false_of_identChar (isIdentChar_of_start hc)
  rw [step_code h, stepCode_eq_stepToken hblank hne]
  unfold stepToken
  rw [if_pos hc]

theorem stepWord_plain {w : Text} (hw : IsWord w) (h : e.rest = w ++ rest)
    (hrest : Stops isIdentChar rest) (hplain : watchedWords.contains w = false) :
    e.stepWord m = .ok ((e.keep rest).inCode m (.word w)) := by
  have hne : ∀ x : String, watchedWords.contains x.toList = true → w ≠ x.toList := by
    rintro x hx rfl
    rw [hx] at hplain
    exact Bool.noConfusion hplain
  have hmember : memberModifiers.contains w = false := by
    by_contra hc
    have hmem : w ∈ memberModifiers := by simpa using hc
    have hsub : ∀ x ∈ memberModifiers, watchedWords.contains x = true := by decide
    rw [hsub w hmem] at hplain
    exact Bool.noConfusion hplain
  have hvariable : variableWords.contains w = false := by
    by_contra hc
    have hmem : w ∈ variableWords := by simpa using hc
    have hsub : ∀ x ∈ variableWords, watchedWords.contains x = true := by decide
    rw [hsub w hmem] at hplain
    exact Bool.noConfusion hplain
  simp only [stepWord, h, hw.ident_append hrest, hw.skipIdent_append hrest, hmember, hvariable,
    hne "interface" (by decide), hne "type" (by decide), hne "declare" (by decide),
    hne "enum" (by decide), hne "const" (by decide), hne "abstract" (by decide),
    hne "class" (by decide), hne "this" (by decide), hne "as" (by decide),
    hne "satisfies" (by decide), decide_false, Bool.false_and, Bool.or_self, Bool.false_eq_true,
    if_false]

theorem reaches_word {w : Text} (hw : IsWord w) (h : e.rest = w ++ rest)
    (hrest : Stops isIdentChar rest) (hplain : watchedWords.contains w = false) :
    Reaches (e.enter (.code m))
      ((e.past [.kept w] rest).enter (.code (m.next (.word w)))) := by
  refine reaches_past h hw.ne_nil ?_
  rw [step_word hw h, stepWord_plain hw h hrest hplain, keep_eq h, inCode]

theorem reaches_name (x : Name) (h : e.rest = x.text ++ rest) (hrest : Stops isIdentChar rest) :
    Reaches (e.enter (.code m))
      ((e.past [.kept x.text] rest).enter (.code (m.next (.word x.text)))) :=
  reaches_word x.isWord h hrest (x.not_contains (by decide +kernel))

end Eraser

end LivePreview.Erasure

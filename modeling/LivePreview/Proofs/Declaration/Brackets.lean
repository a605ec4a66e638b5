/-
What a part of a program does to the count of brackets.

The scan for declarations counts the brackets that are open and passes over strings, templates and
comments.  It does not know regular expressions and the text of markup, so a quote in one of these
hides what stands behind it on its line, and a bracket in one is counted.  `Counts` says of the text
of a declaration how many brackets are counted open at its end and which of its lines look like
further declarations, and `Counts.runsTo` carries the scan over such a text.

Brackets, strings and templates that are closed as the scan reads them leave the count as it is, so
the text of most declarations counts from nothing to nothing.
-/
import LivePreview.Proofs.Declaration.Place
import LivePreview.Proofs.Script.TokenText
import LivePreview.Proofs.Text.LineStart

namespace LivePreview.Declaration

open Script
open Text (LineEnds Stops)

variable {s t e rest : Text} {c : Char} {b : Bracket} {found ds : List Declaration} {k n d : Nat}
  {fresh : Bool}

/-- A text as brackets are counted in it: `k` are open in front of it and `n` behind it, and `found`
are the declarations that start its lines where none is open. -/
inductive Counts : Nat → Text → List Declaration → Nat → Prop
  | nil {k : Nat} : Counts k [] [] k
  | char {k n : Nat} {c : Char} {s : Text} {found : List Declaration}
      (hc : isTokenChar c = true ∨ c = ';') (hident : isIdentStart c = false) (hline : c ≠ '\n')
      (hs : Counts k s found n) : Counts k (c :: s) found n
  | word {k n : Nat} {w s : Text} {found : List Declaration} (hw : IsWord w)
      (hstop : Stops isIdentChar s) (hs : Counts k s found n) : Counts k (w ++ s) found n
  /-- a slash that starts no comment -/
  | slash {k n : Nat} {s : Text} {found : List Declaration}
      (hcomment : Stops (fun c => c == '/' || c == '*') s) (hs : Counts k s found n) :
      Counts k ('/' :: s) found n
  /-- the end of a line; outside of all brackets no word starts the next one -/
  | newline {k n : Nat} {s : Text} {found : List Declaration}
      (hline : k = 0 → Stops isIdentStart (Text.skipInline s)) (hs : Counts k s found n) :
      Counts k ('\n' :: s) found n
  /-- a line outside of all brackets that starts with a word -/
  | line {n : Nat} {u w s : Text} {declaration? : Option Declaration} {found : List Declaration}
      (hu : ∀ c ∈ u, isInline c = true) (hw : IsWord w) (hstop : Stops isIdentChar s)
      (hstart : ∀ e, LineEnds e → startingAt? (w ++ (s ++ e)) = declaration?)
      (hs : Counts 0 s found n) :
      Counts 0 ('\n' :: (u ++ (w ++ s))) (declaration?.toList ++ found) n
  | string {k n : Nat} (q : StringType) {s : Text} {found : List Declaration}
      (hs : Counts k s found n) : Counts k (q.text ++ s) found n
  | template {k n : Nat} (t : TemplateType) {s : Text} {found : List Declaration}
      (hs : Counts k s found n) : Counts k (t.text ++ s) found n
  | lineComment {k n : Nat} {body s : Text} {found : List Declaration} (hbody : '\n' ∉ body)
      (hend : LineEnds s) (hs : Counts k s found n) : Counts k ('/' :: '/' :: (body ++ s)) found n
  | blockComment {k n : Nat} {body s : Text} {found : List Declaration}
      (hbody : ¬['*', '/'] <:+: body) (hs : Counts k s found n) :
      Counts k ('/' :: '*' :: (body ++ '*' :: '/' :: s)) found n
  /-- a quote without a second one on its line -/
  | cut {k n : Nat} {quote : Char} {body s : Text} {found : List Declaration}
      (hquote : isQuote quote = true) (hbody : ∀ c ∈ body, c ∉ [quote, '\\', '\n'])
      (hend : LineEnds s) (hs : Counts k s found n) : Counts k (quote :: (body ++ s)) found n
  | group {k n : Nat} (g : BracketGroup) {s : Text} {found : List Declaration}
      (hs : Counts k s found n) : Counts k (g.text ++ s) found n
  | opened {k n : Nat} (b : Bracket) {s : Text} {found : List Declaration}
      (hs : Counts (k + 1) s found n) : Counts k (b.opening :: s) found n
  /-- a closing bracket, also one of nothing that is open -/
  | closed {k n : Nat} (b : Bracket) {s : Text} {found : List Declaration}
      (hs : Counts (k - 1) s found n) : Counts k (b.closing :: s) found n

/-! ### One step -/

namespace Place

/-- Where nothing is found the scan goes on with what it has. -/
theorem Reaches.step {p q : Place} (hfound : p.found? = none) (hne : p.rest ≠ [])
    (h : Reaches p.next ds q) : Reaches p ds q := by
  have hstep := Reaches.next hne h
  rwa [hfound] at hstep

theorem found?_of_stops (h : Stops isIdentStart s) : found? ⟨fresh, d, s⟩ = none := by
  refine if_neg ?_
  cases s with
  | nil => simp [startsIdent]
  | cons c s => simp [startsIdent, Text.stops_cons.mp h]

theorem found?_of_not_fresh (depth : Nat) (s : Text) : found? ⟨false, depth, s⟩ = none :=
  if_neg (by simp)

theorem next_inline (hc : isInline c = true) (s : Text) :
    next ⟨fresh, d, c :: s⟩ = ⟨fresh, d, s⟩ := by
  have hline : c ≠ '\n' := by
    rintro rfl
    cases hc
  simp [next, hline, hc]

theorem next_opening (b : Bracket) (s : Text) :
    next ⟨fresh, d, b.opening :: s⟩ = ⟨false, d + 1, s⟩ := by
  cases b <;> rfl

theorem next_closing (b : Bracket) (s : Text) :
    next ⟨fresh, d, b.closing :: s⟩ = ⟨false, d - 1, s⟩ := by
  cases b <;> rfl

theorem next_word {w : Text} (hw : IsWord w) (hstop : Stops isIdentChar s) :
    next ⟨fresh, d, w ++ s⟩ = ⟨false, d, s⟩ := by
  obtain ⟨c, v, rfl, hc⟩ := hw.head
  have hskip := hw.skipIdent_append hstop
  rw [List.cons_append] at hskip ⊢
  rw [next_ident hc, hskip]

/-- A literal or a slash is passed over. -/
theorem next_literal (hc : c ∈ ['"', '\'', '\x60', '/']) (s : Text) :
    next ⟨fresh, d, c :: s⟩ = ⟨false, d, (afterLiteral? (c :: s)).getD s⟩ := by
  fin_cases hc <;> rfl

theorem next_of_afterLiteral? (hc : c ∈ ['"', '\'', '\x60', '/'])
    (h : afterLiteral? (c :: t) = some s) : next ⟨fresh, d, c :: t⟩ = ⟨false, d, s⟩ := by
  rw [next_literal hc, h, Option.getD_some]

theorem afterLiteral?_quote {quote : Char} (hquote : isQuote quote = true) (s : Text) :
    quote ∈ ['"', '\'', '\x60', '/'] ∧
      afterLiteral? (quote :: s) = some (stringRest quote s) := by
  rw [isQuote, Bool.or_eq_true, beq_iff_eq, beq_iff_eq] at hquote
  obtain rfl | rfl := hquote <;> exact ⟨by simp, rfl⟩

/-- A string is passed over. -/
theorem next_string (q : StringType) (s : Text) :
    next ⟨fresh, d, q.text ++ s⟩ = ⟨false, d, s⟩ := by
  obtain ⟨hmem, hliteral⟩ := afterLiteral?_quote q.isQuote (q.body ++ q.quote :: s)
  rw [stringRest_of_leave q.isQuote q.closed] at hliteral
  rw [StringType.text, List.cons_append, List.append_assoc]
  exact next_of_afterLiteral? hmem hliteral

theorem next_template (t : TemplateType) (s : Text) :
    next ⟨fresh, d, t.text ++ s⟩ = ⟨false, d, s⟩ :=
  next_of_afterLiteral? (by simp) (congrArg some (t.skipTemplate_text s))

theorem next_blockComment {body : Text} (hbody : ¬['*', '/'] <:+: body) (s : Text) :
    next ⟨fresh, d, '/' :: '*' :: (body ++ '*' :: '/' :: s)⟩ = ⟨false, d, s⟩ :=
  next_of_afterLiteral? (by simp) (congrArg some (blockRest_append hbody s))

theorem next_lineComment {body : Text} (hbody : '\n' ∉ body) (he : LineEnds e) :
    next ⟨fresh, d, '/' :: '/' :: (body ++ e)⟩ = ⟨false, d, e⟩ := by
  have hrest : Text.skipLine (body ++ e) = e :=
    Text.dropWhile_append (fun c hc => bne_iff_ne.mpr fun h => hbody (h ▸ hc)) (he.stops rfl)
  exact next_of_afterLiteral? (by simp) (congrArg some hrest)

/-- The end of a line ends a string. -/
theorem stringRest_line {quote : Char} {body : Text}
    (hbody : ∀ c ∈ body, c ∉ [quote, '\\', '\n']) (he : LineEnds e) :
    stringRest quote (body ++ e) = e := by
  induction body with
  | nil => cases he <;> rfl
  | cons c body ih =>
    have hc := hbody c List.mem_cons_self
    simp only [List.mem_cons, List.not_mem_nil, or_false, not_or] at hc
    rw [List.cons_append, stringRest, if_neg hc.1]
    · exact ih fun c hc => hbody c (List.mem_cons_of_mem _ hc)
    · exact fun _ _ h _ => hc.2.1 h
    · exact hc.2.2

theorem next_unended {quote : Char} {body : Text} (hquote : isQuote quote = true)
    (hbody : ∀ c ∈ body, c ∉ [quote, '\\', '\n']) (he : LineEnds e) :
    next ⟨fresh, d, quote :: (body ++ e)⟩ = ⟨false, d, e⟩ := by
  obtain ⟨hmem, hliteral⟩ := afterLiteral?_quote hquote (body ++ e)
  rw [stringRest_line hbody he] at hliteral
  exact next_of_afterLiteral? hmem hliteral

/-- A character that opens and closes nothing is passed over. -/
theorem next_plain (hc : isTokenChar c = true ∨ c = ';') (hident : isIdentStart c = false)
    (hline : c ≠ '\n') (hinline : isInline c = false) (s : Text) :
    next ⟨fresh, d, c :: s⟩ = ⟨false, d, s⟩ := by
  have hmark : ∀ m ∈ tokenMarks, m ≠ ';' → c ≠ m := by
    rintro m hm hne rfl
    obtain hc | hc := hc
    · simp [isTokenChar, hm] at hc
    · exact hne hc
  have hopen : Bracket.opened? c = none := by
    simp [Bracket.opened?, hmark '(' (by decide) (by decide), hmark '[' (by decide) (by decide),
      hmark '{' (by decide) (by decide)]
  have hclose : Bracket.closed? c = none := by
    simp [Bracket.closed?, hmark ')' (by decide) (by decide), hmark ']' (by decide) (by decide),
      hmark '\x7d' (by decide) (by decide)]
  have hslash : c ≠ '/' := hmark '/' (by decide) (by decide)
  have hliteral : afterLiteral? (c :: s) = none := by
    have hquote : isQuote c = false := by
      simp [isQuote, hmark '"' (by decide) (by decide), hmark '\'' (by decide) (by decide)]
    rw [afterLiteral?, if_neg (by simp [hquote]), if_neg (hmark '\x60' (by decide) (by decide))]
    · exact fun _ h => absurd h hslash
    · exact fun _ h => absurd h hslash
  simp [next, hline, hinline, hopen, hclose, hident, hliteral]

/-- Blanks of a line are passed over. -/
theorem reaches_inline {u : Text} (hu : ∀ c ∈ u, isInline c = true) (s : Text) :
    Reaches ⟨fresh, d, u ++ s⟩ [] ⟨fresh, d, s⟩ := by
  induction u with
  | nil => exact .here
  | cons c u ih =>
    have hc : isInline c = true := hu c List.mem_cons_self
    have hstart : isIdentStart c = false := by
      rw [isInline, Bool.or_eq_true, beq_iff_eq, beq_iff_eq] at hc
      obtain rfl | rfl := hc <;> rfl
    refine .step (found?_of_stops (Text.stops_cons.mpr hstart)) (List.cons_ne_nil _ _) ?_
    rw [List.cons_append, next_inline hc]
    exact ih fun c hc => hu c (List.mem_cons_of_mem _ hc)

end Place

/-! ### Runs -/

open Place

theorem lineEnds_append (hs : LineEnds s) (he : LineEnds e) : LineEnds (s ++ e) := by
  cases hs with
  | nil => exact he
  | newline s => exact .newline (s ++ e)

/-- Nothing is found on the line at the front: it is no line outside of all brackets, or no word
starts it. -/
def Quiet (p : Place) : Prop :=
  p.fresh = true → p.depth = 0 → Stops isIdentStart (Text.skipInline p.rest)

theorem Quiet.found? {p : Place} (h : Quiet p) : p.found? = none := by
  obtain ⟨fresh, depth, s⟩ := p
  by_cases hfresh : fresh = true
  · by_cases hdepth : depth = 0
    · have hstops : Stops isIdentStart (Text.skipInline s) := h hfresh hdepth
      refine found?_of_stops ?_
      cases s with
      | nil => exact Text.stops_nil _
      | cons c s =>
        by_cases hinline : isInline c = true
        · rw [isInline, Bool.or_eq_true, beq_iff_eq, beq_iff_eq] at hinline
          obtain rfl | rfl := hinline <;> exact Text.stops_cons.mpr rfl
        · rwa [Text.skipInline, List.dropWhile_cons_of_neg hinline] at hstops
    · exact found?_of_depth hdepth
  · rw [Bool.not_eq_true] at hfresh
    subst hfresh
    exact found?_of_not_fresh depth s

theorem quiet_of_not_fresh (depth : Nat) (s : Text) : Quiet ⟨false, depth, s⟩ :=
  fun h => absurd h Bool.false_ne_true

/-- No word starts a line that ends behind its blanks. -/
theorem stops_skipInline_append (hs : Stops isIdentStart (Text.skipInline s)) (he : LineEnds e) :
    Stops isIdentStart (Text.skipInline (s ++ e)) := by
  induction s with
  | nil =>
    cases he with
    | nil => exact Text.stops_nil _
    | newline e => exact Text.stops_cons.mpr (by decide)
  | cons c s ih =>
    by_cases hinline : isInline c = true
    · rw [Text.skipInline, List.dropWhile_cons_of_pos hinline] at hs
      rw [List.cons_append, Text.skipInline, List.dropWhile_cons_of_pos hinline]
      exact ih hs
    · rw [Text.skipInline, List.dropWhile_cons_of_neg hinline] at hs
      rw [List.cons_append, Text.skipInline, List.dropWhile_cons_of_neg hinline]
      exact hs

/-- A `/` that opens no comment is passed over. -/
theorem next_slash (hs : Stops (fun c => c == '/' || c == '*') s) :
    Place.next ⟨fresh, k, '/' :: s⟩ = ⟨false, k, s⟩ := by
  have hnone : afterLiteral? ('/' :: s) = none := by
    cases s with
    | nil => rfl
    | cons c s =>
      have hc := Text.stops_cons.mp hs
      simp only [Bool.or_eq_false_iff, beq_eq_false_iff_ne] at hc
      rw [afterLiteral?]
      · rfl
      · rintro t - h
        exact hc.1 (List.cons.inj h).1
      · rintro t - h
        exact hc.2 (List.cons.inj h).1
  rw [next_literal (by simp), hnone, Option.getD_none]

/-- From in front of this text the run comes to what is behind it, whatever line it is on, as long as
nothing is found at its front. -/
def RunsTo (k : Nat) (s : Text) (found : List Declaration) (n : Nat) (e : Text) : Prop :=
  ∀ fresh, Quiet ⟨fresh, k, s ++ e⟩ → ∃ fresh', Reaches ⟨fresh, k, s ++ e⟩ found ⟨fresh', n, e⟩

/-- A step to a place in the middle of a line, and the run from there. -/
theorem RunsTo.step {depth : Nat} (h : RunsTo k s found n e) (ht : t ≠ [])
    (hquiet : Quiet ⟨fresh, depth, t ++ (s ++ e)⟩)
    (hnext : Place.next ⟨fresh, depth, t ++ (s ++ e)⟩ = ⟨false, k, s ++ e⟩) :
    ∃ fresh', Reaches ⟨fresh, depth, t ++ (s ++ e)⟩ found ⟨fresh', n, e⟩ := by
  obtain ⟨fresh', hreach⟩ := h false (quiet_of_not_fresh _ _)
  rw [← hnext] at hreach
  exact ⟨fresh', .step hquiet.found? (List.append_ne_nil_of_left_ne_nil ht _) hreach⟩

/-- A blank of the line, and the run from behind it. -/
theorem RunsTo.inline (h : RunsTo k s found n e) (hc : isInline c = true)
    (hquiet : Quiet ⟨fresh, k, c :: (s ++ e)⟩) :
    ∃ fresh', Reaches ⟨fresh, k, c :: (s ++ e)⟩ found ⟨fresh', n, e⟩ := by
  have hlater : Quiet ⟨fresh, k, s ++ e⟩ := by
    intro hfresh hdepth
    have hstops : Stops isIdentStart (Text.skipInline (c :: (s ++ e))) := hquiet hfresh hdepth
    rwa [Text.skipInline, List.dropWhile_cons_of_pos hc] at hstops
  obtain ⟨fresh', hreach⟩ := h fresh hlater
  rw [← next_inline hc] at hreach
  exact ⟨fresh', .step hquiet.found? (List.cons_ne_nil _ _) hreach⟩

/-- A line that a word starts, and the run from behind the word. -/
theorem RunsTo.line {u w : Text} {declaration? : Option Declaration}
    (h : RunsTo 0 s found n e) (hu : ∀ c ∈ u, isInline c = true) (hw : IsWord w)
    (hstop : Stops isIdentChar (s ++ e))
    (hstart : startingAt? (w ++ (s ++ e)) = declaration?)
    (hquiet : Quiet ⟨fresh, 0, '\n' :: (u ++ (w ++ (s ++ e)))⟩) :
    ∃ fresh', Reaches ⟨fresh, 0, '\n' :: (u ++ (w ++ (s ++ e)))⟩ (declaration?.toList ++ found)
      ⟨fresh', n, e⟩ := by
  obtain ⟨fresh', hreach⟩ := h false (quiet_of_not_fresh _ _)
  have hnext : Place.next ⟨true, 0, w ++ (s ++ e)⟩ = ⟨false, 0, s ++ e⟩ := next_word hw hstop
  rw [← hnext] at hreach
  have hword := Reaches.next (List.append_ne_nil_of_left_ne_nil hw.ne_nil _) hreach
  rw [found?, if_pos (by simp [hw.startsIdent]), hstart] at hword
  refine ⟨fresh', .step hquiet.found? (List.cons_ne_nil _ _) ?_⟩
  exact (reaches_inline hu (w ++ (s ++ e))).trans hword

/-- **A text that is counted is run through.**  What starts its lines is found. -/
theorem Counts.runsTo (h : Counts k s found n) (he : LineEnds e) : RunsTo k s found n e := by
  induction h with
  | nil => exact fun fresh _ => ⟨fresh, .here⟩
  | @char k n c s found hc hident hline _ ih =>
    intro fresh hquiet
    by_cases hinline : isInline c = true
    · exact ih.inline hinline hquiet
    · exact ih.step (t := [c]) (List.cons_ne_nil _ _) hquiet
        (next_plain hc hident hline (by simpa using hinline) _)
  | @word k n w s found hw hstop _ ih =>
    intro fresh hquiet
    rw [List.append_assoc] at hquiet ⊢
    exact ih.step hw.ne_nil hquiet (next_word hw (stops_append hstop (he.stops rfl)))
  | @slash k n s found hcomment _ ih =>
    intro fresh hquiet
    exact ih.step (t := ['/']) (List.cons_ne_nil _ _) hquiet
      (next_slash (s := s ++ e) (stops_append hcomment (he.stops rfl)))
  | @newline k n s found hline _ ih =>
    intro fresh hquiet
    have hlater : Quiet ⟨true, k, s ++ e⟩ :=
      fun _ hdepth => stops_skipInline_append (hline hdepth) he
    obtain ⟨fresh', hreach⟩ := ih true hlater
    exact ⟨fresh', .step hquiet.found? (List.cons_ne_nil _ _) hreach⟩
  | @line n u w s declaration? found hu hw hstop hstart _ ih =>
    intro fresh hquiet
    have htext : '\n' :: (u ++ (w ++ s)) ++ e = '\n' :: (u ++ (w ++ (s ++ e))) := by simp
    rw [htext] at hquiet ⊢
    exact ih.line hu hw (stops_append hstop (he.stops rfl)) (hstart e he) hquiet
  | @string k n q s found _ ih =>
    intro fresh hquiet
    rw [List.append_assoc] at hquiet ⊢
    exact ih.step (by simp [StringType.text]) hquiet (next_string q _)
  | @template k n t s found _ ih =>
    intro fresh hquiet
    rw [List.append_assoc] at hquiet ⊢
    exact ih.step (by simp [TemplateType.text]) hquiet (next_template t _)
  | @lineComment k n body s found hbody hend _ ih =>
    intro fresh hquiet
    have htext : '/' :: '/' :: (body ++ s) ++ e = '/' :: '/' :: body ++ (s ++ e) := by simp
    rw [htext] at hquiet ⊢
    exact ih.step (List.cons_ne_nil _ _) hquiet (next_lineComment hbody (lineEnds_append hend he))
  | @blockComment k n body s found hbody _ ih =>
    intro fresh hquiet
    have htext : '/' :: '*' :: (body ++ '*' :: '/' :: s) ++ e
        = '/' :: '*' :: (body ++ ['*', '/']) ++ (s ++ e) := by simp
    have hnext : Place.next ⟨fresh, k, '/' :: '*' :: (body ++ '*' :: '/' :: (s ++ e))⟩
        = ⟨false, k, s ++ e⟩ := next_blockComment hbody (s ++ e)
    rw [htext] at hquiet ⊢
    refine ih.step (List.cons_ne_nil _ _) hquiet ?_
    simpa using hnext
  | @cut k n quote body s found hquote hbody hend _ ih =>
    intro fresh hquiet
    have htext : quote :: (body ++ s) ++ e = quote :: body ++ (s ++ e) := by simp
    rw [htext] at hquiet ⊢
    exact ih.step (List.cons_ne_nil _ _) hquiet (next_unended hquote hbody (lineEnds_append hend he))
  | @group k n g s found _ ih =>
    intro fresh _
    rw [List.append_assoc]
    obtain ⟨fresh', hreach⟩ := ih false (quiet_of_not_fresh _ _)
    exact ⟨fresh', (reaches_group (g.afterGroup?_text (s ++ e)) fresh k).trans hreach⟩
  | @opened k n b s found _ ih =>
    exact fun _ hquiet => ih.step (t := [b.opening]) (List.cons_ne_nil _ _) hquiet (next_opening b _)
  | @closed k n b s found _ ih =>
    exact fun _ hquiet => ih.step (t := [b.closing]) (List.cons_ne_nil _ _) hquiet (next_closing b _)

end LivePreview.Declaration

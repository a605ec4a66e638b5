/-
The pieces of an enum body.

Three passes go over the body of an enum: one for the brace that closes it, one for the commas
between its members, and over each member one for the comments that are left out.  The first two
agree on what is a string, a template and a comment, and take each of them as a whole: `Passed`.
The third knows strings and comments, and reads what stands between backticks like code: `Strips`
says what it leaves of a piece, whatever stands behind the piece.
-/
import LivePreview.Proofs.Erasure.LoopBound
import LivePreview.Proofs.Script.Prefix

namespace LivePreview.EnumObject

open Script
open Text (Stops)

/-! ### Comments and gaps -/

/-- A comment, with the end of its line or its closing mark. -/
inductive Comment where
  | line (body : Text) (h : '\n' ∉ body)
  | block (body : Text) (h : ¬ ['*', '/'] <:+: body)

/-- What may stand between the tokens of a member: a blank or a comment. -/
inductive Filler where
  | blank (c : Char) (h : isSpace c = true)
  | comment (k : Comment)

/-- Blanks and comments. -/
abbrev Gap := List Filler

def Comment.text : Comment → Text
  | .line body _ => '/' :: '/' :: (body ++ ['\n'])
  | .block body _ => '/' :: '*' :: (body ++ ['*', '/'])

/-- What is left of a comment that is taken out: the end of its line. -/
def Comment.blanks : Comment → Text
  | .line _ _ => ['\n']
  | .block _ _ => []

def Filler.text : Filler → Text
  | .blank c _ => [c]
  | .comment k => k.text

def Filler.blanks : Filler → Text
  | .blank c _ => [c]
  | .comment k => k.blanks

def Gap.text (g : Gap) : Text := g.flatMap Filler.text

/-- What is left of a gap whose comments are taken out. -/
def Gap.blanks (g : Gap) : Text := g.flatMap Filler.blanks

theorem Gap.isSpace_blanks (g : Gap) : ∀ c ∈ g.blanks, isSpace c = true := by
  intro c hc
  obtain ⟨f, -, hf⟩ := List.mem_flatMap.mp hc
  cases f with
  | blank d hd =>
    obtain rfl : c = d := List.mem_singleton.mp hf
    exact hd
  | comment k =>
    cases k with
    | line =>
      obtain rfl : c = '\n' := List.mem_singleton.mp hf
      decide
    | block => exact absurd hf List.not_mem_nil

/-- A comment does not end with a word. -/
theorem Comment.stops_last (k : Comment) : ∀ c ∈ k.text.getLast?, isIdentChar c = false := by
  intro c hc
  cases k with
  | line =>
    obtain rfl : '\n' = c := by
      simpa [Comment.text, List.getLast?_cons, List.getLast?_append] using hc
    decide
  | block =>
    obtain rfl : '/' = c := by
      simpa [Comment.text, List.getLast?_cons, List.getLast?_append] using hc
    decide

/-- A gap stands apart from a word in front of it. -/
theorem Gap.stops {g : Gap} (hne : g ≠ []) (rest : Text) : Stops isIdentChar (g.text ++ rest) := by
  obtain ⟨f, g, rfl⟩ := List.exists_cons_of_ne_nil hne
  cases f with
  | blank c hc =>
    refine Text.stops_cons.mpr ?_
    by_contra h
    rw [isSpace_eq_false_of_isIdentChar (by simpa using h)] at hc
    cases hc
  | comment k => cases k <;> exact Text.stops_cons.mpr (by decide)

theorem Gap.stops_append (g : Gap) {rest : Text} (hrest : Stops isIdentChar rest) :
    Stops isIdentChar (g.text ++ rest) := by
  by_cases hne : g = []
  · subst hne
    exact hrest
  · exact Gap.stops hne rest

/-! ### Where a comment ends -/

section Ends

variable {body : Text}

theorem skipLine_append (h : '\n' ∉ body) (s : Text) :
    Text.skipLine (body ++ '\n' :: s) = '\n' :: s := by
  have hne : ∀ c ∈ body, (c != '\n') = true := fun c hc => bne_iff_ne.mpr fun heq => h (heq ▸ hc)
  exact Text.dropWhile_append hne (Text.stops_cons.mpr rfl)

/-- A line comment inside of something is left at the end of its line. -/
theorem leave_lineComment (w : Within) (up : List Within) (h : '\n' ∉ body) (s : Text) :
    leave (.lineComment :: w :: up) (body ++ '\n' :: s) = leave (w :: up) s := by
  induction body with
  | nil => rw [List.nil_append, leave, if_pos rfl]
  | cons c body ih =>
    have hc : c ≠ '\n' := fun heq => h (heq ▸ List.mem_cons_self)
    rw [List.cons_append, leave, if_neg hc, ih fun hmem => h (List.mem_cons_of_mem c hmem)]

end Ends

/-! ### Pieces for the brace and the commas -/

/-- The parts that are still to come, where `part` was read of the current one. -/
def partsBehind (part s : Text) : List Text := splitFrom ',' s.length part s

theorem partsBehind_nil (part : Text) : partsBehind part [] = [part.reverse] := by
  simp [partsBehind, splitFrom]

theorem partsBehind_comma (part s : Text) :
    partsBehind part (',' :: s) = part.reverse :: partsBehind [] s := by
  rw [partsBehind, List.length_cons, splitFrom, if_pos rfl, partsBehind]

/-- A piece of code is read as a whole. -/
theorem partsBehind_piece {c : Char} (t : Text) {s : Text} (hc : c ≠ ',')
    (h : skipPiece (c :: (t ++ s)) = s) (part : Text) :
    partsBehind part (c :: (t ++ s)) = partsBehind ((c :: t).reverse ++ part) s := by
  have hle : s.length ≤ (t ++ s).length := by simp
  have hconsumed : Text.consumed (c :: (t ++ s)) s = c :: t := Text.consumed_append (c :: t) s
  rw [partsBehind, List.length_cons, splitFrom, if_neg hc]
  show splitFrom ',' (t ++ s).length ((Text.consumed (c :: (t ++ s)) (skipPiece (c :: (t ++ s)))).reverse
    ++ part) (skipPiece (c :: (t ++ s))) = _
  rw [h, hconsumed, splitFrom_stable hle (Nat.le_refl _), partsBehind]

/-- A text that the search for the closing brace and the search for commas both get through. -/
structure Passed (t : Text) : Prop where
  leave : ∀ s, leave [.group .curly] (t ++ s) = leave [.group .curly] s
  parts : ∀ part s, partsBehind part (t ++ s) = partsBehind (t.reverse ++ part) s

namespace Passed

variable {s t : Text}

theorem nil : Passed [] := ⟨fun _ => rfl, fun _ _ => rfl⟩

theorem append (ht : Passed t) (hs : Passed s) : Passed (t ++ s) := by
  refine ⟨fun u => ?_, fun part u => ?_⟩
  · rw [List.append_assoc, ht.leave, hs.leave]
  · rw [List.append_assoc, ht.parts, hs.parts, List.reverse_append, List.append_assoc]

theorem char {c : Char} (hc : isTokenChar c = true) (hcomma : c ≠ ',') : Passed [c] := by
  refine ⟨leave_group_char hc .curly [], fun part u => partsBehind_piece [] hcomma ?_ part⟩
  simp only [isTokenChar, tokenMarks, List.contains_eq_mem, List.mem_cons, List.not_mem_nil, or_false,
    Bool.not_eq_true', decide_eq_false_iff_not, not_or] at hc
  obtain ⟨hround, -, hsquare, -, hcurly, -, hdouble, hsingle, htick, hslash, -⟩ := hc
  have hopen : Bracket.opened? c = none := by simp [Bracket.opened?, hround, hsquare, hcurly]
  have hquote : isQuote c = false := by simp [isQuote, hdouble, hsingle]
  have hliteral : afterLiteral? (c :: u) = none := by
    unfold afterLiteral?
    split
    · contradiction
    · exact absurd (List.cons.inj ‹c :: u = _›).1 hslash
    · exact absurd (List.cons.inj ‹c :: u = _›).1 hslash
    · obtain ⟨rfl, rfl⟩ := List.cons.inj ‹c :: u = _›
      simp [hquote, htick]
  show skipPiece (c :: u) = u
  rw [skipPiece, hopen, hliteral]
  rfl

theorem chars (h : ∀ c ∈ t, isTokenChar c = true ∧ c ≠ ',') : Passed t := by
  induction t with
  | nil => exact .nil
  | cons c t ih =>
    obtain ⟨htoken, hcomma⟩ := h c List.mem_cons_self
    exact (char htoken hcomma).append (ih fun d hd => h d (List.mem_cons_of_mem c hd))

/-- A class of characters without marks and commas. -/
theorem of_class {p : Char → Bool} (hp : (',' :: tokenMarks).all (fun c => !p c) = true)
    (h : ∀ c ∈ t, p c = true) : Passed t := by
  rw [List.all_cons, Bool.and_eq_true, Bool.not_eq_true'] at hp
  obtain ⟨hcomma, hmarks⟩ := hp
  refine chars fun c hc => ⟨isTokenChar_of hmarks (h c hc), ?_⟩
  rintro rfl
  rw [h _ hc] at hcomma
  cases hcomma

theorem string (q : StringType) : Passed q.text := by
  have hend : ∀ u, stringRest q.quote (q.body ++ [q.quote] ++ u) = u := fun u => by
    rw [List.append_assoc]
    exact stringRest_of_leave q.isQuote q.closed u
  have htoken : TokenText q.text := by simpa using TokenText.string q .nil
  refine ⟨htoken.leave_group .curly [], fun part u => ?_⟩
  have hcomma : q.quote ≠ ',' := by
    intro h
    exact absurd q.isQuote (by rw [h]; decide)
  refine partsBehind_piece (q.body ++ [q.quote]) hcomma ?_ part
  have hquote := q.isQuote
  simp only [Script.isQuote, Bool.or_eq_true, beq_iff_eq] at hquote
  rcases hquote with h | h <;> rw [h] at hend ⊢ <;> exact hend u

theorem template (q : TemplateType) : Passed q.text := by
  have htoken : TokenText q.text := by simpa using TokenText.template q .nil
  exact ⟨htoken.leave_group .curly [], fun part u =>
    partsBehind_piece (c := '\x60') (q.body ++ ['\x60']) (by decide) (q.skipTemplate_text u) part⟩

theorem comment (k : Comment) : Passed k.text := by
  cases k with
  | line body h =>
    -- the end of the line is a character of its own
    have hbreak : Passed ['\n'] := char (by decide) (by decide)
    refine ⟨fun u => ?_, fun part u => ?_⟩
    · show Script.leave [.lineComment, .group .curly] (body ++ ['\n'] ++ u) = _
      rw [List.append_assoc]
      exact leave_lineComment _ _ h u
    · have htext : Comment.text (.line body h) ++ u = '/' :: ('/' :: body ++ '\n' :: u) := by
        simp [Comment.text]
      rw [htext, partsBehind_piece (c := '/') ('/' :: body) (by decide) (skipLine_append h u)]
      show partsBehind _ (['\n'] ++ u) = _
      rw [hbreak.parts]
      simp [Comment.text]
  | block body h =>
    refine ⟨fun u => ?_, fun part u =>
      partsBehind_piece ('*' :: (body ++ ['*', '/'])) (by decide) ?_ part⟩
    · show Script.leave [.blockComment, .group .curly] (body ++ ['*', '/'] ++ u) = _
      rw [List.append_assoc, leave_blockComment]
      exact congrArg _ (blockRest_append h u)
    · show blockRest (body ++ ['*', '/'] ++ u) = u
      rw [List.append_assoc]
      exact blockRest_append h u

theorem gap (g : Gap) : Passed g.text := by
  induction g with
  | nil => exact .nil
  | cons f g ih =>
    refine append ?_ ih
    cases f with
    | blank c hc =>
      exact of_class (p := isSpace) (by decide) fun d hd => List.mem_singleton.mp hd ▸ hc
    | comment k => exact comment k

end Passed

/-! ### What is left without comments -/

/-- Without comments, `t'` is left of the text `t`, and what stands behind is read on its own. -/
def Strips (t t' : Text) : Prop := ∀ s, withoutComments (t ++ s) = t' ++ withoutComments s

namespace Strips

variable {s s' t t' : Text}

theorem nil : Strips [] [] := fun _ => rfl

theorem append (ht : Strips t t') (hs : Strips s s') : Strips (t ++ s) (t' ++ s') := fun u => by
  rw [List.append_assoc, ht, hs, List.append_assoc]

/-- A character that opens neither a string nor a comment. -/
theorem withoutComments_char {c : Char} {u : Text} (hquote : isQuote c = false)
    (hmark : c = '/' → Stops (fun d => d == '/' || d == '*') u) :
    withoutComments (c :: u) = c :: withoutComments u := by
  rw [withoutComments, List.length_cons, withoutCommentsFrom]
  split
  · obtain ⟨rfl, rfl⟩ := List.cons.inj ‹c :: u = _›
    exact absurd (hmark rfl) (by simp)
  · obtain ⟨rfl, rfl⟩ := List.cons.inj ‹c :: u = _›
    exact absurd (hmark rfl) (by simp)
  · rw [hquote, if_neg Bool.false_ne_true, withoutComments]

/-- A string is kept as a whole. -/
theorem withoutComments_string {quote : Char} (hquote : isQuote quote = true) (u : Text) :
    withoutComments (quote :: u) = Text.consumed (quote :: u) (stringRest quote u)
      ++ withoutComments (stringRest quote u) := by
  have hslash : quote ≠ '/' := by
    rintro rfl
    exact absurd hquote (by decide)
  have hle : (stringRest quote u).length ≤ u.length := (suffix_stringRest quote u).length_le
  rw [withoutComments, List.length_cons, withoutCommentsFrom]
  split
  · exact absurd (List.cons.inj ‹quote :: u = _›).1 hslash
  · exact absurd (List.cons.inj ‹quote :: u = _›).1 hslash
  · rw [if_pos hquote]
    show Text.consumed (quote :: u) (stringRest quote u)
      ++ withoutCommentsFrom u.length (stringRest quote u) = _
    rw [withoutCommentsFrom_stable hle (Nat.le_refl _), withoutComments]

theorem chars (h : ∀ c ∈ t, isTokenChar c = true) : Strips t t := by
  induction t with
  | nil => exact .nil
  | cons c t ih =>
    have hquote : isQuote c = false := by
      by_contra hc
      have hmark : ∀ c, isTokenChar c = true → isQuote c = false := fun c hc => by
        simp only [isTokenChar, tokenMarks, List.contains_eq_mem, List.mem_cons, List.not_mem_nil,
          or_false, Bool.not_eq_true', decide_eq_false_iff_not, not_or] at hc
        simp [isQuote, hc]
      exact hc (hmark c (h c List.mem_cons_self))
    have hslash : c ≠ '/' := by
      rintro rfl
      exact absurd (h '/' List.mem_cons_self) (by decide)
    intro u
    rw [List.cons_append, withoutComments_char hquote fun heq => absurd heq hslash,
      ih fun d hd => h d (List.mem_cons_of_mem c hd)]
    rfl

theorem string (q : StringType) : Strips q.text q.text := fun u => by
  have htext : q.text ++ u = q.quote :: (q.body ++ q.quote :: u) := by simp [StringType.text]
  have hconsumed : Text.consumed (q.text ++ u) u = q.text := Text.consumed_append q.text u
  rw [htext] at hconsumed
  rw [htext, withoutComments_string q.isQuote, stringRest_of_leave q.isQuote q.closed, hconsumed]

theorem comment (k : Comment) : Strips k.text k.blanks := by
  intro u
  cases k with
  | line body h =>
    have htext : Comment.text (.line body h) ++ u = '/' :: '/' :: (body ++ '\n' :: u) := by
      simp [Comment.text]
    have hskip := skipLine_append h u
    have hle : ('\n' :: u).length ≤ ('/' :: (body ++ '\n' :: u)).length := by
      simp only [List.length_cons, List.length_append]
      omega
    rw [htext, withoutComments, List.length_cons]
    show withoutCommentsFrom _ (Text.skipLine (body ++ '\n' :: u)) = _
    rw [hskip, withoutCommentsFrom_stable hle (Nat.le_refl _)]
    exact withoutComments_char (by decide) fun heq => absurd heq (by decide)
  | block body h =>
    have htext : Comment.text (.block body h) ++ u = '/' :: '*' :: (body ++ '*' :: '/' :: u) := by
      simp [Comment.text]
    have hle : u.length ≤ ('*' :: (body ++ '*' :: '/' :: u)).length := by
      simp only [List.length_cons, List.length_append]
      omega
    rw [htext, withoutComments, List.length_cons]
    show withoutCommentsFrom _ (blockRest (body ++ '*' :: '/' :: u)) = _
    rw [blockRest_append h u, withoutCommentsFrom_stable hle (Nat.le_refl _)]
    rfl

theorem gap (g : Gap) : Strips g.text g.blanks := by
  induction g with
  | nil => exact .nil
  | cons f g ih =>
    refine append ?_ ih
    cases f with
    | blank c hc =>
      exact chars fun d hd => isTokenChar_of (by decide) (List.mem_singleton.mp hd ▸ hc)
    | comment k => exact comment k

/-- Code in which no comment opens.  What stands between quotes is closed there. -/
inductive CommentFree : Text → Prop
  | nil : CommentFree []
  | char {c : Char} {s : Text} (hquote : isQuote c = false)
    (hmark : c = '/' → Stops (fun d => d == '/' || d == '*') s) (hs : CommentFree s) :
    CommentFree (c :: s)
  | string (q : StringType) {s : Text} (hs : CommentFree s) : CommentFree (q.text ++ s)

/-- In front of a backtick such code is kept as a whole. -/
theorem withoutComments_of_commentFree {t : Text} (h : CommentFree t) (u : Text) :
    withoutComments (t ++ '\x60' :: u) = t ++ withoutComments ('\x60' :: u) := by
  induction h with
  | nil => rfl
  | @char c s hquote hmark _ ih =>
    have hstop : c = '/' → Stops (fun d => d == '/' || d == '*') (s ++ '\x60' :: u) := by
      intro hc
      cases s with
      | nil => exact Text.stops_cons.mpr rfl
      | cons d s => exact Text.stops_cons.mpr (Text.stops_cons.mp (hmark hc))
    rw [List.cons_append, withoutComments_char hquote hstop, ih, List.cons_append]
  | string q _ ih => rw [List.append_assoc, string q, ih, List.append_assoc]

/-- A template is kept as a whole where its text, read like code, opens no comment and no string
that it does not close. -/
theorem template {q : TemplateType} (h : CommentFree q.body) : Strips q.text q.text := by
  have hopen : ∀ s, withoutComments ('\x60' :: s) = '\x60' :: withoutComments s := fun s =>
    withoutComments_char (by decide) fun heq => absurd heq (by decide)
  have htext : ∀ s, q.text ++ s = '\x60' :: (q.body ++ '\x60' :: s) := fun s => by
    simp [TemplateType.text]
  intro u
  rw [htext, htext, hopen, withoutComments_of_commentFree h, hopen]

end Strips

/-- Nothing in the text looks like the start of a comment. -/
def NoMarks (s : Text) : Prop := s.IsChain fun c d => c = '/' → d ≠ '/' ∧ d ≠ '*'

instance (s : Text) : Decidable (NoMarks s) :=
  inferInstanceAs (Decidable (s.IsChain fun c d => c = '/' → d ≠ '/' ∧ d ≠ '*'))

theorem noMarks_of_not_mem {s : Text} (h : '/' ∉ s) : NoMarks s := by
  have hnone : ∀ c ∈ s, ∀ d ∈ s, c = '/' → d ≠ '/' ∧ d ≠ '*' := by
    rintro c hc d - rfl
    exact absurd hc h
  exact (List.pairwise_of_forall_mem_list hnone).isChain

/-- Where nothing looks like a comment, nothing is taken out, whatever else stands there. -/
theorem withoutComments_of_noMarks {s : Text} (h : NoMarks s) : withoutComments s = s := by
  induction hn : s.length using Nat.strongRecOn generalizing s with
  | ind n ih =>
    cases s with
    | nil => rfl
    | cons c s =>
      have hlater : ∀ {t}, t <:+ s → withoutComments t = t := by
        intro t ht
        have hlt : t.length < n := by
          have := ht.length_le
          simp only [List.length_cons] at hn
          omega
        exact ih t.length hlt (h.suffix (ht.trans (List.suffix_cons c s))) rfl
      by_cases hquote : isQuote c = true
      · have hsuffix := suffix_stringRest c s
        rw [Strips.withoutComments_string hquote, hlater hsuffix,
          Text.consumed_append_of_suffix (hsuffix.trans (List.suffix_cons c s))]
      · have hmark : c = '/' → Stops (fun d => d == '/' || d == '*') s := by
          intro hc
          cases s with
          | nil => exact Text.stops_nil _
          | cons d s =>
            obtain ⟨hslash, hstar⟩ := (List.isChain_cons_cons.mp h).1 hc
            exact Text.stops_cons.mpr (by simp [hslash, hstar])
        rw [Strips.withoutComments_char (by simpa using hquote) hmark, hlater List.suffix_rfl]

end LivePreview.EnumObject

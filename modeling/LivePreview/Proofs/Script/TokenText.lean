/-
Texts of whole tokens.

A text of whole tokens opens no bracket, string, template or comment that it does not close.  Every
type of the grammar is such a text, and so are the words and blanks around types.  What reads by
groups gets through such a text and is behind it where it was in front of it:
`TokenText.leave_group`.  In particular brackets around such a text are a group, whatever stands
inside.
-/
import LivePreview.Proofs.Script.TypeGrammarReading

namespace LivePreview.Script

/-- The characters that open or close something, be it together with another one, and `;`. -/
def tokenMarks : List Char :=
  ['(', ')', '[', ']', '{', '\x7d', '"', '\'', '\x60', '/', ';']

/-- True of the characters that open and close nothing. -/
def isTokenChar (c : Char) : Bool := !tokenMarks.contains c

/-- A text that closes all that it opens. -/
inductive TokenText : Text → Prop
  | nil : TokenText []
  | char {c : Char} {s : Text} (hc : isTokenChar c = true) (hs : TokenText s) : TokenText (c :: s)
  | group (g : BracketGroup) {s : Text} (hs : TokenText s) : TokenText (g.text ++ s)
  | string (q : StringType) {s : Text} (hs : TokenText s) : TokenText (q.text ++ s)
  | template (t : TemplateType) {s : Text} (hs : TokenText s) : TokenText (t.text ++ s)

/-- A class of characters without marks. -/
theorem isTokenChar_of {p : Char → Bool} (hp : tokenMarks.all (fun c => !p c) = true) {c : Char}
    (hc : p c = true) : isTokenChar c = true := by
  by_contra hmark
  have hmem : c ∈ tokenMarks := by simpa [isTokenChar] using hmark
  simpa [hc] using List.all_eq_true.mp hp c hmem

namespace TokenText

variable {s t : Text}

theorem append (ht : TokenText t) (hs : TokenText s) : TokenText (t ++ s) := by
  induction ht with
  | nil => exact hs
  | char hc _ ih => exact .char hc ih
  | group g _ ih => exact (List.append_assoc ..).symm ▸ .group g ih
  | string q _ ih => exact (List.append_assoc ..).symm ▸ .string q ih
  | template t _ ih => exact (List.append_assoc ..).symm ▸ .template t ih

theorem of_all (h : ∀ c ∈ s, isTokenChar c = true) : TokenText s := by
  induction s with
  | nil => exact .nil
  | cons c s ih =>
    exact .char (h c (List.mem_cons_self ..)) (ih fun d hd => h d (List.mem_cons_of_mem c hd))

/-- A text of fixed characters. -/
theorem literal (h : s.all isTokenChar = true) : TokenText s := of_all (List.all_eq_true.mp h)

theorem of_class {p : Char → Bool} (hp : tokenMarks.all (fun c => !p c) = true)
    (h : ∀ c ∈ s, p c = true) : TokenText s :=
  of_all fun c hc => isTokenChar_of hp (h c hc)

theorem of_allBlank (h : AllBlank s) : TokenText s := of_class (by decide) h

theorem of_inline (h : ∀ c ∈ s, isInline c = true) : TokenText s := of_class (by decide) h

theorem of_isWord (h : IsWord s) : TokenText s := of_class (by decide) h.identChars

theorem behindBlanks {gap : Text} (hgap : AllBlank gap) (hs : TokenText s) :
    TokenText (gap ++ s) := (of_allBlank hgap).append hs

theorem behindWord {x : Text} (hx : IsWord x) (hs : TokenText s) : TokenText (x ++ s) :=
  (of_isWord hx).append hs

theorem behindLiteral {w : Text} (hw : w.all isTokenChar = true) (hs : TokenText s) :
    TokenText (w ++ s) := (literal hw).append hs

theorem path (p : TypePath) : TokenText p.text := by
  refine (of_isWord p.first_isWord).append ?_
  obtain ⟨first, further, -, hfurther⟩ := p
  induction further with
  | nil => exact .nil
  | cons w ws ih =>
    exact .char rfl ((of_isWord (hfurther w (List.mem_cons_self ..))).append
      (ih fun v hv => hfurther v (List.mem_cons_of_mem w hv)))

theorem number (n : NumberType) : TokenText n.text := by
  have hdigits : TokenText n.digits := of_class (by decide) n.chars
  unfold NumberType.text
  split
  · exact .char rfl hdigits
  · exact hdigits

theorem groups (gs : List BracketGroup) : TokenText (gs.flatMap BracketGroup.text) := by
  induction gs with
  | nil => exact .nil
  | cons g gs ih => exact .group g ih

theorem modifiers (r : ModifierRow) : TokenText r.text := by
  have hwords := r.isModifier
  unfold ModifierRow.text
  generalize r.modifiers = ms at hwords
  induction ms with
  | nil => exact .nil
  | cons m ms ih =>
    obtain ⟨hword, -, hblank⟩ := hwords m (List.mem_cons_self ..)
    exact ((of_isWord hword).append (of_allBlank hblank)).append
      (ih fun m' hm' => hwords m' (List.mem_cons_of_mem m hm'))

theorem operator {w : Text} (hw : typeOperators.contains w = true) : TokenText w := by
  simp only [typeOperators, List.contains_eq_mem, decide_eq_true_eq] at hw
  fin_cases hw <;> exact literal (by decide)

theorem sign (j : Joint) (hs : TokenText s) : TokenText (j.sign :: s) := by
  cases j <;> exact .char rfl hs

/-- **A type closes all that it opens.** -/
theorem of_typeText {k : TypeKind} (h : TypeText k t) : TokenText t := by
  induction h with
  | name p => exact path p
  | applied p _ _ ih => exact (path p).append (.char rfl ih)
  | typeOf p hgap => exact behindLiteral rfl (behindBlanks hgap (path p))
  | asserted hgap _ hx => exact behindLiteral rfl (behindBlanks hgap (of_isWord hx))
  | number n => exact number n
  | string q => exact List.append_nil q.text ▸ .string q .nil
  | template t => exact List.append_nil t.text ▸ .template t .nil
  | group g => exact List.append_nil g.text ▸ .group g .nil
  | function g _ hgap hgap' _ ih =>
    have harrow := TokenText.char (c := '=') rfl (.char (c := '>') rfl (behindBlanks hgap' ih))
    exact .group g (behindBlanks hgap harrow)
  | generic _ hgap _ ihps ih => exact .char rfl (ihps.append (behindBlanks hgap ih))
  | construct hw hgap _ _ ih =>
    rcases hw with rfl | rfl <;> exact behindLiteral rfl (behindBlanks hgap ih)
  | predicate hx _ hgap _ hgap' _ _ ih =>
    have his := behindLiteral (w := "is".toList) rfl (behindBlanks hgap' ih)
    exact behindWord hx ((of_inline hgap).append his)
  | assertion hfront _ hx hgap _ hgap' _ _ ih =>
    have his := behindLiteral (w := "is".toList) rfl (behindBlanks hgap' ih)
    exact behindLiteral rfl (behindBlanks hfront (behindWord hx ((of_inline hgap).append his)))
  | indexed _ gs _ ih => exact ih.append (groups gs)
  | operator hw hgap _ _ ih => exact (operator hw).append (behindBlanks hgap ih)
  | callable _ ih | last _ ih | plain _ ih | union _ ih | noBound _ ih => exact ih
  | next _ hgap hgap' _ ih ihrow =>
    exact ih.append (behindBlanks hgap (sign _ (behindBlanks hgap' ihrow)))
  | signed hgap _ ih => exact sign _ (behindBlanks hgap ih)
  | @conditional _ t u v w gap₁ gap₂ gap₃ gap₄ gap₅ gap₆ _ _ _ _ hgaps _ _ iht ihu ihv ihw =>
    have behind : ∀ {gap s : Text}, gap ∈ [gap₁, gap₂, gap₃, gap₄, gap₅, gap₆] → TokenText s →
        TokenText (gap ++ s) := fun hgap hs => behindBlanks (hgaps _ hgap) hs
    have helse : TokenText (gap₅ ++ ':' :: (gap₆ ++ w)) :=
      behind (by simp) (.char rfl (behind (by simp) ihw))
    have hthen : TokenText (gap₃ ++ '?' :: (gap₄ ++ (v ++ (gap₅ ++ ':' :: (gap₆ ++ w))))) :=
      behind (by simp) (.char rfl (behind (by simp) (ihv.append helse)))
    have hbound := behindLiteral (w := "extends".toList) rfl
      (behind (show gap₂ ∈ _ by simp) (ihu.append hthen))
    exact iht.append (behind (by simp) hbound)
  | argument hgap _ hgap' ih =>
    exact behindBlanks hgap (ih.append (behindBlanks hgap' (literal rfl)))
  | furtherArguments hgap _ hgap' _ ih ihs =>
    exact behindBlanks hgap (ih.append (behindBlanks hgap' (.char rfl ihs)))
  | noArgument hgap | noParameter hgap => exact behindBlanks hgap (literal rfl)
  | noDefault => exact .nil
  | default hgap _ hgap' ih => exact .char rfl (behindBlanks hgap (ih.append (of_allBlank hgap')))
  | bound hgap _ _ hgap' _ ih ihd =>
    exact behindLiteral rfl (behindBlanks hgap (ih.append (behindBlanks hgap' ihd)))
  | parameter hgap r hx _ hgap' _ _ ih =>
    have hrest := behindBlanks hgap' (ih.append (literal (s := ['>']) rfl))
    exact behindBlanks hgap ((modifiers r).append (behindWord hx hrest))
  | furtherParameters hgap r hx _ hgap' _ _ _ ih ihs =>
    have hrest := behindBlanks hgap' (ih.append (.char (c := ',') rfl ihs))
    exact behindBlanks hgap ((modifiers r).append (behindWord hx hrest))

end TokenText

/-! ### Groups around tokens -/

/-- Inside of a group a token character is passed over. -/
theorem leave_group_char {c : Char} (hc : isTokenChar c = true) (b : Bracket) (up : List Within)
    (s : Text) : leave (.group b :: up) (c :: s) = leave (.group b :: up) s := by
  simp only [isTokenChar, tokenMarks, List.contains_eq_mem, List.mem_cons, List.not_mem_nil,
    or_false, Bool.not_eq_true', decide_eq_false_iff_not, not_or] at hc
  obtain ⟨hround, hround', hsquare, hsquare', hcurly, hcurly', hdouble, hsingle, htick, hslash, -⟩ :=
    hc
  have hopen : Bracket.opened? c = none := by simp [Bracket.opened?, hround, hsquare, hcurly]
  have hclose : Bracket.closed? c = none := by simp [Bracket.closed?, hround', hsquare', hcurly']
  have hquote : isQuote c = false := by simp [isQuote, hdouble, hsingle]
  rw [leave, if_neg (by simp [hquote]), if_neg htick, hopen, hclose]
  · exact fun _ h => absurd h hslash
  · exact fun _ h => absurd h hslash

/-- **Inside of a group, whole tokens are passed over.** -/
theorem TokenText.leave_group {t : Text} (ht : TokenText t) (b : Bracket) (up : List Within)
    (s : Text) : leave (.group b :: up) (t ++ s) = leave (.group b :: up) s := by
  -- what one token opens is closed at its end, and then the reader is in the group again
  have closes : ∀ {w : Within} {inside : Text}, leave [w] inside = some [] → ∀ rest,
      leave (w :: .group b :: up) (inside ++ rest) = leave (.group b :: up) rest := by
    intro w inside h rest
    exact leave_around (.group b :: up) (leave_append rest h)
  induction ht with
  | nil => rfl
  | char hc _ ih => rw [List.cons_append, leave_group_char hc, ih]
  | group g _ ih =>
    have hopen : ∀ u, leave (.group b :: up) (g.bracket.opening :: u)
        = leave (.group g.bracket :: .group b :: up) u := by
      intro u
      cases g.bracket <;> rfl
    rw [BracketGroup.text, List.append_assoc, List.cons_append, hopen, closes g.balanced, ih]
  | string q _ ih =>
    have hopen : ∀ u, leave (.group b :: up) (q.quote :: u)
        = leave (.quoted q.quote :: .group b :: up) u := by
      intro u
      have hslash : q.quote ≠ '/' := by
        intro h
        exact absurd q.isQuote (by rw [h]; decide)
      rw [leave, if_pos q.isQuote]
      · exact fun _ h => absurd h hslash
      · exact fun _ h => absurd h hslash
    rw [StringType.text, List.append_assoc, List.cons_append, hopen, closes q.closed, ih]
  | template t _ ih =>
    have hopen : ∀ u, leave (.group b :: up) ('\x60' :: u)
        = leave (.template :: .group b :: up) u := fun _ => rfl
    rw [TemplateType.text, List.append_assoc, List.cons_append, hopen, closes t.closed, ih]

/-- Brackets around whole tokens are a group. -/
theorem TokenText.balanced {t : Text} (ht : TokenText t) (b : Bracket) :
    leave [.group b] (t ++ [b.closing]) = some [] := by
  rw [ht.leave_group]
  cases b <;> rfl

/-- Round brackets around a type. -/
def TokenText.round {t : Text} (ht : TokenText t) : BracketGroup := ⟨.round, t, ht.balanced .round⟩

end LivePreview.Script

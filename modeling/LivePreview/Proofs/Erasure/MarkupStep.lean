/-
What the eraser does inside markup.

In a tag and among children only a few characters lead anywhere else: brackets and quotes,
and in a tag the slash.  All else is kept one character at a time, so a text without these
characters is passed over by an induction on the text.  A brace opens code on top of the
mode that it stands in, and the brace that closes the code leads back to that mode.
-/
import LivePreview.Proofs.Erasure.MarkupTree

namespace LivePreview.Erasure.Eraser

open Script
open Text (Stops)

variable {e : Eraser} {rest : Text}

/-! ### Tags -/

theorem step_tag {c : Char} {s : Text} (h : e.rest = c :: s) :
    (e.enter .tag).step = .ok (e.stepTag c s) := by
  obtain ⟨before, text, out, report, modes⟩ := e
  obtain rfl : text = c :: s := h
  rfl

/-- A character in a tag that leads nowhere else. -/
def isTagText (c : Char) : Bool :=
  !(c == '/' || c == '>' || c == '{' || c == '<' || isQuote c)

theorem stepTag_of_isTagText {c : Char} {s : Text} (hc : isTagText c = true) :
    e.stepTag c s = (e.keep s).enter .tag := by
  simp only [isTagText, Bool.not_eq_true', Bool.or_eq_false_iff, beq_eq_false_iff_ne] at hc
  obtain ⟨⟨⟨⟨hslash, hclose⟩, hbrace⟩, hopen⟩, hquote⟩ := hc
  simp [stepTag, hslash, hclose, hbrace, hopen, hquote]

theorem reaches_tagText {w : Text} (hw : ∀ c ∈ w, isTagText c = true) (h : e.rest = w ++ rest) :
    Reaches (e.enter .tag) ((e.past [.kept w] rest).enter .tag) := by
  induction w generalizing e with
  | nil =>
    obtain rfl : e.rest = rest := h
    exact .refl _
  | cons c w ih =>
    have htext : e.rest = c :: (w ++ rest) := h
    have hstep : Reaches (e.enter .tag) ((e.past [.kept [c]] (w ++ rest)).enter .tag) := by
      refine reaches_past htext (List.cons_ne_nil _ _) ?_
      rw [step_tag htext, stepTag_of_isTagText (hw c (List.mem_cons_self ..)),
        keep_cons htext]
    have hrest := ih (e := e.past [.kept [c]] (w ++ rest))
      (fun d hd => hw d (List.mem_cons_of_mem _ hd)) rfl
    exact (hstep.andThen fun _ => hrest).regroup rfl rfl rfl

theorem behind_append {quote : Char} {body : Text} (h : ∀ c ∈ body, c ≠ quote) (rest : Text) :
    behind quote (body ++ quote :: rest) = rest := by
  have hdrop : (body ++ quote :: rest).dropWhile (· != quote) = quote :: rest :=
    Text.dropWhile_append (fun c hc => by simpa using h c hc) (Text.stops_cons.mpr (by simp))
  rw [behind, hdrop, List.drop_one, List.tail_cons]

theorem reaches_tagQuoted (v : AttributeText) (h : e.rest = v.text ++ rest) :
    Reaches (e.enter .tag) ((e.past [.kept v.text] rest).enter .tag) := by
  have hbehind := behind_append v.isPlain rest
  have htext : e.rest = v.quote :: (v.body ++ v.quote :: rest) := by
    simpa [AttributeText.text] using h
  have hne : v.quote ≠ '/' ∧ v.quote ≠ '>' ∧ v.quote ≠ '{' := by
    have := v.isQuote
    refine ⟨?_, ?_, ?_⟩ <;> intro hq <;> rw [hq] at this <;> exact absurd this (by decide)
  refine reaches_past h (by simp [AttributeText.text, Piece.text]) ?_
  have hstep : e.stepTag v.quote (v.body ++ v.quote :: rest) = (e.keep rest).enter .tag := by
    simp [stepTag, hne, v.isQuote, hbehind]
  rw [step_tag htext, hstep, keep_eq h]

theorem reaches_tagEnd (h : e.rest = '>' :: rest) :
    Reaches (e.enter .tag) ((e.past [.kept ['>']] rest).enter .children) := by
  refine reaches_past h (List.cons_ne_nil _ _) ?_
  rw [step_tag h, ← keep_cons h]
  rfl

theorem reaches_voidEnd (h : e.rest = '/' :: '>' :: rest) :
    Reaches (e.enter .tag) (e.past [.kept ['/', '>']] rest) := by
  have hstep : (e.enter .tag).step = .ok (e.keep rest) := by
    rw [step_tag h]
    rfl
  rw [← keep_eq (r := ['/', '>']) h]
  exact .one hstep (by simp [keep, h])

/-! ### Children -/

theorem step_children {c : Char} {s : Text} (h : e.rest = c :: s) :
    (e.enter .children).step = .ok (e.stepChildren c s) := by
  obtain ⟨before, text, out, report, modes⟩ := e
  obtain rfl : text = c :: s := h
  rfl

theorem reaches_childText {w : Text} (hw : ∀ c ∈ w, c ≠ '<' ∧ c ≠ '{') (h : e.rest = w ++ rest) :
    Reaches (e.enter .children) ((e.past [.kept w] rest).enter .children) := by
  induction w generalizing e with
  | nil =>
    obtain rfl : e.rest = rest := h
    exact .refl _
  | cons c w ih =>
    obtain ⟨hopen, hbrace⟩ := hw c (List.mem_cons_self ..)
    have htext : e.rest = c :: (w ++ rest) := h
    have hstep : Reaches (e.enter .children)
        ((e.past [.kept [c]] (w ++ rest)).enter .children) := by
      refine reaches_past htext (List.cons_ne_nil _ _) ?_
      rw [step_children htext, ← keep_cons htext]
      simp [stepChildren, hopen, hbrace]
    have hrest := ih (e := e.past [.kept [c]] (w ++ rest))
      (fun d hd => hw d (List.mem_cons_of_mem _ hd)) rfl
    exact (hstep.andThen fun _ => hrest).regroup rfl rfl rfl

/-- A closing tag leads back out of the element. -/
theorem reaches_closingTag {name : Text} (hname : ∀ c ∈ name, c ≠ '>')
    (h : e.rest = closingTag name ++ rest) :
    Reaches (e.enter .children) (e.past [.kept (closingTag name)] rest) := by
  have htext : e.rest = '<' :: '/' :: (name ++ '>' :: rest) := by simpa [closingTag] using h
  have hstep : (e.enter .children).step = .ok (e.keep rest) := by
    rw [step_children htext]
    show Except.ok (e.keep (behind '>' (name ++ '>' :: rest))) = _
    rw [behind_append hname]
  rw [← keep_eq h]
  refine .one hstep ?_
  simp only [keep, enter_rest, htext, List.length_append, List.length_cons]
  omega

theorem length_openElement_le (s : Text) : (e.openElement s).rest.length ≤ s.length := by
  unfold openElement
  split
  · exact Nat.le_succ _
  · exact s.length_dropWhile_le _

/-- A child that is no closing tag is opened. -/
theorem reaches_childTag {s : Text} (h : e.rest = '<' :: s) (hs : Stops (· == '/') s) :
    Reaches (e.enter .children) ((e.enter .children).openElement s) := by
  have hstep : e.stepChildren '<' s = (e.enter .children).openElement s := by
    simp only [stepChildren, if_true]
    split
    · exact absurd hs (by simp)
    · rfl
  refine .one (by rw [step_children h, hstep]) ?_
  have := length_openElement_le (e := e.enter .children) s
  simp only [enter_rest, h, List.length_cons]
  omega

/-! ### Code in braces -/

theorem reaches_openBrace_tag (h : e.rest = '{' :: rest) :
    Reaches (e.enter .tag) (((e.past [.kept ['{']] rest).enter .tag).enter (.code {})) := by
  have hkeep : (e.enter .tag).keep rest = (e.past [.kept ['{']] rest).enter .tag := keep_cons h
  have hstep : (e.enter .tag).step = .ok ((e.enter .tag).openCode rest) := by
    rw [step_tag h]
    rfl
  rw [openCode, hkeep] at hstep
  exact .one hstep (by simp [h])

theorem reaches_openBrace_children (h : e.rest = '{' :: rest) :
    Reaches (e.enter .children)
      (((e.past [.kept ['{']] rest).enter .children).enter (.code {})) := by
  have hkeep : (e.enter .children).keep rest = (e.past [.kept ['{']] rest).enter .children := keep_cons h
  have hstep : (e.enter .children).step = .ok ((e.enter .children).openCode rest) := by
    rw [step_children h]
    rfl
  rw [openCode, hkeep] at hstep
  exact .one hstep (by simp [h])

/-- The brace that closes inserted code leads back to the mode around it. -/
theorem reaches_closeBrace {mode : Mode} {m : CodeMode} (h : e.rest = '\x7d' :: rest)
    (houter : m.outer = []) :
    Reaches ((e.enter mode).enter (.code m)) ((e.past [.kept ['\x7d']] rest).enter mode) := by
  have hkeep : (e.enter mode).keep rest = (e.past [.kept ['\x7d']] rest).enter mode := keep_cons h
  have hcode : (e.enter mode).stepCode m '\x7d' rest
      = .ok ((e.enter mode).stepCurlyEnd m rest) := rfl
  have hstep : ((e.enter mode).enter (.code m)).step = .ok ((e.enter mode).keep rest) := by
    rw [step_code (show (e.enter mode).rest = '\x7d' :: rest from h), hcode, stepCurlyEnd, houter]
    rfl
  rw [hkeep] at hstep
  exact .one hstep (by simp [h])

/-! ### Elements -/

theorem openElement_tag (tag : TagName) {s : Text} (h : e.rest = '<' :: (tag.text ++ s))
    (hs : Stops isTagNameChar s) :
    e.openElement (tag.text ++ s) = (e.past [.kept ('<' :: tag.text)] s).enter .tag := by
  have hdrop : (tag.text ++ s).dropWhile isTagNameChar = s :=
    Text.dropWhile_append (fun c hc => List.all_eq_true.mp tag.isName c hc) hs
  have hkeep : e.keep s = e.past [.kept ('<' :: tag.text)] s := keep_eq h
  unfold openElement
  split
  · rename_i inside heq
    have hstarts := tag.starts
    cases htag : tag.text with
    | nil =>
      rw [htag] at hstarts
      exact absurd hstarts (by decide)
    | cons c w =>
      rw [htag, List.cons_append] at heq
      obtain ⟨rfl, -⟩ := List.cons.inj heq
      rw [htag] at hstarts
      exact absurd hstarts (by simp [isAsciiLetter])
  · rw [hdrop, hkeep]

theorem openElement_fragment {s : Text} (h : e.rest = '<' :: '>' :: s) :
    e.openElement ('>' :: s) = (e.past [.kept ['<', '>']] s).enter .children := by
  have hkeep : e.keep s = e.past [.kept ['<', '>']] s := keep_eq (r := ['<', '>']) h
  rw [openElement, hkeep]

end LivePreview.Erasure.Eraser

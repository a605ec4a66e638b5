/-
When markup is kept as it is.

A `<` where an expression may start opens markup or the type parameters of an arrow
function, and the eraser decides by reading parameters first.  `ReadsAsMarkup` says that at
no such place of a tree there are parameters to be read, with the text that follows it
there.  If so, the tree is passed over and only its assertions are removed.  If not, the
first such place is reached, and there parameters are removed; that hit is never taken
back, and it belongs to no assertion.  So the condition is exact.

It can only fail in two ways.  `out` is the one modifier of a parameter that can also name
a tag, so what follows it may be read as the name of a parameter; and an attribute
`extends` may be read as the keyword of a bound.
-/
import LivePreview.Proofs.Erasure.Advance
import LivePreview.Proofs.Erasure.MarkupStep

namespace LivePreview.Erasure

open Script Eraser
open Text (Stops)

/-! ### Places where markup stands as an expression -/

mutual

/-- No inserted part of this markup can be read as type parameters, with `rest` behind the
markup. -/
def Markup.InsertsReadAsMarkup : Markup → Text → Prop
  | .element tag attributes content, rest =>
    attributes.ReadAsMarkup ('>' :: (wholeText content.pieces ++ (closingTag tag.text ++ rest)))
      ∧ content.ReadsAsMarkup (closingTag tag.text ++ rest)
  | .void _ attributes, rest => attributes.ReadAsMarkup ('/' :: '>' :: rest)
  | .fragment content, rest => content.ReadsAsMarkup (closingTag [] ++ rest)

/-- The same of what is inserted into attributes. -/
def Attributes.ReadAsMarkup : Attributes → Text → Prop
  | .done, _ => True
  | .bare _ others, rest => others.ReadAsMarkup rest
  | .quoted _ _ others, rest => others.ReadAsMarkup rest
  | .braced _ value others, rest =>
    value.ReadsAsMarkup ('\x7d' :: (wholeText others.pieces ++ rest)) ∧ others.ReadAsMarkup rest

/-- The same of what is inserted between tags. -/
def Content.ReadsAsMarkup : Content → Text → Prop
  | .done, _ => True
  | .text _ others, rest => others.ReadsAsMarkup rest
  | .braced value others, rest =>
    value.ReadsAsMarkup ('\x7d' :: (wholeText others.pieces ++ rest)) ∧ others.ReadsAsMarkup rest
  | .child m others, rest =>
    m.InsertsReadAsMarkup (wholeText others.pieces ++ rest) ∧ others.ReadsAsMarkup rest

/-- The same of inserted code, which may be markup itself. -/
def Insert.ReadsAsMarkup : Insert → Text → Prop
  | .name _ _, _ => True
  | .string _ _, _ => True
  | .markup m type, rest =>
    afterArrowParameters? (m.text ++ (wholeText (assertedPieces type) ++ rest)) = none
      ∧ m.InsertsReadAsMarkup (wholeText (assertedPieces type) ++ rest)

end

/-- Neither the markup nor what is inserted into it can be read as type parameters. -/
def Markup.ReadsAsMarkup (m : Markup) (rest : Text) : Prop :=
  afterArrowParameters? (m.text ++ rest) = none ∧ m.InsertsReadAsMarkup rest

/-! ### Outcomes -/

/-- Steps lead from one state to another if the condition holds, and to a removal of type
parameters if it does not. -/
structure Outcome (condition : Prop) (a b : Eraser) : Prop where
  passes : condition → Reaches a b
  fails : ¬condition → ∃ e, Reaches a e ∧ .arrowParameters ∈ e.report.hits

namespace Outcome

variable {p q : Prop} {a b c : Eraser}

theorem of_reaches (h : Reaches a b) : Outcome True a b :=
  ⟨fun _ => h, fun hp => absurd trivial hp⟩

/-- One stretch behind another. -/
theorem seq (h : Outcome p a b) (h' : Outcome q b c) : Outcome (p ∧ q) a c := by
  refine ⟨fun hpq => (h.passes hpq.1).trans (h'.passes hpq.2), fun hpq => ?_⟩
  by_cases hp : p
  · have hq : ¬q := fun hq => hpq ⟨hp, hq⟩
    obtain ⟨e, he, hhit⟩ := h'.fails hq
    exact ⟨e, (h.passes hp).trans he, hhit⟩
  · exact h.fails hp

theorem before (h : Outcome p b c) (h' : Reaches a b) : Outcome p a c := by
  refine ⟨fun hp => h'.trans (h.passes hp), fun hp => ?_⟩
  obtain ⟨e, he, hhit⟩ := h.fails hp
  exact ⟨e, h'.trans he, hhit⟩

theorem after (h : Outcome p a b) (h' : Reaches b c) : Outcome p a c :=
  ⟨fun hp => (h.passes hp).trans h', h.fails⟩

section

variable {e : Eraser} {ps qs : List Piece} {s t : Text} {mode mode' : Mode}

/-- Pieces behind pieces, where both depend on what they read as. -/
theorem andThen (h : Outcome p a ((e.past ps s).enter mode))
    (h' : (e.past ps s).rest = s →
      Outcome q ((e.past ps s).enter mode) (((e.past ps s).past qs t).enter mode')) :
    Outcome (p ∧ q) a ((e.past (ps ++ qs) t).enter mode') := by
  rw [← past_past]
  exact h.seq (h' rfl)

/-- Pieces that are passed over in any case, behind pieces that may not be. -/
theorem andReaches (h : Outcome p a ((e.past ps s).enter mode))
    (h' : (e.past ps s).rest = s →
      Reaches ((e.past ps s).enter mode) (((e.past ps s).past qs t).enter mode')) :
    Outcome p a ((e.past (ps ++ qs) t).enter mode') := by
  rw [← past_past]
  exact h.after (h' rfl)

/-- Pieces behind which a mode is left. -/
theorem andLeaves (h : Outcome p a ((e.past ps s).enter mode))
    (h' : (e.past ps s).rest = s →
      Reaches ((e.past ps s).enter mode) ((e.past ps s).past qs t)) :
    Outcome p a (e.past (ps ++ qs) t) := by
  rw [← past_past]
  exact h.after (h' rfl)

/-- Pieces that may not be passed over, behind pieces that are in any case. -/
theorem ofReaches (h : Reaches a ((e.past ps s).enter mode))
    (h' : (e.past ps s).rest = s →
      Outcome q ((e.past ps s).enter mode) (((e.past ps s).past qs t).enter mode')) :
    Outcome q a ((e.past (ps ++ qs) t).enter mode') := by
  rw [← past_past]
  exact (h' rfl).before h

/-- Only what pieces come to matters. -/
theorem regroup (h : Outcome p a ((e.past ps s).enter mode))
    (hwhole : wholeText ps = wholeText qs) (hkept : keptText ps = keptText qs)
    (hhits : removals ps = removals qs) : Outcome p a ((e.past qs s).enter mode) := by
  rwa [past_congr hwhole hkept hhits] at h

end

end Outcome

/-! ### Markup where an expression may start -/

section

variable {e : Eraser} {rest : Text}

/-- The first character of markup opens a tag. -/
theorem Markup.text_eq (m : Markup) : ∃ s, m.text = '<' :: s ∧
    s.head?.any (fun c => isAsciiLetter c || c == '>') = true := by
  have hletter : ∀ {w t : Text}, w.head?.any isAsciiLetter = true →
      (w ++ t).head?.any (fun c => isAsciiLetter c || c == '>') = true := by
    intro w t hw
    cases w with
    | nil => exact absurd hw (by decide)
    | cons c w =>
      have hc : isAsciiLetter c = true := hw
      simp [hc]
  cases m with
  | element tag attributes content =>
    refine ⟨_, by rw [Markup.text, Markup.pieces]; rfl, ?_⟩
    exact hletter tag.starts
  | void tag attributes =>
    refine ⟨_, by rw [Markup.text, Markup.pieces]; rfl, ?_⟩
    exact hletter tag.starts
  | fragment content => exact ⟨_, by rw [Markup.text, Markup.pieces]; rfl, rfl⟩

/-- Where markup stands as an expression, either its tag is opened or type parameters are
removed. -/
theorem Markup.outcome_code (m : Markup) {c : CodeMode} (hc : c.previous = .nothing)
    (h : e.rest = m.text ++ rest)
    (hinserts : ∀ s, e.rest = '<' :: s → Outcome (m.InsertsReadAsMarkup rest)
      ((e.inCode c .value).openElement s) ((e.inCode c .value).past m.pieces rest)) :
    Outcome (m.ReadsAsMarkup rest) (e.enter (.code c))
      ((e.past m.pieces rest).enter (.code (c.next .value))) := by
  obtain ⟨s, hs, hstart⟩ := m.text_eq
  have htext : e.rest = '<' :: (s ++ rest) := by rw [h, hs, List.cons_append]
  have hstart : (s ++ rest).head?.any (fun c => isAsciiLetter c || c == '>') = true := by
    cases s with
    | nil => exact absurd hstart (by decide)
    | cons d s => exact hstart
  have hstep : (e.enter (.code c)).step = .ok (e.stepAngle c (s ++ rest)) := step_code htext
  have hasync : (Previous.nothing == Previous.word "async".toList) = false := by decide
  cases harrow : afterArrowParameters? e.rest with
  | none =>
    have hangle : e.stepAngle c (s ++ rest) = (e.inCode c .value).openElement (s ++ rest) := by
      simp only [stepAngle, hc, hasync, Previous.expressionMayStart, Bool.or_false, if_true,
        Bool.not_false, Bool.and_self, hstart, harrow]
    rw [hangle] at hstep
    have hlt : ((e.inCode c .value).openElement (s ++ rest)).rest.length
        < (e.enter (.code c)).rest.length := by
      have := length_openElement_le (e := e.inCode c .value) (s ++ rest)
      simp only [enter_rest, htext, List.length_cons]
      omega
    have hout := (hinserts _ htext).before (.one hstep hlt)
    have hnone : afterArrowParameters? (m.text ++ rest) = none := by rw [← h, harrow]
    exact ⟨fun hp => hout.passes hp.2, fun hp => hout.fails fun hq => hp ⟨hnone, hq⟩⟩
  | some r =>
    have hangle : e.stepAngle c (s ++ rest) = (e.erase .arrowParameters r).inCode c .nothing := by
      simp only [stepAngle, hc, hasync, Previous.expressionMayStart, Bool.or_false, if_true, harrow]
    rw [hangle] at hstep
    have hlt : r.length < e.rest.length := by
      have hle := (suffix_tail_afterArrowParameters? harrow).length_le
      simp only [htext, List.tail_cons, List.length_cons] at hle ⊢
      omega
    refine ⟨fun hp => ?_, fun _ => ⟨_, .one hstep hlt, ?_⟩⟩
    · have hnone := hp.1
      rw [← h, harrow] at hnone
      cases hnone
    · exact List.mem_cons_self ..

theorem Attributes.stops_tagName (a : Attributes) {s : Text} (hs : Stops isTagNameChar s) :
    Stops isTagNameChar (wholeText a.pieces ++ s) := by
  cases a with
  | done => exact hs
  | bare name others => exact Text.stops_cons.mpr (by decide)
  | quoted name value others => exact Text.stops_cons.mpr (by decide)
  | braced name value others => exact Text.stops_cons.mpr (by decide)

theorem TagName.ne_of_mem (tag : TagName) : ∀ c ∈ tag.text, c ≠ '>' := by
  rintro c hc rfl
  exact absurd (List.all_eq_true.mp tag.isName _ hc) (by decide)

/-- The name of an attribute and its equals sign lead nowhere else. -/
theorem AttributeName.isTagText (name : AttributeName) :
    ∀ c ∈ ' ' :: name.text ++ ['='], isTagText c = true := by
  have hname : ∀ c, isTagNameChar c = true → Eraser.isTagText c = true := by
    intro c hc
    by_contra h
    simp only [Eraser.isTagText, Bool.not_eq_true, Bool.not_eq_false', Bool.or_eq_true, beq_iff_eq,
      isQuote] at h
    rcases h with (((rfl | rfl) | rfl) | rfl) | rfl | rfl <;> exact absurd hc (by decide)
  intro c hc
  simp only [List.cons_append, List.mem_cons, List.mem_append, List.not_mem_nil, or_false] at hc
  rcases hc with rfl | hc | rfl
  · decide
  · exact hname c (List.all_eq_true.mp name.isName c hc)
  · decide

/-- What is kept of markup ends with a bracket. -/
theorem Markup.endsVisibly (m : Markup) : EndsVisibly (keptText m.pieces) := by
  have hclose : ∀ s, EndsVisibly (s ++ ['>']) :=
    fun s => (endsVisibly_singleton (by decide)).append s
  cases m with
  | element tag attributes content =>
    rw [Markup.pieces, keptText_append]
    refine EndsVisibly.append ?_ _
    simpa [closingTag] using hclose ('<' :: '/' :: tag.text)
  | void tag attributes =>
    rw [Markup.pieces, keptText_append]
    refine EndsVisibly.append ?_ _
    simpa using hclose ['/']
  | fragment content =>
    rw [Markup.pieces, keptText_append]
    refine EndsVisibly.append ?_ _
    simpa [closingTag] using hclose ['<', '/']

/-- Inserted code that leaves `c` behind goes on to its closing brace. -/
theorem reaches_inserted {mode : Mode} {c : CodeMode} {ps : List Piece} (type : Option TypeExpr)
    (hkept : EndsVisibly (keptText ps)) (hends : c.previous.endsExpression = true)
    (houter : c.outer = []) :
    Reaches (((e.past ps (wholeText (assertedPieces type) ++ '\x7d' :: rest)).enter mode).enter
        (.code c))
      ((e.past (ps ++ assertedPieces type ++ [.kept ['\x7d']]) rest).enter mode) := by
  have hclose : ∀ {c' : CodeMode}, c'.outer = [] →
      Reaches (((e.past (ps ++ assertedPieces type) ('\x7d' :: rest)).enter mode).enter (.code c'))
        ((e.past (ps ++ assertedPieces type ++ [.kept ['\x7d']]) rest).enter mode) := by
    intro c' hc'
    have hrest : (e.past (ps ++ assertedPieces type) ('\x7d' :: rest)).rest = '\x7d' :: rest := rfl
    simpa using reaches_closeBrace hrest hc'
  cases type with
  | none => simpa using hclose houter
  | some t =>
    have hbrace : EndsType ('\x7d' :: rest) := endsType_sign (by decide) (by decide)
    have hassert := reaches_assertion (e := e.enter mode) .as t hkept hends hbrace
    have htext : wholeText (assertedPieces (some t)) = assertion .as t := by simp [assertedPieces]
    rw [htext]
    exact hassert.trans (hclose houter)

end

theorem reaches_of_eq {a b : Eraser} (h : a = b) : Reaches a b := h ▸ .refl a

/-- Inserted code with its braces is passed over as the code inside is. -/
theorem outcome_braced {mode : Mode} {p : Prop} {ps : List Piece} {e : Eraser} {s rest : Text}
    (hopen : Reaches (e.enter mode) (((e.past [.kept ['{']] s).enter mode).enter (.code {})))
    (hinside : Outcome p (((e.past [.kept ['{']] s).enter mode).enter (.code {}))
      (((e.past [.kept ['{']] s).past (ps ++ [.kept ['\x7d']]) rest).enter mode)) :
    Outcome p (e.enter mode)
      ((e.past (.kept ['{'] :: ps ++ [.kept ['\x7d']]) rest).enter mode) := by
  rw [past_past] at hinside
  exact hinside.before hopen

mutual

/-- Behind the bracket that opens it, markup is passed over if it reads as markup. -/
theorem Markup.outcome : (m : Markup) → (e : Eraser) → (rest s : Text) →
    e.rest = m.text ++ rest → e.rest = '<' :: s →
    Outcome (m.InsertsReadAsMarkup rest) (e.openElement s) (e.past m.pieces rest)
  | .element tag attributes content, e, rest, s, h, hs => by
    have htext : e.rest = '<' :: (tag.text ++ (wholeText attributes.pieces ++
        '>' :: (wholeText content.pieces ++ (closingTag tag.text ++ rest)))) := by
      simpa [Markup.text, Markup.pieces] using h
    obtain rfl : s = _ := (List.cons.inj (hs.symm.trans htext)).2
    have hstop : Stops isTagNameChar (wholeText attributes.pieces ++
        '>' :: (wholeText content.pieces ++ (closingTag tag.text ++ rest))) :=
      attributes.stops_tagName (Text.stops_cons.mpr (by decide))
    have h₁ := Outcome.ofReaches (reaches_of_eq (openElement_tag tag htext hstop))
      fun h => attributes.outcome _ _ h
    have h₂ := (h₁.andReaches fun h => reaches_tagEnd h).andThen fun h => content.outcome _ _ h
    have h₃ := h₂.andLeaves fun h => reaches_closingTag tag.ne_of_mem h
    have hpieces : [.kept ('<' :: tag.text)] ++ attributes.pieces ++ [.kept ['>']] ++ content.pieces
        ++ [.kept (closingTag tag.text)] = (Markup.element tag attributes content).pieces := by
      simp [Markup.pieces]
    rwa [hpieces] at h₃
  | .void tag attributes, e, rest, s, h, hs => by
    have htext : e.rest = '<' :: (tag.text ++ (wholeText attributes.pieces ++
        '/' :: '>' :: rest)) := by
      simpa [Markup.text, Markup.pieces] using h
    obtain rfl : s = _ := (List.cons.inj (hs.symm.trans htext)).2
    have hstop : Stops isTagNameChar (wholeText attributes.pieces ++ '/' :: '>' :: rest) :=
      attributes.stops_tagName (Text.stops_cons.mpr (by decide))
    have h₁ := Outcome.ofReaches (reaches_of_eq (openElement_tag tag htext hstop))
      fun h => attributes.outcome _ _ h
    exact h₁.andLeaves fun h => reaches_voidEnd h
  | .fragment content, e, rest, s, h, hs => by
    have htext : e.rest = '<' :: '>' :: (wholeText content.pieces ++ (closingTag [] ++ rest)) := by
      simpa [Markup.text, Markup.pieces] using h
    obtain rfl : s = _ := (List.cons.inj (hs.symm.trans htext)).2
    have h₁ := Outcome.ofReaches (reaches_of_eq (openElement_fragment htext))
      fun h => content.outcome _ _ h
    exact h₁.andLeaves fun h => reaches_closingTag (by simp) h

theorem Attributes.outcome : (a : Attributes) → (e : Eraser) → (rest : Text) →
    e.rest = wholeText a.pieces ++ rest →
    Outcome (a.ReadAsMarkup rest) (e.enter .tag) ((e.past a.pieces rest).enter .tag)
  | .done, e, rest, h => by
    obtain rfl : e.rest = rest := h
    exact .of_reaches (.refl _)
  | .bare name others, e, rest, h => by
    have htext : e.rest = (' ' :: name.text) ++ (wholeText others.pieces ++ rest) := by
      simpa [Attributes.pieces] using h
    have hname : ∀ c ∈ ' ' :: name.text, isTagText c = true := fun c hc =>
      name.isTagText c (List.mem_append_left _ hc)
    exact .ofReaches (reaches_tagText hname htext) fun h => others.outcome _ rest h
  | .quoted name value others, e, rest, h => by
    have htext : e.rest = (' ' :: name.text ++ ['=']) ++
        (value.text ++ (wholeText others.pieces ++ rest)) := by
      simpa [Attributes.pieces] using h
    have h₁ := (reaches_tagText name.isTagText htext).andThen fun h => reaches_tagQuoted value h
    exact .ofReaches h₁ fun h => others.outcome _ rest h
  | .braced name value others, e, rest, h => by
    have htext : e.rest = (' ' :: name.text ++ ['=']) ++
        '{' :: (wholeText value.pieces ++ '\x7d' :: (wholeText others.pieces ++ rest)) := by
      simpa [Attributes.pieces] using h
    have h₁ := reaches_tagText name.isTagText htext
    have h₂ := Outcome.ofReaches h₁ fun h => outcome_braced (reaches_openBrace_tag h)
      (value.outcome .tag _ _ rfl)
    have h₃ := h₂.andThen fun h => others.outcome _ rest h
    refine h₃.regroup ?_ ?_ ?_ <;> simp [Attributes.pieces]

theorem Content.outcome : (c : Content) → (e : Eraser) → (rest : Text) →
    e.rest = wholeText c.pieces ++ rest →
    Outcome (c.ReadsAsMarkup rest) (e.enter .children) ((e.past c.pieces rest).enter .children)
  | .done, e, rest, h => by
    obtain rfl : e.rest = rest := h
    exact .of_reaches (.refl _)
  | .text t others, e, rest, h => by
    have htext : e.rest = t.text ++ (wholeText others.pieces ++ rest) := by
      simpa [Content.pieces] using h
    exact .ofReaches (reaches_childText t.isPlain htext) fun h => others.outcome _ rest h
  | .braced value others, e, rest, h => by
    have htext : e.rest
        = '{' :: (wholeText value.pieces ++ '\x7d' :: (wholeText others.pieces ++ rest)) := by
      simpa [Content.pieces] using h
    have h₁ := outcome_braced (reaches_openBrace_children htext)
      (value.outcome .children _ _ rfl)
    have h₂ := h₁.andThen fun h => others.outcome _ rest h
    refine h₂.regroup ?_ ?_ ?_ <;> simp [Content.pieces]
  | .child m others, e, rest, h => by
    have htext : e.rest = m.text ++ (wholeText others.pieces ++ rest) := by
      simpa [Content.pieces, Markup.text] using h
    obtain ⟨s, hs, hstart⟩ := m.text_eq
    have hopen : e.rest = '<' :: (s ++ (wholeText others.pieces ++ rest)) := by
      rw [htext, hs, List.cons_append]
    have hslash : Stops (· == '/') (s ++ (wholeText others.pieces ++ rest)) := by
      cases s with
      | nil => exact absurd hstart (by decide)
      | cons c s =>
        refine Text.stops_cons.mpr ?_
        by_contra hc
        obtain rfl : c = '/' := by simpa using hc
        exact absurd hstart (by simp [isAsciiLetter])
    have h₁ : Outcome (m.InsertsReadAsMarkup (wholeText others.pieces ++ rest))
        (e.enter .children)
        ((e.past m.pieces (wholeText others.pieces ++ rest)).enter .children) :=
      (m.outcome (e.enter .children) _ _ htext hopen).before (reaches_childTag hopen hslash)
    exact h₁.andThen fun h => others.outcome _ rest h

/-- Inserted code is passed over with the brace that closes it. -/
theorem Insert.outcome : (i : Insert) → (mode : Mode) → (e : Eraser) → (rest : Text) →
    e.rest = wholeText i.pieces ++ '\x7d' :: rest →
    Outcome (i.ReadsAsMarkup ('\x7d' :: rest)) ((e.enter mode).enter (.code {}))
      ((e.past (i.pieces ++ [.kept ['\x7d']]) rest).enter mode)
  | .name x type, mode, e, rest, h => by
    have htext : (e.enter mode).rest
        = x.text ++ (wholeText (assertedPieces type) ++ '\x7d' :: rest) := by
      simpa [Insert.pieces] using h
    have hstop : Stops isIdentChar (wholeText (assertedPieces type) ++ '\x7d' :: rest) := by
      cases type <;> exact Text.stops_cons.mpr (by decide)
    have hkept : EndsVisibly (keptText [.kept x.text]) := by
      simpa using endsVisibly_word x.isWord
    have hends : (Previous.word x.text).endsExpression = true := by
      simp [Previous.endsExpression, x.not_isReserved]
    have h₁ := reaches_name (m := {}) x htext hstop
    exact .of_reaches (h₁.trans (reaches_inserted (e := e) type hkept hends rfl))
  | .string q type, mode, e, rest, h => by
    have htext : (e.enter mode).rest
        = q.text ++ (wholeText (assertedPieces type) ++ '\x7d' :: rest) := by
      simpa [Insert.pieces] using h
    have hkept : EndsVisibly (keptText [.kept q.text]) := by
      simpa using q.endsVisibly
    have h₁ := reaches_quoted (m := {}) q htext
    exact .of_reaches (h₁.trans (reaches_inserted (e := e) type hkept rfl rfl))
  | .markup m type, mode, e, rest, h => by
    have htext : (e.enter mode).rest
        = m.text ++ (wholeText (assertedPieces type) ++ '\x7d' :: rest) := by
      simpa [Insert.pieces, Markup.text] using h
    have h₁ := m.outcome_code (c := {}) rfl htext fun s hs => m.outcome _ _ s htext hs
    exact h₁.after (reaches_inserted (e := e) type m.endsVisibly rfl rfl)

end

/-! ### Whole texts -/

theorem Markup.removals_eq_replicate (m : Markup) :
    (removals m.pieces).reverse = List.replicate m.assertions .asAssertion := by
  refine List.eq_replicate_iff.mpr ⟨?_, fun rule h => ?_⟩
  · rw [List.length_reverse, length_removals]
    rfl
  · exact m.eq_of_mem_removals rule (List.mem_reverse.mp h)

/-- **Only assertions are removed from markup, if and only if it reads as markup.** -/
theorem Markup.eraseTypes_eq_iff (m : Markup) :
    eraseTypes m.text
        = .ok ⟨m.untyped.text, ⟨List.replicate m.assertions .asAssertion⟩⟩
      ↔ m.ReadsAsMarkup [] := by
  have htext : (bare m.text).rest = m.text ++ [] := (List.append_nil _).symm
  have hcode := m.outcome_code (e := bare m.text) (c := {}) rfl htext
    fun s hs => m.outcome _ _ s htext hs
  constructor
  · intro h
    by_contra hfails
    obtain ⟨e, he, hhit⟩ := hcode.fails hfails
    obtain ⟨k, -, hrun⟩ := he.run_eq (Nat.le_refl m.text.length)
    cases hend : run k e with
    | error o =>
      have herror : run m.text.length (start m.text) = .error o := hrun.trans hend
      rw [eraseTypes, herror] at h
      cases h
    | ok e' =>
      have hok : run m.text.length (start m.text) = .ok e' := hrun.trans hend
      rw [eraseTypes, hok] at h
      have hreport := congrArg (fun r => r.map Erased.report) h
      have hhits : e'.report = ⟨List.replicate m.assertions .asAssertion⟩ := by
        simpa [Except.map] using hreport
      have hmem := (hits_run hend).subset hhit
      rw [hhits] at hmem
      exact absurd (List.eq_of_mem_replicate hmem) (by decide)
  · intro h
    have := eraseTypes_eq_of_reaches (hcode.passes h)
    rwa [m.keptText_pieces, m.removals_eq_replicate] at this

end LivePreview.Erasure

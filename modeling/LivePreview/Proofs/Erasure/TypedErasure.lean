/-
Typed programs are erased to untyped ones.

The eraser goes over a printed tree the way the tree is built: an induction on the tree
gives steps from in front of its text to behind it, with its pieces kept and erased as
they are printed.  What has to hold on the way is little.  Inside one bracket the eraser
knows the bracket, the token in front and whether a line ended, and only the bracket
matters to what follows; `SameCode` says that it is the same.  Question marks never wait
for a colon, since each of them is printed as the mark of a parameter and removed.

An expression ends with a token that ends expressions, which is what `as` behind it asks
for, and nothing that follows an expression can be taken for a return type.
-/
import LivePreview.Proofs.Erasure.TypedProgram

namespace LivePreview.Erasure

open Script Eraser
open Text (Stops)

/-! ### The same code -/

/-- The same code, up to the token in front and the lines. -/
structure SameCode (m m' : CodeMode) : Prop where
  top : m'.top = m.top
  outer : m'.outer = m.outer
  header : m'.header = m.header

namespace SameCode

variable {m m' m'' : CodeMode}

theorem refl (m : CodeMode) : SameCode m m := ⟨rfl, rfl, rfl⟩

theorem trans (h : SameCode m m') (h' : SameCode m' m'') : SameCode m m'' :=
  ⟨h'.top.trans h.top, h'.outer.trans h.outer, h'.header.trans h.header⟩

theorem next (m : CodeMode) (p : Previous) : SameCode m (m.next p) := ⟨rfl, rfl, rfl⟩

theorem newline (m : CodeMode) : SameCode m { m with newline := true } := ⟨rfl, rfl, rfl⟩

/-- Behind the next token the same code is one and the same. -/
theorem next_eq (h : SameCode m m') (p : Previous) : m'.next p = m.next p := by
  obtain ⟨top, outer, previous, newline, header⟩ := m'
  obtain ⟨rfl, rfl, rfl⟩ := h
  rfl

/-- Behind its bracket, code inside a bracket is the code around it. -/
theorem pop_next {kind : FrameKind} (h : SameCode (m.push kind) m') (p : Previous) :
    m'.pop.next p = m.next p := by
  obtain ⟨top, outer, previous, newline, header⟩ := m'
  obtain ⟨rfl, rfl, rfl⟩ := h
  rfl

end SameCode

/-- Code in which no question mark waits and no declarators are listed. -/
structure Calm (m : CodeMode) : Prop where
  ternaries : m.top.ternaries = 0
  declarators : m.top.declarators = false

theorem Calm.push (m : CodeMode) (kind : FrameKind) : Calm (m.push kind) := ⟨rfl, rfl⟩

theorem Calm.of_same {m m' : CodeMode} (h : Calm m) (hs : SameCode m m') : Calm m' :=
  ⟨by rw [hs.top, h.ternaries], by rw [hs.top, h.declarators]⟩

/-! ### Lists of items -/

/-- An item of a list ends here. -/
inductive EndsItem : Text → Prop where
  | comma (s : Text) : EndsItem (',' :: s)
  | round (s : Text) : EndsItem (')' :: s)

/-- In brackets of this kind, the eraser passes over these pieces. -/
def Passes (kind : FrameKind) (ps : List Piece) : Prop :=
  ∀ (e : Eraser) (m : CodeMode) (rest : Text), m.top.kind = kind → Calm m →
    e.rest = wholeText ps ++ rest → EndsItem rest →
    ∃ m', SameCode m m' ∧ Reaches (e.enter (.code m)) ((e.past ps rest).enter (.code m'))

/-- Items that are passed over are passed over as a list. -/
theorem passes_commaPieces {kind : FrameKind} {items : List (List Piece)}
    (hitems : ∀ ps ∈ items, Passes kind ps) : Passes kind (commaPieces items) := by
  induction items with
  | nil =>
    intro e m rest _ _ h _
    refine ⟨m, .refl m, ?_⟩
    obtain rfl : rest = e.rest := by simpa [commaPieces] using h.symm
    exact .refl _
  | cons item items ih =>
    cases items with
    | nil => exact hitems item (List.mem_singleton.mpr rfl)
    | cons next items =>
      intro e m rest hkind hcalm h hrest
      have htext : e.rest = wholeText item ++
          (',' :: ' ' :: (wholeText (commaPieces (next :: items)) ++ rest)) := by
        simpa [commaPieces] using h
      obtain ⟨m₁, hm₁, h₁⟩ := hitems item (List.mem_cons_self ..) e m _ hkind hcalm htext (.comma _)
      have h₂ := (h₁.andThen fun h => reaches_comma h (hcalm.of_same hm₁).declarators).andThen
        fun h => reaches_space h
      have hm₂ : SameCode m (m₁.next (.sign ',')) := hm₁.trans (.next _ _)
      have hkind₂ : (m₁.next (.sign ',')).top.kind = kind := by rw [hm₂.top, hkind]
      obtain ⟨m₃, hm₃, h₃⟩ := ih (fun ps hps => hitems ps (List.mem_cons_of_mem _ hps))
        (e.past (item ++ [.kept [',']] ++ [.kept [' ']]) _) _ rest hkind₂ (hcalm.of_same hm₂) rfl
        hrest
      refine ⟨m₃, hm₂.trans hm₃, ?_⟩
      refine (h₂.andThen fun _ => h₃).regroup ?_ ?_ ?_ <;> simp [commaPieces]

/-! ### Parameters -/

theorem EndsItem.endsType {s : Text} (h : EndsItem s) : EndsType s := by
  cases h <;> exact endsType_sign (by decide) (by decide)

/-- What is printed behind the name of a parameter. -/
theorem EndsItem.followsMark {s : Text} (h : EndsItem s) (rule : ErasureRule)
    (t : Option TypeExpr) : FollowsMark (wholeText (annotationPieces rule t) ++ s) := by
  cases t with
  | some t => exact ⟨':', _, rfl, Or.inl rfl⟩
  | none =>
    cases h with
    | comma s => exact ⟨',', s, rfl, Or.inr (Or.inl rfl)⟩
    | round s => exact ⟨')', s, rfl, Or.inr (Or.inr rfl)⟩

section

variable {e : Eraser} {m : CodeMode} {w rest : Text} {b : Bool}

theorem reaches_markPieces (optional : Bool) (h : e.rest = wholeText (markPieces optional) ++ rest)
    (hkind : m.top.kind = .round b) (hrest : FollowsMark rest) :
    Reaches (e.enter (.code (m.next (.word w))))
      ((e.past (markPieces optional) rest).enter (.code (m.next (.word w)))) := by
  cases optional with
  | false =>
    obtain rfl : e.rest = rest := h
    exact .refl _
  | true =>
    have hkind : (m.next (.word w)).top.kind.takesTypes = true := by
      rw [show (m.next (.word w)).top.kind = m.top.kind from rfl, hkind]
      rfl
    exact reaches_optionalMark h hkind rfl hrest

theorem reaches_parameterPieces (t : Option TypeExpr)
    (h : e.rest = wholeText (annotationPieces .parameterType t) ++ rest)
    (hkind : m.top.kind = .round b) (hcalm : Calm m) (hrest : EndsType rest) :
    Reaches (e.enter (.code (m.next (.word w))))
      ((e.past (annotationPieces .parameterType t) rest).enter (.code (m.next (.word w)))) := by
  cases t with
  | none =>
    obtain rfl : e.rest = rest := h
    exact .refl _
  | some t =>
    have htext : e.rest = typeSuffix t ++ rest := by simpa [annotationPieces] using h
    exact reaches_parameterType (m := m.next (.word w)) t htext hkind hcalm.ternaries rfl hrest

end

theorem Parameter.passes (p : Parameter) (b : Bool) : Passes (.round b) p.pieces := by
  intro e m rest hkind hcalm h hrest
  have hmark := hrest.followsMark .parameterType p.type
  have hname : Stops isIdentChar (wholeText (markPieces p.optional) ++
      (wholeText (annotationPieces .parameterType p.type) ++ rest)) := by
    cases p.optional with
    | false => exact hmark.stops
    | true => exact Text.stops_cons.mpr (by decide)
  have htext : e.rest = p.name.text ++ (wholeText (markPieces p.optional) ++
      (wholeText (annotationPieces .parameterType p.type) ++ rest)) := by
    simpa [Parameter.pieces] using h
  have h₁ := reaches_name (m := m) p.name htext hname
  have h₂ := h₁.andThen fun h => reaches_markPieces p.optional h hkind hmark
  have h₃ := h₂.andThen fun h => reaches_parameterPieces p.type h hkind hcalm hrest.endsType
  exact ⟨_, .next _ _, h₃⟩

/-! ### Round brackets -/

section

variable {e : Eraser} {m : CodeMode} {rest : Text}

/-- An opening bracket and the items behind it. -/
theorem reaches_items {items : List (List Piece)}
    (hitems : ∀ ps ∈ items, Passes (.round m.previous.opensParameters) ps)
    (h : e.rest = '(' :: (wholeText (commaPieces items) ++ ')' :: rest)) :
    ∃ m', SameCode (m.push (.round m.previous.opensParameters)) m' ∧
      Reaches (e.enter (.code m))
        ((e.past (.kept ['('] :: commaPieces items) (')' :: rest)).enter (.code m')) := by
  have h₁ := reaches_open_round (m := m) h
  have hcalm : Calm ((m.push (.round m.previous.opensParameters)).next (.sign '(')) :=
    (Calm.push _ _).of_same (.next _ _)
  obtain ⟨m₂, hm₂, h₂⟩ := passes_commaPieces hitems _ _ (')' :: rest) rfl hcalm
    (show (e.past [.kept ['(']] _).rest = _ from rfl) (.round _)
  exact ⟨m₂, (SameCode.next _ _).trans hm₂, h₁.andThen fun _ => h₂⟩

theorem reaches_signature (ps : List Parameter) (t : Option TypeExpr)
    (h : e.rest = wholeText (signaturePieces ps t) ++ rest) (hternaries : m.top.ternaries = 0)
    (hrest : FollowsReturnType (.round m.previous.opensParameters) rest) :
    Reaches (e.enter (.code m))
      ((e.past (signaturePieces ps t) rest).enter (.code (m.next .value))) := by
  have htext : e.rest = '(' :: (wholeText (commaPieces (ps.map Parameter.pieces)) ++
      ')' :: (wholeText (annotationPieces .returnType t) ++ rest)) := by
    simpa [signaturePieces] using h
  have hitems : ∀ item ∈ ps.map Parameter.pieces,
      Passes (.round m.previous.opensParameters) item := by
    intro item hitem
    obtain ⟨p, -, rfl⟩ := List.mem_map.mp hitem
    exact p.passes _
  obtain ⟨m₁, hm₁, h₁⟩ := reaches_items hitems htext
  have hkind : m₁.top.kind = .round m.previous.opensParameters := by rw [hm₁.top]; rfl
  have hpop : m₁.pop.top.ternaries = 0 := by
    rw [show m₁.pop.top = (m₁.pop.next .value).top from rfl, hm₁.pop_next]
    exact hternaries
  have h₂ := h₁.andThen fun h => reaches_close_parameters t h hkind hpop (by rwa [hkind])
  rw [hm₁.pop_next] at h₂
  refine h₂.regroup ?_ ?_ ?_ <;> simp [signaturePieces]

/-! ### Angle brackets -/

theorem before_name (ps : List Piece) (x : Name) (s : Text) :
    (e.past (ps ++ [.kept x.text]) s).before.any isIdentChar = true := by
  obtain ⟨c, hc, hchar⟩ := x.isWord.getLast?
  simp [hc, hchar]

theorem reaches_typeArguments (f : Name) (ts : List TypeExpr)
    (h : e.rest = wholeText (typeArgumentPieces f ts) ++ '(' :: rest)
    (hbefore : e.before.any isIdentChar = true) :
    Reaches (e.enter (.code (m.next (.word f.text))))
      ((e.past (typeArgumentPieces f ts) ('(' :: rest)).enter
        (.code (m.next (.word f.text)))) := by
  cases ts with
  | nil =>
    have hrest : e.rest = '(' :: rest := h
    rw [← hrest]
    exact .refl _
  | cons t ts =>
    have htext : e.rest
        = '<' :: (commaSeparated (TypeExpr.texts (t :: ts)) ++ ['>'] ++ '(' :: rest) := by
      simpa [typeArgumentPieces] using h
    have hread : afterTypeArguments? e.rest = some ('(' :: rest) := by
      rw [htext, afterTypeArguments?_cons, List.append_assoc]
      exact TypeExpr.rest?_arguments_text (t :: ts) (List.cons_ne_nil _ _) ('(' :: rest) false
    exact reaches_angleList (m := m.next (.word f.text)) f htext (by rw [hread, Option.some_or])
      hbefore rfl

theorem reaches_typeParameters (f : Name) (ps : List TypeParameter)
    (h : e.rest = wholeText (typeParameterPieces f ps) ++ '(' :: rest)
    (hbefore : e.before.any isIdentChar = true) :
    Reaches (e.enter (.code (m.next (.word f.text))))
      ((e.past (typeParameterPieces f ps) ('(' :: rest)).enter
        (.code (m.next (.word f.text)))) := by
  cases ps with
  | nil =>
    have hrest : e.rest = '(' :: rest := h
    rw [← hrest]
    exact .refl _
  | cons p ps =>
    have htext : e.rest = TypeParameter.listText (p :: ps) ++ '(' :: rest := by
      simpa [typeParameterPieces] using h
    have hread : (afterTypeArguments? e.rest).or (afterTypeParameters? e.rest)
        = some ('(' :: rest) := by
      rw [htext]
      exact TypeParameter.arguments_or_parameters_listText (p :: ps) (List.cons_ne_nil _ _) _
    exact reaches_angleList (m := m.next (.word f.text)) f htext hread hbefore rfl

end

/-! ### Expressions -/

/-- Nothing here goes on with an expression, or with the brackets that it ends with. -/
structure FollowsExpr (s : Text) : Prop where
  char : Stops (fun c => isIdentChar c || c == '.') s
  colon : Stops (· == ':') (Text.skipBlanks s)

theorem FollowsExpr.stops {s : Text} (h : FollowsExpr s) : Stops isIdentChar s :=
  Text.stops_mono (fun c hc => by simp [hc]) h.char

theorem followsExpr_sign {c : Char} {s : Text} (hchar : isIdentChar c = false)
    (hblank : isBlank c = false) (hsign : c ≠ '.' ∧ c ≠ ':') : FollowsExpr (c :: s) := by
  refine ⟨Text.stops_cons.mpr (by simp [hchar, hsign]), ?_⟩
  rw [Text.skipBlanks_cons hblank]
  exact Text.stops_cons.mpr (by simp [hsign])

theorem EndsItem.followsExpr {s : Text} (h : EndsItem s) : FollowsExpr s := by
  cases h <;> exact followsExpr_sign (by decide) (by decide) (by decide)

/-- Behind the inside of round brackets stands an assertion or the closing bracket. -/
theorem followsExpr_assertion (a : Option (AssertionWord × TypeExpr)) (s : Text) :
    FollowsExpr (wholeText (assertionPieces a) ++ ')' :: s) := by
  rcases a with _ | ⟨k, t⟩
  · exact (EndsItem.round s).followsExpr
  · refine ⟨Text.stops_cons.mpr (by decide), ?_⟩
    cases k <;> exact Text.stops_cons.mpr (by decide)

/-- What is kept of an expression does not end with a blank. -/
theorem Expr.endsVisibly (E : Expr) : EndsVisibly (keptText E.pieces) := by
  induction E using Expr.pieces.induct (motive_2 := fun _ => True) with
  | case1 x => simpa [Expr.pieces] using endsVisibly_word x.isWord
  | case2 d =>
    have hlast := d.isDigit _ (List.getLast_mem d.ne_nil)
    refine ⟨d.text.getLast d.ne_nil, by simp [Expr.pieces, List.getLast?_eq_some_getLast d.ne_nil],
      isInline_eq_false_of_identChar (by simp [isIdentChar, hlast])⟩
  | case3 q => simpa [Expr.pieces] using q.endsVisibly
  | case4 f types arguments _ =>
    rw [Expr.pieces, keptText_append]
    exact (endsVisibly_singleton (c := ')') (by decide)).append _
  | case5 inside asserted _ =>
    rw [Expr.pieces, keptText_append]
    exact (endsVisibly_singleton (c := ')') (by decide)).append _
  | case6 parameters result body ih =>
    rw [Expr.pieces, keptText_append, keptText_kept]
    exact (ih.append _).append _
  | case7 => trivial
  | case8 => trivial

theorem Name.endsExpression (x : Name) : (Previous.word x.text).endsExpression = true := by
  simp [Previous.endsExpression, x.not_isReserved]

section

variable {e : Eraser} {m : CodeMode} {rest : Text}

/-- A closing bracket of round brackets that opened in `m`. -/
theorem reaches_close {m' : CodeMode} {b : Bool} (hm : SameCode (m.push (.round b)) m')
    (h : e.rest = ')' :: rest) (hrest : Stops (· == ':') (Text.skipBlanks rest)) :
    Reaches (e.enter (.code m'))
      ((e.past [.kept [')']] rest).enter (.code (m.next .value))) := by
  have hkind : m'.top.kind = .round b := by rw [hm.top]; rfl
  rw [← hm.pop_next]
  exact reaches_close_round h hkind hrest

/-- What is asserted of an expression, between it and the closing bracket. -/
theorem reaches_assertionPieces {ps : List Piece} (a : Option (AssertionWord × TypeExpr))
    (rest : Text)
    (hkept : EndsVisibly (keptText ps)) (hends : m.previous.endsExpression = true) :
    ∃ m', SameCode m m' ∧
      Reaches ((e.past ps (wholeText (assertionPieces a) ++ ')' :: rest)).enter (.code m))
        ((e.past (ps ++ assertionPieces a) (')' :: rest)).enter (.code m')) := by
  rcases a with _ | ⟨k, t⟩
  · refine ⟨m, .refl m, ?_⟩
    simpa using Reaches.refl _
  · refine ⟨_, .next m m.previous, ?_⟩
    simpa [assertionPieces] using reaches_assertion (e := e) k t hkept hends
      (EndsItem.round rest).endsType

end

mutual

/-- **The eraser passes over an expression**, and the token it leaves in front ends one. -/
theorem Expr.reaches : (E : Expr) → ∀ {e : Eraser} {m : CodeMode} {rest : Text},
    m.top.ternaries = 0 → e.rest = wholeText E.pieces ++ rest → FollowsExpr rest →
    ∃ p : Previous, p.endsExpression = true ∧
      Reaches (e.enter (.code m)) ((e.past E.pieces rest).enter (.code (m.next p)))
  | .name x, e, m, rest, _, h, hrest => by
    have htext : e.rest = x.text ++ rest := by simpa [Expr.pieces] using h
    exact ⟨.word x.text, Name.endsExpression x, reaches_name x htext hrest.stops⟩
  | .integer d, e, m, rest, _, h, hrest => by
    have htext : e.rest = d.text ++ rest := by simpa [Expr.pieces] using h
    exact ⟨.value, rfl, reaches_digits d htext hrest.char⟩
  | .string q, e, m, rest, _, h, hrest => by
    have htext : e.rest = q.text ++ rest := by simpa [Expr.pieces] using h
    exact ⟨.value, rfl, reaches_quoted q htext⟩
  | .call f types arguments, e, m, rest, hternaries, h, hrest => by
    have htext : e.rest = f.text ++ (wholeText (typeArgumentPieces f types) ++
        '(' :: (wholeText (commaPieces (Expr.piecesEach arguments)) ++ ')' :: rest)) := by
      simpa [Expr.pieces] using h
    have hname : Stops isIdentChar (wholeText (typeArgumentPieces f types) ++
        '(' :: (wholeText (commaPieces (Expr.piecesEach arguments)) ++ ')' :: rest)) := by
      cases types <;> exact Text.stops_cons.mpr (by decide)
    have h₁ := reaches_name (m := m) f htext hname
    have h₂ := h₁.andThen fun h => reaches_typeArguments f types h (before_name [] f _)
    have hitems := Expr.passesEach arguments
    obtain ⟨m₃, hm₃, h₃⟩ := reaches_items
      (e := e.past ([.kept f.text] ++ typeArgumentPieces f types) _)
      (m := m.next (.word f.text)) (fun ps hps => hitems ps hps _) rfl
    have h₄ := (h₂.andThen fun _ => h₃).andThen fun h => reaches_close hm₃ h hrest.colon
    refine ⟨.value, rfl, h₄.regroup ?_ ?_ ?_⟩ <;> simp [Expr.pieces]
  | .round inside asserted, e, m, rest, hternaries, h, hrest => by
    have htext : e.rest = '(' :: (wholeText inside.pieces ++
        (wholeText (assertionPieces asserted) ++ ')' :: rest)) := by
      simpa [Expr.pieces] using h
    have h₁ := reaches_open_round (m := m) htext
    obtain ⟨p, hp, h₂⟩ := Expr.reaches inside (e := e.past [.kept ['(']] _)
      (m := (m.push (.round m.previous.opensParameters)).next (.sign '(')) rfl rfl
      (followsExpr_assertion asserted rest)
    have hkept : EndsVisibly (keptText ([.kept ['(']] ++ inside.pieces)) :=
      inside.endsVisibly.append ['(']
    obtain ⟨m₃, hm₃, h₃⟩ := reaches_assertionPieces (e := e)
      (m := ((m.push (.round m.previous.opensParameters)).next (.sign '(')).next p) asserted rest
      hkept hp
    have hm : SameCode (m.push (.round m.previous.opensParameters)) m₃ :=
      (SameCode.next _ _).trans ((SameCode.next _ _).trans hm₃)
    have h₄ := ((h₁.andThen fun _ => h₂).trans h₃).andThen fun h =>
      reaches_close hm h hrest.colon
    exact ⟨.value, rfl, h₄⟩
  | .arrow parameters result body, e, m, rest, hternaries, h, hrest => by
    have htext : e.rest = wholeText (signaturePieces parameters result) ++
        ' ' :: '=' :: '>' :: ' ' :: (wholeText body.pieces ++ rest) := by
      simpa [Expr.pieces] using h
    have h₁ := reaches_signature parameters result htext hternaries (Or.inl ⟨_, rfl⟩)
    have h₂ := ((h₁.andThen fun h => reaches_space h).andThen fun h => reaches_arrow h).andThen
      fun h => reaches_space h
    obtain ⟨p, hp, h₃⟩ := Expr.reaches body
      (e := e.past (signaturePieces parameters result ++ [.kept [' ']] ++ [.kept ['=', '>']] ++
        [.kept [' ']]) _) (m := (m.next .value).next .arrow) hternaries rfl hrest
    refine ⟨p, hp, (h₂.andThen fun _ => h₃).regroup ?_ ?_ ?_⟩ <;> simp [Expr.pieces]

/-- The eraser passes over each argument of a call. -/
theorem Expr.passesEach : (Es : List Expr) →
    ∀ ps ∈ Expr.piecesEach Es, ∀ b, Passes (.round b) ps
  | [], ps, hps, _ => absurd hps (by simp [Expr.piecesEach])
  | E :: Es, ps, hps, b => by
    rcases List.mem_cons.mp hps with rfl | hps
    · intro e m rest _ hcalm h hrest
      obtain ⟨p, -, hp⟩ := Expr.reaches E hcalm.ternaries h hrest.followsExpr
      exact ⟨_, .next _ _, hp⟩
    · exact Expr.passesEach Es ps hps b

end

/-! ### Statements -/

/-- Code in front of a statement. -/
structure AtStatement (m : CodeMode) : Prop extends Calm m where
  header : m.header = false
  noDot : m.previous ≠ .sign '.'

theorem AtStatement.of_same {m m' : CodeMode} (h : AtStatement m) (hs : SameCode m m')
    (hnoDot : m'.previous ≠ .sign '.') : AtStatement m' :=
  ⟨h.toCalm.of_same hs, by rw [hs.header, h.header], hnoDot⟩

theorem AtStatement.next {m : CodeMode} (h : AtStatement m) {p : Previous} (hp : p ≠ .sign '.') :
    AtStatement (m.next p) :=
  h.of_same (.next m p) hp

/-- An expression and its semicolon. -/
theorem Expr.reaches_semicolon (E : Expr) {e : Eraser} {m : CodeMode} {rest : Text}
    (hternaries : m.top.ternaries = 0) (h : e.rest = wholeText E.pieces ++ ';' :: rest) :
    Reaches (e.enter (.code m))
      ((e.past (E.pieces ++ [.kept [';']]) rest).enter (.code m.endDeclarators)) := by
  obtain ⟨p, -, h₁⟩ := E.reaches hternaries h
    (followsExpr_sign (by decide) (by decide) (by decide))
  exact h₁.andThen fun h => Eraser.reaches_semicolon h

/-- Where no declarators were listed, none are listed behind a semicolon. -/
theorem Calm.endDeclarators_eq {m : CodeMode} (h : Calm m) :
    m.endDeclarators = m.next (.sign ';') := by
  obtain ⟨⟨kind, ternaries, declarators⟩, outer, previous, newline, header⟩ := m
  obtain ⟨-, rfl⟩ := h
  rfl

/-- The pieces of a function up to its body. -/
def headerPieces (f : Name) (types : List TypeParameter) (parameters : List Parameter)
    (result : Option TypeExpr) : List Piece :=
  .kept "function ".toList :: .kept f.text :: typeParameterPieces f types
    ++ signaturePieces parameters result

theorem reaches_header {e : Eraser} {m : CodeMode} {s : Text} {f : Name}
    {types : List TypeParameter} {parameters : List Parameter} {result : Option TypeExpr}
    (hm : AtStatement m)
    (h : e.rest = wholeText (headerPieces f types parameters result) ++ ' ' :: '{' :: s) :
    ∃ m', SameCode m m' ∧ Reaches (e.enter (.code m))
      ((e.past (headerPieces f types parameters result) (' ' :: '{' :: s)).enter (.code m')) := by
  have htext : e.rest = "function".toList ++ ' ' :: (f.text ++
      (wholeText (typeParameterPieces f types) ++
        (wholeText (signaturePieces parameters result) ++ ' ' :: '{' :: s))) := by
    simpa [headerPieces] using h
  have hname : Stops isIdentChar (wholeText (typeParameterPieces f types) ++
      (wholeText (signaturePieces parameters result) ++ ' ' :: '{' :: s)) := by
    cases types <;> exact Text.stops_cons.mpr (by decide)
  have hopens : (Previous.word f.text).opensParameters = true := by
    have : controlWords.contains f.text = false := f.not_contains (by decide +kernel)
    rw [Previous.opensParameters, this]
    rfl
  have hfollows : FollowsReturnType (.round (Previous.word f.text).opensParameters)
      (' ' :: '{' :: s) := Or.inr ⟨by rw [hopens], _, rfl⟩
  have h₁ := reaches_word (m := m) (isWord_of_all (by decide) (by decide)) htext
    (Text.stops_cons.mpr (by decide)) (by decide)
  have h₂ := (h₁.andThen fun h => reaches_space h).andThen fun h => reaches_name f h hname
  have h₃ := h₂.andThen fun h => reaches_typeParameters f types h (before_name _ f _)
  have h₄ := h₃.andThen fun h => reaches_signature parameters result h hm.ternaries hfollows
  refine ⟨_, (SameCode.next _ _).trans ((SameCode.next _ _).trans (.next _ _)),
    h₄.regroup ?_ ?_ ?_⟩ <;> simp [headerPieces]

mutual

/-- **The eraser passes over a statement.** -/
theorem Stmt.reaches : (s : Stmt) → ∀ {e : Eraser} {m : CodeMode} {rest : Text},
    AtStatement m → e.rest = wholeText s.pieces ++ rest →
    ∃ m', SameCode m m' ∧ AtStatement m' ∧
      Reaches (e.enter (.code m)) ((e.past s.pieces rest).enter (.code m'))
  | .variable word x type value, e, m, rest, hm, h => by
    have htext : e.rest = word.text ++ ' ' :: (x.text ++
        (wholeText (annotationPieces .variableType type) ++
          ' ' :: '=' :: ' ' :: (wholeText value.pieces ++ ';' :: rest))) := by
      simpa [Stmt.pieces] using h
    have h₁ := reaches_variable word x type htext hm.noDot ⟨_, rfl⟩
    have h₂ := ((h₁.andThen fun h => reaches_space h).andThen fun h => reaches_equals h
      (Text.stops_cons.mpr (by decide))).andThen fun h => reaches_space h
    have h₃ := h₂.andThen fun h => value.reaches_semicolon hm.ternaries h
    have hend : ((m.listDeclarators.next (.word x.text)).next (.sign '=')).endDeclarators
        = m.next (.sign ';') := hm.toCalm.endDeclarators_eq
    rw [hend] at h₃
    refine ⟨m.next (.sign ';'), .next _ _, hm.next (by decide), ?_⟩
    refine h₃.regroup ?_ ?_ ?_ <;> simp [Stmt.pieces]
  | .return value, e, m, rest, hm, h => by
    have htext : e.rest = "return".toList ++
        ' ' :: (wholeText value.pieces ++ ';' :: rest) := by
      simpa [Stmt.pieces] using h
    have h₁ := reaches_word (m := m) (isWord_of_all (by decide) (by decide)) htext
      (Text.stops_cons.mpr (by decide)) (by decide)
    have h₂ := (h₁.andThen fun h => reaches_space h).andThen fun h =>
      value.reaches_semicolon (m := m.next (.word "return".toList)) hm.ternaries h
    have hend : (m.next (.word "return".toList)).endDeclarators = m.next (.sign ';') :=
      hm.toCalm.endDeclarators_eq
    rw [hend] at h₂
    refine ⟨m.next (.sign ';'), .next _ _, hm.next (by decide), ?_⟩
    refine h₂.regroup ?_ ?_ ?_ <;> simp [Stmt.pieces]
  | .expression value, e, m, rest, hm, h => by
    have htext : e.rest = wholeText value.pieces ++ ';' :: rest := by simpa [Stmt.pieces] using h
    have h₁ := value.reaches_semicolon hm.ternaries htext
    rw [hm.toCalm.endDeclarators_eq] at h₁
    exact ⟨_, .next _ _, hm.next (by decide), h₁⟩
  | .function f types parameters result body, e, m, rest, hm, h => by
    have htext : e.rest = wholeText (headerPieces f types parameters result) ++
        ' ' :: '{' :: '\n' :: (wholeText (Stmt.blockPieces body) ++ '\x7d' :: rest) := by
      simpa [Stmt.pieces, headerPieces] using h
    obtain ⟨m₁, hs₁, h₁⟩ := reaches_header hm htext
    have h₂ := ((h₁.andThen fun h => reaches_space h).andThen fun h =>
      reaches_open_curly h (hs₁.header.trans hm.header)).andThen fun h => reaches_newline h
    have hm₂ : AtStatement { (m₁.push .block).next (.sign '{') with newline := true } :=
      ⟨⟨rfl, rfl⟩, hs₁.header.trans hm.header, show Previous.sign '{' ≠ .sign '.' by decide⟩
    obtain ⟨m₃, hs₃, -, h₃⟩ := Stmt.reaches_block body
      (e := e.past (headerPieces f types parameters result ++ [.kept [' ']] ++ [.kept ['{']] ++
        [.kept ['\n']]) _) hm₂ rfl
    have hs : SameCode (m₁.push .block) m₃ :=
      (SameCode.next _ _).trans ((SameCode.newline _).trans hs₃)
    have houter : m₃.outer ≠ [] := by
      rw [hs.outer]
      exact List.cons_ne_nil _ _
    have h₄ := (h₂.andThen fun _ => h₃).andThen fun h => reaches_close_curly h houter
    rw [hs.pop_next, hs₁.next_eq] at h₄
    refine ⟨_, .next _ _, hm.next (by decide), h₄.regroup ?_ ?_ ?_⟩ <;>
      simp [Stmt.pieces, headerPieces]

/-- The eraser passes over statements. -/
theorem Stmt.reaches_block : (ss : List Stmt) → ∀ {e : Eraser} {m : CodeMode} {rest : Text},
    AtStatement m → e.rest = wholeText (Stmt.blockPieces ss) ++ rest →
    ∃ m', SameCode m m' ∧ AtStatement m' ∧
      Reaches (e.enter (.code m)) ((e.past (Stmt.blockPieces ss) rest).enter (.code m'))
  | [], e, m, rest, hm, h => by
    have hrest : e.rest = rest := h
    refine ⟨m, .refl m, hm, ?_⟩
    rw [← hrest]
    exact .refl _
  | s :: ss, e, m, rest, hm, h => by
    have htext : e.rest = wholeText s.pieces ++
        '\n' :: (wholeText (Stmt.blockPieces ss) ++ rest) := by
      simpa [Stmt.blockPieces] using h
    obtain ⟨m₁, hs₁, hm₁, h₁⟩ := Stmt.reaches s hm htext
    have h₂ := h₁.andThen fun h => reaches_newline h
    have hm₂ : AtStatement { m₁ with newline := true } := hm₁.of_same (.newline m₁) hm₁.noDot
    obtain ⟨m₃, hs₃, hm₃, h₃⟩ := Stmt.reaches_block ss
      (e := e.past (s.pieces ++ [.kept ['\n']]) _) hm₂ rfl
    refine ⟨m₃, hs₁.trans ((SameCode.newline m₁).trans hs₃), hm₃, ?_⟩
    refine (h₂.andThen fun _ => h₃).regroup ?_ ?_ ?_ <;> simp [Stmt.blockPieces]

end

/-! ### Programs -/

/-- **A typed program is erased to the untyped one**, with one hit for each piece of type
syntax. -/
theorem eraseTypes_program (p : Program) :
    ∃ report : ErasureReport, eraseTypes p.text = .ok ⟨p.untyped.text, report⟩ ∧
      report.total = p.typePieces := by
  have hstart : AtStatement {} := ⟨⟨rfl, rfl⟩, rfl, by decide⟩
  have htext : (bare p.text).rest = wholeText (Stmt.blockPieces p) ++ [] :=
    (List.append_nil _).symm
  obtain ⟨m, -, -, h⟩ := Stmt.reaches_block p hstart htext
  refine ⟨⟨(removals (Stmt.blockPieces p)).reverse⟩, ?_, ?_⟩
  · rw [← p.keptText_blockPieces]
    exact eraseTypes_eq_of_reaches h
  · rw [ErasureReport.total, List.length_reverse, length_removals]
    rfl

example :
    let x (s : String) (h : isIdentifier s.toList = true)
      (h' : contextualWords.contains s.toList = false) : Name := ⟨s.toList, h, h'⟩
    let T : TypeExpr := .named ⟨x "T" (by decide) (by decide), []⟩ []
    let a := x "a" (by decide) (by decide)
    Program.text [.function (x "f" (by decide) (by decide)) [⟨x "T" (by decide) (by decide), none, none⟩]
      [⟨a, false, some T⟩, ⟨x "b" (by decide) (by decide), true, none⟩] (some (.array T))
      [.return (.round (.name a) (some (.as, T)))]]
      = "function f<T>(a: T, b?): T[] \x7b\nreturn (a as T);\n\x7d\n".toList := by
  decide

end LivePreview.Erasure

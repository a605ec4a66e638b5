/-
Programs without types, in any layout, and what the eraser takes out of them.

The eraser goes over the tokens of a tree the way the tree is built: an induction on the tree gives
steps from in front of its first token to behind its last one.  Behind an expression the eraser
stands in the code in front of it, with another token in front; brackets lead back to where they
opened, and each question mark has its colon in the same bracket.  So no colon is taken for a type,
and no word of the language is looked for.

What is left is `!`.  Everywhere but behind a condition, the token in front of an expression ends
none, so that a `!` there is an operator.
-/
import LivePreview.Proofs.Erasure.FreeFormStep
import LivePreview.Proofs.Erasure.TypedErasure

namespace LivePreview.Erasure.FreeForm

open Script Eraser

/-! ### Parts of a layout -/

section

variable {l l₁ l₂ r : List Spaced} {x y : Spaced} {ts us : List Token} {t : Token}

theorem exists_single (h : l.map Spaced.token = [t]) : ∃ x, l = [x] ∧ x.token = t := by
  obtain ⟨x, l, rfl, hx, hl⟩ := List.map_eq_cons_iff.mp h
  rw [List.map_eq_nil_iff.mp hl]
  exact ⟨x, rfl, hx⟩

theorem exists_split (h : l.map Spaced.token = ts ++ t :: us) :
    ∃ l₁ x l₂, l = l₁ ++ x :: l₂ ∧ l₁.map Spaced.token = ts ∧ x.token = t ∧
      l₂.map Spaced.token = us := by
  obtain ⟨l₁, l', rfl, h₁, h'⟩ := List.map_eq_append_iff.mp h
  obtain ⟨x, l₂, rfl, hx, h₂⟩ := List.map_eq_cons_iff.mp h'
  exact ⟨l₁, x, l₂, rfl, h₁, hx, h₂⟩

theorem fits_within (h : l.IsChain Spaced.Fits) (hin : r <:+: l) : r.IsChain Spaced.Fits :=
  List.IsChain.infix h hin

theorem fits_left (h : (l₁ ++ x :: l₂ ++ r).IsChain Spaced.Fits) :
    (l₁ ++ [x]).IsChain Spaced.Fits :=
  fits_within h ⟨[], l₂ ++ r, by simp⟩

theorem fits_right (h : (l₁ ++ x :: l₂ ++ r).IsChain Spaced.Fits) :
    (l₂ ++ r).IsChain Spaced.Fits :=
  fits_within h ⟨l₁ ++ [x], [], by simp⟩

theorem fits_pair (h : ([x] ++ [y]).IsChain Spaced.Fits) : x.Fits y :=
  (List.isChain_cons_cons.mp h).1

end

/-! ### The front of an expression -/

theorem Expr.exists_head : (E : Expr) → ∃ t ts, E.tokens = t :: ts ∧ t.opens = true
  | .name _ | .integer _ | .string _ => ⟨_, _, rfl, rfl⟩
  | .not _ | .round _ | .object _ _ => ⟨_, _, rfl, rfl⟩
  | .connective _ left _ => by
    obtain ⟨t, ts, h, hopens⟩ := left.exists_head
    exact ⟨t, _, by rw [Expr.tokens, h, List.cons_append], hopens⟩
  | .ternary condition _ _ => by
    obtain ⟨t, ts, h, hopens⟩ := condition.exists_head
    exact ⟨t, _, by rw [Expr.tokens, h, List.cons_append], hopens⟩
  | .call f _ _ => by
    obtain ⟨t, ts, h, hopens⟩ := f.exists_head
    exact ⟨t, _, by rw [Expr.tokens, h, List.cons_append], hopens⟩
  | .member E _ => by
    obtain ⟨t, ts, h, hopens⟩ := E.exists_head
    exact ⟨t, _, by rw [Expr.tokens, h, List.cons_append], hopens⟩
  | .index E _ => by
    obtain ⟨t, ts, h, hopens⟩ := E.exists_head
    exact ⟨t, _, by rw [Expr.tokens, h, List.cons_append], hopens⟩

/-- The layout of an expression starts with a token that opens one. -/
theorem Expr.exists_first (E : Expr) {l : List Spaced} (h : l.map Spaced.token = E.tokens) :
    ∃ x l', l = x :: l' ∧ x.token.opens = true := by
  obtain ⟨t, ts, hE, hopens⟩ := E.exists_head
  obtain ⟨x, l', rfl, hx, -⟩ := List.map_eq_cons_iff.mp (h.trans hE)
  exact ⟨x, l', rfl, by rw [hx, hopens]⟩

/-! ### Lists of items -/

/-- In brackets of this kind, the eraser passes over tokens with a comma or a bracket behind
them. -/
def PassesIn (kind : FrameKind) (ts : List Token) : Prop :=
  ∀ ⦃e : Eraser⦄ ⦃m : CodeMode⦄ ⦃l : List Spaced⦄ ⦃y : Spaced⦄ ⦃rest : Text⦄,
    l.map Spaced.token = ts → (l ++ [y]).IsChain Spaced.Fits → y.token.isColon = false →
    e.rest = textOf l ++ (y.text ++ rest) → m.top.kind = kind → Calm m → m.header = false →
    m.previous.endsExpression = false →
    ∃ m', SameCode m m' ∧
      Reaches (e.enter (.code m)) ((e.past (pieces false l) (y.text ++ rest)).enter (.code m'))

/-- Nothing is passed over as such. -/
theorem passesIn_nil (kind : FrameKind) : PassesIn kind [] := by
  intro e m l y rest hl _ _ h _ _ _ _
  obtain rfl := List.map_eq_nil_iff.mp hl
  refine ⟨m, .refl m, ?_⟩
  have hrest : y.text ++ rest = e.rest := h.symm
  rw [hrest]
  exact .refl _

/-- Items that are passed over are passed over as a list. -/
theorem passesIn_commaTokens {kind : FrameKind} {items : List (List Token)}
    (hitems : ∀ ts ∈ items, PassesIn kind ts) (trailing : Bool) :
    PassesIn kind (commaTokens trailing items) := by
  induction items with
  | nil => exact passesIn_nil kind
  | cons item items ih =>
    have hitem := hitems item List.mem_cons_self
    -- one item, its comma, and what is passed over behind it
    have hcomma : ∀ {later : List Token}, PassesIn kind later →
        PassesIn kind (item ++ .sign .comma :: later) := by
      intro later hlater e m l y rest hl hfit hy h hkind hcalm hheader hprevious
      obtain ⟨l₁, x, l₂, rfl, hl₁, hx, hl₂⟩ := exists_split hl
      have hcolon : x.token.isColon = false := by rw [hx]; rfl
      have htext : e.rest = textOf l₁ ++ (x.text ++ (textOf l₂ ++ (y.text ++ rest))) := by
        simpa using h
      obtain ⟨m₁, hm₁, h₁⟩ := hitem hl₁ (fits_left hfit) hcolon htext hkind hcalm hheader hprevious
      have h₂ := h₁.andThen fun h => reaches_spaced_comma hx h (hcalm.of_same hm₁).declarators
      have hm₂ : SameCode m (m₁.next (.sign ',')) := hm₁.trans (.next _ _)
      obtain ⟨m₃, hm₃, h₃⟩ := hlater (e := e.past (pieces false l₁ ++ x.kept) _)
        (m := m₁.next (.sign ',')) hl₂ (fits_right hfit) hy rfl
        (by rw [hm₂.top, hkind]) (hcalm.of_same hm₂) (by rw [hm₂.header, hheader]) rfl
      refine ⟨m₃, hm₂.trans hm₃, ?_⟩
      rw [pieces_append_cons (b := false) hx rfl rfl, ← List.append_assoc]
      exact h₂.andThen fun _ => h₃
    cases items with
    | nil =>
      cases trailing with
      | false =>
        rw [commaTokens, if_neg (by decide), List.append_nil]
        exact hitem
      | true => exact hcomma (passesIn_nil kind)
    | cons next items =>
      exact hcomma (ih fun ts hts => hitems ts (List.mem_cons_of_mem item hts))

section

variable {e : Eraser} {m : CodeMode} {l : List Spaced} {x y z : Spaced} {rest : Text}
  {ts : List Token}

/-- Items between round brackets. -/
theorem reaches_spaced_round (hpasses : ∀ b, PassesIn (.round b) ts) (hl : l.map Spaced.token = ts)
    (hx : x.token = .sign .openRound) (hz : z.token = .sign .closeRound)
    (hfit : (l ++ [z]).IsChain Spaced.Fits) (hheader : m.header = false)
    (hcolon : y.token.isColon = true → 0 < m.top.ternaries)
    (h : e.rest = x.text ++ (textOf l ++ (z.text ++ (y.text ++ rest)))) :
    Reaches (e.enter (.code m))
      ((e.past (x.kept ++ (pieces false l ++ z.kept)) (y.text ++ rest)).enter
        (.code (m.next .value))) := by
  have h₁ := reaches_spaced_openRound (m := m) hx h
  have hz' : z.token.isColon = false := by rw [hz]; rfl
  obtain ⟨m₂, hm₂, h₂⟩ := hpasses m.previous.opensParameters (e := e.past x.kept _)
    (m := (m.push (.round m.previous.opensParameters)).next (.sign '(')) hl hfit hz' rfl rfl
    ((Calm.push _ _).of_same (.next _ _)) hheader rfl
  have hm : SameCode (m.push (.round m.previous.opensParameters)) m₂ := (SameCode.next _ _).trans hm₂
  have hkind : m₂.top.kind = .round m.previous.opensParameters := by rw [hm.top]; rfl
  have hpop : m₂.pop.top = m.top := by
    rw [show m₂.pop.top = (m₂.pop.next .value).top from rfl, hm.pop_next]
    rfl
  have h₃ := (h₁.andThen fun _ => h₂).andThen fun h =>
    reaches_spaced_closeRound (x := z) (y := y) (by rw [hz]; rfl) h hkind (by rwa [hpop])
  rw [hm.pop_next, List.append_assoc] at h₃
  exact h₃

/-- Items between braces. -/
theorem reaches_spaced_curly (hpasses : PassesIn .block ts) (hl : l.map Spaced.token = ts)
    (hx : x.token = .sign .openCurly) (hz : z.token = .sign .closeCurly)
    (hfit : (l ++ [z]).IsChain Spaced.Fits) (hheader : m.header = false)
    (h : e.rest = x.text ++ (textOf l ++ (z.text ++ rest))) :
    Reaches (e.enter (.code m))
      ((e.past (x.kept ++ (pieces false l ++ z.kept)) rest).enter
        (.code (m.next (.sign '\x7d')))) := by
  have h₁ := reaches_spaced_openCurly hx h hheader
  have hz' : z.token.isColon = false := by rw [hz]; rfl
  obtain ⟨m₂, hm₂, h₂⟩ := hpasses (e := e.past x.kept _) (m := (m.push .block).next (.sign '{'))
    hl hfit hz' rfl rfl ((Calm.push _ _).of_same (.next _ _)) hheader rfl
  have hm : SameCode (m.push .block) m₂ := (SameCode.next _ _).trans hm₂
  have houter : m₂.outer ≠ [] := by
    rw [hm.outer]
    exact List.cons_ne_nil _ _
  have h₃ := (h₁.andThen fun _ => h₂).andThen fun h => reaches_spaced_closeCurly hz h houter
  rw [hm.pop_next, List.append_assoc] at h₃
  exact h₃

end

/-! ### Expressions -/

theorem next_next (m : CodeMode) (p q : Previous) : (m.next p).next q = m.next q := rfl

theorem pieces_single {attached : Bool} {x : Spaced} {t : Token} (hx : x.token = t)
    (hbang : t.isBang = false) : pieces attached [x] = x.kept := by
  rw [pieces_cons hx hbang rfl]
  exact List.append_nil _

/-- The token of a key, in front of its colon. -/
theorem Key.reaches (k : Key) {e : Eraser} {m : CodeMode} {x y : Spaced} {rest : Text}
    (hx : x.token = k.token) (h : e.rest = x.text ++ (y.text ++ rest)) (hfit : x.Fits y) :
    ∃ p, Reaches (e.enter (.code m))
      ((e.past x.kept (y.text ++ rest)).enter (.code (m.next p))) := by
  cases k with
  | name n => exact ⟨_, reaches_spaced_name hx h hfit⟩
  | integer d => exact ⟨_, reaches_spaced_integer hx h hfit⟩
  | string q => exact ⟨_, reaches_spaced_string hx h⟩

/-- The eraser passes over these tokens, and removes no more of them than the signs that are
attached to what stands in front. -/
def Passes (ts : List Token) : Prop :=
  ∀ ⦃e : Eraser⦄ ⦃m : CodeMode⦄ ⦃l : List Spaced⦄ ⦃y : Spaced⦄ ⦃rest : Text⦄ ⦃attached : Bool⦄,
    l.map Spaced.token = ts → (l ++ [y]).IsChain Spaced.Fits → e.rest = textOf l ++ (y.text ++ rest) →
    m.header = false → Entry attached e m → (y.token.isColon = true → 0 < m.top.ternaries) →
    ∃ p, Reaches (e.enter (.code m))
      ((e.past (pieces attached l) (y.text ++ rest)).enter (.code (m.next p)))

/-- Where no `!` is attached in front, what is passed over is passed over in brackets. -/
theorem Passes.inBrackets {ts : List Token} (h : Passes ts) (kind : FrameKind) : PassesIn kind ts := by
  intro e m l y rest hl hfit hy htext _ _ hheader hprevious
  obtain ⟨p, hp⟩ := h hl hfit htext hheader (.apart hprevious) (fun hc => absurd hc (by simp [hy]))
  exact ⟨_, .next _ _, hp⟩

theorem passes_name (n : Name) : Passes (Expr.name n).tokens := by
  intro e m l y rest attached hl hfit h hheader hentry hcolon
  obtain ⟨x, rfl, hx⟩ := exists_single hl
  have htext : e.rest = x.text ++ (y.text ++ rest) := by simpa using h
  rw [pieces_single hx rfl]
  exact ⟨_, reaches_spaced_name hx htext (fits_pair hfit)⟩

theorem passes_integer (d : Digits) : Passes (Expr.integer d).tokens := by
  intro e m l y rest attached hl hfit h hheader hentry hcolon
  obtain ⟨x, rfl, hx⟩ := exists_single hl
  have htext : e.rest = x.text ++ (y.text ++ rest) := by simpa using h
  rw [pieces_single hx rfl]
  exact ⟨_, reaches_spaced_integer hx htext (fits_pair hfit)⟩

theorem passes_string (q : StringLiteral) : Passes (Expr.string q).tokens := by
  intro e m l y rest attached hl hfit h hheader hentry hcolon
  obtain ⟨x, rfl, hx⟩ := exists_single hl
  have htext : e.rest = x.text ++ (y.text ++ rest) := by simpa using h
  rw [pieces_single hx rfl]
  exact ⟨_, reaches_spaced_string hx htext⟩

theorem passes_not {inside : Expr} (hinside : Passes inside.tokens) :
    Passes (Expr.not inside).tokens := by
  intro e m l y rest attached hl hfit h hheader hentry hcolon
  obtain ⟨x, l', rfl, hx, hl'⟩ := List.map_eq_cons_iff.mp hl
  obtain ⟨z, l'', rfl, hz⟩ := inside.exists_first hl'
  have htext : e.rest = x.text ++ (z.text ++ (textOf l'' ++ (y.text ++ rest))) := by simpa using h
  obtain ⟨ps, attached', p, hpieces, hentry', h₁⟩ := reaches_spaced_bang hx htext hz hentry
  have hnext : z.text ++ (textOf l'' ++ (y.text ++ rest)) = textOf (z :: l'') ++ (y.text ++ rest) := by
    simp
  obtain ⟨q, h₂⟩ := hinside (e := e.past ps _) (m := m.next p) hl'
    (fits_within hfit ⟨[x], [], by simp⟩) hnext hheader hentry' hcolon
  refine ⟨q, ?_⟩
  rw [hpieces]
  exact h₁.andThen fun _ => h₂

theorem passes_connective (k : Connective) {left right : Expr} (hleft : Passes left.tokens)
    (hright : Passes right.tokens) : Passes (Expr.connective k left right).tokens := by
  intro e m l y rest attached hl hfit h hheader hentry hcolon
  obtain ⟨l₁, x, l₂, rfl, hl₁, hx, hl₂⟩ := exists_split hl
  have hnoColon : x.token.isColon = false := by rw [hx]; cases k <;> rfl
  have htext : e.rest = textOf l₁ ++ (x.text ++ (textOf l₂ ++ (y.text ++ rest))) := by
    simpa using h
  obtain ⟨p, h₁⟩ := hleft hl₁ (fits_left hfit) htext hheader hentry
    (fun hc => absurd hc (by simp [hnoColon]))
  obtain ⟨c, hsign⟩ := reaches_spaced_connective (m := m.next p) k
    (e := e.past (pieces attached l₁) _) hx rfl
  obtain ⟨q, h₂⟩ := hright (e := e.past (pieces attached l₁ ++ x.kept) _)
    (m := m.next (.sign c)) hl₂ (fits_right hfit) rfl hheader (.apart rfl) hcolon
  refine ⟨q, ?_⟩
  rw [pieces_append_cons (b := false) hx (by cases k <;> rfl) (by cases k <;> rfl),
    ← List.append_assoc]
  exact (h₁.andThen fun _ => hsign).andThen fun _ => h₂

theorem passes_ternary {condition yes no : Expr} (hcondition : Passes condition.tokens)
    (hyes : Passes yes.tokens) (hno : Passes no.tokens) :
    Passes (Expr.ternary condition yes no).tokens := by
  intro e m l y rest attached hl hfit h hheader hentry hcolon
  obtain ⟨l₁, x, l', rfl, hl₁, hx, hl'⟩ := exists_split hl
  obtain ⟨l₂, z, l₃, rfl, hl₂, hz, hl₃⟩ := exists_split hl'
  obtain ⟨w, l₂', hfirst, hopens⟩ := yes.exists_first hl₂
  have hnoColon : x.token.isColon = false := by rw [hx]; rfl
  have htext : e.rest = textOf l₁ ++ (x.text ++ (textOf l₂ ++ (z.text ++ (textOf l₃ ++
      (y.text ++ rest))))) := by
    simpa using h
  have hfit' := fits_right hfit
  obtain ⟨p, h₁⟩ := hcondition hl₁ (fits_left hfit) htext hheader hentry
    (fun hc => absurd hc (by simp [hnoColon]))
  have hnext : textOf l₂ ++ (z.text ++ (textOf l₃ ++ (y.text ++ rest)))
      = w.text ++ (textOf l₂' ++ (z.text ++ (textOf l₃ ++ (y.text ++ rest)))) := by
    rw [hfirst, textOf_cons, List.append_assoc]
  have h₂ := h₁.andThen fun h =>
    reaches_spaced_question (y := w) hx (h.trans (congrArg (x.text ++ ·) hnext)) hopens
  rw [← hnext] at h₂
  obtain ⟨q, h₃⟩ := hyes (e := e.past (pieces attached l₁ ++ x.kept) _)
    (m := (waiting (m.next p)).next (.sign '?')) hl₂ (fits_left hfit') rfl hheader (.apart rfl)
    (fun _ => Nat.succ_pos _)
  have h₄ := (h₂.andThen fun _ => h₃).andThen fun h =>
    reaches_spaced_colon_waiting hz h (Nat.succ_pos _)
  obtain ⟨r, h₅⟩ := hno
    (e := e.past (pieces attached l₁ ++ x.kept ++ pieces false l₂ ++ z.kept) _)
    (m := m.next (.sign ':')) hl₃ (fits_right hfit') rfl hheader (.apart rfl) hcolon
  refine ⟨r, ?_⟩
  rw [pieces_append_cons (b := false) hx rfl rfl, pieces_append_cons (b := false) hz rfl rfl]
  simpa only [List.append_assoc, next_next] using h₄.andThen fun _ => h₅

theorem passes_call {f : Expr} {arguments : List Expr} {trailing : Bool} (hf : Passes f.tokens)
    (harguments : ∀ ts ∈ Expr.tokensEach arguments, ∀ kind, PassesIn kind ts) :
    Passes (Expr.call f arguments trailing).tokens := by
  intro e m l y rest attached hl hfit h hheader hentry hcolon
  obtain ⟨l₁, x, l', rfl, hl₁, hx, hl'⟩ := exists_split hl
  obtain ⟨l₂, z, l₃, rfl, hl₂, hz, hl₃⟩ := exists_split hl'
  obtain rfl := List.map_eq_nil_iff.mp hl₃
  have hnoColon : x.token.isColon = false := by rw [hx]; rfl
  have htext : e.rest = textOf l₁ ++ (x.text ++ (textOf l₂ ++ (z.text ++ (y.text ++ rest)))) := by
    simpa using h
  obtain ⟨p, h₁⟩ := hf hl₁ (fits_left hfit) htext hheader hentry
    (fun hc => absurd hc (by simp [hnoColon]))
  have hpasses : ∀ b, PassesIn (.round b) (commaTokens trailing (Expr.tokensEach arguments)) :=
    fun b => passesIn_commaTokens (fun ts hts => harguments ts hts _) trailing
  have h₂ := h₁.andThen fun h => reaches_spaced_round (m := m.next p) (y := y)
    hpasses hl₂ hx hz (fits_left (fits_right hfit)) hheader hcolon h
  refine ⟨.value, ?_⟩
  rw [pieces_append_cons (b := false) hx rfl rfl, pieces_append_cons (b := false) hz rfl rfl]
  simpa only [pieces, List.append_nil, next_next] using h₂

theorem passes_member {E : Expr} (n : Name) (hE : Passes E.tokens) :
    Passes (Expr.member E n).tokens := by
  intro e m l y rest attached hl hfit h hheader hentry hcolon
  obtain ⟨l₁, x, l', rfl, hl₁, hx, hl'⟩ := exists_split hl
  obtain ⟨z, rfl, hz⟩ := exists_single hl'
  have hnoColon : x.token.isColon = false := by rw [hx]; rfl
  have htext : e.rest = textOf l₁ ++ (x.text ++ (z.text ++ (y.text ++ rest))) := by simpa using h
  obtain ⟨p, h₁⟩ := hE hl₁ (fits_left hfit) htext hheader hentry
    (fun hc => absurd hc (by simp [hnoColon]))
  have h₂ := (h₁.andThen fun h => reaches_spaced_dot hx hz h).andThen fun h =>
    reaches_spaced_name hz h (fits_pair (fits_right hfit))
  refine ⟨.word n.text, ?_⟩
  rw [pieces_append_cons (b := false) hx rfl rfl, pieces_single hz rfl, ← List.append_assoc]
  exact h₂

theorem passes_index {E inside : Expr} (hE : Passes E.tokens) (hinside : Passes inside.tokens) :
    Passes (Expr.index E inside).tokens := by
  intro e m l y rest attached hl hfit h hheader hentry hcolon
  obtain ⟨l₁, x, l', rfl, hl₁, hx, hl'⟩ := exists_split hl
  obtain ⟨l₂, z, l₃, rfl, hl₂, hz, hl₃⟩ := exists_split hl'
  obtain rfl := List.map_eq_nil_iff.mp hl₃
  have hnoColon : x.token.isColon = false := by rw [hx]; rfl
  have hnoColon' : z.token.isColon = false := by rw [hz]; rfl
  have htext : e.rest = textOf l₁ ++ (x.text ++ (textOf l₂ ++ (z.text ++ (y.text ++ rest)))) := by
    simpa using h
  obtain ⟨p, h₁⟩ := hE hl₁ (fits_left hfit) htext hheader hentry
    (fun hc => absurd hc (by simp [hnoColon]))
  have h₂ := h₁.andThen fun h => reaches_spaced_openSquare hx h
  obtain ⟨q, h₃⟩ := hinside (e := e.past (pieces attached l₁ ++ x.kept) _)
    (m := ((m.next p).push .square).next (.sign '[')) hl₂ (fits_left (fits_right hfit)) rfl hheader
    (.apart rfl) (fun hc => absurd hc (by simp [hnoColon']))
  have h₄ := (h₂.andThen fun _ => h₃).andThen fun h => reaches_spaced_closeSquare hz h rfl
  refine ⟨.value, ?_⟩
  rw [pieces_append_cons (b := false) hx rfl rfl, pieces_append_cons (b := false) hz rfl rfl]
  have hpop : ((((m.next p).push .square).next (.sign '[')).next q).pop.next .value
      = m.next .value := rfl
  rw [hpop] at h₄
  simpa only [pieces, List.append_nil, List.append_assoc] using h₄

theorem passes_round {inside : Expr} (hinside : Passes inside.tokens) :
    Passes (Expr.round inside).tokens := by
  intro e m l y rest attached hl hfit h hheader hentry hcolon
  obtain ⟨x, l', rfl, hx, hl'⟩ := List.map_eq_cons_iff.mp hl
  obtain ⟨l₂, z, l₃, rfl, hl₂, hz, hl₃⟩ := exists_split hl'
  obtain rfl := List.map_eq_nil_iff.mp hl₃
  have htext : e.rest = x.text ++ (textOf l₂ ++ (z.text ++ (y.text ++ rest))) := by simpa using h
  have hfit' : (l₂ ++ [z]).IsChain Spaced.Fits := fits_within hfit ⟨[x], [y], by simp⟩
  refine ⟨.value, ?_⟩
  rw [pieces_cons (b := false) hx rfl rfl, pieces_append_cons (b := false) hz rfl rfl]
  simpa only [pieces, List.append_nil] using
    reaches_spaced_round (fun b => hinside.inBrackets _) hl₂ hx hz hfit' hheader hcolon htext

theorem passes_object {properties : List Property} {trailing : Bool}
    (hproperties : ∀ ts ∈ Property.tokensEach properties, PassesIn .block ts) :
    Passes (Expr.object properties trailing).tokens := by
  intro e m l y rest attached hl hfit h hheader hentry hcolon
  obtain ⟨x, l', rfl, hx, hl'⟩ := List.map_eq_cons_iff.mp hl
  obtain ⟨l₂, z, l₃, rfl, hl₂, hz, hl₃⟩ := exists_split hl'
  obtain rfl := List.map_eq_nil_iff.mp hl₃
  have htext : e.rest = x.text ++ (textOf l₂ ++ (z.text ++ (y.text ++ rest))) := by simpa using h
  have hfit' : (l₂ ++ [z]).IsChain Spaced.Fits := fits_within hfit ⟨[x], [y], by simp⟩
  have hpasses : PassesIn .block (commaTokens trailing (Property.tokensEach properties)) :=
    passesIn_commaTokens hproperties trailing
  refine ⟨.sign '\x7d', ?_⟩
  rw [pieces_cons (b := false) hx rfl rfl, pieces_append_cons (b := false) hz rfl rfl]
  simpa only [pieces, List.append_nil] using
    reaches_spaced_curly hpasses hl₂ hx hz hfit' hheader htext

mutual

/-- **The eraser passes over an expression.** -/
theorem Expr.passes : (E : Expr) → Passes E.tokens
  | .name n => passes_name n
  | .integer d => passes_integer d
  | .string q => passes_string q
  | .not inside => passes_not inside.passes
  | .connective k left right => passes_connective k left.passes right.passes
  | .ternary condition yes no => passes_ternary condition.passes yes.passes no.passes
  | .call f arguments _ => passes_call f.passes (Expr.passesEach arguments)
  | .member E n => passes_member n E.passes
  | .index E inside => passes_index E.passes inside.passes
  | .round inside => passes_round inside.passes
  | .object properties _ => passes_object (Property.passesEach properties)

/-- The eraser passes over each argument of a call. -/
theorem Expr.passesEach : (Es : List Expr) →
    ∀ ts ∈ Expr.tokensEach Es, ∀ kind, PassesIn kind ts
  | [], ts, hts, _ => absurd hts (by simp [Expr.tokensEach])
  | E :: Es, ts, hts, kind => by
    rcases List.mem_cons.mp hts with rfl | hts
    · exact E.passes.inBrackets kind
    · exact Expr.passesEach Es ts hts kind

/-- The eraser passes over each property of an object. -/
theorem Property.passesEach : (ps : List Property) →
    ∀ ts ∈ Property.tokensEach ps, PassesIn .block ts
  | [], ts, hts => absurd hts (by simp [Property.tokensEach])
  | .shorthand n :: ps, ts, hts => by
    rcases List.mem_cons.mp hts with rfl | hts
    · intro e m l y rest hl hfit _ h _ _ _ _
      obtain ⟨x, rfl, hx⟩ := exists_single hl
      have htext : e.rest = x.text ++ (y.text ++ rest) := by simpa using h
      rw [pieces_single hx rfl]
      exact ⟨_, .next _ _, reaches_spaced_name hx htext (fits_pair hfit)⟩
    · exact Property.passesEach ps ts hts
  | .pair key value :: ps, ts, hts => by
    rcases List.mem_cons.mp hts with rfl | hts
    · intro e m l y rest hl hfit hy h hkind hcalm hheader _
      obtain ⟨x, l', rfl, hx, hl'⟩ := List.map_eq_cons_iff.mp hl
      obtain ⟨z, l₂, rfl, hz, hl₂⟩ := List.map_eq_cons_iff.mp hl'
      have htext : e.rest = x.text ++ (z.text ++ (textOf l₂ ++ (y.text ++ rest))) := by simpa using h
      have hpair : x.Fits z := (List.isChain_cons_cons.mp hfit).1
      have hfit' : (l₂ ++ [y]).IsChain Spaced.Fits := fits_within hfit ⟨[x, z], [], by simp⟩
      obtain ⟨p, h₁⟩ := key.reaches (m := m) hx htext hpair
      have h₂ := h₁.andThen fun h =>
        reaches_spaced_colon_block (m := m.next p) hz h hcalm.ternaries hkind
      obtain ⟨q, h₃⟩ := value.passes (e := e.past (x.kept ++ z.kept) _) (m := m.next (.sign ':'))
        hl₂ hfit' rfl hheader (.apart rfl) (fun hc => absurd hc (by simp [hy]))
      refine ⟨_, .next m q, ?_⟩
      rw [pieces_cons (b := false) hx (by cases key <;> rfl) (by cases key <;> rfl),
        pieces_cons (b := false) hz rfl rfl, ← List.append_assoc]
      exact h₂.andThen fun _ => h₃
    · exact Property.passesEach ps ts hts

end

/-! ### Statements -/

theorem Stmt.exists_head (s : Stmt) : ∃ t ts, s.tokens = t :: ts ∧ t.isColon = false := by
  have hexpr : ∀ (E : Expr) (us : List Token), ∃ t ts, E.tokens ++ us = t :: ts ∧ t.isColon = false := by
    intro E us
    obtain ⟨t, ts, hE, hopens⟩ := E.exists_head
    refine ⟨t, ts ++ us, by rw [hE, List.cons_append], ?_⟩
    cases t with
    | sign s => cases s <;> first | rfl | cases hopens
    | _ => rfl
  cases s with
  | expression value => exact hexpr value _
  | _ => exact ⟨_, _, rfl, rfl⟩

/-- A statement ends with a semicolon or a brace. -/
theorem Stmt.exists_last : (s : Stmt) →
    ∃ ts t, s.tokens = ts ++ [t] ∧ t.isBang = false ∧ t.closesCondition = false
  | .block _ | .return _ => ⟨_ :: _, _, rfl, rfl, rfl⟩
  | .expression _ => ⟨_, _, rfl, rfl, rfl⟩
  | .conditional word condition body => by
    obtain ⟨ts, t, h, ht⟩ := body.exists_last
    refine ⟨.keyword word.keyword :: .sign .openRound ::
      (condition.tokens ++ .sign .closeCondition :: ts), t, ?_, ht⟩
    rw [Stmt.tokens, h]
    simp

/-- Behind a statement no `!` is attached. -/
theorem Stmt.pieces_append (s : Stmt) {l r : List Spaced} (hl : l.map Spaced.token = s.tokens)
    (attached : Bool) : pieces attached (l ++ r) = pieces attached l ++ pieces false r := by
  obtain ⟨ts, t, h, hbang, hclose⟩ := s.exists_last
  obtain ⟨l', x, l'', rfl, -, hx, hnil⟩ := exists_split (hl.trans h)
  obtain rfl := List.map_eq_nil_iff.mp hnil
  rw [List.append_assoc, List.singleton_append, pieces_append_cons hx hbang hclose,
    pieces_append_cons hx hbang hclose, pieces, List.append_nil, List.append_assoc]

/-- Behind the bracket of a condition a `!` is attached. -/
theorem entry_closeCondition {e : Eraser} {m : CodeMode} {x : Spaced}
    (hx : x.token = .sign .closeCondition)
    (ps : List Piece) (s : Text) : Entry true (e.past (ps ++ x.kept) s) (m.next .value) := by
  have hlast : (wholeText (ps ++ x.kept)).getLast? = some ')' := by
    rw [wholeText_append, wholeText_spaced, Spaced.text, hx]
    simp [Token.text, Sign.text]
  refine .attached ?_ rfl rfl
  rw [past_before, hlast]
  rfl

/-- An expression and the semicolon behind it. -/
theorem Expr.reaches_spaced_semicolon (E : Expr) {e : Eraser} {m : CodeMode} {l : List Spaced}
    {x : Spaced} {rest : Text} {attached : Bool} (hl : l.map Spaced.token = E.tokens)
    (hx : x.token = .sign .semicolon) (hfit : (l ++ [x]).IsChain Spaced.Fits)
    (h : e.rest = textOf l ++ (x.text ++ rest)) (hcalm : Calm m) (hheader : m.header = false)
    (hentry : Entry attached e m) : Reaches (e.enter (.code m))
      ((e.past (pieces attached (l ++ [x])) rest).enter (.code (m.next (.sign ';')))) := by
  have hnoColon : x.token.isColon = false := by rw [hx]; rfl
  obtain ⟨p, h₁⟩ := E.passes hl hfit h hheader hentry (fun hc => absurd hc (by simp [hnoColon]))
  have h₂ := h₁.andThen fun h => FreeForm.reaches_spaced_semicolon hx h
  have hend : (m.next p).endDeclarators = m.next (.sign ';') := hcalm.endDeclarators_eq
  rw [hend] at h₂
  rw [pieces_append_cons (b := false) hx rfl rfl, pieces, List.append_nil]
  exact h₂

/-- The eraser passes over these tokens as over a statement: no expression ends with them. -/
def Completes (ts : List Token) : Prop :=
  ∀ ⦃e : Eraser⦄ ⦃m : CodeMode⦄ ⦃l : List Spaced⦄ ⦃rest : Text⦄ ⦃attached : Bool⦄,
    l.map Spaced.token = ts → l.IsChain Spaced.Fits → e.rest = textOf l ++ rest → Calm m →
    m.header = false → Entry attached e m →
    ∃ p : Previous, p.endsExpression = false ∧
      Reaches (e.enter (.code m)) ((e.past (pieces attached l) rest).enter (.code (m.next p)))

/-- The eraser passes over these tokens as over statements, with none in front of them that has not
ended. -/
def CompletesAll (ts : List Token) : Prop :=
  ∀ ⦃e : Eraser⦄ ⦃m : CodeMode⦄ ⦃l : List Spaced⦄ ⦃rest : Text⦄,
    l.map Spaced.token = ts → l.IsChain Spaced.Fits → e.rest = textOf l ++ rest → Calm m →
    m.header = false → m.previous.endsExpression = false →
    ∃ m', SameCode m m' ∧
      Reaches (e.enter (.code m)) ((e.past (pieces false l) rest).enter (.code m'))

theorem completes_block {body : List Stmt} (hbody : CompletesAll (Stmt.tokensAll body)) :
    Completes (Stmt.block body).tokens := by
  intro e m l rest attached hl hfit h hcalm hheader hentry
  obtain ⟨x, l', rfl, hx, hl'⟩ := List.map_eq_cons_iff.mp hl
  obtain ⟨l₂, z, l₃, rfl, hl₂, hz, hl₃⟩ := exists_split hl'
  obtain rfl := List.map_eq_nil_iff.mp hl₃
  have htext : e.rest = x.text ++ (textOf l₂ ++ (z.text ++ rest)) := by simpa using h
  have h₁ := reaches_spaced_openCurly hx htext hheader
  obtain ⟨m₂, hm₂, h₂⟩ := hbody (e := e.past x.kept _)
    (m := (m.push .block).next (.sign '{')) hl₂ (fits_within hfit ⟨[x], [z], by simp⟩) rfl
    ((Calm.push _ _).of_same (.next _ _)) hheader rfl
  have hm : SameCode (m.push .block) m₂ := (SameCode.next _ _).trans hm₂
  have houter : m₂.outer ≠ [] := by
    rw [hm.outer]
    exact List.cons_ne_nil _ _
  have h₃ := (h₁.andThen fun _ => h₂).andThen fun h => reaches_spaced_closeCurly hz h houter
  rw [hm.pop_next] at h₃
  refine ⟨.sign '\x7d', rfl, ?_⟩
  rw [pieces_cons (b := false) hx rfl rfl, pieces_append_cons (b := false) hz rfl rfl]
  simpa only [pieces, List.append_nil, List.append_assoc] using h₃

theorem completes_conditional (word : ConditionWord) (condition : Expr) {body : Stmt}
    (hbody : Completes body.tokens) : Completes (Stmt.conditional word condition body).tokens := by
  intro e m l rest attached hl hfit h hcalm hheader hentry
  obtain ⟨x, l', rfl, hx, hl'⟩ := List.map_eq_cons_iff.mp hl
  obtain ⟨o, l'', rfl, ho, hl''⟩ := List.map_eq_cons_iff.mp hl'
  obtain ⟨l₁, z, l₂, rfl, hl₁, hz, hl₂⟩ := exists_split hl''
  obtain ⟨t, ts, htokens, ht⟩ := body.exists_head
  obtain ⟨w, l₂', hfirst, hw, -⟩ := List.map_eq_cons_iff.mp (hl₂.trans htokens)
  have hnoColon : z.token.isColon = false := by rw [hz]; rfl
  have htext : e.rest = x.text ++ (o.text ++ (textOf l₁ ++ (z.text ++ (textOf l₂ ++ rest)))) := by
    simpa using h
  have hnext : textOf l₂ ++ rest = w.text ++ (textOf l₂' ++ rest) := by
    rw [hfirst, textOf_cons, List.append_assoc]
  have hpair : x.Fits o := (List.isChain_cons_cons.mp hfit).1
  have h₁ := (reaches_spaced_keyword (m := m) hx htext hpair).andThen fun h =>
    reaches_spaced_openRound ho h
  obtain ⟨p, h₂⟩ := condition.passes (e := e.past (x.kept ++ o.kept) _) (y := z)
    (m := ((m.next (.word word.keyword.text)).push
      (.round (Previous.word word.keyword.text).opensParameters)).next (.sign '('))
    hl₁ (fits_within hfit ⟨[x, o], l₂, by simp⟩) rfl hheader (.apart rfl)
    (fun hc => absurd hc (by simp [hnoColon]))
  have h₃ := (h₁.andThen fun _ => h₂).andThen fun h =>
    reaches_spaced_closeRound (x := z) (y := w) (by rw [hz]; rfl)
      (h.trans (congrArg (z.text ++ ·) hnext)) rfl
      (fun hc => absurd hc (by rw [hw, ht]; decide))
  rw [← hnext] at h₃
  obtain ⟨q, hq, h₄⟩ := hbody (e := e.past (x.kept ++ o.kept ++ pieces false l₁ ++ z.kept) _)
    (m := m.next .value) hl₂ (fits_within hfit ⟨x :: o :: (l₁ ++ [z]), [], by simp⟩) rfl
    (hcalm.of_same (.next _ _)) hheader (entry_closeCondition hz _ _)
  refine ⟨q, hq, ?_⟩
  rw [pieces_cons (b := false) hx rfl rfl, pieces_cons (b := false) ho rfl rfl,
    pieces_append_cons (b := true) hz rfl rfl]
  simpa only [List.append_assoc, next_next] using h₃.andThen fun _ => h₄

theorem completes_return (value : Expr) : Completes (Stmt.return value).tokens := by
  intro e m l rest attached hl hfit h hcalm hheader hentry
  obtain ⟨x, l', rfl, hx, hl'⟩ := List.map_eq_cons_iff.mp hl
  obtain ⟨l₁, z, l₂, rfl, hl₁, hz, hl₂⟩ := exists_split hl'
  obtain rfl := List.map_eq_nil_iff.mp hl₂
  obtain ⟨w, l₁', rfl, hw⟩ := value.exists_first hl₁
  have htext : e.rest = x.text ++ (w.text ++ (textOf l₁' ++ (z.text ++ rest))) := by simpa using h
  have hpair : x.Fits w := (List.isChain_cons_cons.mp hfit).1
  have h₁ := reaches_spaced_keyword (m := m) hx htext hpair
  have hnext : w.text ++ (textOf l₁' ++ (z.text ++ rest))
      = textOf (w :: l₁') ++ (z.text ++ rest) := by
    simp
  have h₂ := Expr.reaches_spaced_semicolon value (e := e.past x.kept _)
    (m := m.next (.word Keyword.return.text)) hl₁ hz
    (fits_within hfit ⟨[x], [], by simp⟩) hnext (hcalm.of_same (.next _ _)) hheader
    (.apart (show (Previous.word Keyword.return.text).endsExpression = false by decide))
  refine ⟨.sign ';', rfl, ?_⟩
  rw [pieces_cons (b := false) hx rfl rfl]
  exact h₁.andThen fun _ => h₂

theorem completes_expression (value : Expr) : Completes (Stmt.expression value).tokens := by
  intro e m l rest attached hl hfit h hcalm hheader hentry
  obtain ⟨l₁, z, l₂, rfl, hl₁, hz, hl₂⟩ := exists_split hl
  obtain rfl := List.map_eq_nil_iff.mp hl₂
  have htext : e.rest = textOf l₁ ++ (z.text ++ rest) := by simpa using h
  exact ⟨.sign ';', rfl,
    Expr.reaches_spaced_semicolon value hl₁ hz hfit htext hcalm hheader hentry⟩

theorem completesAll_nil : CompletesAll [] := by
  intro e m l rest hl hfit h hcalm hheader hprevious
  obtain rfl := List.map_eq_nil_iff.mp hl
  refine ⟨m, .refl m, ?_⟩
  have hrest : rest = e.rest := h.symm
  rw [hrest]
  exact .refl _

theorem completesAll_cons {s : Stmt} {ss : List Stmt} (hs : Completes s.tokens)
    (hss : CompletesAll (Stmt.tokensAll ss)) : CompletesAll (Stmt.tokensAll (s :: ss)) := by
  intro e m l rest hl hfit h hcalm hheader hprevious
  obtain ⟨l₁, l₂, rfl, hl₁, hl₂⟩ := List.map_eq_append_iff.mp hl
  have htext : e.rest = textOf l₁ ++ (textOf l₂ ++ rest) := by simpa using h
  obtain ⟨p, hp, h₁⟩ := hs hl₁ hfit.left_of_append htext hcalm hheader (.apart hprevious)
  obtain ⟨m₂, hm₂, h₂⟩ := hss (e := e.past (pieces false l₁) _) (m := m.next p)
    hl₂ hfit.right_of_append rfl (hcalm.of_same (.next _ _)) hheader hp
  refine ⟨m₂, (SameCode.next _ _).trans hm₂, ?_⟩
  rw [s.pieces_append hl₁]
  exact h₁.andThen fun _ => h₂

mutual

/-- **The eraser passes over a statement.** -/
theorem Stmt.completes : (s : Stmt) → Completes s.tokens
  | .block body => completes_block (Stmt.completesAll body)
  | .conditional word condition body => completes_conditional word condition body.completes
  | .return value => completes_return value
  | .expression value => completes_expression value

/-- The eraser passes over statements. -/
theorem Stmt.completesAll : (ss : List Stmt) → CompletesAll (Stmt.tokensAll ss)
  | [] => completesAll_nil
  | s :: ss => completesAll_cons s.completes (Stmt.completesAll ss)

end

/-! ### Programs -/

/-- **A program without types, in any layout, is kept**, but for each `!` that is attached to the
bracket behind a condition, or to one that was removed: these are taken for assertions that a value
is not null.  So the program is untouched exactly where no `!` is attached to such a bracket. -/
theorem eraseTypes_layout (p : Program) (L : Layout p.tokens) :
    eraseTypes L.text = .ok ⟨keptText L.pieces,
      ⟨List.replicate (removals L.pieces).length .nonNull⟩⟩ ∧
    (eraseTypes L.text = .ok ⟨L.text, {}⟩ ↔ L.spaced.IsChain Spaced.Apart) := by
  have htext : (bare (wholeText L.pieces)).rest = textOf L.spaced ++ L.tail := L.wholeText_pieces
  obtain ⟨m, -, h⟩ := Stmt.completesAll p (m := {}) L.tokens_eq L.fits htext ⟨rfl, rfl⟩ rfl rfl
  have htail : ((bare (wholeText L.pieces)).past (pieces false L.spaced) L.tail).rest
      = L.tail ++ [] :=
    (List.append_nil _).symm
  obtain ⟨b, hend⟩ := reaches_gap (m := m) L.isTail htail
  have hrun := eraseTypes_eq_of_reaches (h.andThen fun _ => hend)
  have hreport : (removals L.pieces).reverse
      = List.replicate (removals L.pieces).length .nonNull := by
    refine List.eq_replicate_iff.mpr ⟨List.length_reverse, fun rule h => ?_⟩
    rw [List.mem_reverse, Layout.removals_pieces] at h
    exact eq_nonNull_of_mem_removals h
  have hresult : eraseTypes L.text = .ok ⟨keptText L.pieces,
      ⟨List.replicate (removals L.pieces).length .nonNull⟩⟩ := by
    rw [← hreport, ← L.wholeText_pieces]
    exact hrun
  refine ⟨hresult, ?_, ?_⟩
  · intro huntouched
    have hsame := Except.ok.inj (hresult.symm.trans huntouched)
    have hhits : List.replicate (removals L.pieces).length ErasureRule.nonNull = [] :=
      congrArg (fun erased => erased.report.hits) hsame
    have hlength : (removals L.pieces).length = 0 := by simpa using hhits
    have hnone := List.length_eq_zero_iff.mp hlength
    rw [Layout.removals_pieces] at hnone
    exact (removals_pieces_eq_nil_iff.mp hnone).2
  · intro hapart
    have hnone : removals L.pieces = [] := by
      rw [Layout.removals_pieces]
      exact removals_pieces_eq_nil_iff.mpr ⟨fun h => absurd h Bool.false_ne_true, hapart⟩
    rw [hresult, hnone, keptText_of_removals_eq_nil hnone, L.wholeText_pieces]
    rfl

example : eraseTypes "if(a)!b();".toList = .ok ⟨"if(a)b();".toList, ⟨[.nonNull]⟩⟩ := by
  decide +kernel

end LivePreview.Erasure.FreeForm

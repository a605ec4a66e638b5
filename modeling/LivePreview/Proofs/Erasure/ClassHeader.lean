/-
The header of a class.

The header is gone through without a grammar: characters and words are kept, a list between angle
brackets is removed, and `implements` goes with everything up to the next brace.  So the body of a
class is where the first brace stands that no list takes up, and this is the brace of the body as
long as no other stands in front of it.  Lists may hold braces, for they are read by the grammar of
types; a comment may not, and neither may what is behind `implements`.

A piece of a header is passed over whatever is behind it, as far as it ends there: `PassesHeader`.
The pieces of a header are put together from one lemma for kept text, one for lists and one for
`implements`.
-/
import LivePreview.Proofs.Erasure.EnumBody
import LivePreview.Proofs.Erasure.FreeFormStep
import LivePreview.Proofs.Erasure.Resumption
import LivePreview.Proofs.Script.AngleList

namespace LivePreview.Erasure

open Script EnumObject
open Text (Stops)

/-! ### Text that is kept -/

/-- A text that the reader of a header keeps in front of `rest`: nothing opens in it but round
brackets that are closed in it, and no word of it is `implements`. -/
inductive HeaderText (rest : Text) : Text → Prop
  | nil : HeaderText rest []
  | sign {c : Char} {s : Text} (hc : isIdentStart c = false) (hplain : c ∉ ['{', '<', '('])
      (hs : HeaderText rest s) : HeaderText rest (c :: s)
  | group {s : Text} (g : BracketGroup) (hround : g.bracket = .round) (hs : HeaderText rest s) :
      HeaderText rest (g.text ++ s)
  | word {w s : Text} (hw : IsWord w) (hne : w ≠ "implements".toList)
      (hstop : Stops isIdentChar (s ++ rest)) (hs : HeaderText rest s) : HeaderText rest (w ++ s)

namespace HeaderText

variable {s t w rest : Text}

theorem append (hs : HeaderText (t ++ rest) s) (ht : HeaderText rest t) :
    HeaderText rest (s ++ t) := by
  induction hs with
  | nil => exact ht
  | sign hc hplain _ ih => exact .sign hc hplain ih
  | group g hround _ ih =>
    rw [List.append_assoc]
    exact .group g hround ih
  | @word w s hw hne hstop _ ih =>
    rw [List.append_assoc]
    exact .word hw hne (by rwa [List.append_assoc]) ih

theorem of_word (hw : IsWord w) (hne : w ≠ "implements".toList) (hstop : Stops isIdentChar rest) :
    HeaderText rest w := by
  have h : HeaderText rest (w ++ []) := .word hw hne hstop .nil
  rwa [List.append_nil] at h

/-- A text that does not end with a word is kept wherever it stands. -/
theorem anywhere (hs : HeaderText [] s) (hlast : ∀ c ∈ s.getLast?, isIdentChar c = false) :
    HeaderText rest s := by
  induction hs with
  | nil => exact .nil
  | @sign c s hc hplain _ ih =>
    refine .sign hc hplain (ih fun d hd => hlast d ?_)
    rw [List.getLast?_cons, Option.mem_def.mp hd]
    rfl
  | @group s g hround _ ih =>
    refine .group g hround (ih fun d hd => hlast d ?_)
    rw [List.getLast?_append, Option.mem_def.mp hd]
    rfl
  | @word w s hw hne hstop _ ih =>
    cases s with
    | nil =>
      obtain ⟨c, hc, hident⟩ := hw.getLast?
      rw [List.append_nil] at hlast
      rw [hlast c hc] at hident
      cases hident
    | cons d s =>
      refine .word hw hne hstop (ih fun c hc => hlast c ?_)
      rw [List.getLast?_append, Option.mem_def.mp hc]
      rfl

theorem spaces (hs : ∀ c ∈ s, isSpace c = true) : HeaderText rest s := by
  induction s with
  | nil => exact .nil
  | cons c s ih =>
    have hc : isSpace c = true := hs c List.mem_cons_self
    have hident : isIdentStart c = false := by
      by_contra h
      have hchar := isIdentChar_of_start (by simpa using h)
      rw [isSpace_eq_false_of_isIdentChar hchar] at hc
      cases hc
    refine .sign hident ?_ (ih fun d hd => hs d (List.mem_cons_of_mem c hd))
    intro hmem
    fin_cases hmem <;> exact absurd hc (by decide)

/-- Words joined by dots are kept, if none of them is `implements`. -/
theorem path (p : TypePath) (hplain : ∀ w ∈ p.first :: p.further, w ≠ "implements".toList)
    (hstop : Stops isIdentChar rest) : HeaderText rest p.text := by
  obtain ⟨first, ws, hfirst, hws⟩ := p
  have hdotted : ∀ {w : Text} {ws : List Text}, IsWord w → (∀ v ∈ ws, IsWord v) →
      (∀ v ∈ w :: ws, v ≠ "implements".toList) → HeaderText rest (w ++ dottedWords ws) := by
    intro w ws hw hws hne
    induction ws generalizing w with
    | nil => exact .word hw (hne w (by simp)) hstop .nil
    | cons v vs ih =>
      have hv := ih (hws v (by simp)) (fun x hx => hws x (by simp [hx])) fun x hx => hne x (by simp_all)
      have htext : dottedWords (v :: vs) = '.' :: (v ++ dottedWords vs) := by simp [dottedWords]
      rw [htext]
      exact .word hw (hne w (by simp)) (Text.stops_cons.mpr (by decide))
        (.sign (by decide) (by decide) hv)
  exact hdotted hfirst hws hplain

end HeaderText

/-! ### Comments and gaps -/

/-- The comments of a gap are kept in a header. -/
def Quiet (g : Gap) : Prop := ∀ k, .comment k ∈ g → HeaderText [] k.text

section Gap

variable {g : Gap} {rest : Text}

theorem HeaderText.gap (hg : Quiet g) (rest : Text) : HeaderText rest g.text := by
  induction g with
  | nil => exact .nil
  | cons f g ih =>
    have hbehind : HeaderText rest (Gap.text g) := ih fun k hk => hg k (List.mem_cons_of_mem f hk)
    have hfront : HeaderText (Gap.text g ++ rest) f.text := by
      cases f with
      | blank c hc => exact .spaces fun d hd => by rwa [List.mem_singleton.mp hd]
      | comment k =>
        exact (hg k List.mem_cons_self).anywhere k.stops_last
    exact hfront.append hbehind

end Gap

/-! ### Pieces of a header -/

namespace Eraser

/-- A word is kept, or opens the list of what is implemented. -/
theorem eraseHeader_word {e : Eraser} {n : Nat} (hstart : startsIdent e.rest = true) :
    e.eraseHeader (n + 1) =
      if ident e.rest = "implements".toList then
        (e.erase .implementsClause ((skipIdent e.rest).dropWhile (· != '{'))).eraseHeader n
      else (e.keep (skipIdent e.rest)).eraseHeader n := by
  rw [eraseHeader]
  cases hrest : e.rest with
  | nil =>
    rw [hrest] at hstart
    cases hstart
  | cons c s =>
    have hc : isIdentStart c = true := by rwa [hrest] at hstart
    have hsign : ∀ d, isIdentStart d = false → c ≠ d := by
      rintro d hd rfl
      rw [hc] at hd
      cases hd
    dsimp only
    rw [if_neg (hsign '{' (by decide)), if_neg (hsign '<' (by decide)),
      if_neg (hsign '(' (by decide)), if_pos hc]

/-- The reader of a header goes over these pieces in front of `rest`. -/
def PassesHeader (ps : List Piece) (rest : Text) : Prop :=
  ∀ e : Eraser, e.rest = wholeText ps ++ rest →
    e.eraseHeader e.rest.length = (e.past ps rest).eraseHeader rest.length

namespace PassesHeader

variable {ps qs : List Piece} {s t rest : Text}

theorem nil : PassesHeader [] rest := by
  intro e h
  have h : e.rest = rest := h
  subst h
  rfl

theorem append (hps : PassesHeader ps (wholeText qs ++ rest)) (hqs : PassesHeader qs rest) :
    PassesHeader (ps ++ qs) rest := by
  intro e h
  have hbehind := hqs (e.past ps (wholeText qs ++ rest)) rfl
  rw [past_past] at hbehind
  rw [hps e (by rw [h, wholeText_append, List.append_assoc]), ← hbehind]
  rfl

/-- One piece is gone over in one step. -/
theorem of_step {p : Piece} (hne : p.text ≠ [])
    (hstep : ∀ (e : Eraser) (n : Nat), e.rest = p.text ++ rest →
      e.eraseHeader (n + 1) = (e.past [p] rest).eraseHeader n) : PassesHeader [p] rest := by
  intro e h
  have hpos := List.length_pos_iff.mpr hne
  have htext : e.rest = p.text ++ rest := by
    rw [h]
    simp [wholeText]
  obtain ⟨n, hn⟩ : ∃ n, e.rest.length = n + 1 := ⟨e.rest.length - 1, by
    rw [htext, List.length_append]
    omega⟩
  have hle : rest.length ≤ n := by
    rw [htext, List.length_append] at hn
    omega
  rw [hn, hstep e n htext]
  exact eraseHeader_stable hle (Nat.le_refl _)

theorem sign {c : Char} (hc : isIdentStart c = false) (hplain : c ∉ ['{', '<', '(']) :
    PassesHeader [.kept [c]] rest := by
  simp only [List.mem_cons, List.not_mem_nil, or_false, not_or] at hplain
  refine of_step (List.cons_ne_nil _ _) fun e n h => ?_
  have h : e.rest = c :: rest := h
  rw [eraseHeader, h, ← keep_cons h]
  simp [hc, hplain]

/-- Round brackets are kept as a whole. -/
theorem group (g : BracketGroup) (hround : g.bracket = .round) : PassesHeader [.kept g.text] rest := by
  refine of_step (List.cons_ne_nil _ _) fun e n h => ?_
  have hrest : e.rest = g.text ++ rest := h
  have hgroup := g.afterGroup?_text rest
  obtain ⟨t, ht⟩ : ∃ t, g.text = '(' :: t := ⟨g.body ++ [g.bracket.closing], by
    rw [BracketGroup.text, hround]
    rfl⟩
  rw [← keep_eq hrest]
  rw [ht, List.cons_append] at hrest hgroup
  rw [eraseHeader, hrest]
  simp [hgroup]

theorem word {w : Text} (hw : IsWord w) (hne : w ≠ "implements".toList)
    (hstop : Stops isIdentChar rest) : PassesHeader [.kept w] rest := by
  refine of_step hw.ne_nil fun e n h => ?_
  have hrest : e.rest = w ++ rest := h
  have hstart : startsIdent e.rest = true := hrest ▸ hw.startsIdent
  rw [eraseHeader_word hstart, hrest, hw.ident_append hstop, hw.skipIdent_append hstop, if_neg hne,
    keep_eq hrest]

/-- Kept text is one piece. -/
theorem kept (hs : HeaderText rest s) : PassesHeader [.kept s] rest := by
  have hcongr : ∀ {ps : List Piece} {s : Text}, PassesHeader ps rest → wholeText ps = s →
      keptText ps = s → removals ps = [] → PassesHeader [.kept s] rest := by
    intro ps s hps hwhole hkept hhits e h
    have hsame : e.past ps rest = e.past [.kept s] rest :=
      past_congr (by simp [hwhole]) (by simp [hkept]) hhits
    rw [hps e (by rw [h, hwhole]; simp), hsame]
  induction hs with
  | nil =>
    intro e h
    have h : e.rest = rest := h
    rw [FreeForm.past_nil h, h]
  | @sign c s hc hplain _ ih =>
    have hfront : PassesHeader [.kept [c]] (wholeText [.kept s] ++ rest) := sign hc hplain
    exact hcongr (hfront.append ih) (by simp) (by simp) (by simp)
  | @group s g hround _ ih =>
    have hfront : PassesHeader [.kept g.text] (wholeText [.kept s] ++ rest) := group g hround
    exact hcongr (hfront.append ih) (by simp) (by simp) (by simp)
  | @word w s hw hne hstop _ ih =>
    have hfront : PassesHeader [.kept w] (wholeText [.kept s] ++ rest) :=
      word hw hne (by simpa using hstop)
    exact hcongr (hfront.append ih) (by simp) (by simp) (by simp)

/-- A list between angle brackets is removed. -/
theorem list (hlist : (afterTypeParameters? ('<' :: (s ++ rest))).or
    (afterTypeArguments? ('<' :: (s ++ rest))) = some rest) :
    PassesHeader [.erased .classParameters ('<' :: s)] rest := by
  refine of_step (List.cons_ne_nil _ _) fun e n h => ?_
  have hrest : e.rest = ('<' :: s) ++ rest := h
  rw [← erase_eq .classParameters hrest]
  rw [List.cons_append] at hrest
  rw [eraseHeader, hrest]
  simp [hlist]

/-- What is implemented is removed up to the brace. -/
theorem implemented (hs : '{' ∉ s) (hstop : Stops isIdentChar (s ++ '{' :: rest)) :
    PassesHeader [.erased .implementsClause ("implements".toList ++ s)] ('{' :: rest) := by
  refine of_step (List.cons_ne_nil _ _) fun e n h => ?_
  have hword : IsWord "implements".toList := isWord_of_all (by decide) (by decide)
  have hrest : e.rest = "implements".toList ++ (s ++ '{' :: rest) := by
    rw [h]
    exact List.append_assoc ..
  have hident := hword.ident_append hstop
  have hskip := hword.skipIdent_append hstop
  have hdrop : (s ++ '{' :: rest).dropWhile (· != '{') = '{' :: rest := by
    refine Text.dropWhile_append (fun c hc => ?_) (Text.stops_cons.mpr (by decide))
    exact bne_iff_ne.mpr fun heq => hs (heq ▸ hc)
  have hstart : startsIdent e.rest = true := hrest ▸ hword.startsIdent
  rw [eraseHeader_word hstart, hrest, hident, hskip, hdrop, if_pos rfl, erase_eq _ h]
  rfl

/-- The header ends at the brace. -/
theorem eraseHeader_eq (hps : PassesHeader ps ('{' :: rest)) {e : Eraser}
    (h : e.rest = wholeText ps ++ '{' :: rest) :
    e.eraseHeader e.rest.length = e.past ps ('{' :: rest) := by
  rw [hps e h, List.length_cons, eraseHeader]
  rfl

end PassesHeader

end Eraser

/-! ### Headers -/

/-- A list between angle brackets, behind a gap. -/
structure AngleList (k : TypeKind) where
  gap : Gap
  body : Text
  isList : TypeText k body

/-- The class that is extended, behind a gap. -/
structure Heritage where
  before : Gap
  behind : Gap
  path : TypePath
  list : Option (AngleList (.arguments false))
  before_ne : before ≠ []
  behind_ne : behind ≠ []

/-- The header of a class, up to the brace of its body. -/
structure ClassHeader extends DeclaredName where
  /-- the blanks behind `abstract` -/
  abstractGap : Option Text
  list : Option (AngleList (.parameters false))
  heritage : Option Heritage
  last : Gap
  /-- what stands behind `implements` -/
  implemented : Option Text
  blankAbstract : ∀ g ∈ abstractGap, g ≠ [] ∧ AllBlank g
  last_ne : implemented ≠ none → last ≠ []
  apart : ∀ t ∈ implemented, Stops isIdentChar (t ++ ['{'])

section Pieces

variable {k : TypeKind}

/-- The text of what may be there. -/
theorem textOf_elim {α : Type} (textOf : List Piece → Text) {o : Option α} {f : α → List Piece}
    {g : α → Text} (hnil : textOf [] = []) (h : ∀ a, textOf (f a) = g a) :
    textOf (o.elim [] f) = o.elim [] g := by
  cases o with
  | none => exact hnil
  | some a => exact h a

def AngleList.text (l : AngleList k) : Text := l.gap.text ++ '<' :: l.body

/-- What is kept of a list. -/
def AngleList.kept (l : AngleList k) : Text := l.gap.text

/-- A list is removed, and the gap in front of it is kept. -/
def AngleList.pieces (l : AngleList k) : List Piece :=
  [.kept l.gap.text, .erased .classParameters ('<' :: l.body)]

def Heritage.name (e : Heritage) : Text :=
  e.before.text ++ ("extends".toList ++ (e.behind.text ++ e.path.text))

def Heritage.text (e : Heritage) : Text := e.name ++ e.list.elim [] AngleList.text

def Heritage.kept (e : Heritage) : Text := e.name ++ e.list.elim [] AngleList.kept

def Heritage.pieces (e : Heritage) : List Piece := .kept e.name :: e.list.elim [] AngleList.pieces

namespace ClassHeader

variable (h : ClassHeader)

def text : Text :=
  h.abstractGap.elim [] (fun g => "abstract".toList ++ g) ++
    ("class".toList ++ (h.gap ++ (h.name ++ (h.list.elim [] AngleList.text ++
      (h.heritage.elim [] Heritage.text ++
        (h.last.text ++ h.implemented.elim [] fun t => "implements".toList ++ t))))))

/-- The header without its types. -/
def kept : Text :=
  "class".toList ++ (h.gap ++ (h.name ++ (h.list.elim [] AngleList.kept ++
    (h.heritage.elim [] Heritage.kept ++ h.last.text))))

/-- What is removed with `implements`. -/
def implementedPieces : List Piece :=
  h.implemented.elim [] fun t => [.erased .implementsClause ("implements".toList ++ t)]

/-- What stands behind the name. -/
def behindName : List Piece :=
  h.list.elim [] AngleList.pieces ++
    (h.heritage.elim [] Heritage.pieces ++ (.kept h.last.text :: h.implementedPieces))

/-- What stands behind the word `class`. -/
def behindClass : List Piece := .kept (h.gap ++ h.name) :: h.behindName

/-- The pieces of a header. -/
def pieces : List Piece :=
  h.abstractGap.elim [] (fun g => [.erased .abstractModifier ("abstract".toList ++ g)]) ++
    .kept "class".toList :: h.behindClass

theorem wholeText_pieces : wholeText h.pieces = h.text := by
  have hlist : ∀ {k : TypeKind} (o : Option (AngleList k)),
      wholeText (o.elim [] AngleList.pieces) = o.elim [] AngleList.text := fun o =>
    textOf_elim wholeText rfl fun l => by simp [AngleList.pieces, AngleList.text]
  have hheritage : wholeText (h.heritage.elim [] Heritage.pieces) = h.heritage.elim [] Heritage.text :=
    textOf_elim wholeText rfl fun e => by simp [Heritage.pieces, Heritage.text, hlist]
  simp only [pieces, behindClass, behindName, implementedPieces, wholeText_append, wholeText_kept,
    hlist, hheritage]
  rw [textOf_elim wholeText rfl (g := fun g => "abstract".toList ++ g) (by simp),
    textOf_elim wholeText rfl (g := fun t => "implements".toList ++ t) (by simp)]
  simp [text]

theorem keptText_pieces : keptText h.pieces = h.kept := by
  have hlist : ∀ {k : TypeKind} (o : Option (AngleList k)),
      keptText (o.elim [] AngleList.pieces) = o.elim [] AngleList.kept := fun o =>
    textOf_elim keptText rfl fun l => by simp [AngleList.pieces, AngleList.kept]
  have hheritage : keptText (h.heritage.elim [] Heritage.pieces) = h.heritage.elim [] Heritage.kept :=
    textOf_elim keptText rfl fun e => by simp [Heritage.pieces, Heritage.kept, hlist]
  simp only [pieces, behindClass, behindName, implementedPieces, keptText_append, keptText_kept,
    hlist, hheritage]
  unfold kept
  cases h.abstractGap <;> cases h.implemented <;> simp

end ClassHeader

end Pieces

/-- No word of what is extended is `implements`, and the comments around it are kept. -/
structure Heritage.Plain (e : Heritage) : Prop where
  path : ∀ w ∈ e.path.first :: e.path.further, w ≠ "implements".toList
  before : Quiet e.before
  behind : Quiet e.behind
  list : ∀ l ∈ e.list, Quiet l.gap

/-- Nothing in a header is taken for its end, for a list, or for the word `implements`. -/
structure ClassHeader.Plain (h : ClassHeader) : Prop where
  name : h.name ≠ "implements".toList
  list : ∀ l ∈ h.list, Quiet l.gap
  heritage : ∀ e ∈ h.heritage, e.Plain
  last : Quiet h.last
  brace : ∀ t ∈ h.implemented, '{' ∉ t

/-! ### A header is gone over up to its brace -/

section Passes

open Eraser

variable {rest : Text}

/-- What may be there is gone over if it is. -/
theorem passesHeader_elim {α : Type} {o : Option α} {f : α → List Piece}
    (h : ∀ a ∈ o, PassesHeader (f a) rest) : PassesHeader (o.elim [] f) rest := by
  cases o with
  | none => exact .nil
  | some a => exact h a rfl

namespace AngleList

variable {k : TypeKind} {l : AngleList k}

theorem passes (hl : Quiet l.gap) (hlist : (afterTypeParameters? ('<' :: (l.body ++ rest))).or
    (afterTypeArguments? ('<' :: (l.body ++ rest))) = some rest) : PassesHeader l.pieces rest := by
  have hgap := PassesHeader.kept (HeaderText.gap hl (wholeText [.erased .classParameters ('<' :: l.body)]
    ++ rest))
  exact hgap.append (.list hlist)

theorem passes_parameters {l : AngleList (.parameters false)} (hl : Quiet l.gap) :
    PassesHeader l.pieces rest := by
  refine l.passes hl ?_
  rw [l.isList.afterTypeParameters?_append, Option.some_or]

theorem passes_arguments {l : AngleList (.arguments false)} (hl : Quiet l.gap) :
    PassesHeader l.pieces rest :=
  l.passes hl (parameters_or_arguments (l.isList.afterTypeArguments?_append rest))

/-- A list, with or without a gap in front, is apart from a word. -/
theorem stops_pieces (l : AngleList k) (rest : Text) :
    Stops isIdentChar (wholeText l.pieces ++ rest) := by
  have htext : wholeText l.pieces ++ rest = l.gap.text ++ '<' :: (l.body ++ rest) := by
    simp [pieces]
  rw [htext]
  exact l.gap.stops_append (Text.stops_cons.mpr (by decide))

end AngleList

theorem stops_lists {k : TypeKind} {o : Option (AngleList k)} (hrest : Stops isIdentChar rest) :
    Stops isIdentChar (wholeText (o.elim [] AngleList.pieces) ++ rest) := by
  cases o with
  | none => exact hrest
  | some l => exact l.stops_pieces rest

namespace Heritage

variable {e : Heritage}

theorem stops_pieces (e : Heritage) (rest : Text) :
    Stops isIdentChar (wholeText e.pieces ++ rest) := by
  rw [pieces, wholeText_kept, name, List.append_assoc, List.append_assoc]
  exact Gap.stops e.before_ne _

theorem passes (he : e.Plain) (hrest : Stops isIdentChar rest) : PassesHeader e.pieces rest := by
  have hlists : PassesHeader (e.list.elim [] AngleList.pieces) rest :=
    passesHeader_elim fun l hl => AngleList.passes_arguments (he.list l hl)
  let more := wholeText (e.list.elim [] AngleList.pieces) ++ rest
  have hextends : IsWord "extends".toList := isWord_of_all (by decide) (by decide)
  have hp : HeaderText more e.path.text := .path e.path he.path (stops_lists hrest)
  have hb : HeaderText (e.path.text ++ more) e.behind.text := .gap he.behind _
  have hbp : HeaderText more (e.behind.text ++ e.path.text) := hb.append hp
  have hword : HeaderText more ("extends".toList ++ (e.behind.text ++ e.path.text)) := by
    refine .word hextends (by decide) ?_ hbp
    rw [List.append_assoc]
    exact Gap.stops e.behind_ne _
  have hname : HeaderText more e.name := (HeaderText.gap he.before _).append hword
  exact (PassesHeader.kept hname).append hlists

end Heritage

namespace ClassHeader

variable {h : ClassHeader} (hplain : h.Plain)

theorem stops_implemented (h : ClassHeader) (rest : Text) :
    Stops isIdentChar (h.last.text ++ (wholeText h.implementedPieces ++ '{' :: rest)) := by
  by_cases himplemented : h.implemented = none
  · refine h.last.stops_append ?_
    rw [implementedPieces, himplemented]
    exact Text.stops_cons.mpr (by decide)
  · exact Gap.stops (h.last_ne himplemented) _

include hplain

theorem passes_implemented : PassesHeader h.implementedPieces ('{' :: rest) := by
  refine passesHeader_elim fun t ht => .implemented (hplain.brace t ht) ?_
  have hstop := stops_append_of_ne_nil (h.apart t ht) (by simp) rest
  rwa [List.append_assoc] at hstop

theorem passes_last : PassesHeader (.kept h.last.text :: h.implementedPieces) ('{' :: rest) :=
  (PassesHeader.kept (.gap hplain.last _)).append (passes_implemented hplain)

theorem passes_heritage : PassesHeader (h.heritage.elim [] Heritage.pieces ++
    .kept h.last.text :: h.implementedPieces) ('{' :: rest) := by
  have hstop := h.stops_implemented rest
  have hheritage : PassesHeader (h.heritage.elim [] Heritage.pieces)
      (wholeText (.kept h.last.text :: h.implementedPieces) ++ '{' :: rest) :=
    passesHeader_elim fun e he => Heritage.passes (hplain.heritage e he) (by simpa using hstop)
  exact hheritage.append (passes_last hplain)

theorem passes_behindName : PassesHeader h.behindName ('{' :: rest) := by
  have hlist : ∀ s, PassesHeader (h.list.elim [] AngleList.pieces) s := fun s =>
    passesHeader_elim fun l hl => AngleList.passes_parameters (hplain.list l hl)
  exact (hlist _).append (passes_heritage hplain)

omit hplain in
theorem stops_behindName (h : ClassHeader) (rest : Text) :
    Stops isIdentChar (wholeText h.behindName ++ '{' :: rest) := by
  rw [behindName, wholeText_append, List.append_assoc]
  refine stops_lists ?_
  rw [wholeText_append, List.append_assoc]
  cases h.heritage with
  | none => simpa using h.stops_implemented rest
  | some e => exact e.stops_pieces _

theorem passes_behindClass : PassesHeader h.behindClass ('{' :: rest) := by
  have hstop := h.stops_behindName rest
  have hname : HeaderText (wholeText h.behindName ++ '{' :: rest) h.name :=
    .of_word h.isWord hplain.name hstop
  have hgap : HeaderText (h.name ++ (wholeText h.behindName ++ '{' :: rest)) h.gap :=
    .spaces fun c hc => Text.isSpace_of_isBlank (h.blank c hc)
  exact (PassesHeader.kept (hgap.append hname)).append (passes_behindName hplain)

end ClassHeader

end Passes

end LivePreview.Erasure

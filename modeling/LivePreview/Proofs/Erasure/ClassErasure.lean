/-
What is left of a class.

The words `abstract` and `class` are each one step, and the second of them goes over the whole
header.  What it leaves behind is a brace, and the mark that a header is in front of it: the next
brace opens a class body, whatever the header holds.  In the body the code in front says enough to
tell a field from a statement.  A word behind the brace or a semicolon is the name of a field, also
where it opens something elsewhere, and a colon behind it opens a type, which is removed up to its
end.

A step lemma for each of these leads from `InBody` over the name of a field to `BehindField` and
back, and the fields are gone over one by one.
-/
import LivePreview.Proofs.Erasure.ClassHeader
import LivePreview.Proofs.Script.TypeTree

namespace LivePreview.Erasure

open Script EnumObject
open Text (Stops)

/-! ### From the front of a header into the body -/

/-- The code at the start of the body of a class. -/
def CodeMode.classBody (m : CodeMode) : CodeMode :=
  ({ m with header := false }.push .classBody).next (.sign '{')

namespace Eraser

variable {e : Eraser} {m : CodeMode} {gap s rest : Text}

theorem stepWord_abstract (hgap : AllBlank gap) (hne : gap ≠ []) (hs : Stops isIdentChar s)
    (h : e.rest = "abstract".toList ++ (gap ++ ("class".toList ++ s))) :
    e.stepWord m = .ok ((e.erase .abstractModifier ("class".toList ++ s)).inCode m m.previous) := by
  have habstract : IsWord "abstract".toList := isWord_of_all (by decide) (by decide)
  have hclass : IsWord "class".toList := isWord_of_all (by decide) (by decide)
  have hstop : Stops isIdentChar (gap ++ ("class".toList ++ s)) :=
    hgap.stops hne (fun _ => isBlank_eq_false_of_identChar) _
  have hpass : Text.skipBlanks (gap ++ ("class".toList ++ s)) = "class".toList ++ s :=
    Text.dropWhile_append hgap hclass.stops_isBlank
  have hword : word? ("class".toList ++ s) = some "class".toList := hclass.word?_append hs
  unfold stepWord
  simp only [h, habstract.ident_append hstop, habstract.skipIdent_append hstop, hpass, hword]
  rfl

theorem stepWord_class (hstop : Stops isIdentChar s)
    (hnext : (word? (Text.skipBlanks s)).isSome = true) (hprevious : m.previous ≠ .sign '.')
    (h : e.rest = "class".toList ++ s) :
    e.stepWord m = .ok (((e.keep s).eraseHeader s.length).inCode { m with header := true }
      (.word "class".toList)) := by
  have hclass : IsWord "class".toList := isWord_of_all (by decide) (by decide)
  have hsign : (m.previous != .sign '.') = true := by simpa using hprevious
  unfold stepWord
  simp only [h, hclass.ident_append hstop, hclass.skipIdent_append hstop, hnext, hsign]
  rfl

theorem reaches_open_body (h : e.rest = '{' :: rest) (hheader : m.header = true) :
    Reaches (e.enter (.code m))
      ((e.past [.kept ['{']] rest).enter (.code m.classBody)) := by
  refine reaches_token (t := []) h ?_
  have hstep : e.stepCode m '{' rest = .ok (e.keepToken
      (if m.header then { m with header := false }.push .classBody else m.push .block)
      rest (.sign '{')) := rfl
  rw [List.nil_append, hstep, hheader]
  rfl

end Eraser

namespace ClassHeader

open Eraser

variable {h : ClassHeader} {e : Eraser} {m : CodeMode} {tail : Text}

theorem wholeText_behindClass (h : ClassHeader) (s : Text) : wholeText h.behindClass ++ s
    = h.gap ++ (h.name ++ (wholeText h.behindName ++ s)) := by
  simp [behindClass]

theorem stops_behindClass (h : ClassHeader) (s : Text) :
    Stops isIdentChar (wholeText h.behindClass ++ s) := by
  rw [h.wholeText_behindClass]
  exact h.stops_isIdentChar_gap

variable (hplain : h.Plain)

include hplain

/-- Behind the header, the next token is the brace of a class body. -/
theorem reaches_class (hprevious : m.previous ≠ .sign '.')
    (hrest : e.rest = "class".toList ++ (wholeText h.behindClass ++ '{' :: tail)) :
    Reaches (e.enter (.code m))
      ((e.past (.kept "class".toList :: h.behindClass ++ [.kept ['{']]) tail).enter
        (.code m.classBody)) := by
  let s := wholeText h.behindClass ++ '{' :: tail
  have hclass : IsWord "class".toList := isWord_of_all (by decide) (by decide)
  have hnext : (word? (Text.skipBlanks s)).isSome = true := by
    rw [show s = _ from h.wholeText_behindClass _, h.skipBlanks_gap]
    exact h.isSome_word?
  have hheader : (e.keep s).eraseHeader s.length
      = e.past (.kept "class".toList :: h.behindClass) ('{' :: tail) := by
    have hpasses := (h.passes_behindClass hplain).eraseHeader_eq (e := e.keep s) rfl
    rw [keep_eq hrest, past_past] at hpasses
    rw [keep_eq hrest]
    exact hpasses
  have hstep : (e.enter (.code m)).step
      = .ok ((e.past (.kept "class".toList :: h.behindClass) ('{' :: tail)).enter
        (.code ({ m with header := true }.next (.word "class".toList)))) := by
    rw [step_word hclass hrest, stepWord_class (h.stops_behindClass _) hnext hprevious hrest, hheader]
    rfl
  have hone : Reaches (e.enter (.code m)) _ :=
    reaches_pieces (by simpa using hrest) (by simp) hstep
  exact hone.andThen fun h => reaches_open_body h rfl

/-- **A header leads into the body of the class, whatever is behind its brace.** -/
theorem reaches_body (hprevious : m.previous ≠ .sign '.')
    (hrest : e.rest = wholeText h.pieces ++ '{' :: tail) :
    Reaches (e.enter (.code m))
      ((e.past (h.pieces ++ [.kept ['{']]) tail).enter (.code m.classBody)) := by
  cases hgap : h.abstractGap with
  | none =>
    have hpieces : h.pieces = .kept "class".toList :: h.behindClass := by simp [pieces, hgap]
    rw [hpieces] at hrest ⊢
    exact h.reaches_class hplain hprevious (by simpa using hrest)
  | some gap =>
    obtain ⟨hne, hblank⟩ := h.blankAbstract gap hgap
    have hpieces : h.pieces = [.erased .abstractModifier ("abstract".toList ++ gap)] ++
        .kept "class".toList :: h.behindClass := by simp [pieces, hgap]
    rw [hpieces] at hrest ⊢
    have habstract : IsWord "abstract".toList := isWord_of_all (by decide) (by decide)
    let s := wholeText h.behindClass ++ '{' :: tail
    have hrest' : e.rest = "abstract".toList ++ (gap ++ ("class".toList ++ s)) := by
      simpa [s] using hrest
    have hstep : (e.enter (.code m)).step = .ok ((e.past
        [.erased .abstractModifier ("abstract".toList ++ gap)] ("class".toList ++ s)).enter
          (.code (m.next m.previous))) := by
      rw [step_word habstract hrest', stepWord_abstract hblank hne (h.stops_behindClass _) hrest',
        erase_eq (r := "abstract".toList ++ gap) _ (by rw [hrest', List.append_assoc])]
      rfl
    have hone : Reaches (e.enter (.code m)) _ :=
      reaches_pieces (by simpa using hrest') (by simp) hstep
    rw [List.append_assoc]
    exact hone.andThen fun hs => h.reaches_class hplain hprevious hs

end ClassHeader

/-! ### Fields -/

/-- The type of a field, with its colon. -/
structure FieldType where
  before : Text
  space : Text
  type : Text
  isGap : ∀ c ∈ before, FreeForm.isGapChar c = true
  blankSpace : AllBlank space
  isType : TypeText .whole type

/-- A field, with its semicolon. -/
structure ClassField where
  gap : Text
  name : Text
  annotation : Option FieldType
  space : Text
  isWord : IsWord name
  isGap : ∀ c ∈ gap ++ space, FreeForm.isGapChar c = true

def FieldType.text (t : FieldType) : Text := t.before ++ ':' :: (t.space ++ t.type)

def ClassField.text (f : ClassField) : Text :=
  f.gap ++ (f.name ++ (f.annotation.elim [] FieldType.text ++ (f.space ++ [';'])))

/-- A field without its type. -/
def ClassField.kept (f : ClassField) : Text :=
  f.gap ++ (f.name ++ (f.annotation.elim [] FieldType.before ++ (f.space ++ [';'])))

/-- The colon and the type are removed. -/
def FieldType.pieces (t : FieldType) : List Piece :=
  [.kept t.before, .erased .fieldType (':' :: (t.space ++ t.type))]

/-- What stands behind the name of a field. -/
def ClassField.behindName (f : ClassField) : List Piece :=
  f.annotation.elim [] FieldType.pieces ++ [.kept (f.space ++ [';'])]

def ClassField.pieces (f : ClassField) : List Piece := .kept (f.gap ++ f.name) :: f.behindName

theorem ClassField.wholeText_pieces (f : ClassField) : wholeText f.pieces = f.text := by
  cases h : f.annotation <;> simp [pieces, behindName, text, FieldType.pieces, FieldType.text, h]

theorem ClassField.keptText_pieces (f : ClassField) : keptText f.pieces = f.kept := by
  cases h : f.annotation <;> simp [pieces, behindName, kept, FieldType.pieces, h]

section Fields

open Eraser

variable {e : Eraser} {base m : CodeMode} {w s rest : Text}

/-- The code in front of a field, in the body of a class. -/
structure InBody (base m : CodeMode) : Prop where
  top : m.top = ⟨.classBody, 0, false⟩
  outer : m.outer = base.top :: base.outer
  header : m.header = false
  previous : m.previous = .sign '{' ∨ m.previous = .sign ';'

/-- The code behind the name of a field. -/
structure BehindField (base m : CodeMode) : Prop where
  kind : m.top.kind = .classBody
  ternaries : m.top.ternaries = 0
  outer : m.outer = base.top :: base.outer
  header : m.header = false
  word : ∃ w, m.previous = .word w

theorem inBody_classBody (m : CodeMode) : InBody m m.classBody := ⟨rfl, rfl, rfl, Or.inl rfl⟩

theorem InBody.newline (h : InBody base m) (b : Bool) : InBody base { m with newline := b } :=
  ⟨h.top, h.outer, h.header, h.previous⟩

theorem BehindField.newline (h : BehindField base m) (b : Bool) :
    BehindField base { m with newline := b } :=
  ⟨h.kind, h.ternaries, h.outer, h.header, h.word⟩

/-- Behind a type the code is the same as in front of it. -/
theorem BehindField.behindType (h : BehindField base m) : BehindField base (m.next m.previous) :=
  ⟨h.kind, h.ternaries, h.outer, h.header, h.word⟩

/-- What stands behind the name of a field: the type, or the end of the field. -/
def FollowsName (s : Text) : Prop := ∃ c ∈ [':', ';'], ∃ t, Text.skipBlanks s = c :: t

theorem FollowsName.word? (h : FollowsName s) : word? (Text.skipBlanks s) = none := by
  obtain ⟨c, hc, t, ht⟩ := h
  rw [ht]
  exact word?_of_stops (Text.stops_cons.mpr (by fin_cases hc <;> decide))

/-- Neither a block nor a computed name is behind the name of a field, nor a pattern. -/
theorem FollowsName.startsWithChar (h : FollowsName s) {d : Char} (hd : d ∈ ['{', '[']) :
    startsWithChar d (Text.skipBlanks s) = false := by
  obtain ⟨c, hc, t, ht⟩ := h
  rw [ht]
  fin_cases hc <;> fin_cases hd <;> rfl

theorem FollowsName.afterPattern? (h : FollowsName s) : afterPattern? (Text.skipBlanks s) = none := by
  obtain ⟨c, hc, t, ht⟩ := h
  rw [ht]
  fin_cases hc <;> rfl

theorem InBody.stepWord_name (hm : InBody base m) (hw : IsWord w) (h : e.rest = w ++ s)
    (hstop : Stops isIdentChar s) (hs : FollowsName s)
    (hvariable : variableWords.contains w = false) :
    e.stepWord m = .ok ((e.keep s).inCode m (.word w)) := by
  have hsign : (m.previous.endsExpression || m.previous == .sign '}') = false ∧
      m.previous ≠ .sign '(' := by
    obtain h | h := hm.previous <;> rw [h] <;> exact ⟨rfl, by decide⟩
  unfold stepWord
  simp only [h, hw.ident_append hstop, hw.skipIdent_append hstop, hs.word?,
    hs.startsWithChar (d := '{') (by simp), hs.startsWithChar (d := '[') (by simp), hvariable,
    hsign, Option.isSome_none, reduceCtorEq, decide_false,
    Bool.and_false, Bool.false_and, Bool.or_self, Bool.false_eq_true, if_false]

/-- The word in front of a type or a semicolon is the name of a field, whatever it opens
elsewhere. -/
theorem InBody.reaches_name (hm : InBody base m) (hw : IsWord w) (h : e.rest = w ++ s)
    (hstop : Stops isIdentChar s) (hs : FollowsName s) :
    ∃ m', BehindField base m' ∧
      Reaches (e.enter (.code m)) ((e.past [.kept w] s).enter (.code m')) := by
  have hbehind : ∀ {m' : CodeMode}, BehindField base m' →
      e.stepWord m = .ok ((e.keep s).enter (.code m')) →
      ∃ m', BehindField base m' ∧
        Reaches (e.enter (.code m)) ((e.past [.kept w] s).enter (.code m')) := by
    intro m' hm' hstep
    exact ⟨m', hm', reaches_past h hw.ne_nil (by rw [step_word hw h, hstep, keep_eq h])⟩
  by_cases hvariable : variableWords.contains w = true
  · -- `const`, `let` and `var` look for a pattern, which is not there
    have hprevious : m.previous ≠ .sign '.' := by
      obtain h | h := hm.previous <;> rw [h] <;> decide
    have hstep := stepWord_variable hw hvariable h hstop (by simp [hs.word?]) hprevious
    have hpattern : (e.keep s).eraseVariable = (e.keep s, .word "const".toList) := by
      have hrest : (e.keep s).rest = s := rfl
      simp only [eraseVariable, hrest, hs.afterPattern?]
    rw [hpattern] at hstep
    refine hbehind ?_ hstep
    exact ⟨by simp [CodeMode.next, CodeMode.listDeclarators, hm.top],
      by simp [CodeMode.next, CodeMode.listDeclarators, hm.top], hm.outer, hm.header, _, rfl⟩
  · refine hbehind ?_ (hm.stepWord_name hw h hstop hs (eq_false_of_ne_true hvariable))
    exact ⟨by simp [CodeMode.next, hm.top], by simp [CodeMode.next, hm.top], hm.outer, hm.header,
      w, rfl⟩

/-- A colon behind the name opens a type. -/
theorem BehindField.reaches_type (hm : BehindField base m) (t : FieldType)
    {gap : Text} (hgap : AllBlank gap)
    (h : e.rest = ':' :: (t.space ++ (t.type ++ (gap ++ ';' :: rest)))) :
    Reaches (e.enter (.code m))
      ((e.past [.erased .fieldType (':' :: (t.space ++ t.type))] (gap ++ ';' :: rest)).enter
        (.code (m.next m.previous))) := by
  have htype : afterType? (t.space ++ (t.type ++ (gap ++ ';' :: rest))) = some (gap ++ ';' :: rest) :=
    t.isType.afterType?_append (apart_blanks hgap (by decide) _) (.of_sign hgap (by simp)) t.blankSpace
  obtain ⟨w, hword⟩ := hm.word
  refine reaches_erased (t := t.space ++ t.type) (by rw [h]; simp) ?_
  rw [List.append_assoc]
  have hstep : e.stepCode m ':' (t.space ++ (t.type ++ (gap ++ ';' :: rest)))
      = .ok (e.stepColon m (t.space ++ (t.type ++ (gap ++ ';' :: rest)))) := rfl
  rw [hstep]
  simp [stepColon, hm.ternaries, hm.kind, hword, FrameKind.takesTypes, htype]

theorem BehindField.reaches_end (hm : BehindField base m) (h : e.rest = ';' :: rest) :
    ∃ m', InBody base m' ∧
      Reaches (e.enter (.code m)) ((e.past [.kept [';']] rest).enter (.code m')) :=
  ⟨m.endDeclarators, ⟨by simp [CodeMode.endDeclarators, CodeMode.next, hm.kind, hm.ternaries],
    hm.outer, hm.header, Or.inr rfl⟩, reaches_semicolon h⟩

end Fields

/-! ### Bodies -/

section Bodies

open Eraser FreeForm

variable {e : Eraser} {base m : CodeMode} {rest : Text}

namespace ClassField

variable (f : ClassField)

theorem isGap_gap : ∀ c ∈ f.gap, isGapChar c = true := fun c hc =>
  f.isGap c (List.mem_append_left _ hc)

theorem isGap_space : ∀ c ∈ f.space, isGapChar c = true := fun c hc =>
  f.isGap c (List.mem_append_right _ hc)

theorem blank_space : AllBlank f.space := fun c hc => isBlank_of_isGapChar (f.isGap_space c hc)

/-- Behind the name there is a colon or the semicolon, and blanks at most in front of it. -/
theorem exists_behindName (rest : Text) : ∃ gap, AllBlank gap ∧ ∃ c ∈ [':', ';'], ∃ s,
    wholeText f.behindName ++ rest = gap ++ c :: s := by
  cases hannotation : f.annotation with
  | none => exact ⟨f.space, f.blank_space, ';', by simp, rest, by simp [behindName, hannotation]⟩
  | some t =>
    refine ⟨t.before, fun c hc => isBlank_of_isGapChar (t.isGap c hc), ':', by simp, ?_⟩
    exact ⟨t.space ++ (t.type ++ (f.space ++ ';' :: rest)), by
      simp [behindName, hannotation, FieldType.pieces]⟩

theorem followsName (rest : Text) : FollowsName (wholeText f.behindName ++ rest) := by
  obtain ⟨gap, hgap, c, hc, s, hs⟩ := f.exists_behindName rest
  refine ⟨c, hc, s, ?_⟩
  rw [hs, skipBlanks_append hgap, Text.skipBlanks_cons (by fin_cases hc <;> decide)]

theorem stops_behindName (rest : Text) : Stops isIdentChar (wholeText f.behindName ++ rest) := by
  obtain ⟨gap, hgap, c, hc, s, hs⟩ := f.exists_behindName rest
  rw [hs]
  exact hgap.stops_append (fun _ => isBlank_eq_false_of_identChar)
    (Text.stops_cons.mpr (by fin_cases hc <;> decide))

theorem reaches_semicolon (hm : BehindField base m) (h : e.rest = f.space ++ ';' :: rest) :
    ∃ m', InBody base m' ∧
      Reaches (e.enter (.code m)) ((e.past [.kept (f.space ++ [';'])] rest).enter (.code m')) := by
  obtain ⟨b, hgap⟩ := reaches_gap (m := m) f.isGap_space h
  obtain ⟨m', hm', hend⟩ :=
    (hm.newline b).reaches_end (e := e.past [.kept f.space] (';' :: rest)) rfl
  exact ⟨m', hm', (hgap.andThen fun _ => hend).regroup (by simp) (by simp) (by simp)⟩

/-- What stands behind the name is kept, but for the type. -/
theorem reaches_behindName (hm : BehindField base m) (h : e.rest = wholeText f.behindName ++ rest) :
    ∃ m', InBody base m' ∧
      Reaches (e.enter (.code m)) ((e.past f.behindName rest).enter (.code m')) := by
  cases hannotation : f.annotation with
  | none =>
    have hpieces : f.behindName = [.kept (f.space ++ [';'])] := by simp [behindName, hannotation]
    rw [hpieces] at h ⊢
    exact f.reaches_semicolon hm (by simpa using h)
  | some t =>
    have hpieces : f.behindName = t.pieces ++ [.kept (f.space ++ [';'])] := by
      simp [behindName, hannotation]
    have hcolon : e.rest = t.before ++ ':' :: (t.space ++ (t.type ++ (f.space ++ ';' :: rest))) := by
      simpa [hpieces, FieldType.pieces] using h
    obtain ⟨b, hgap⟩ := reaches_gap (m := m) t.isGap hcolon
    have htype := hgap.andThen fun h => (hm.newline b).reaches_type t f.blank_space h
    obtain ⟨m', hm', hend⟩ := f.reaches_semicolon (hm.newline b).behindType
      (e := e.past t.pieces (f.space ++ ';' :: rest)) rfl
    rw [hpieces]
    exact ⟨m', hm', htype.andThen fun _ => hend⟩

/-- A field is kept, but for its type. -/
theorem reaches_field (hm : InBody base m) (h : e.rest = wholeText f.pieces ++ rest) :
    ∃ m', InBody base m' ∧
      Reaches (e.enter (.code m)) ((e.past f.pieces rest).enter (.code m')) := by
  have hname : e.rest = f.gap ++ (f.name ++ (wholeText f.behindName ++ rest)) := by
    simpa [pieces] using h
  obtain ⟨b, hgap⟩ := reaches_gap (m := m) f.isGap_gap hname
  obtain ⟨m₁, hm₁, hword⟩ := (hm.newline b).reaches_name
    (e := e.past [.kept f.gap] (f.name ++ (wholeText f.behindName ++ rest))) f.isWord rfl
    (f.stops_behindName rest) (f.followsName rest)
  have hfront : Reaches (e.enter (.code m))
      ((e.past [.kept (f.gap ++ f.name)] (wholeText f.behindName ++ rest)).enter (.code m₁)) :=
    (hgap.andThen fun _ => hword).regroup (by simp) (by simp) rfl
  obtain ⟨m', hm', hbehind⟩ := f.reaches_behindName hm₁
    (e := e.past [.kept (f.gap ++ f.name)] (wholeText f.behindName ++ rest)) rfl
  exact ⟨m', hm', hfront.andThen fun _ => hbehind⟩

end ClassField

theorem reaches_fields (fs : List ClassField) (hm : InBody base m)
    (h : e.rest = wholeText (fs.flatMap ClassField.pieces) ++ rest) :
    ∃ m', InBody base m' ∧ Reaches (e.enter (.code m))
      ((e.past (fs.flatMap ClassField.pieces) rest).enter (.code m')) := by
  induction fs generalizing e m with
  | nil =>
    have h : e.rest = rest := h
    subst h
    exact ⟨m, hm, .refl _⟩
  | cons f fs ih =>
    rw [List.flatMap_cons, wholeText_append, List.append_assoc] at h
    obtain ⟨m₁, hm₁, hfield⟩ := f.reaches_field hm h
    obtain ⟨m', hm', hfields⟩ := ih hm₁
      (e := e.past f.pieces (wholeText (fs.flatMap ClassField.pieces) ++ rest)) rfl
    exact ⟨m', hm', hfield.andThen fun _ => hfields⟩

theorem InBody.reaches_bodyEnd (hm : InBody base m) {last : Text}
    (hlast : ∀ c ∈ last, isGapChar c = true) (h : e.rest = last ++ '\x7d' :: rest) :
    Reaches (e.enter (.code m)) ((e.past [.kept (last ++ ['\x7d'])] rest).enter
      (.code ({ base with header := false }.next (.sign '\x7d')))) := by
  obtain ⟨b, hgap⟩ := reaches_gap (m := m) hlast h
  have houter : ({ m with newline := b } : CodeMode).outer ≠ [] := by
    show m.outer ≠ []
    rw [hm.outer]
    exact List.cons_ne_nil _ _
  have hpop : ({ m with newline := b } : CodeMode).pop.next (.sign '\x7d')
      = { base with header := false }.next (.sign '\x7d') := by
    simp [CodeMode.pop, CodeMode.next, hm.outer, hm.header]
  have hbrace := hgap.andThen fun h => reaches_close_curly h houter
  rw [hpop] at hbrace
  exact hbrace.regroup (by simp) (by simp) rfl

end Bodies

/-! ### Classes -/

/-- A class with fields, and blanks in front of the closing brace. -/
structure ClassDecl where
  header : ClassHeader
  fields : List ClassField
  last : Text
  isGap : ∀ c ∈ last, FreeForm.isGapChar c = true

namespace ClassDecl

variable (c : ClassDecl)

def text : Text :=
  c.header.text ++ '{' :: (c.fields.flatMap ClassField.text ++ (c.last ++ ['\x7d']))

/-- The class without its types. -/
def kept : Text :=
  c.header.kept ++ '{' :: (c.fields.flatMap ClassField.kept ++ (c.last ++ ['\x7d']))

def pieces : List Piece :=
  c.header.pieces ++ [.kept ['{']] ++
    (c.fields.flatMap ClassField.pieces ++ [.kept (c.last ++ ['\x7d'])])

theorem wholeText_fields (fs : List ClassField) :
    wholeText (fs.flatMap ClassField.pieces) = fs.flatMap ClassField.text := by
  induction fs with
  | nil => rfl
  | cons f fs ih =>
    rw [List.flatMap_cons, List.flatMap_cons, wholeText_append, f.wholeText_pieces, ih]

theorem keptText_fields (fs : List ClassField) :
    keptText (fs.flatMap ClassField.pieces) = fs.flatMap ClassField.kept := by
  induction fs with
  | nil => rfl
  | cons f fs ih =>
    rw [List.flatMap_cons, List.flatMap_cons, keptText_append, f.keptText_pieces, ih]

theorem wholeText_pieces : wholeText c.pieces = c.text := by
  simp [pieces, text, wholeText_fields, ClassHeader.wholeText_pieces]

theorem keptText_pieces : keptText c.pieces = c.kept := by
  simp [pieces, kept, keptText_fields, ClassHeader.keptText_pieces]

variable {c} (hplain : c.header.Plain)

include hplain

/-- **The header of a class is kept without its types, and the brace behind it opens the body of the
class**, in which each field is kept without its type.  Steps lead into the body from everywhere but
behind a dot, whatever is behind the brace. -/
theorem eraseTypes_class :
    (∀ (e : Eraser) (m : CodeMode) (tail : Text), m.previous ≠ .sign '.' →
      e.rest = c.header.text ++ '{' :: tail →
      Eraser.Reaches (e.enter (.code m))
        ((e.past (c.header.pieces ++ [.kept ['{']]) tail).enter (.code m.classBody))) ∧
    eraseTypes c.text = .ok ⟨c.kept, ⟨(removals c.pieces).reverse⟩⟩ := by
  refine ⟨fun e m tail hprevious hrest =>
    c.header.reaches_body hplain hprevious (by rw [hrest, c.header.wholeText_pieces]), ?_⟩
  rw [← c.wholeText_pieces, ← c.keptText_pieces]
  let code := wholeText c.pieces
  let body := c.fields.flatMap ClassField.pieces
  let tail := wholeText body ++ (c.last ++ ['\x7d'])
  have hcode : (Eraser.bare code).rest = wholeText c.header.pieces ++ '{' :: tail := by
    simp [Eraser.bare, code, tail, body, pieces]
  have hheader := c.header.reaches_body hplain (m := {}) (by decide) hcode
  let inside := (Eraser.bare code).past (c.header.pieces ++ [.kept ['{']]) tail
  have hinside : inside.rest = wholeText body ++ (c.last ++ ['\x7d']) := rfl
  obtain ⟨m, hm, hfields⟩ := reaches_fields c.fields (inBody_classBody {}) hinside
  have hbody := hheader.andThen fun _ => hfields
  have hlast : c.last ++ ['\x7d'] = c.last ++ '\x7d' :: [] := rfl
  have hend := hbody.andThen fun h => hm.reaches_bodyEnd c.isGap (h.trans hlast)
  refine eraseTypes_eq_of_reaches (hend.regroup ?_ ?_ ?_) <;> simp [pieces]

end ClassDecl

/-- An abstract class with everything in its header, a comment included, and braces in its lists. -/
theorem eraseTypes_class_box :
    eraseTypes ("abstract class Box<K, V = \x7b a: 1 \x7d> /* see (1) */ ".toList ++
        ("extends lib.Base<\x7b k: K \x7d> implements I<K> ".toList ++
          "\x7b\n  size: K;\n  last;\n\x7d".toList))
      = .ok ⟨"class Box /* see (1) */ extends lib.Base \x7b\n  size;\n  last;\n\x7d".toList,
          ⟨[.fieldType, .implementsClause, .classParameters, .classParameters,
            .abstractModifier]⟩⟩ := by
  let blank : Filler := .blank ' ' (by decide)
  let comment : Comment := .block " see (1) ".toList (by decide)
  let key : ParameterName := ⟨"K".toList, isWord_of_all rfl (by decide), by decide⟩
  let value : ParameterName := ⟨"V".toList, isWord_of_all rfl (by decide), by decide⟩
  let braces (body : Text) (balanced : leave [.group .curly] (body ++ ['\x7d']) = some []) : TypeTree :=
    .group ⟨.curly, body, balanced⟩
  let declared : ParameterTrees :=
    .cons (.bare key) (.last (.defaulted value (braces " a: 1 ".toList (by decide +kernel))) false)
  let arguments : ArgumentTrees := .last (braces " k: K ".toList (by decide +kernel)) false
  let keyType := TypeName.plain "K".toList (isWord_of_all rfl (by decide)) (by decide)
  let base : TypePath := ⟨"lib".toList, ["Base".toList], isWord_of_all rfl (by decide), by
    intro w hw
    rw [List.mem_singleton.mp hw]
    exact isWord_of_all rfl (by decide)⟩
  let header : ClassHeader :=
    { gap := [' ']
      name := "Box".toList
      ne_nil := space_ne_nil
      blank := allBlank_space
      isWord := isWord_of_all rfl (by decide)
      abstractGap := some [' ']
      list := some ⟨[], declared.text, declared.typeText⟩
      heritage := some ⟨[blank, .comment comment, blank], [blank], base,
        some ⟨[], arguments.text, arguments.typeText⟩, by simp, by simp⟩
      last := [blank]
      implemented := some " I<K> ".toList
      blankAbstract := by
        rintro g ⟨⟩
        exact ⟨by decide, allBlank_space⟩
      last_ne := by simp
      apart := by
        rintro t ⟨⟩
        decide }
  let size : ClassField :=
    { gap := ['\n', ' ', ' ']
      name := "size".toList
      annotation := some
        { before := []
          space := [' ']
          type := (TypeTree.name keyType).text
          isGap := by simp
          blankSpace := allBlank_space
          isType := (TypeTree.name keyType).typeText.toWhole }
      space := []
      isWord := isWord_of_all rfl (by decide)
      isGap := by simp [FreeForm.isGapChar] }
  let last : ClassField :=
    { gap := ['\n', ' ', ' ']
      name := "last".toList
      annotation := none
      space := []
      isWord := isWord_of_all rfl (by decide)
      isGap := by simp [FreeForm.isGapChar] }
  let c : ClassDecl := ⟨header, [size, last], ['\n'], by simp [FreeForm.isGapChar]⟩
  have hquiet : Quiet [blank, .comment comment, blank] := by
    intro k hk
    obtain rfl : k = comment := by simpa [blank] using hk
    let brackets : BracketGroup := ⟨.round, ['1'], by decide⟩
    have hend : HeaderText [] [' ', '*', '/'] := .sign rfl (by simp) (.sign rfl (by simp)
      (.sign rfl (by simp) .nil))
    have hbehind : HeaderText [] (' ' :: (brackets.text ++ [' ', '*', '/'])) :=
      .sign rfl (by simp) (.group brackets rfl hend)
    have hword : HeaderText [] ("see".toList ++ ' ' :: (brackets.text ++ [' ', '*', '/'])) :=
      .word (isWord_of_all rfl (by decide)) (by decide) (Text.stops_cons.mpr rfl) hbehind
    have hcomment : HeaderText [] ('/' :: '*' :: ' ' ::
        ("see".toList ++ ' ' :: (brackets.text ++ [' ', '*', '/']))) :=
      .sign rfl (by simp) (.sign rfl (by simp) (.sign rfl (by simp) hword))
    have htext : comment.text
        = '/' :: '*' :: ' ' :: ("see".toList ++ ' ' :: (brackets.text ++ [' ', '*', '/'])) := by
      decide +kernel
    rwa [htext]
  have hblank : ∀ {g : Gap}, g = [] ∨ g = [blank] → Quiet g := by
    rintro g (rfl | rfl) k hk <;> simp [blank] at hk
  have hplain : c.header.Plain := by
    refine ⟨by decide, ?_, ?_, hblank (Or.inr rfl), ?_⟩
    · rintro l ⟨⟩
      exact hblank (Or.inl rfl)
    · rintro e ⟨⟩
      refine ⟨by decide, hquiet, hblank (Or.inr rfl), ?_⟩
      rintro l ⟨⟩
      exact hblank (Or.inl rfl)
    · rintro t ⟨⟩
      decide
  have herase := (ClassDecl.eraseTypes_class hplain).2
  have htext : c.text = "abstract class Box<K, V = \x7b a: 1 \x7d> /* see (1) */ ".toList ++
      ("extends lib.Base<\x7b k: K \x7d> implements I<K> ".toList ++
        "\x7b\n  size: K;\n  last;\n\x7d".toList) := by
    decide +kernel
  have hkept : c.kept
      = "class Box /* see (1) */ extends lib.Base \x7b\n  size;\n  last;\n\x7d".toList := by
    decide +kernel
  rw [htext, hkept] at herase
  exact herase

end LivePreview.Erasure

/-
What an enum is converted to.

The body of an enum ends at its brace and its members at their commas, whatever their strings,
templates and comments hold.  So one property is written for each member, in order: under the name
that the key denotes, with the text of its initialiser or the value that is counted for it.  What is
behind the enum is erased on its own.

What is asked of the members for this is `Sound`.  A key in quotes that holds an `=` is cut there,
one that starts or ends with a quote of the other kind loses it, and a template that holds what
looks like a comment, or hides one behind it, is not kept as it is.
-/
import LivePreview.Proofs.Erasure.EnumMembers
import LivePreview.Proofs.Erasure.Resumption

namespace LivePreview

open Script
open Text (Stops)

/-! ### Bodies -/

namespace EnumObject

/-- What stands behind the last comma of a body. -/
inductive BodyEnd where
  | member (m : WrittenMember)
  | gap (g : Gap)

/-- The body of an enum: members with a comma behind them, and what stands behind the last comma. -/
structure EnumBody where
  listed : List WrittenMember
  last : BodyEnd

def BodyEnd.text : BodyEnd → Text
  | .member m => m.text
  | .gap g => g.text

def BodyEnd.members : BodyEnd → List WrittenMember
  | .member m => [m]
  | .gap _ => []

/-- Members with a comma behind each. -/
def listedText (ms : List WrittenMember) : Text := ms.flatMap fun m => m.text ++ [',']

theorem listedText_cons (m : WrittenMember) (ms : List WrittenMember) (s : Text) :
    listedText (m :: ms) ++ s = m.text ++ ',' :: (listedText ms ++ s) := by
  simp [listedText]

namespace EnumBody

variable (b : EnumBody)

def text : Text := listedText b.listed ++ b.last.text

def members : List WrittenMember := b.listed ++ b.last.members

theorem passed_last : Passed b.last.text := by
  cases b.last with
  | member m => exact m.passed
  | gap g => exact .gap g

/-- The body is left at its brace. -/
theorem leave_text (s : Text) : leave [.group .curly] (b.text ++ s) = leave [.group .curly] s := by
  have hlast : leave [.group .curly] (b.last.text ++ s) = leave [.group .curly] s :=
    b.passed_last.leave s
  rw [text, List.append_assoc, ← hlast]
  induction b.listed with
  | nil => rfl
  | cons m ms ih =>
    rw [listedText_cons, m.passed.leave, leave_group_char (by decide), ih]

theorem splitTopLevel_text :
    splitTopLevel ',' b.text = b.listed.map WrittenMember.text ++ [b.last.text] := by
  have hlast : partsBehind [] b.last.text = [b.last.text] := by
    have hparts := b.passed_last.parts [] []
    rw [List.append_nil, List.append_nil] at hparts
    rw [hparts, partsBehind_nil, List.reverse_reverse]
  show partsBehind [] b.text = _
  rw [text]
  induction b.listed with
  | nil => exact hlast
  | cons m ms ih =>
    rw [listedText_cons, m.passed.parts, partsBehind_comma, ih]
    simp

/-- Nothing is read of blanks and comments. -/
theorem read?_gap (g : Gap) : Member.read? g.text = none := by
  have hstrip : withoutComments g.text = g.blanks := by
    have hgap := Strips.gap g []
    rwa [List.append_nil, show withoutComments [] = [] from rfl, List.append_nil] at hgap
  have htrim : Text.trim (withoutComments g.text) = [] := by
    have h := Text.trimBy_append (u := g.blanks) (t := []) (v := []) g.isSpace_blanks (by simp)
      (Text.stops_nil _) (Text.stops_nil _)
    rwa [List.append_nil, List.append_nil, ← hstrip] at h
  unfold Member.read?
  simp [htrim]

/-- The members of the body are read, and nothing else. -/
theorem filterMap_read? (hsound : ∀ m ∈ b.members, m.Sound) :
    (splitTopLevel ',' b.text).filterMap Member.read? = b.members.map WrittenMember.read := by
  have hread : ∀ ms : List WrittenMember, (∀ m ∈ ms, m.Sound) →
      (ms.map WrittenMember.text).filterMap Member.read? = ms.map WrittenMember.read := by
    intro ms hms
    rw [List.filterMap_map, ← List.filterMap_eq_map]
    exact List.filterMap_congr fun m hm => WrittenMember.read?_text (hms m hm)
  have hlisted := hread b.listed fun m hm => hsound m (List.mem_append_left _ hm)
  rw [splitTopLevel_text, List.filterMap_append, hlisted, members, List.map_append]
  congr 1
  cases hlast : b.last with
  | member m =>
    exact hread [m] fun x hx => hsound x (List.mem_append_right _ (by rw [hlast]; exact hx))
  | gap g => simp [BodyEnd.text, BodyEnd.members, read?_gap]

/-- The object for an enum with this name. -/
def object (name : Text) : Text :=
  "const ".toList ++ name ++ " = \x7b ".toList ++
    Text.join ", ".toList (propertiesFrom (some 0) b.members) ++ " \x7d;".toList

theorem stops_object (name : Text) : Stops isInline (b.object name).reverse := by
  have hclose : " \x7d;".toList = [' ', '\x7d', ';'] := by decide
  have hstop : Stops isInline [' ', '\x7d', ';'].reverse := Text.stops_cons.mpr (by decide)
  unfold object
  rw [hclose]
  exact stops_reverse_append (List.cons_ne_nil _ _) hstop _

theorem render_text (hsound : ∀ m ∈ b.members, m.Sound) (hcounted : Counted (some 0) b.members)
    (name : Text) : render name b.text = .ok (b.object name) := by
  rw [render, filterMap_read? b hsound, properties_read hcounted]
  rfl

end EnumBody

end EnumObject

/-! ### Enums -/

namespace Erasure

open EnumObject

/-- The words in front of the name of an enum. -/
inductive EnumOpening : Text → Prop where
  | plain : EnumOpening "enum".toList
  | const {gap : Text} (ne_nil : gap ≠ []) (blank : AllBlank gap) :
    EnumOpening ("const".toList ++ (gap ++ "enum".toList))

theorem EnumOpening.enumKeyword {w : Text} (h : EnumOpening w) (d : DeclaredName) (s : Text) :
    EnumKeyword (d.text w ++ s) (d.name ++ s) := by
  have henum : IsWord "enum".toList := isWord_of_all rfl (by decide)
  have hident : ident ("enum".toList ++ (d.gap ++ (d.name ++ s))) = "enum".toList :=
    henum.ident_append d.stops_isIdentChar_gap
  have hname : Text.skipBlanks (skipIdent ("enum".toList ++ (d.gap ++ (d.name ++ s))))
      = d.name ++ s := by
    rw [henum.skipIdent_append d.stops_isIdentChar_gap, d.skipBlanks_gap]
  rw [d.text_append]
  cases h with
  | plain =>
    have hkeyword := EnumKeyword.plain hident
    rwa [hname] at hkeyword
  | @const gap hne hgap =>
    -- the keyword reads like the declaration of a name `enum`
    let word : DeclaredName := ⟨gap, "enum".toList, hne, hgap, henum⟩
    have hconst : IsWord "const".toList := isWord_of_all rfl (by decide)
    have hnext : Text.skipBlanks (skipIdent
        ("const".toList ++ (gap ++ ("enum".toList ++ (d.gap ++ (d.name ++ s))))))
          = "enum".toList ++ (d.gap ++ (d.name ++ s)) := by
      rw [hconst.skipIdent_append word.stops_isIdentChar_gap]
      exact word.skipBlanks_gap
    have hkeyword := EnumKeyword.const (s := "const".toList ++ (gap ++ ("enum".toList ++
      (d.gap ++ (d.name ++ s))))) (hconst.ident_append word.stops_isIdentChar_gap)
        (by rw [hnext]; exact hident)
    rw [hnext, hname] at hkeyword
    rwa [List.append_assoc, List.append_assoc]

/-- An enum. -/
structure EnumDecl extends DeclaredName where
  opening : Text
  space : Text
  body : EnumBody
  isOpening : EnumOpening opening
  blankSpace : AllBlank space

namespace EnumDecl

variable (d : EnumDecl) (tail : Text)

/-- What stands behind the name, up to the end of the code. -/
def behindName : Text := d.space ++ '{' :: (d.body.text ++ '\x7d' :: tail)

/-- The enum, and a text behind it. -/
def before : Text := d.text d.opening ++ d.behindName tail

theorem skipBlanks_behindName :
    Text.skipBlanks (d.behindName tail) = '{' :: (d.body.text ++ '\x7d' :: tail) := by
  rw [behindName, skipBlanks_append d.blankSpace, Text.skipBlanks_cons (by decide)]

theorem stops_behindName : Stops isIdentChar (d.behindName tail) :=
  d.blankSpace.stops_append (fun _ => isBlank_eq_false_of_identChar) (Text.stops_cons.mpr (by decide))

/-- The name is found behind the keyword. -/
theorem enumKeyword : EnumKeyword (d.before tail) (d.name ++ d.behindName tail) :=
  d.isOpening.enumKeyword d.toDeclaredName (d.behindName tail)

variable {d} (hsound : ∀ m ∈ d.body.members, m.Sound) (hcounted : Counted (some 0) d.body.members)

include hsound hcounted

theorem convertEnum?_before (e : Eraser) : e.convertEnum? (d.name ++ d.behindName tail)
    = .ok (some ((e.write (d.body.object d.name)).erase .enumDecl (skipSemicolon tail))) := by
  have hstop := d.stops_behindName tail
  have hstarts : startsIdent (d.name ++ d.behindName tail) = true := d.isWord.startsIdent
  have hbody : Text.skipBlanks (skipIdent (d.name ++ d.behindName tail))
      = '{' :: (d.body.text ++ '\x7d' :: tail) := by
    rw [d.isWord.skipIdent_append hstop, d.skipBlanks_behindName]
  have hgroup : afterGroup? ('{' :: (d.body.text ++ '\x7d' :: tail)) = some tail := by
    show leave [.group .curly] (d.body.text ++ '\x7d' :: tail) = some tail
    rw [d.body.leave_text]
    simp [leave, isQuote, Bracket.opened?, Bracket.closed?]
  have hpieces : '{' :: (d.body.text ++ '\x7d' :: tail)
      = ('{' :: (d.body.text ++ ['\x7d'])) ++ tail := by simp
  have hinside : (Text.consumed ('{' :: (d.body.text ++ '\x7d' :: tail)) tail).tail.dropLast
      = d.body.text := by
    rw [hpieces, Text.consumed_append, List.tail_cons, List.dropLast_concat]
  have hopen : startsWithChar '{' ('{' :: (d.body.text ++ '\x7d' :: tail)) = true := rfl
  unfold Eraser.convertEnum?
  simp only [hstarts, hbody, hopen, hgroup, hinside, d.isWord.ident_append hstop,
    EnumBody.render_text _ hsound hcounted, Bool.not_true, Bool.false_eq_true, if_false]
  rfl

/-- **Wherever a statement may start, one step converts an enum.** -/
theorem step_before {e : Eraser} {m : CodeMode} (h : e.rest = d.before tail)
    (hstatement : m.previous.statementMayStart m.newline = true) :
    (e.enter (.code m)).step = .ok
      (((e.write (d.body.object d.name)).erase .enumDecl (skipSemicolon tail)).inCode m
        (.sign ';')) := by
  have hkeyword : EnumKeyword e.rest (d.name ++ d.behindName tail) := h ▸ d.enumKeyword tail
  obtain ⟨c, s, hcs, hc⟩ := hkeyword.exists_cons
  have hslash : c ≠ '/' := by
    rintro rfl
    exact absurd hc (by decide)
  rw [Eraser.step_code hcs, Eraser.stepCode_eq_stepToken
    (isBlank_eq_false_of_identChar (isIdentChar_of_start hc)) hslash]
  unfold Eraser.stepToken
  rw [if_pos hc, Eraser.stepWord_enum hkeyword d.isWord.startsIdent hstatement,
    convertEnum?_before tail hsound hcounted]
  rfl

/-- **An enum is converted to an object with one property for each member, in order.**  The name of
a property denotes what the key denotes, and its value is the initialiser as it is written, or what
is counted for the member.  This is one step wherever a statement may start, and behind an enum at
the start of a text the rest is erased on its own. -/
theorem eraseTypes_enum :
    (∀ m ∈ d.body.members, propertyOf? (propertyName m.key.text) = some m.key.denoted) ∧
    (∀ (e : Eraser) (m : CodeMode), e.rest = d.before tail →
      m.previous.statementMayStart m.newline = true →
      (e.enter (.code m)).step = .ok
        (((e.write (d.body.object d.name)).erase .enumDecl (skipSemicolon tail)).inCode m
          (.sign ';'))) ∧
    eraseTypes (d.before tail) = (eraseTypes (skipSemicolon tail)).map fun x =>
      x.behind (d.body.object d.name) [.enumDecl] := by
  refine ⟨fun m hm => WrittenKey.propertyOf?_propertyName (hsound m hm).key,
    fun e m h hstatement => step_before tail hsound hcounted h hstatement, ?_⟩
  let base := ((Eraser.bare (d.before tail)).write (d.body.object d.name)).erase .enumDecl
    (skipSemicolon tail)
  have hrest : (Eraser.bare (d.before tail)).rest = d.before tail := rfl
  have hstatement : Previous.nothing.statementMayStart true = true := rfl
  have hstep := step_before (m := {}) tail hsound hcounted hrest hstatement
  have hlt : (skipSemicolon tail).length < (d.before tail).length := by
    have hle := (suffix_skipSemicolon tail).length_le
    simp only [before, behindName, List.length_append, List.length_cons]
    omega
  have hout : base.out = (d.body.object d.name).reverse := by
    show (d.body.object d.name).reverse ++ [] = _
    rw [List.append_nil]
  have hlast : Stops isInline base.out := hout ▸ d.body.stops_object d.name
  have heq := eraseTypes_behind (.one hstep hlt) (show base.modes = [] from rfl) ⟨Or.inr rfl, rfl⟩
    ⟨rfl, rfl, rfl⟩ hlast
  rw [hout, List.reverse_reverse] at heq
  exact heq

end EnumDecl

/-- A word as a key. -/
def wordKey {w : Text} (hw : IsWord w) : WrittenKey :=
  .name w hw.ne_nil fun c hc => isKeyChar_of_isIdentChar (hw.identChars c hc)

/-- An enum with values of all kinds, and comments in front of, inside of and behind its members. -/
theorem eraseTypes_enum_levels :
    eraseTypes ("const enum Level \x7b // lowest first\n Low, \"mid one\" = /*!*/ 5, ".toList ++
        "High /* next */, Text = \x60a, b\x60, \x7d; x".toList)
      = .ok ⟨"const Level = \x7b Low: 0, \"mid one\": 5, High: 6, Text: \x60a, b\x60 \x7d; x".toList,
          ⟨[.enumDecl]⟩⟩ := by
  let blank : Filler := .blank ' ' (by decide)
  let low : WrittenMember :=
    { before := [blank, .comment (.line " lowest first".toList (by decide)), blank]
      key := wordKey (w := "Low".toList) (isWord_of_all rfl (by decide))
      init := none
      after := [] }
  let middle : WrittenMember :=
    { before := [blank]
      key := .quoted ⟨'"', "mid one".toList, by decide, by decide⟩ (by decide)
      init := some ⟨[blank], [blank, .comment (.block ['!'] (by decide)), blank],
        .number ⟨.none, ['5'], by decide, by simp [isAsciiDigit]⟩⟩
      after := [] }
  let high : WrittenMember :=
    { before := [blank]
      key := wordKey (w := "High".toList) (isWord_of_all rfl (by decide))
      init := none
      after := [blank, .comment (.block " next ".toList (by decide))] }
  let text : WrittenMember :=
    { before := [blank]
      key := wordKey (w := "Text".toList) (isWord_of_all rfl (by decide))
      init := some ⟨[blank], [blank], .template ⟨"a, b".toList, by decide⟩⟩
      after := [] }
  let d : EnumDecl :=
    { gap := [' ']
      name := "Level".toList
      ne_nil := space_ne_nil
      blank := allBlank_space
      isWord := isWord_of_all rfl (by decide)
      opening := "const enum".toList
      space := [' ']
      body := ⟨[low, middle, high, text], .gap [blank]⟩
      isOpening := @EnumOpening.const [' '] (by decide) allBlank_space
      blankSpace := allBlank_space }
  have hsound : ∀ m ∈ d.body.members, m.Sound := by
    intro m hm
    have hcases : m = low ∨ m = middle ∨ m = high ∨ m = text := by
      simpa [d, EnumBody.members, BodyEnd.members] using hm
    rcases hcases with rfl | rfl | rfl | rfl
    · exact ⟨trivial, by rintro a ⟨⟩⟩
    · refine ⟨⟨by decide, by decide, by decide, by decide⟩, ?_⟩
      rintro a ⟨⟩ t ⟨⟩
    · exact ⟨trivial, by rintro a ⟨⟩⟩
    · refine ⟨trivial, ?_⟩
      rintro a ⟨⟩ t ⟨⟩
      exact Or.inr ⟨by decide, by rintro k ⟨⟩⟩
  have hcounted : Counted (some 0) d.body.members := by decide
  have herase := (EnumDecl.eraseTypes_enum (d := d) "; x".toList hsound hcounted).2.2
  have htext : d.before "; x".toList
      = "const enum Level \x7b // lowest first\n Low, \"mid one\" = /*!*/ 5, ".toList ++
        "High /* next */, Text = \x60a, b\x60, \x7d; x".toList := by
    decide +kernel
  have hobject : d.body.object d.name
      = "const Level = \x7b Low: 0, \"mid one\": 5, High: 6, Text: \x60a, b\x60 \x7d;".toList := by
    decide +kernel
  have hbehind : eraseTypes (skipSemicolon "; x".toList) = .ok ⟨" x".toList, ⟨[]⟩⟩ := by
    decide +kernel
  rw [htext, hobject, hbehind] at herase
  rw [herase]
  decide +kernel

end Erasure

end LivePreview

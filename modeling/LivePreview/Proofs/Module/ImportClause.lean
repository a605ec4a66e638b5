/-
Clauses of imports, and what they bind.

A clause names a default, a namespace or a list of specifiers, and it may be laid out over lines.
It is read by cutting alone: at the braces, at the commas and at blanks.  Whatever blanks stand
between its words, the parts come out as they went in, so names that look like the words of a clause
are no trouble there: `as` and `from` can be names, and `* as as` binds `as`.

The word `type` is.  It is taken for the mark of an import of types, in front of a clause if a blank
stands behind it and in front of a specifier if a space does, and no reader asks if it is a name.
`ImportClause.binding` says what a clause binds, and `ImportClause.decoded` what is read.
-/
import LivePreview.Proofs.Module.LayoutReading

namespace LivePreview

open Text (Stops)

variable {s t u w : Text} {c : Char}

/-! ### Texts between blanks -/

namespace Text

/-- Text with no blank at its ends. -/
structure Tight (w : Text) : Prop where
  ne_nil : w ≠ []
  first : Stops isSpace w
  last : Stops isSpace w.reverse

theorem tight_of_noSpace (hne : w ≠ []) (h : ∀ c ∈ w, isSpace c = false) : Tight w where
  ne_nil := hne
  first c hc := h c (List.mem_of_mem_head? hc)
  last c hc := h c (List.mem_reverse.mp (List.mem_of_mem_head? hc))

/-- A word that is written out has no blank by computation. -/
theorem noSpace_of_all (h : (w.all fun c => !isSpace c) = true) : ∀ c ∈ w, isSpace c = false :=
  fun c hc => by simpa using List.all_eq_true.mp h c hc

theorem Tight.append (hu : Tight u) (hw : Tight w) (s : Text) : Tight (u ++ (s ++ w)) where
  ne_nil := List.append_ne_nil_of_left_ne_nil hu.ne_nil _
  first := by
    intro c hc
    rw [List.head?_append_of_ne_nil _ hu.ne_nil] at hc
    exact hu.first c hc
  last := by
    intro c hc
    have hne : w.reverse ≠ [] := mt List.reverse_eq_nil_iff.mp hw.ne_nil
    rw [List.reverse_append, List.reverse_append, List.append_assoc,
      List.head?_append_of_ne_nil _ hne] at hc
    exact hw.last c hc

theorem Tight.trim_eq (h : Tight w) : trim w = w := by
  have htrim := trimBy_append (u := []) (v := []) nofun nofun h.first h.last
  rwa [List.nil_append, List.append_nil] at htrim

end Text

namespace Module

open Script
open Text (Tight)

/-- Blanks of any kind, line ends among them. -/
structure Blanks where
  text : Text
  blank : ∀ c ∈ text, isSpace c = true

/-- Blanks, and at least one. -/
structure Space extends Blanks where
  ne_nil : text ≠ []

/-- No blanks. -/
def Blanks.none : Blanks := ⟨[], nofun⟩

theorem Space.exists_cons (g : Space) : ∃ c b, g.text = c :: b ∧ isSpace c = true := by
  cases htext : g.text with
  | nil => exact absurd htext g.ne_nil
  | cons c b => exact ⟨c, b, rfl, g.blank c (by rw [htext]; exact List.mem_cons_self)⟩

theorem Blanks.trim_eq (g g' : Blanks) (h : Tight w) : Text.trim (g.text ++ (w ++ g'.text)) = w :=
  Text.trimBy_append g.blank g'.blank h.first h.last

theorem Blanks.trim_front (g : Blanks) (h : Tight w) : Text.trim (g.text ++ w) = w := by
  have htrim := g.trim_eq Blanks.none h
  rwa [Blanks.none, List.append_nil] at htrim

theorem Blanks.trim_nil (g : Blanks) : Text.trim g.text = [] := by
  rw [Text.trim, Text.trimBy, List.dropWhile_eq_nil_iff.mpr g.blank]
  rfl

theorem Blanks.skipSpaces_append (g : Blanks) (h : Stops isSpace s) :
    Text.skipSpaces (g.text ++ s) = s :=
  Text.dropWhile_append g.blank h

theorem Space.spaces?_append (g : Space) (h : Stops isSpace s) :
    Text.spaces? (g.text ++ s) = some s := by
  have hskip := g.skipSpaces_append h
  obtain ⟨c, b, htext, hc⟩ := g.exists_cons
  rw [htext, List.cons_append] at hskip ⊢
  rw [Text.skipSpaces, List.dropWhile_cons_of_pos hc] at hskip
  rw [Text.spaces?, if_pos hc, Text.skipSpaces, hskip]

theorem Blanks.words_append (g : Blanks) (s : Text) : Text.words (g.text ++ s) = Text.words s := by
  obtain ⟨text, blank⟩ := g
  induction text with
  | nil => rfl
  | cons c text ih =>
    obtain ⟨hc, htext⟩ := List.forall_mem_cons.mp blank
    rw [List.cons_append, Text.words_space hc]
    exact ih htext

/-- Blanks end a word. -/
theorem Space.words_append (g : Space) (hne : w ≠ []) (hw : ∀ c ∈ w, isSpace c = false) (s : Text) :
    Text.words (w ++ (g.text ++ s)) = w :: Text.words s := by
  obtain ⟨⟨text, blank⟩, ne_nil⟩ := g
  cases text with
  | nil => exact absurd rfl ne_nil
  | cons c text =>
    obtain ⟨hc, htext⟩ := List.forall_mem_cons.mp blank
    rw [List.cons_append, Text.words_append_cons hne hw hc]
    exact congrArg (w :: ·) (Blanks.words_append ⟨text, htext⟩ s)

theorem isClauseChar_of_isIdentChar (h : isIdentChar c = true) : isClauseChar c = true := by
  rw [isClauseChar, isNameChar_of_isIdentChar h]
  rfl

theorem Blanks.isClauseChar (g : Blanks) : ∀ c ∈ g.text, Module.isClauseChar c = true :=
  fun c hc => isClauseChar_of_isSpace (g.blank c hc)

theorem Identifier.isClauseChar (x : Identifier) : ∀ c ∈ x.text, Module.isClauseChar c = true :=
  fun c hc => isClauseChar_of_isIdentChar (x.isIdentChar c hc)

theorem Blanks.not_mem (g : Blanks) (hc : isSpace c = false) : c ∉ g.text := by
  intro hmem
  rw [g.blank c hmem] at hc
  exact Bool.noConfusion hc

theorem Identifier.tight (x : Identifier) : Tight x.text := Text.tight_of_noSpace x.ne_nil x.noSpace

theorem Identifier.not_mem (x : Identifier) (hc : Script.isIdentChar c = false) : c ∉ x.text := by
  intro hmem
  rw [x.isIdentChar c hmem] at hc
  exact Bool.noConfusion hc

/-! ### Specifiers -/

/-- The name of an export: letters, digits, `_` and `$`. -/
structure ExportName where
  text : Text
  ne_nil : text ≠ []
  isName : ∀ c ∈ text, isNameChar c = true

theorem ExportName.noSpace (n : ExportName) : ∀ c ∈ n.text, isSpace c = false := by
  intro c hc
  by_contra hspace
  have hname := Layout.isNameChar_of_isSpace (Bool.eq_true_of_not_eq_false hspace)
  rw [n.isName c hc] at hname
  exact Bool.noConfusion hname

theorem ExportName.tight (n : ExportName) : Tight n.text := Text.tight_of_noSpace n.ne_nil n.noSpace

/-- A specifier in a list of imports. -/
inductive Specifier where
  | same (name : Identifier)
  | renamed (imported : ExportName) (before behind : Space) (name : Identifier)

namespace Specifier

/-- The text of a specifier. -/
def text : Specifier → Text
  | same name => name.text
  | renamed imported before behind name =>
    imported.text ++ (before.text ++ ("as".toList ++ (behind.text ++ name.text)))

/-- The imported name and the local name. -/
def pair : Specifier → Text × Text
  | same name => (name.text, name.text)
  | renamed imported _ _ name => (imported.text, name.text)

/-- True of a specifier that is taken for one of a type: it renames `type`, and a space comes
next. -/
def isDropped : Specifier → Bool
  | same _ => false
  | renamed imported before _ _ => imported.text == "type".toList && before.text.head? == some ' '

theorem tight (i : Specifier) : Tight i.text := by
  cases i with
  | same name => exact name.tight
  | renamed imported before behind name =>
    have htext : (renamed imported before behind name).text
        = imported.text ++ ((before.text ++ ("as".toList ++ behind.text)) ++ name.text) := by
      simp only [text, List.append_assoc]
    rw [htext]
    exact imported.tight.append name.tight _

theorem isClauseChar (i : Specifier) : ∀ c ∈ i.text, Module.isClauseChar c = true := by
  cases i with
  | same name => exact name.isClauseChar
  | renamed imported before behind name =>
    intro c hc
    simp only [text, List.mem_append] at hc
    obtain hc | hc | hc | hc | hc := hc
    · rw [Module.isClauseChar, imported.isName c hc]
      rfl
    · exact before.isClauseChar c hc
    · exact List.all_eq_true.mp (by decide : "as".toList.all Module.isClauseChar = true) c hc
    · exact behind.isClauseChar c hc
    · exact name.isClauseChar c hc

theorem noComma (i : Specifier) : ',' ∉ i.text := by
  cases i with
  | same name => exact name.not_mem rfl
  | renamed imported before behind name =>
    have hname : ',' ∉ imported.text := fun hmem => absurd (imported.isName ',' hmem) (by decide)
    simp only [text, List.mem_append, not_or]
    exact ⟨hname, before.not_mem rfl, by decide, behind.not_mem rfl, name.not_mem rfl⟩

end Specifier

/-! ### Clauses -/

/-- A specifier with the blanks around it. -/
structure ImportItem where
  before : Blanks
  specifier : Specifier
  behind : Blanks

def ImportItem.text (i : ImportItem) : Text := i.before.text ++ (i.specifier.text ++ i.behind.text)

/-- What can stand behind the name of the default: a namespace or a list, with a comma at its end or
not. -/
inductive NameGroup where
  | star (gap : Blanks) (behind : Space) (name : Identifier)
  | list (items : List ImportItem) (ending : Option Blanks)

namespace NameGroup

/-- What stands outside of braces. -/
def outside : NameGroup → Text
  | star gap behind name => '*' :: (gap.text ++ ("as".toList ++ (behind.text ++ name.text)))
  | list _ _ => []

/-- What stands between braces. -/
def inside? : NameGroup → Option Text
  | star _ _ _ => none
  | list items ending =>
    some (Text.join [','] (items.map ImportItem.text ++ ending.toList.map Blanks.text))

def text (g : NameGroup) : Text :=
  match g.inside? with
  | none => g.outside
  | some inside => '{' :: (inside ++ ['}'])

theorem tight_star (gap : Blanks) (behind : Space) (name : Identifier) :
    Tight (star gap behind name).outside := by
  have htext : (star gap behind name).outside
      = ['*'] ++ ((gap.text ++ ("as".toList ++ behind.text)) ++ name.text) := by
    simp only [outside, List.append_assoc, List.cons_append, List.nil_append]
  rw [htext]
  exact (Text.tight_of_noSpace (by decide) (Text.noSpace_of_all (by decide))).append name.tight _

theorem tight (g : NameGroup) : Tight g.text := by
  have hsign : ∀ c, isSpace c = false → Tight [c] := fun c hc =>
    Text.tight_of_noSpace (List.cons_ne_nil c []) (by simpa using hc)
  cases g with
  | star gap behind name => exact tight_star gap behind name
  | list items ending => exact (hsign '{' rfl).append (hsign '}' rfl) _

/-- What is bound besides the default. -/
def binding (source : Text) (default? : Option Text) : NameGroup → Import
  | star _ _ name =>
    { source := source, defaultName := default?, namespaceName := some name.text }
  | list items _ =>
    { source := source, defaultName := default?, named := items.map fun i => i.specifier.pair }

/-- What is read of it: specifiers that are taken for types are left out. -/
def decoded (source : Text) (default? : Option Text) (typeOnly : Bool) : NameGroup → Import
  | star _ _ name =>
    { source := source, defaultName := default?, namespaceName := some name.text
      typeOnly := typeOnly }
  | list items _ =>
    { source := source, defaultName := default?
      named := (items.filter fun i => !i.specifier.isDropped).map fun i => i.specifier.pair
      typeOnly := typeOnly }

/-- True if no specifier is taken for one of a type. -/
def isRead : NameGroup → Bool
  | star _ _ _ => true
  | list items _ => items.all fun i => !i.specifier.isDropped

theorem typeOnly_decoded (g : NameGroup) (source : Text) (default? : Option Text) (typeOnly : Bool) :
    (g.decoded source default? typeOnly).typeOnly = typeOnly := by
  cases g <;> rfl

theorem typeOnly_binding (g : NameGroup) (source : Text) (default? : Option Text) :
    (g.binding source default?).typeOnly = false := by
  cases g <;> rfl

theorem decoded_eq_iff (g : NameGroup) (source : Text) (default? : Option Text) :
    g.decoded source default? false = g.binding source default? ↔ g.isRead = true := by
  cases g with
  | star gap behind name => exact iff_of_true rfl rfl
  | list items ending =>
    have hall : (list items ending).isRead = true ↔
        (items.filter fun i => !i.specifier.isDropped) = items := by
      rw [isRead, List.all_eq_true, List.filter_eq_self]
    rw [hall]
    constructor
    · intro h
      have hlength := congrArg List.length (congrArg Import.named h)
      rw [decoded, binding, List.length_map, List.length_map] at hlength
      exact List.filter_sublist.eq_of_length hlength
    · intro h
      rw [decoded, binding, h]

end NameGroup

/-- What stands between `import` and `from`: a default, a namespace or a list, or a default and one
of the others. -/
inductive ImportClause where
  | default (name : Identifier)
  | group (group : NameGroup)
  | both (name : Identifier) (before behind : Blanks) (group : NameGroup)

namespace ImportClause

def text : ImportClause → Text
  | default name => name.text
  | group g => g.text
  | both name before behind g => name.text ++ (before.text ++ ',' :: (behind.text ++ g.text))

/-- What the clause binds. -/
def binding (source : Text) : ImportClause → Import
  | default name => { source := source, defaultName := some name.text }
  | group g => g.binding source none
  | both name _ _ g => g.binding source (some name.text)

/-- True of a clause whose first name is taken for the mark of an import of types. -/
def isEaten : ImportClause → Bool
  | default name => name.text == "type".toList
  | group _ => false
  | both name before _ _ => name.text == "type".toList && !before.text.isEmpty

/-- What stands behind the first name, where that is taken for a mark. -/
def behindName : ImportClause → Text
  | default _ => []
  | group g => g.text
  | both _ _ behind g => ',' :: (behind.text ++ g.text)

/-- The text that is read as a clause. -/
def read (clause : ImportClause) : Text :=
  if clause.isEaten then clause.behindName else clause.text

/-- What is read of the clause. -/
def decoded (source : Text) (clause : ImportClause) : Import :=
  let first (name : Identifier) := if clause.isEaten then none else some name.text
  match clause with
  | default name => { source := source, defaultName := first name, typeOnly := clause.isEaten }
  | group g => g.decoded source none false
  | both name _ _ g => g.decoded source (first name) clause.isEaten

/-- What the clause names besides the default. -/
def group? : ImportClause → Option NameGroup
  | default _ => none
  | group g => some g
  | both _ _ _ g => some g

/-- True if nothing in the clause is taken for a type. -/
def isRead (clause : ImportClause) : Bool := !clause.isEaten && clause.group?.all NameGroup.isRead

/-! ### What is read and what is bound -/

/-- **A clause is read as what it binds exactly if nothing in it is taken for a type.** -/
theorem decoded_eq_iff (clause : ImportClause) (source : Text) :
    clause.decoded source = clause.binding source ↔ clause.isRead = true := by
  have htypeOnly : clause.decoded source = clause.binding source → clause.isEaten = false := by
    intro h
    have htype := congrArg Import.typeOnly h
    cases clause with
    | default name => exact htype
    | group g => rfl
    | both name before behind g =>
      rwa [decoded, g.typeOnly_decoded, binding, g.typeOnly_binding] at htype
  cases heaten : clause.isEaten with
  | true =>
    rw [isRead, heaten]
    refine ⟨fun h => ?_, nofun⟩
    rw [htypeOnly h] at heaten
    cases heaten
  | false =>
    cases clause with
    | default name =>
      rw [decoded, isRead, heaten]
      exact iff_of_true rfl rfl
    | group g => exact g.decoded_eq_iff source none
    | both name before behind g =>
      rw [decoded, isRead, heaten]
      exact g.decoded_eq_iff source (some name.text)

end ImportClause

end Module

/-! ### Parts of a list -/

namespace Import

open LivePreview.Module Script
open Text (Tight)

theorem listItems_append (s t : Text) : listItems (s ++ ',' :: t) = listItems s ++ listItems t := by
  rw [listItems, Text.fields, Text.splitBy_append (p := (· == ',')) rfl, List.map_append,
    List.filter_append]
  rfl

/-- A list that is put together with commas is cut at them. -/
theorem listItems_join (parts : List Text) :
    listItems (Text.join [','] parts) = parts.flatMap listItems := by
  induction parts with
  | nil => rfl
  | cons part parts ih =>
    cases parts with
    | nil => simp [Text.join]
    | cons next parts =>
      have hjoin : Text.join [','] (part :: next :: parts)
          = part ++ ',' :: Text.join [','] (next :: parts) := by
        rw [Text.join, List.intercalate_cons_of_ne_nil (List.cons_ne_nil _ _), List.append_assoc]
        rfl
      rw [hjoin, listItems_append, ih]
      rfl

theorem listItems_blanks (g : Blanks) : listItems g.text = [] := by
  have hcomma : ∀ c ∈ g.text, (c == ',') = false := fun c hc =>
    beq_eq_false_iff_ne.mpr fun heq => g.not_mem (c := ',') rfl (heq ▸ hc)
  rw [listItems, Text.fields, Text.splitBy_of_none hcomma, List.map_singleton, g.trim_nil]
  rfl

/-- A part of a list, with blanks around it. -/
theorem listItems_part (g g' : Blanks) (h : Tight w) (hcomma : ',' ∉ w) :
    listItems (g.text ++ (w ++ g'.text)) = [w] := by
  have hnone : ∀ c ∈ g.text ++ (w ++ g'.text), (c == ',') = false := by
    intro c hc
    refine beq_eq_false_iff_ne.mpr ?_
    rintro rfl
    simp only [List.mem_append] at hc
    obtain hc | hc | hc := hc
    · exact g.not_mem rfl hc
    · exact hcomma hc
    · exact g'.not_mem rfl hc
  have hne : w.isEmpty = false := by simpa using h.ne_nil
  rw [listItems, Text.fields, Text.splitBy_of_none hnone, List.map_singleton, g.trim_eq g' h,
    List.filter_singleton, hne]
  rfl

/-! ### Specifiers -/

/-- The word `type` and a space stand in front where a specifier renames `type`, and a space is
next. -/
theorem isSome_after?_type {imported : Text} (hspace : ∀ c ∈ imported, isSpace c = false)
    (hc : isSpace c = true) :
    (Text.after? "type ".toList (imported ++ c :: s)).isSome
      = (imported == "type".toList && c == ' ') := by
  rw [Bool.eq_iff_iff, Bool.and_eq_true, beq_iff_eq, beq_iff_eq, Option.isSome_iff_exists]
  constructor
  · rintro ⟨r, hr⟩
    have hfront := Text.eq_append_of_after? hr
    have htext : imported ++ c :: s = "type".toList ++ ' ' :: r := hfront
    have hstop : ∀ {d : Char} {t : Text}, isSpace d = true → Stops (fun c => !isSpace c) (d :: t) := by
      intro d t hd
      exact Text.stops_cons.mpr (by rw [hd]; rfl)
    have hwords : imported = "type".toList := by
      have htake := congrArg (List.takeWhile fun c => !isSpace c) htext
      rwa [Text.takeWhile_append (fun c hc => by rw [hspace c hc]; rfl) (hstop hc),
        Text.takeWhile_append (List.all_eq_true.mp (by decide)) (hstop rfl)] at htake
    rw [hwords] at htext
    exact ⟨hwords, (List.cons.inj (List.append_cancel_left htext)).1⟩
  · rintro ⟨rfl, rfl⟩
    exact ⟨s, rfl⟩

/-- **A specifier is read as it was written, or taken for one of a type.** -/
theorem specifier?_text (i : Specifier) :
    specifier? i.text = if i.isDropped then none else some i.pair := by
  have hkept : ∀ {n x : Text}, isIdentifier x = true →
      (some (n, x)).filter (fun pair => isIdentifier pair.2) = some (n, x) := by
    intro n x hx
    rw [Option.filter_some, if_pos hx]
  cases i with
  | same name =>
    have hnone : (Text.after? "type ".toList name.text).isSome = false := by
      by_contra hsome
      obtain ⟨r, hr⟩ := Option.isSome_iff_exists.mp (Bool.eq_true_of_not_eq_false hsome)
      have hspace : ' ' ∈ name.text := by
        rw [Text.eq_append_of_after? hr]
        exact List.mem_append_left r (by decide)
      exact Bool.noConfusion (name.noSpace ' ' hspace)
    have hwords : Text.words name.text = [name.text] := Text.words_of_none name.ne_nil name.noSpace
    rw [Specifier.text, specifier?, hnone, hwords]
    exact hkept name.isIdentifier
  | renamed imported before behind name =>
    obtain ⟨c, b, hbefore, hc⟩ := before.exists_cons
    have hdropped :
        (Text.after? "type ".toList (Specifier.renamed imported before behind name).text).isSome
          = (Specifier.renamed imported before behind name).isDropped := by
      rw [Specifier.text, Specifier.isDropped, hbefore, List.cons_append,
        isSome_after?_type imported.noSpace hc]
      rfl
    have has : ∀ c ∈ "as".toList, isSpace c = false := Text.noSpace_of_all (by decide)
    have hwords : Text.words (Specifier.renamed imported before behind name).text
        = [imported.text, "as".toList, name.text] := by
      rw [Specifier.text, before.words_append imported.ne_nil imported.noSpace,
        behind.words_append (by decide) has, Text.words_of_none name.ne_nil name.noSpace]
    rw [specifier?, hdropped, hwords]
    cases (Specifier.renamed imported before behind name).isDropped with
    | true => rfl
    | false => exact hkept name.isIdentifier

/-! ### Groups -/

/-- The items of a list are the texts of its specifiers. -/
theorem listItems_inside (items : List ImportItem) (ending : Option Blanks) :
    listItems (Text.join [','] (items.map ImportItem.text ++ ending.toList.map Blanks.text))
      = items.map fun i => i.specifier.text := by
  have hitem : ∀ i : ImportItem, listItems i.text = [i.specifier.text] := fun i =>
    listItems_part i.before i.behind i.specifier.tight i.specifier.noComma
  have hending : (ending.toList.map Blanks.text).flatMap listItems = [] := by
    cases ending with
    | none => rfl
    | some g => rw [Option.toList_some, List.map_singleton, List.flatMap_singleton, listItems_blanks]
  rw [listItems_join, List.flatMap_append, hending, List.append_nil, List.flatMap_map]
  simp only [hitem]
  exact List.map_eq_flatMap.symm

theorem filterMap_specifier? (items : List ImportItem) :
    (items.map fun i => i.specifier.text).filterMap specifier?
      = (items.filter fun i => !i.specifier.isDropped).map fun i => i.specifier.pair := by
  induction items with
  | nil => rfl
  | cons i items ih =>
    have hread := specifier?_text i.specifier
    cases hdropped : i.specifier.isDropped with
    | true =>
      rw [hdropped] at hread
      rw [List.map_cons, List.filterMap_cons_none hread, ih,
        List.filter_cons_of_neg (by simp [hdropped])]
    | false =>
      rw [hdropped] at hread
      rw [List.map_cons, List.filterMap_cons_some hread, ih,
        List.filter_cons_of_pos (by simp [hdropped])]
      rfl

/-- The braces of a group are cut out of a clause. -/
theorem cutBraces_append {front : Text} (hfront : '{' ∉ front) (g : NameGroup) :
    cutBraces (front ++ g.text) = (front ++ g.outside, g.inside?) := by
  cases g with
  | star gap behind name =>
    have houtside : '{' ∉ (NameGroup.star gap behind name).outside := by
      simp only [NameGroup.outside, List.mem_cons, List.mem_append, not_or]
      exact ⟨by decide, gap.not_mem rfl, by decide, behind.not_mem rfl, name.not_mem rfl⟩
    have hnone : '{' ∉ front ++ (NameGroup.star gap behind name).outside :=
      fun hmem => (List.mem_append.mp hmem).elim hfront houtside
    show cutBraces (front ++ (NameGroup.star gap behind name).outside) = _
    rw [cutBraces, Text.cutFirst_of_not_mem hnone]
    rfl
  | list items ending =>
    obtain ⟨inside, hinside⟩ : ∃ inside, (NameGroup.list items ending).inside? = some inside :=
      ⟨_, rfl⟩
    have htext : (NameGroup.list items ending).text = '{' :: (inside ++ ['}']) := by
      rw [NameGroup.text, hinside]
    have hlast : Text.cutLast '}' (inside ++ ['}']) = some (inside, []) := by
      have hcut : Text.cutFirst '}' ([] ++ '}' :: inside.reverse) = some ([], inside.reverse) :=
        Text.cutFirst_append List.not_mem_nil _
      rw [Text.cutLast, List.reverse_append]
      show (Text.cutFirst '}' ([] ++ '}' :: inside.reverse)).map _ = _
      rw [hcut]
      show some (inside.reverse.reverse, ([] : Text).reverse) = _
      rw [List.reverse_reverse]
      rfl
    rw [htext, hinside, cutBraces, Text.cutFirst_append hfront]
    dsimp only
    rw [hlast]
    rfl

/-- The words `* as` in front of a name, which may be `as` too. -/
theorem addPart_star (i : Import) (gap : Blanks) (behind : Space) (name : Identifier) :
    addPart i (NameGroup.star gap behind name).outside
      = { i with namespaceName := some name.text } := by
  have htight : Tight ("as".toList ++ (behind.text ++ name.text)) :=
    (Text.tight_of_noSpace (by decide) (Text.noSpace_of_all (by decide))).append name.tight _
  have hfirst : Text.trim (gap.text ++ ("as".toList ++ (behind.text ++ name.text)))
      = "as".toList ++ (behind.text ++ name.text) := gap.trim_front htight
  have hskip : skipAs ("as".toList ++ (behind.text ++ name.text)) = behind.text ++ name.text := by
    obtain ⟨c, b, hbehind, hc⟩ := behind.exists_cons
    have hletter : c ≠ 'a' := by
      rintro rfl
      exact absurd hc (by decide)
    show skipAs (behind.text ++ name.text) = _
    rw [hbehind, List.cons_append]
    unfold skipAs
    split
    · rename_i heq
      exact absurd (List.cons.inj heq).1 hletter
    · rfl
  have hname : Text.trim (behind.text ++ name.text) = name.text := behind.trim_front name.tight
  show (let name := Text.trim (skipAs (Text.trim (gap.text ++ ("as".toList ++
    (behind.text ++ name.text))))); if isIdentifier name then _ else _) = _
  rw [hfirst, hskip, hname]
  exact if_pos name.isIdentifier

theorem addPart_identifier (i : Import) (name : Identifier) :
    addPart i name.text = { i with defaultName := some name.text } := by
  have hstar : '*' ∉ name.text := name.not_mem rfl
  unfold addPart
  split
  · rename_i rest heq
    exact absurd (heq ▸ List.mem_cons_self) hstar
  · exact if_pos name.isIdentifier

/-! ### Clauses -/

/-- The parts of a group outside of braces. -/
theorem listItems_outside (b : Blanks) (g : NameGroup) :
    listItems (b.text ++ g.outside) = match g with
      | .star .. => [g.outside]
      | .list .. => [] := by
  cases g with
  | star gap behind name =>
    have hcomma : ',' ∉ (NameGroup.star gap behind name).outside := by
      simp only [NameGroup.outside, List.mem_cons, List.mem_append, not_or]
      exact ⟨by decide, gap.not_mem rfl, by decide, behind.not_mem rfl, name.not_mem rfl⟩
    have hpart := listItems_part b Blanks.none (NameGroup.tight_star gap behind name) hcomma
    rwa [Blanks.none, List.append_nil] at hpart
  | list items ending =>
    rw [NameGroup.outside, List.append_nil, listItems_blanks]

/-- A group is read behind what stands in front of it, which names a default or does not. -/
theorem ofClause_append {front : Text} (g : NameGroup) (first? : Option Identifier)
    (source : Text) (typeOnly : Bool) (hbrace : '{' ∉ front) (htight : Tight (front ++ g.text))
    (hitems : listItems (front ++ g.outside)
      = (first?.map Identifier.text).toList ++ listItems g.outside) :
    ofClause (front ++ g.text) source typeOnly
      = g.decoded source (first?.map Identifier.text) typeOnly := by
  have hfirst : (first?.map Identifier.text).toList.foldl addPart
      { source := source, typeOnly := typeOnly }
        = { source := source, defaultName := first?.map Identifier.text, typeOnly := typeOnly } := by
    cases first? with
    | none => rfl
    | some name => exact addPart_identifier _ name
  rw [ofClause, htight.trim_eq, cutBraces_append hbrace]
  dsimp only
  rw [hitems, List.foldl_append, hfirst, ← List.nil_append g.outside]
  have houtside := listItems_outside Blanks.none g
  rw [Blanks.none] at houtside
  rw [houtside]
  cases g with
  | star gap behind name =>
    dsimp only [NameGroup.inside?]
    rw [List.foldl_cons, addPart_star]
    rfl
  | list items ending =>
    dsimp only [NameGroup.inside?]
    rw [listItems_inside, filterMap_specifier?]
    rfl

theorem listItems_behind (behind : Blanks) (g : NameGroup) :
    listItems (behind.text ++ g.outside) = listItems g.outside :=
  (listItems_outside behind g).trans (listItems_outside Blanks.none g).symm

theorem listItems_identifier (name : Identifier) (behind : Blanks) :
    listItems (name.text ++ behind.text) = [name.text] :=
  listItems_part Blanks.none behind name.tight (name.not_mem rfl)

theorem ofClause_identifier (name : Identifier) (source : Text) (typeOnly : Bool) :
    ofClause name.text source typeOnly
      = { source := source, defaultName := some name.text, typeOnly := typeOnly } := by
  have hitems := listItems_identifier name Blanks.none
  rw [Blanks.none, List.append_nil] at hitems
  rw [ofClause, name.tight.trim_eq, cutBraces, Text.cutFirst_of_not_mem (name.not_mem rfl)]
  dsimp only
  rw [hitems, List.foldl_cons, addPart_identifier]
  rfl

/-- **What is read of a clause.** -/
theorem ofClause_read (clause : ImportClause) (source : Text) :
    ofClause clause.read source clause.isEaten = clause.decoded source := by
  cases clause with
  | default name =>
    cases heaten : (ImportClause.default name).isEaten with
    | true =>
      rw [ImportClause.read, ImportClause.decoded, heaten]
      rfl
    | false =>
      rw [ImportClause.read, ImportClause.decoded, heaten]
      exact ofClause_identifier name source false
  | group g =>
    have hread := ofClause_append g none source false List.not_mem_nil g.tight (List.nil_append _).symm
    exact hread
  | both name before behind g =>
    have hcomma : '{' ∉ ',' :: behind.text := by
      simp only [List.mem_cons, not_or]
      exact ⟨by decide, behind.not_mem rfl⟩
    cases heaten : (ImportClause.both name before behind g).isEaten with
    | true =>
      have hread : (ImportClause.both name before behind g).read = ',' :: behind.text ++ g.text := by
        rw [ImportClause.read, heaten]
        rfl
      have hdecoded : (ImportClause.both name before behind g).decoded source
          = g.decoded source none true := by
        rw [ImportClause.decoded, heaten]
        rfl
      have htight : Tight (',' :: behind.text ++ g.text) :=
        (Text.tight_of_noSpace (List.cons_ne_nil ',' [])
          (Text.noSpace_of_all (by decide))).append g.tight behind.text
      have hcut := listItems_append [] (behind.text ++ g.outside)
      rw [listItems_behind] at hcut
      rw [hread, hdecoded]
      exact ofClause_append g none source true hcomma htight hcut
    | false =>
      have hread : (ImportClause.both name before behind g).read
          = name.text ++ (before.text ++ ',' :: behind.text) ++ g.text := by
        rw [ImportClause.read, heaten, if_neg Bool.false_ne_true, ImportClause.text]
        simp only [List.append_assoc, List.cons_append]
      have hdecoded : (ImportClause.both name before behind g).decoded source
          = g.decoded source (some name.text) false := by
        rw [ImportClause.decoded, heaten]
        rfl
      have hbrace : '{' ∉ name.text ++ (before.text ++ ',' :: behind.text) := by
        rw [List.mem_append, List.mem_append, not_or, not_or]
        exact ⟨name.not_mem rfl, before.not_mem rfl, hcomma⟩
      have htight : Tight (name.text ++ (before.text ++ ',' :: behind.text) ++ g.text) := by
        rw [List.append_assoc]
        exact name.tight.append g.tight _
      have hcut := listItems_append (name.text ++ before.text) (behind.text ++ g.outside)
      rw [listItems_behind, listItems_identifier, List.append_assoc] at hcut
      have hitems : listItems (name.text ++ (before.text ++ ',' :: behind.text) ++ g.outside)
          = [name.text] ++ listItems g.outside := by
        rw [List.append_assoc, List.append_assoc]
        exact hcut
      rw [hread, hdecoded]
      exact ofClause_append g (some name) source false hbrace htight hitems

end Import

end LivePreview

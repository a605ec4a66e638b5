/-
Names that are given to default exports.

A default export without a name gets one: functions and classes first and values behind them, each
in the order of the code.  The names are numbered, so they differ from each other.  They are not
compared with the names that the code declares, and what is declared in the end is what the code
declares and the given names besides.  So a name that the code declares once is declared twice
exactly if it is also given.
-/
import LivePreview.Proofs.Module.StrippedCode
import LivePreview.Proofs.Syntax.Declaration

namespace LivePreview.Module

open Script (isIdentChar isIdentifier isReserved reservedWords)
open Syntax (Apart Declared Ends Expression Front HeadText isBindingName isNamePart)
open Text (LineEnds Piece findings pieces)

variable {e : Text} {s : Statement} {names : List Text} {count : Nat}

/-! ### Numbered names -/

/-- The names that `n` default exports without one get, behind `count` others. -/
def numbered (count n : Nat) : List Text :=
  (List.range' count n).map fun i => anonymousName (i + 1)

theorem numbered_append (count m n : Nat) :
    numbered count m ++ numbered (count + m) n = numbered count (m + n) := by
  rw [numbered, numbered, ← List.map_append, List.range'_append_1, numbered]

theorem anonymousName_injective {m n : Nat}
    (h : anonymousName (m + 1) = anonymousName (n + 1)) : m = n := by
  have hne : ∀ k, Text.ofNat k ≠ [] := fun k hk =>
    Nat.repr_ne_empty (String.toList_injective hk)
  unfold anonymousName at h
  have h := List.append_cancel_left h
  by_cases hm : m + 1 ≤ 1
  · by_cases hn : n + 1 ≤ 1
    · omega
    · rw [if_pos hm, if_neg hn] at h
      exact absurd h.symm (hne _)
  · by_cases hn : n + 1 ≤ 1
    · rw [if_neg hm, if_pos hn] at h
      exact absurd h (hne _)
    · rw [if_neg hm, if_neg hn] at h
      exact Nat.succ.inj (Text.ofNat_injective h)

theorem nodup_numbered (count n : Nat) : (numbered count n).Nodup :=
  List.Nodup.map (fun _ _ h => anonymousName_injective h) List.nodup_range'

/-- A given name is a word that can name a binding. -/
theorem isIdentifier_anonymousName (n : Nat) : isIdentifier (anonymousName n) = true := by
  have hchars : ∀ c ∈ "efaultExport".toList ++ if n ≤ 1 then [] else Text.ofNat n,
      isIdentChar c = true := by
    intro c hc
    obtain hc | hc := List.mem_append.mp hc
    · exact List.all_eq_true.mp (by decide : "efaultExport".toList.all isIdentChar = true) c hc
    · split at hc
      · cases hc
      · have hdigit := Text.isDigit_of_mem_ofNat hc
        simp only [Char.isDigit, Bool.and_eq_true, decide_eq_true_eq] at hdigit
        simp only [isIdentChar, isAsciiDigit, Bool.or_eq_true, Bool.and_eq_true, decide_eq_true_eq]
        exact Or.inr ⟨hdigit.1, hdigit.2⟩
  have hname : anonymousName n
      = 'D' :: ("efaultExport".toList ++ if n ≤ 1 then [] else Text.ofNat n) := rfl
  have hreserved : isReserved (anonymousName n) = false := by
    have hall : ∀ w ∈ reservedWords, w.head? ≠ some 'D' := by decide
    rw [isReserved, List.contains_eq_mem, decide_eq_false_iff_not]
    intro hmem
    exact hall _ hmem (by rw [hname]; rfl)
  rw [hname] at hreserved ⊢
  rw [isIdentifier, hreserved, List.all_eq_true.mpr hchars]
  rfl

/-! ### Default exports that are found -/

/-- The default export that the reader of functions and classes has found. -/
def DefaultDeclaration.defaultExport (d : DefaultDeclaration) : DefaultExport :=
  ⟨.declaration, if isMissing d.name then none else some d.name⟩

/-- The default export that the reader of values has found. -/
def DefaultExpression.defaultExport (d : DefaultExpression) : DefaultExport := ⟨.value, d.reference⟩

theorem names_nameDeclarations (count : Nat) (ps : List (Piece DefaultDeclaration)) :
    (nameDeclarations count ps).names
      = named count ((ps.filterMap Piece.finding?).map DefaultDeclaration.defaultExport) := by
  induction ps generalizing count with
  | nil => rfl
  | cons p ps ih =>
    cases p with
    | passed c => exact ih count
    | found d =>
      have hfound : ((Piece.found d :: ps).filterMap Piece.finding?).map
            DefaultDeclaration.defaultExport
          = d.defaultExport :: (ps.filterMap Piece.finding?).map
            DefaultDeclaration.defaultExport := rfl
      rw [hfound, nameDeclarations, DefaultDeclaration.defaultExport]
      by_cases hmissing : isMissing d.name = true
      · rw [if_pos hmissing, if_pos hmissing, named, ← ih]
        rfl
      · rw [if_neg hmissing, if_neg hmissing, named, ← ih]
        rfl

theorem names_nameExpressions (count : Nat) (ps : List (Piece DefaultExpression)) :
    (nameExpressions count ps).names
      = named count ((ps.filterMap Piece.finding?).map DefaultExpression.defaultExport) := by
  induction ps generalizing count with
  | nil => rfl
  | cons p ps ih =>
    cases p with
    | passed c => exact ih count
    | found d =>
      obtain ⟨indent, reference⟩ := d
      cases reference with
      | none => exact congrArg (anonymousName (count + 1) :: ·) (ih (count + 1))
      | some name => exact congrArg (name :: ·) (ih count)

theorem missing_eq_unnamed (s : Text) :
    missing s = unnamed ((findings defaultDeclaration? s).map DefaultDeclaration.defaultExport) := by
  rw [missing, unnamed, List.countP_map]
  refine List.countP_congr fun d _ => ?_
  by_cases hmissing : isMissing d.name = true
  · simp [DefaultDeclaration.defaultExport, hmissing]
  · simp [DefaultDeclaration.defaultExport, hmissing]

/-- The functions and classes and the values that are found to be exported as the default. -/
def exportsFound (code : Text) : List DefaultExport :=
  (findings defaultDeclaration? (unstated code)).map DefaultDeclaration.defaultExport ++
    (findings defaultExpression? (declare 0 (unstated code)).code).map
      DefaultExpression.defaultExport

/-- Behind the names in lists and assignments come those of all that is found, numbered where there
is none. -/
theorem exists_defaultExports_eq_named (code : Text) :
    ∃ listed, (strip code).defaultExports = listed ++ named 0 (exportsFound code) := by
  obtain ⟨listed, hexports⟩ := exists_defaultExports_eq code
  refine ⟨listed, ?_⟩
  have hvalues : (named? (unstated code)).names = named (missing (unstated code))
      ((findings defaultExpression? (declare 0 (unstated code)).code).map
        DefaultExpression.defaultExport) := names_nameExpressions _ _
  rw [hexports, hvalues, missing_eq_unnamed, declare, names_nameDeclarations, List.append_assoc,
    exportsFound, named_append, Nat.zero_add]
  rfl

/-- Of the names of default exports, those of the ones without a name. -/
def givenOf (ds : List DefaultExport) (names : List Text) : List Text :=
  ((ds.zip names).filter fun p => p.1.name?.isNone).map Prod.snd

/-- The names that are given to default exports of code. -/
def givenNames (code : Text) : List Text :=
  givenOf (exportsFound code) (named 0 (exportsFound code))

theorem givenOf_named (count : Nat) (ds : List DefaultExport) :
    givenOf ds (named count ds) = numbered count (unnamed ds) := by
  induction ds generalizing count with
  | nil => rfl
  | cons d ds ih =>
    obtain ⟨form, name⟩ := d
    cases name with
    | none =>
      have hcount : unnamed (⟨form, none⟩ :: ds) = 1 + unnamed ds := by
        rw [unnamed, List.countP_cons_of_pos rfl, Nat.add_comm]
        rfl
      rw [hcount, ← numbered_append, ← ih]
      rfl
    | some name =>
      have hcount : unnamed (⟨form, some name⟩ :: ds) = unnamed ds :=
        List.countP_cons_of_neg Bool.false_ne_true
      rw [hcount, ← ih]
      rfl

theorem givenNames_eq (code : Text) : givenNames code = numbered 0 (unnamed (exportsFound code)) :=
  givenOf_named 0 _

section

variable {α : Type} {find : Text → Option (α × Text)} {f : Form} (read : α → DefaultExport)
variable (hspares : Spares f.stage find) (hform : ∀ a, (read a).form = f)
variable (hfound : ∀ s : Statement, s.stage = f.stage → ∀ e, LineEnds e → ∃ (a : α) (w : Text),
  pieces find (s.text ++ e) = .found a :: w.map .passed ++ pieces find e.tail ∧
    s.defaultExports = [read a])

include hspares hform hfound

theorem map_findings_statement (hs : f.stage ≤ s.stage) (he : Follows e) :
    (findings find (s.text ++ e)).map read
      = ofForm f s.defaultExports ++ (findings find e.tail).map read := by
  by_cases hlt : f.stage < s.stage
  · rw [Statement.ofForm_eq_nil (Nat.ne_of_lt hlt), findings, hspares.pieces_eq hlt he,
      List.filterMap_append, Text.filterMap_passed]
    rfl
  · obtain ⟨a, w, hpieces, hexports⟩ := hfound s (by omega) e he.lineEnds
    have hown : ofForm f [read a] = [read a] := by
      rw [ofForm, List.filter_cons_of_pos (by rw [hform, beq_self_eq_true])]
      rfl
    rw [hexports, hown, findings, hpieces, List.cons_append, List.filterMap_cons,
      List.filterMap_append, Text.filterMap_passed]
    rfl

/-- What a reader finds in code are the default exports of its form. -/
theorem map_findings_text (c : Code) (hc : ∀ s ∈ c.statements, f.stage ≤ s.stage) :
    (findings find c.text).map read = ofForm f c.defaultExports := by
  induction c using Code.inductionOn with
  | nil => rfl
  | last s =>
    rw [Code.text_last, map_findings_statement read hspares hform hfound (hc s List.mem_cons_self)
      follows_nil, Code.ofForm_last]
    exact List.append_nil _
  | cons s c ih =>
    rw [Code.text_cons, map_findings_statement read hspares hform hfound (hc s List.mem_cons_self)
      c.follows, Code.ofForm_cons, List.tail_cons, ih fun u hu => hc u (List.mem_cons_of_mem s hu)]

end

/-- **In code that is a list of statements its functions and classes and its values are found.** -/
theorem exportsFound_text (c : Code) : exportsFound c.text
    = ofForm .declaration c.defaultExports ++ ofForm .value c.defaultExports := by
  obtain ⟨hlater, hvalues, hdeclare, -⟩ :=
    declare_text (c.unread 6) Code.le_stage_of_mem_unread 0
  rw [Code.ofForm_unread (Nat.le_succ 6)] at hvalues
  have hdeclarations := map_findings_text (f := .declaration) DefaultDeclaration.defaultExport
    spares_defaultDeclaration (fun _ => rfl)
    (fun s hs e he => by
      obtain ⟨head, tail, rfl⟩ := Statement.exists_declaration hs
      obtain ⟨d, hd, hpieces⟩ := pieces_defaultDeclaration head tail he
      refine ⟨d, _, hpieces, ?_⟩
      rw [DefaultDeclaration.defaultExport, ← isReadAs_name? hd]
      rfl) (c.unread 6) Code.le_stage_of_mem_unread
  have hexpressions := map_findings_text (f := .value) DefaultExpression.defaultExport
    spares_defaultExpression (fun _ => rfl)
    (fun s hs e he => by
      obtain ⟨v, rfl⟩ := Statement.exists_value hs
      obtain ⟨w, hpieces⟩ := pieces_defaultValue v he
      exact ⟨_, w, hpieces, rfl⟩) ((c.unread 6).declared 0) hlater
  rw [Code.ofForm_unread (Nat.le_refl 6)] at hdeclarations
  rw [exportsFound, unstated_text, hdeclare, hdeclarations, hexpressions, hvalues]

/-! ### Names that statements declare -/

/-- What stands behind the name that a function or class gets. -/
def HeadTail.behindGiven (tail : HeadTail) : Text :=
  (if tail.name.isEmpty then [] else ' ' :: tail.name) ++ tail.behind

/-- The names that a statement declares: those that the language finds in the part of it that is
left without the words for the export and without a name that is given.  A statement that is taken
out declares nothing. -/
inductive Statement.Binds : Statement → List Text → Prop
  | removed {s : Statement} (hs : s.stage < 6) : Binds s []
  | plain {lines : PlainLines} {names : List Text} (h : Declared .statement lines.text names) :
      Binds (.plain lines) names
  | exported {d : DeclarationText} {names : List Text} (hseen : d.IsSeen)
      (h : Declared .statement d.text names) : Binds (.exported d) names
  | declaration {head : DeclarationHead} {tail : HeadTail} {names : List Text}
      (hname : tail.name? ≠ none) (h : Declared .statement (head.text ++ tail.text) names) :
      Binds (.defaultDeclaration head tail) names
  | unnamedDeclaration {head : DeclarationHead} {tail : HeadTail} {t s : Text} {names : List Text}
      (hname : tail.name? = none) (htail : tail.behindGiven = t ++ s)
      (hstops : Text.Stops isNamePart t) (ht : HeadText t) (hs : Declared .statement s names) :
      Binds (.defaultDeclaration head tail) names
  | reference {v : ValueText} (hname : v.name? ≠ none) (hline : Text.skipLine v.text = []) :
      Binds (.defaultValue v) []
  | unnamedValue {v : ValueText} {t s : Text} {names : List Text} (hname : v.name? = none)
      (hvalue : v.text = t ++ s) (ht : Expression .operand t) (hend : Ends s)
      (hs : Declared .statement s names) : Binds (.defaultValue v) names

/-- The names that statements declare. -/
inductive BindAll : List Statement → List Text → Prop
  | nil : BindAll [] []
  | cons {s : Statement} {ss : List Statement} {names later : List Text} (h : s.Binds names)
      (hlater : BindAll ss later) : BindAll (s :: ss) (names ++ later)

/-- The names that code declares at its top level. -/
def Code.Binds (c : Code) (names : List Text) : Prop := BindAll c.statements names

namespace Statement.Binds

theorem isRead (h : s.Binds names) : s.IsRead := by
  cases h with
  | removed hs =>
    cases s with
    | exported d => exact absurd hs (by simp [Statement.stage])
    | defaultValue v => exact absurd hs (by simp [Statement.stage])
    | _ => trivial
  | exported hseen _ => exact hseen
  | reference _ hline => exact fun _ => hline
  | unnamedValue hname =>
    intro hsome
    rw [hname] at hsome
    cases hsome
  | plain | declaration | unnamedDeclaration => trivial

/-- Behind all passes for names, what is left of a statement declares its names. -/
theorem declares (h : s.Binds names) (hs : 7 < s.stage) :
    Declared .statement s.exposedText names := by
  cases h with
  | removed hremoved => omega
  | plain h => exact h
  | exported _ h => exact h
  | declaration | unnamedDeclaration | reference | unnamedValue =>
    exact absurd hs (by simp [Statement.stage])

end Statement.Binds

/-! ### Given names in declarations -/

theorem isBindingName_of_isIdentifier {x : Text} (hx : isIdentifier x = true) :
    isBindingName x = true := by
  cases x with
  | nil => cases hx
  | cons c w =>
    have hpart : ∀ {c}, isIdentChar c = true → isNamePart c = true := by
      intro c hc
      rw [isNamePart, hc]
      rfl
    simp only [isIdentifier, Bool.and_eq_true, List.all_eq_true] at hx
    obtain ⟨⟨hstart, hall⟩, hreserved⟩ := hx
    have hdigit := Script.isAsciiDigit_eq_false_of_identStart hstart
    have hchar : isNamePart c = true := hpart (by simp [isIdentChar, hstart])
    have hall : w.all isNamePart = true := List.all_eq_true.mpr fun c hc => hpart (hall c hc)
    simp [isBindingName, hchar, hdigit, hall, hreserved]

theorem isBindingName_anonymousName (n : Nat) : isBindingName (anonymousName n) = true :=
  isBindingName_of_isIdentifier (isIdentifier_anonymousName n)

/-- The words that open a function or class are those of the language. -/
theorem DeclarationHead.front (head : DeclarationHead) : Front head.text := by
  have hspace : ∀ c ∈ [' '], isInline c = true := by simp [isInline]
  cases head with
  | function isAsync isGenerator =>
    have hplain : Front ("function".toList ++ if isGenerator then ['*'] else []) := by
      cases isGenerator with
      | false => exact .function
      | true => exact .generator .nil
    cases isAsync with
    | false => exact hplain
    | true => exact .worded (u := [' ']) (.inl rfl) (by simp) hspace hplain
  | classDecl isAbstract =>
    cases isAbstract with
    | false => exact .classDecl
    | true => exact .worded (u := [' ']) (.inr rfl) (by simp) hspace .classDecl

/-! ### One pass after the other -/

namespace Statement.Binds

/-- The pass for functions and classes adds the name that it gives. -/
theorem declared (h : s.Binds names) (hs : 6 ≤ s.stage) (count : Nat) : (s.declared count).Binds
    (numbered count (unnamed (ofForm .declaration s.defaultExports)) ++ names) := by
  cases h with
  | removed hremoved => omega
  | plain h => exact .plain h
  | exported hseen h => exact .exported hseen h
  | reference hname hline => exact .reference hname hline
  | unnamedValue hname hvalue ht hend hs => exact .unnamedValue hname hvalue ht hend hs
  | @declaration head tail names hname h =>
    obtain ⟨name, hsome⟩ := Option.ne_none_iff_exists'.mp hname
    have htext : (tail.lines head count).text = head.text ++ tail.text := by
      show head.text ++ (tail.middle count ++ tail.behind) = _
      rw [HeadTail.middle, hsome, tail.text_eq, List.append_assoc]
    have hgiven : unnamed (ofForm .declaration (defaultDeclaration head tail).defaultExports) = 0 := by
      show unnamed [⟨.declaration, tail.name?⟩] = 0
      rw [hsome]
      rfl
    rw [hgiven]
    refine .plain ?_
    rw [htext]
    exact h
  | @unnamedDeclaration head tail t s names hname htail hstops ht hs =>
    have hgiven : unnamed (ofForm .declaration (defaultDeclaration head tail).defaultExports) = 1 := by
      show unnamed [⟨.declaration, tail.name?⟩] = 1
      rw [hname]
      rfl
    have htext : (tail.lines head count).text
        = head.text ++ ' ' :: (anonymousName (count + 1) ++ (t ++ s)) := by
      show head.text ++ (tail.middle count ++ tail.behind) = _
      rw [← htail, HeadTail.middle, hname, HeadTail.behindGiven]
      simp only [List.append_assoc, List.cons_append]
    have hname := isBindingName_anonymousName (count + 1)
    rw [hgiven]
    refine .plain ?_
    rw [htext]
    exact .headed head.front hname (Syntax.apart_of_stops hname hstops) ht hs

/-- The pass for values adds the name that it gives, and takes out what declares nothing. -/
theorem expressed (h : s.Binds names) (hs : 7 ≤ s.stage) (count : Nat) :
    match s.expressed count with
    | some s' => s'.Binds (numbered count (unnamed (ofForm .value s.defaultExports)) ++ names)
    | none => numbered count (unnamed (ofForm .value s.defaultExports)) ++ names = [] := by
  cases h with
  | removed hremoved => omega
  | plain h => exact .plain h
  | exported hseen h => exact .exported hseen h
  | declaration | unnamedDeclaration => exact absurd hs (by simp [Statement.stage])
  | @reference v hname hline =>
    obtain ⟨name, hsome⟩ := Option.ne_none_iff_exists'.mp hname
    have hgiven : unnamed (ofForm .value (defaultValue v).defaultExports) = 0 := by
      show unnamed [⟨.value, v.name?⟩] = 0
      rw [hsome]
      rfl
    rw [Statement.expressed, hsome, hgiven]
    rfl
  | @unnamedValue v t s names hname hvalue ht hend hs =>
    have hgiven : unnamed (ofForm .value (defaultValue v).defaultExports) = 1 := by
      show unnamed [⟨.value, v.name?⟩] = 1
      rw [hname]
      rfl
    have htext : (v.lines count).text
        = "const ".toList ++ (anonymousName (count + 1) ++ (" = ".toList ++ (t ++ s))) := by
      rw [← hvalue]
      rfl
    rw [Statement.expressed, hname, hgiven]
    refine .plain ?_
    rw [htext]
    exact .constant (isBindingName_anonymousName _) ht hend hs

end Statement.Binds

namespace Code.Binds

variable {c : Code}

theorem isRead (h : c.Binds names) : ∀ s ∈ c.statements, s.IsRead := by
  have hall : ∀ {ss : List Statement} {names : List Text}, BindAll ss names →
      ∀ s ∈ ss, s.IsRead := by
    intro ss names h
    induction h with
    | nil => exact List.forall_mem_nil _
    | cons h _ ih => exact List.forall_mem_cons.mpr ⟨h.isRead, ih⟩
  exact hall h

/-- The passes that take statements out take no declaration. -/
theorem unread (h : c.Binds names) : (c.unread 6).Binds names := by
  have hall : ∀ {ss : List Statement} {names : List Text}, BindAll ss names →
      BindAll (ss.filter (6 ≤ ·.stage)) names := by
    intro ss names h
    induction h with
    | nil => exact .nil
    | @cons s ss names later h _ ih =>
      by_cases hs : 6 ≤ s.stage
      · have hkept : (s :: ss).filter (6 ≤ ·.stage) = s :: ss.filter (6 ≤ ·.stage) :=
          List.filter_cons_of_pos (decide_eq_true hs)
        rw [hkept]
        exact .cons h ih
      · have htaken : (s :: ss).filter (6 ≤ ·.stage) = ss.filter (6 ≤ ·.stage) :=
          List.filter_cons_of_neg (by simpa using hs)
        have hnone : names = [] := by
          cases h with
          | removed => rfl
          | _ => exact absurd (by simp [Statement.stage]) hs
        rw [htaken, hnone]
        exact ih
  rw [Code.Binds, Code.unread, Code.statements_filter]
  exact hall h

end Code.Binds

/-- Of what is declared behind a statement, the given names can be told first. -/
theorem perm_given {given given' own later later' : List Text} (h : later'.Perm (given' ++ later)) :
    (given ++ own ++ later').Perm (given ++ given' ++ (own ++ later)) := by
  have hlater := h.append_left (given ++ own)
  have hswap := (List.perm_append_comm_assoc own given' later).append_left given
  rw [List.append_assoc given own (given' ++ later)] at hlater
  rw [List.append_assoc given given']
  exact hlater.trans hswap

namespace Code.Binds

variable {c : Code}

theorem eq_nil (h : (Code.mk [] none).Binds names) : names = [] := by
  have hnil : BindAll [] names := h
  cases hnil
  rfl

theorem of_last (h : (Code.mk [] (some s)).Binds names) : s.Binds names := by
  have hlast : BindAll [s] names := h
  cases hlast with
  | cons hs hnil =>
    cases hnil
    rwa [List.append_nil]

theorem last (h : s.Binds names) : (Code.mk [] (some s)).Binds names := by
  have hlast : BindAll [s] (names ++ []) := .cons h .nil
  rwa [List.append_nil] at hlast

theorem exists_of_cons (h : (Code.cons s c).Binds names) :
    ∃ own later, names = own ++ later ∧ s.Binds own ∧ c.Binds later := by
  have hcons : BindAll (s :: c.statements) names := h
  cases hcons with
  | cons hs hlater => exact ⟨_, _, rfl, hs, hlater⟩

/-- Behind the pass for functions and classes the names that it gives are declared besides. -/
theorem declared (h : c.Binds names) (hc : ∀ s ∈ c.statements, 6 ≤ s.stage) (count : Nat) :
    ∃ names', (c.declared count).Binds names' ∧ names'.Perm
      (numbered count (unnamed (ofForm .declaration c.defaultExports)) ++ names) := by
  induction c using Code.inductionOn generalizing names count with
  | nil =>
    rw [h.eq_nil]
    exact ⟨[], .nil, List.Perm.nil⟩
  | last s =>
    rw [Code.ofForm_last]
    exact ⟨_, last (h.of_last.declared (hc s List.mem_cons_self) count), List.Perm.refl _⟩
  | cons s c ih =>
    obtain ⟨own, later₀, rfl, h, hlater⟩ := h.exists_of_cons
    obtain ⟨later, hbinds, hperm⟩ := ih hlater (fun u hu => hc u (List.mem_cons_of_mem s hu))
      (count + unnamed (ofForm .declaration s.defaultExports))
    refine ⟨_, .cons (h.declared (hc s List.mem_cons_self) count) hbinds, ?_⟩
    rw [Code.ofForm_cons, unnamed_append, ← numbered_append]
    exact perm_given hperm

/-- Behind the pass for values the names that it gives are declared besides. -/
theorem expressed (h : c.Binds names) (hc : ∀ s ∈ c.statements, 7 ≤ s.stage) (count : Nat) :
    ∃ names', (c.expressed count).Binds names' ∧ names'.Perm
      (numbered count (unnamed (ofForm .value c.defaultExports)) ++ names) := by
  induction c using Code.inductionOn generalizing names count with
  | nil =>
    rw [h.eq_nil]
    exact ⟨[], .nil, List.Perm.nil⟩
  | last s =>
    have hlast : (Code.mk [] (some s)).expressed count = ⟨[], s.expressed count⟩ := rfl
    have hexpressed := h.of_last.expressed (hc s List.mem_cons_self) count
    rw [Code.ofForm_last, hlast]
    cases hs' : s.expressed count with
    | some s' =>
      rw [hs'] at hexpressed
      exact ⟨_, last hexpressed, List.Perm.refl _⟩
    | none =>
      rw [hs'] at hexpressed
      rw [hexpressed]
      exact ⟨[], .nil, List.Perm.nil⟩
  | cons s c ih =>
    obtain ⟨own, later₀, rfl, h, hlater⟩ := h.exists_of_cons
    obtain ⟨later, hbinds, hperm⟩ := ih hlater (fun u hu => hc u (List.mem_cons_of_mem s hu))
      (count + unnamed (ofForm .value s.defaultExports))
    have hexpressed := h.expressed (hc s List.mem_cons_self) count
    rw [Code.expressed_cons, Code.ofForm_cons, unnamed_append, ← numbered_append]
    cases hs' : s.expressed count with
    | some s' =>
      rw [hs'] at hexpressed
      exact ⟨_, .cons hexpressed hbinds, perm_given hperm⟩
    | none =>
      rw [hs'] at hexpressed
      have hall : (numbered count (unnamed (ofForm .value s.defaultExports)) ++ own ++ later).Perm _ :=
        perm_given hperm
      rw [hexpressed, List.nil_append] at hall
      exact ⟨later, hbinds, hall⟩

/-- Code that no pass for names changes declares the names of its statements. -/
theorem declares (h : c.Binds names) (hc : ∀ s ∈ c.statements, 7 < s.stage) :
    Declared .statement c.exposedText names := by
  induction c using Code.inductionOn generalizing names with
  | nil =>
    rw [h.eq_nil]
    exact .done
  | last s => exact h.of_last.declares (hc s List.mem_cons_self)
  | cons s c ih =>
    obtain ⟨own, later, rfl, h, hlater⟩ := h.exists_of_cons
    exact (h.declares (hc s List.mem_cons_self)).newline
      (ih hlater fun u hu => hc u (List.mem_cons_of_mem s hu))

end Code.Binds

/-! ### What is declared in the end -/

/-- **Behind all passes the code declares what it did, and the given names besides.** -/
theorem exists_declares_strip {c : Code} (h : c.Binds names) : ∃ declared,
    Declared .statement (strip c.text).code declared ∧
      declared.Perm (givenNames c.text ++ names) := by
  obtain ⟨hlater, hvalues, -, -⟩ := declare_text (c.unread 6) Code.le_stage_of_mem_unread 0
  obtain ⟨declared, hdeclared, hdeclaredPerm⟩ :=
    h.unread.declared Code.le_stage_of_mem_unread 0
  obtain ⟨expressed, hexpressed, hexpressedPerm⟩ :=
    hdeclared.expressed hlater (unnamed (ofForm .declaration c.defaultExports))
  obtain ⟨hlast, -⟩ := expressedText_text ((c.unread 6).declared 0)
    (fun s hs => ⟨hlater s hs, hdeclared.isRead s hs⟩)
    (unnamed (ofForm .declaration c.defaultExports))
  rw [hvalues, Code.ofForm_unread (Nat.le_succ 6)] at hexpressedPerm
  rw [Code.ofForm_unread (Nat.le_refl 6)] at hdeclaredPerm
  have hgiven : givenNames c.text = numbered 0 (unnamed (ofForm .declaration c.defaultExports)) ++
      numbered (unnamed (ofForm .declaration c.defaultExports))
        (unnamed (ofForm .value c.defaultExports)) := by
    have hall := numbered_append 0 (unnamed (ofForm .declaration c.defaultExports))
      (unnamed (ofForm .value c.defaultExports))
    rw [Nat.zero_add] at hall
    rw [givenNames_eq, exportsFound_text, unnamed_append, hall]
  rw [code_strip_text c h.isRead, Code.renamed, hgiven]
  refine ⟨expressed, hexpressed.declares fun s hs => (hlast s hs).1,
    hexpressedPerm.trans ((hdeclaredPerm.append_left _).trans ?_)⟩
  rw [List.append_assoc]
  exact List.perm_append_comm_assoc _ _ _

/-- Where the given names are put before others, a name that those have once is there twice exactly
if it is given. -/
theorem count_le_one_iff {bound given : List Text} (hgiven : given.Nodup)
    (h : bound.Perm (given ++ names)) :
    (∀ name, names.count name ≤ 1 → bound.count name ≤ 1) ↔
      ∀ name ∈ given, names.count name ≠ 1 := by
  have hcount : ∀ name, bound.count name = given.count name + names.count name := by
    intro name
    rw [h.count_eq, List.count_append]
  constructor
  · intro hall name hmem hone
    have htwice := hall name (by omega)
    rw [hcount, List.count_eq_one_of_mem hgiven hmem] at htwice
    omega
  · intro hall name hle
    rw [hcount]
    by_cases hmem : name ∈ given
    · have hne := hall name hmem
      rw [List.count_eq_one_of_mem hgiven hmem]
      omega
    · rw [List.count_eq_zero.mpr hmem]
      omega

/-- **Given names differ from each other, and nothing else is known of them.**  Whatever the code
is, functions and classes without a name and values without one get the numbered names, and these
are all different and can be declared.  What code declares in the end is what it declared and these
names.  So it declares no name twice that it declared once or not at all exactly if no given name is
one that it declared once; that it declares no given name is enough. -/
theorem given_names_declared_besides (code : Text) :
    (∃ listed, (strip code).defaultExports = listed ++ named 0 (exportsFound code)) ∧
    givenNames code = numbered 0 (unnamed (exportsFound code)) ∧
    (givenNames code).Nodup ∧
    (∀ name ∈ givenNames code, isIdentifier name = true) ∧
    ∀ (c : Code) (names : List Text), code = c.text → c.Binds names →
      ∃ declared, Declared .statement (strip code).code declared ∧
        declared.Perm (givenNames code ++ names) ∧
        ((∀ name, names.count name ≤ 1 → declared.count name ≤ 1) ↔
          ∀ name ∈ givenNames code, names.count name ≠ 1) ∧
        ((∀ name ∈ givenNames code, name ∉ names) →
          ∀ name, names.count name ≤ 1 → declared.count name ≤ 1) := by
  have hgiven := givenNames_eq code
  have hnodup : (givenNames code).Nodup := by
    rw [hgiven]
    exact nodup_numbered 0 _
  refine ⟨exists_defaultExports_eq_named code, hgiven, hnodup, ?_, ?_⟩
  · intro name hname
    rw [hgiven, numbered] at hname
    obtain ⟨i, -, rfl⟩ := List.mem_map.mp hname
    exact isIdentifier_anonymousName (i + 1)
  · rintro c names rfl h
    obtain ⟨declared, hdeclares, hperm⟩ := exists_declares_strip h
    have htwice := count_le_one_iff hnodup hperm
    refine ⟨declared, hdeclares, hperm, htwice, fun hfresh => htwice.mpr fun name hname hone => ?_⟩
    rw [List.count_eq_zero.mpr (hfresh name hname)] at hone
    cases hone

/-- A constant that takes out of an object what has the name that the first default export without
one gets. -/
def constantLine : PlainLines := ⟨"const {DefaultExport} = a;".toList, by decide, by decide⟩

/-- An arrow function, which has no name. -/
def arrowValue : ValueText where
  text := "() => 2;".toList
  starts := by decide
  avoids := by decide
  notDeclaration := by
    intro e he
    cases he <;> rfl

/-- Code that declares a name and has a default export that gets it. -/
def clashingCode : Code where
  closed := [.plain constantLine, .defaultValue arrowValue]

theorem clashingCode_binds : clashingCode.Binds ["DefaultExport".toList] := by
  have hname : isBindingName "DefaultExport".toList = true := by decide
  have hsemicolon : Declared .statement [';'] [] :=
    .pass .semicolon trivial (Syntax.apart_nil [';']) .done
  have hends : Ends [';'] := by simp [Ends]
  have ha : Expression .operand [' ', 'a'] :=
    .cons (t := [' ']) (.blank rfl) rfl (Syntax.apart_behind (by simp) [] ['a'])
      (.cons (t := ['a']) (.word (by simp) (by simp; decide)) rfl (Syntax.apart_nil ['a']) .complete)
  have htarget := Syntax.Target.object (.last .nil (.short hname) .nil)
  have hconstant := Syntax.Declarator.initialised Syntax.gap_space htarget .none Syntax.gap_space
    (.given (by simp) (by simp) ha)
  have hline := Syntax.Line.variables (w := "const".toList) (by simp)
    (Syntax.apart_front (by simp) _ _) (.last hconstant)
  have htwo : Expression .result ['2'] :=
    .cons (t := ['2']) (.word (by simp) (by simp; decide)) rfl (Syntax.apart_nil ['2']) .complete
  have harrow : Expression .operator (['='] ++ ['>'] ++ ([' '] ++ ['2'])) :=
    .cons (t := ['=', '>']) (.sign (by simp) (by simp; decide) (by simp)) rfl
      (Syntax.apart_front (by simp) _ _)
      (.cons (.blank rfl) rfl (Syntax.apart_behind (by simp) [] _) htwo)
  have hfunction : Expression .operand (['(', ')'] ++ ([' '] ++ (['='] ++ ['>'] ++ ([' '] ++ ['2'])))) :=
    .cons (.group .round .nil) rfl (Syntax.apart_front (by simp) _ _)
      (.cons (.blank rfl) rfl (Syntax.apart_behind (by simp) [] _) harrow)
  have hplain : (Statement.plain constantLine).Binds ["DefaultExport".toList] :=
    .plain (.line hline hends hsemicolon)
  have hvalue : (Statement.defaultValue arrowValue).Binds [] :=
    .unnamedValue rfl rfl hfunction hends hsemicolon
  exact .cons hplain (.cons hvalue .nil)

/-- The value gets the name that the constant has, and the name is declared twice. -/
theorem given_name_declared_twice :
    clashingCode.text = "const {DefaultExport} = a;\nexport default () => 2;\n".toList ∧
    givenNames clashingCode.text = ["DefaultExport".toList] ∧
    ∃ declared, Declared .statement (strip clashingCode.text).code declared ∧
      declared.Perm ["DefaultExport".toList, "DefaultExport".toList] ∧
      ¬∀ name, [("DefaultExport".toList : Text)].count name ≤ 1 → declared.count name ≤ 1 := by
  have hgiven : givenNames clashingCode.text = ["DefaultExport".toList] := by decide +kernel
  obtain ⟨-, -, -, -, hbinds⟩ := given_names_declared_besides clashingCode.text
  obtain ⟨declared, hdeclares, hperm, htwice, -⟩ := hbinds clashingCode _ rfl clashingCode_binds
  rw [hgiven] at hperm htwice
  refine ⟨by decide +kernel, hgiven, declared, hdeclares, hperm, fun hall => ?_⟩
  exact htwice.mp hall _ List.mem_cons_self (by decide)

end LivePreview.Module

/-
What the scan for declarations looks ahead at.

From the first word of a declaration the scan looks over names, blanks and newlines, and over the
bracket group that may hold the parameters of a function.  Nothing of this goes past a `;` or a
closing brace, unless over a group in which it stands.  So a declaration in front of such a
character is the same whatever follows.
-/
import LivePreview.Declaration.Scan
import LivePreview.Proofs.Erasure.LoopBound
import LivePreview.Proofs.Script.Prefix
import LivePreview.Proofs.Text.LineStart

namespace LivePreview.Declaration

open Script

variable {s t z w rest : Text} {c e : Char}

/-- A character that ends a statement. -/
def EndsStatement (e : Char) : Prop := e = ';' ∨ e = '\x7d'

theorem EndsStatement.eq_false {f : Char → Bool} (he : EndsStatement e) (hsemicolon : f ';' = false)
    (hbrace : f '\x7d' = false) : f e = false := by
  obtain rfl | rfl := he
  · exact hsemicolon
  · exact hbrace

theorem EndsStatement.ne {d : Char} (he : EndsStatement e) (hsemicolon : d ≠ ';')
    (hbrace : d ≠ '\x7d') : e ≠ d := by
  obtain rfl | rfl := he
  · exact hsemicolon.symm
  · exact hbrace.symm

section

variable (he : EndsStatement e)

include he

theorem skipBlanks_end (s t : Text) : Text.skipBlanks (s ++ e :: t) = Text.skipBlanks s ++ e :: t :=
  Text.dropWhile_append_of_stops (Text.stops_cons.mpr (he.eq_false rfl rfl))

theorem skipInline_end (s t : Text) : Text.skipInline (s ++ e :: t) = Text.skipInline s ++ e :: t :=
  Text.dropWhile_append_of_stops (Text.stops_cons.mpr (he.eq_false rfl rfl))

theorem startsIdent_end (s t : Text) : startsIdent (s ++ e :: t) = startsIdent s := by
  cases s with
  | nil => exact he.eq_false (f := isIdentStart) rfl rfl
  | cons c s => rfl

theorem skipIdent_end (s t : Text) : skipIdent (s ++ e :: t) = skipIdent s ++ e :: t := by
  have hstart : isIdentStart e = false := he.eq_false rfl rfl
  have hstops : Text.Stops isIdentChar (e :: t) := Text.stops_cons.mpr (he.eq_false rfl rfl)
  cases s with
  | nil => simp [skipIdent, hstart]
  | cons c s =>
    rw [List.cons_append, skipIdent, skipIdent, Text.dropWhile_append_of_stops hstops]
    split <;> rfl

theorem word?_end (s t : Text) : word? (s ++ e :: t) = word? s := by
  have hstart : isIdentStart e = false := he.eq_false rfl rfl
  have hstops : Text.Stops isIdentChar (e :: t) := Text.stops_cons.mpr (he.eq_false rfl rfl)
  have hident : ident (s ++ e :: t) = ident s := by
    cases s with
    | nil => simp [ident, hstart]
    | cons c s => rw [List.cons_append, ident, ident, Text.takeWhile_append_of_stops hstops]
  rw [word?, hident]
  rfl

theorem afterKeyword?_end (w s t : Text) :
    afterKeyword? w (s ++ e :: t) = (afterKeyword? w s).map (· ++ e :: t) := by
  rw [afterKeyword?, word?_end he, skipIdent_end he, afterKeyword?]
  split <;> rfl

theorem dottedRest_end (n : Nat) (s t : Text) :
    dottedRest n (s ++ e :: t) = dottedRest n s ++ e :: t := by
  have hdot : e ≠ '.' := he.ne (by decide) (by decide)
  induction n generalizing s with
  | zero => rfl
  | succ n ih =>
    rw [dottedRest, dottedRest, skipIdent_end he]
    cases hrest : skipIdent s with
    | nil =>
      rw [List.nil_append]
      split
      · rename_i heq
        exact absurd (List.cons.inj heq).1 hdot
      · rfl
    | cons c u =>
      by_cases hc : c = '.'
      · subst hc
        show (if startsIdent (u ++ e :: t) = true then dottedRest n (u ++ e :: t) else _)
          = (if startsIdent u = true then dottedRest n u else '.' :: u) ++ e :: t
        rw [startsIdent_end he, ih]
        split <;> rfl
      · simp [hc]

theorem arrowFollows_end (s t : Text) : arrowFollows (s ++ e :: t) = arrowFollows s := by
  have hword : e ∉ "=>".toList := by
    obtain rfl | rfl := he <;> decide
  rw [arrowFollows, skipBlanks_end he, Text.after?_append_cons hword, Option.isSome_map]
  rfl

/-- A group that is closed with what ends a statement around it is closed in front of that. -/
theorem any_afterGroup?_end (hne : s ≠ [])
    (hgroup : ∀ r, afterGroup? (s ++ e :: t) = some r → e :: t <:+ r) :
    (afterGroup? (s ++ e :: t)).any arrowFollows = (afterGroup? s).any arrowFollows := by
  cases hwhole : afterGroup? (s ++ e :: t) with
  | none =>
    have hfront : afterGroup? s = none := by
      refine Option.eq_none_iff_forall_not_mem.mpr fun r hr => ?_
      rw [afterGroup?_append (e :: t) hr] at hwhole
      cases hwhole
    rw [hfront]
  | some r =>
    obtain ⟨u, rfl⟩ := hgroup r hwhole
    rw [afterGroup?_cut hwhole hne, Option.any_some, Option.any_some, arrowFollows_end he]

end

theorem consumed_end (h : rest <:+ s) (t : Text) :
    Text.consumed (s ++ t) (rest ++ t) = Text.consumed s rest := by
  obtain ⟨piece, rfl⟩ := h
  rw [List.append_assoc, Text.consumed_append, Text.consumed_append]

/-! ### Heads -/

/-- A character of the head of a declaration: of names, and of what stands between them. -/
def isHeadChar (c : Char) : Bool := isIdentChar c || isBlank c || c == '=' || c == '*'

/-- From the front of the text to the place there are characters of heads only. -/
def BehindHead (s t : Text) : Prop := ∃ piece, s = piece ++ t ∧ ∀ c ∈ piece, isHeadChar c = true

namespace BehindHead

theorem refl (s : Text) : BehindHead s s := ⟨[], rfl, List.forall_mem_nil _⟩

theorem trans {u : Text} (h : BehindHead s t) (h' : BehindHead t u) : BehindHead s u := by
  obtain ⟨piece, rfl, hpiece⟩ := h
  obtain ⟨piece', rfl, hpiece'⟩ := h'
  refine ⟨piece ++ piece', (List.append_assoc _ _ _).symm, fun c hc => ?_⟩
  exact (List.mem_append.mp hc).elim (hpiece c) (hpiece' c)

theorem cons (hc : isHeadChar c = true) (s : Text) : BehindHead (c :: s) s :=
  ⟨[c], rfl, List.forall_mem_singleton.mpr hc⟩

theorem append (h : BehindHead s t) (u : Text) : BehindHead (s ++ u) (t ++ u) := by
  obtain ⟨piece, rfl, hpiece⟩ := h
  exact ⟨piece, List.append_assoc _ _ _, hpiece⟩

theorem dropWhile {f : Char → Bool} (hf : ∀ c, f c = true → isHeadChar c = true) (s : Text) :
    BehindHead s (s.dropWhile f) :=
  ⟨s.takeWhile f, List.takeWhile_append_dropWhile.symm, fun c hc => hf c (List.mem_takeWhile_imp hc)⟩

theorem skipBlanks (s : Text) : BehindHead s (Text.skipBlanks s) :=
  dropWhile (fun c hc => by simp [isHeadChar, hc]) s

theorem skipInline (s : Text) : BehindHead s (Text.skipInline s) :=
  dropWhile (fun c hc => by simp [isHeadChar, Text.isBlank_of_isInline hc]) s

theorem skipIdent (s : Text) : BehindHead s (Script.skipIdent s) := by
  cases s with
  | nil => exact refl []
  | cons c s =>
    rw [Script.skipIdent]
    split
    · rename_i hc
      have hchar : isHeadChar c = true := by simp [isHeadChar, isIdentChar_of_start hc]
      exact (cons hchar s).trans (dropWhile (fun c hc => by simp [isHeadChar, hc]) s)
    · exact refl (c :: s)

theorem afterKeyword? (h : Script.afterKeyword? w s = some rest) : BehindHead s rest := by
  rw [Script.afterKeyword?, Option.ite_none_right_eq_some] at h
  exact Option.some.inj h.2 ▸ skipIdent s

end BehindHead

/-! ### Declarations in front of a statement end -/

/-- Behind the word for an asynchronous function, if it stands there. -/
def functionStart (s : Text) : Text :=
  match afterKeyword? "async".toList s with
  | some rest => Text.skipBlanks rest
  | none => s

/-- True if an arrow function or a wrapped component starts here. -/
def startsArrow (s : Text) : Bool :=
  match s with
  | [] => false
  | c :: _ =>
    if c = '(' then (afterGroup? s).any arrowFollows
    else if isIdentStart c then
      let rest := dottedRest s.length s
      let callee := lastPart (Text.consumed s rest)
      (componentWrappers.contains callee && (Text.skipBlanks rest).head? == some '(') ||
        arrowFollows rest
    else false

theorem startsFunction_eq (s : Text) : startsFunction s
    = if word? (functionStart s) = some "function".toList then true
      else startsArrow (functionStart s) := rfl

theorem behindHead_functionStart (s : Text) : BehindHead s (functionStart s) := by
  unfold functionStart
  split
  · rename_i rest hasync
    exact (BehindHead.afterKeyword? hasync).trans (.skipBlanks rest)
  · exact .refl s

/-- Behind the word for an asynchronous function on the line, if it stands there. -/
def declarationStart (s : Text) : Text :=
  match afterKeyword? "async".toList s with
  | some rest => Text.skipInline rest
  | none => s

/-- The name that is declared, with the sign of a generator left out. -/
def nameStart (keyword s : Text) : Text :=
  match s with
  | '*' :: t => if keyword = "function".toList then Text.skipBlanks t else s
  | _ => s

/-- The kind of the declaration, where its name ends. -/
def declared? (keyword name rest : Text) : Option Declaration :=
  if keyword = "function".toList then some ⟨name, .function⟩
  else if keyword = "class".toList then some ⟨name, .classDecl (namesComponentParent rest)⟩
  else if keyword = "const".toList || keyword = "let".toList || keyword = "var".toList then
    some ⟨name, variableKind rest⟩
  else none

theorem startingAt?_eq (s : Text) : startingAt? s
    = (word? (declarationStart s)).bind fun keyword =>
        (word? (nameStart keyword (Text.skipBlanks (skipIdent (declarationStart s))))).bind fun name =>
          declared? keyword name
            (skipIdent (nameStart keyword (Text.skipBlanks (skipIdent (declarationStart s))))) := rfl

theorem behindHead_declarationStart (s : Text) : BehindHead s (declarationStart s) := by
  unfold declarationStart
  split
  · rename_i rest hasync
    exact (BehindHead.afterKeyword? hasync).trans (.skipInline rest)
  · exact .refl s

theorem behindHead_nameStart (keyword s : Text) : BehindHead s (nameStart keyword s) := by
  unfold nameStart
  split
  · split
    · rename_i t _
      exact (BehindHead.cons rfl t).trans (.skipBlanks t)
    · exact .refl _
  · exact .refl s

section

variable (he : EndsStatement e)

include he

theorem functionStart_end (s t : Text) : functionStart (s ++ e :: t) = functionStart s ++ e :: t := by
  rw [functionStart, functionStart, afterKeyword?_end he]
  cases afterKeyword? "async".toList s with
  | none => rfl
  | some rest => exact skipBlanks_end he rest t

theorem declarationStart_end (s t : Text) :
    declarationStart (s ++ e :: t) = declarationStart s ++ e :: t := by
  rw [declarationStart, declarationStart, afterKeyword?_end he]
  cases afterKeyword? "async".toList s with
  | none => rfl
  | some rest => exact skipInline_end he rest t

theorem nameStart_end (keyword s t : Text) :
    nameStart keyword (s ++ e :: t) = nameStart keyword s ++ e :: t := by
  have hstar : e ≠ '*' := he.ne (by decide) (by decide)
  cases s with
  | nil => simp [nameStart, hstar]
  | cons c s =>
    by_cases hc : c = '*'
    · subst hc
      rw [List.cons_append, nameStart, nameStart, skipBlanks_end he]
      split <;> rfl
    · simp [nameStart, hc]

/-- The groups that a look ahead may go over are closed in front of the end of the statement. -/
def GroupsEnd (e : Char) (t s : Text) : Prop :=
  ∀ z, BehindHead s ('(' :: z) → ∀ r, afterGroup? (('(' :: z) ++ e :: t) = some r → e :: t <:+ r

omit he in
theorem GroupsEnd.behind (h : GroupsEnd e t s) (hz : BehindHead s z) : GroupsEnd e t z :=
  fun u hu => h u (hz.trans hu)

theorem startsArrow_end (hgroups : GroupsEnd e t s) : startsArrow (s ++ e :: t) = startsArrow s := by
  have hround : e ≠ '(' := he.ne (by decide) (by decide)
  have hstart : isIdentStart e = false := he.eq_false rfl rfl
  cases s with
  | nil => simp [startsArrow, hround, hstart]
  | cons c s =>
    have hlength : (c :: s).length ≤ ((c :: s) ++ e :: t).length := by
      rw [List.length_append]
      exact Nat.le_add_right _ _
    have hdotted : dottedRest ((c :: s) ++ e :: t).length ((c :: s) ++ e :: t)
        = dottedRest (c :: s).length (c :: s) ++ e :: t := by
      rw [dottedRest_end he, dottedRest_stable hlength (Nat.le_refl _)]
    have hhead : ((Text.skipBlanks (dottedRest (c :: s).length (c :: s)) ++ e :: t).head? == some '(')
        = ((Text.skipBlanks (dottedRest (c :: s).length (c :: s))).head? == some '(') := by
      cases Text.skipBlanks (dottedRest (c :: s).length (c :: s)) with
      | nil => simpa using hround
      | cons d u => rfl
    have hcons : (c :: s) ++ e :: t = c :: (s ++ e :: t) := rfl
    rw [hcons, startsArrow, startsArrow, ← hcons]
    dsimp only
    split
    · rename_i hc
      subst hc
      exact any_afterGroup?_end he (List.cons_ne_nil _ _) (hgroups s (.refl _))
    · rw [hdotted, consumed_end (suffix_dottedRest _ _), skipBlanks_end he, hhead, arrowFollows_end he]

theorem startsFunction_end (hgroups : GroupsEnd e t s) :
    startsFunction (s ++ e :: t) = startsFunction s := by
  rw [startsFunction_eq, functionStart_end he, word?_end he,
    startsArrow_end he (hgroups.behind (behindHead_functionStart s)), startsFunction_eq]

theorem variableKind_end (hgroups : GroupsEnd e t s) :
    variableKind (s ++ e :: t) = variableKind s := by
  have hequals : e ≠ '=' := he.ne (by decide) (by decide)
  have hblanks := hgroups.behind (.skipBlanks s)
  rw [variableKind, variableKind, skipBlanks_end he]
  cases hrest : Text.skipBlanks s with
  | nil => simp [hequals]
  | cons c value =>
    rw [hrest] at hblanks
    by_cases hc : c = '='
    · subst hc
      have hvalue := hblanks.behind ((BehindHead.cons rfl value).trans (.skipBlanks value))
      have hhead : ((value ++ e :: t).head? == some '=') = (value.head? == some '=') := by
        cases value with
        | nil => simpa using hequals
        | cons d value => rfl
      show (if ((value ++ e :: t).head? == some '=') = true then DeclarationKind.binding
          else if startsFunction (Text.skipBlanks (value ++ e :: t)) = true then _ else _) = _
      rw [hhead, skipBlanks_end he, startsFunction_end he hvalue]
      rfl
    · simp [hc]

theorem namesComponentParent_end (s t : Text) :
    namesComponentParent (s ++ e :: t) = namesComponentParent s := by
  have hdotted : ∀ u, (afterDotted? (u ++ e :: t)).getD (u ++ e :: t)
      = (afterDotted? u).getD u ++ e :: t := by
    intro u
    have hlength : u.length ≤ (u ++ e :: t).length := by
      rw [List.length_append]
      exact Nat.le_add_right _ _
    rw [afterDotted?, afterDotted?, startsIdent_end he, dottedRest_end he,
      dottedRest_stable hlength (Nat.le_refl _)]
    split <;> rfl
  have hsuffix : ∀ u, (afterDotted? u).getD u <:+ u := by
    intro u
    cases hrest : afterDotted? u with
    | none => exact List.suffix_rfl
    | some rest => exact suffix_afterDotted? hrest
  rw [namesComponentParent, namesComponentParent, skipBlanks_end he, afterKeyword?_end he]
  cases afterKeyword? "extends".toList (Text.skipBlanks s) with
  | none => rfl
  | some rest =>
    rw [Option.map_some]
    dsimp only
    rw [skipBlanks_end he, hdotted, consumed_end (hsuffix _)]

/-- **A declaration in front of the end of a statement is the same whatever follows**, if the groups
that it looks over end in front of that. -/
theorem startingAt?_end (hgroups : GroupsEnd e t s) : startingAt? (s ++ e :: t) = startingAt? s := by
  rw [startingAt?_eq, declarationStart_end he, word?_end he, skipIdent_end he, skipBlanks_end he,
    startingAt?_eq]
  refine Option.bind_congr fun keyword hkeyword => ?_
  rw [nameStart_end he, word?_end he, skipIdent_end he]
  refine Option.bind_congr fun name hname => ?_
  have hrest := hgroups.behind ((behindHead_declarationStart s).trans ((BehindHead.skipIdent _).trans
    ((BehindHead.skipBlanks _).trans ((behindHead_nameStart keyword _).trans (.skipIdent _)))))
  rw [declared?, namesComponentParent_end he, variableKind_end he hrest, declared?]

end

end LivePreview.Declaration

/-
The names that a program binds.

`Ensures r P` says that the reader `r`, if it succeeds, gives something of which `P` holds, whatever
it reads.  It goes through the readers from inside out: a token that is a name is made of the
characters of names, so what a pattern binds are words that can be names, and so are the names of
functions and classes.  What a statement binds depends on the patterns one level further in and on
the statements there, which it binds around itself or exports, so one induction on the levels for
each of the two is all that is needed.
-/
import LivePreview.Program.Parse

namespace LivePreview.Program

open Reader

/-! ### Words that can be names -/

/-- A word that something can be bound to: it opens and goes on as names do, and is no keyword. -/
structure IsBindable (w : Text) : Prop where
  opens : w.head?.any opensName = true
  continues : w.tail.all continuesName = true
  named : isName w = true

/-- The characters of a name, where `first` tells that the first one opens it. -/
structure NameText (first : Bool) (w : Text) : Prop where
  head : ∀ c ∈ w.head?, (if first then opensName c else continuesName c) = true
  tail : w.tail.all continuesName = true

theorem nameText_nil (first : Bool) : NameText first [] := ⟨by simp, rfl⟩

theorem NameText.cons {first : Bool} {c : Char} {w : Text} (h : NameText false w)
    (hc : (if first then opensName c else continuesName c) = true) : NameText first (c :: w) := by
  refine ⟨?_, ?_⟩
  · intro d hd
    cases hd
    exact hc
  · rw [List.tail_cons]
    cases w with
    | nil => rfl
    | cons d w =>
      rw [List.all_cons, Bool.and_eq_true]
      exact ⟨h.head d rfl, h.tail⟩

theorem nameText_nameFrom (first : Bool) (n : Nat) (s : Text) :
    NameText first (nameFrom first n s).1 := by
  induction n generalizing first s with
  | zero => exact nameText_nil first
  | succ n ih =>
    -- a character, written out or as an escape, is part of the name only where it fits
    have hstep : ∀ (c : Char) (rest s : Text), NameText first
        (if (if first then opensName c else continuesName c) = true then
          (c :: (nameFrom false n rest).1, (nameFrom false n rest).2) else ([], s)).1 := by
      intro c rest s
      by_cases hfits : (if first then opensName c else continuesName c) = true
      · rw [if_pos hfits]
        exact (ih false rest).cons hfits
      · rw [if_neg hfits]
        exact nameText_nil first
    unfold nameFrom
    dsimp only
    split
    · exact nameText_nil first
    · split
      · exact hstep _ _ _
      · exact nameText_nil first
    · exact hstep _ _ _

/-- A token that is a name and no keyword can be bound. -/
theorem isBindable_of_tokenAt {s n : Text} {plain : Bool} (h : (tokenAt s).1 = .name n plain)
    (hname : isName n = true) : IsBindable n := by
  unfold tokenAt at h
  split at h
  · cases h
  · split at h
    · split at h <;> cases h
    split at h
    · split at h <;> cases h
    split at h
    · simp only at h
      split at h <;> cases h
    simp only at h
    split at h
    · rename_i hne
      have hn : (nameAt _).1 = n := (Token.name.inj h).1
      rw [nameAt] at hn hne
      have htext := hn ▸ nameText_nameFrom true _ _
      rw [hn] at hne
      refine ⟨?_, htext.tail, hname⟩
      cases n with
      | nil => cases hne
      | cons c w => exact htext.head c rfl
    · split at h <;> cases h

/-! ### What readers ensure -/

/-- The reader gives nothing but what `P` holds of. -/
def Ensures {α : Type} (r : Reader α) (P : α → Prop) : Prop :=
  ∀ s a rest, r s = some (a, rest) → P a

section

variable {α β : Type} {r : Reader α} {f : α → Reader β} {P : β → Prop} {Q : α → Prop}

theorem Ensures.bind (hr : Ensures r Q) (hf : ∀ a, Q a → Ensures (f a) P) :
    Ensures (r >>= f) P := by
  intro s b rest h
  obtain ⟨⟨a, s'⟩, hread, hnext⟩ := Option.bind_eq_some_iff.mp h
  exact hf a (hr s a s' hread) s' b rest hnext

theorem ensures_true (r : Reader α) : Ensures r fun _ => True := fun _ _ _ _ => trivial

/-- What stands in front does not matter. -/
theorem ensures_then (hf : ∀ a, Ensures (f a) P) : Ensures (r >>= f) P :=
  (ensures_true r).bind fun a _ => hf a

theorem ensures_pure {a : α} (h : Q a) : Ensures (pure a : Reader α) Q := by
  intro s b rest hpure
  cases hpure
  exact h

/-- Nothing is read. -/
theorem ensures_none {Q : α → Prop} :
    Ensures (pure none : Reader (Option α)) fun o => ∀ a ∈ o, Q a :=
  ensures_pure fun _ h => absurd h (Option.not_mem_none _)

theorem ensures_failure : Ensures (failure : Reader α) Q := by
  intro s a rest h
  cases h

theorem ensures_ite {c : Prop} [Decidable c] {r r' : Reader α} (ht : c → Ensures r Q)
    (hf : ¬c → Ensures r' Q) : Ensures (if c then r else r') Q := by
  by_cases hc : c
  · rw [if_pos hc]
    exact ht hc
  · rw [if_neg hc]
    exact hf hc

/-- A reader that goes on unless `c` holds. -/
theorem ensures_unless {c : Prop} [Decidable c] {g : PUnit → Reader β}
    (h : ¬c → Ensures (g ⟨⟩) P) : Ensures (if c then failure >>= g else g ⟨⟩) P :=
  ensures_ite (fun _ => (ensures_failure (Q := fun _ => False)).bind fun _ h => h.elim) h

theorem ensures_manyFrom {item : Reader (Option α)} (hitem : Ensures item fun o => ∀ a ∈ o, Q a)
    (n : Nat) : Ensures (manyFrom item n) fun as => ∀ a ∈ as, Q a := by
  induction n with
  | zero => exact ensures_failure
  | succ n ih =>
    refine hitem.bind ?_
    rintro (_ | a) ha
    · exact ensures_pure nofun
    · refine ih.bind ?_
      intro as has
      refine ensures_pure ?_
      intro b hb
      rcases List.mem_cons.mp hb with rfl | hb
      · exact ha b rfl
      · exact has b hb

theorem ensures_many {item : Reader (Option α)} (hitem : Ensures item fun o => ∀ a ∈ o, Q a) :
    Ensures (many item) fun as => ∀ a ∈ as, Q a :=
  ensures_then fun _ => ensures_manyFrom hitem _

theorem ensures_listUntil {item : Reader α} (closing : String) (hitem : Ensures item Q) :
    Ensures (listUntil closing item) fun as => ∀ a ∈ as, Q a := by
  refine ensures_many (ensures_then fun _ => ensures_ite (fun _ => ensures_none) fun _ => ?_)
  refine hitem.bind ?_
  intro a ha
  refine ensures_then fun _ => ensures_then fun _ => ensures_unless fun _ => (ensures_pure ?_)
  intro b hb
  cases hb
  exact ha

end

theorem ahead_eq (s : Text) : ahead s
    = some (((gap s).1, (tokenAt (gap s).2).1, (tokenAt (gap s).2).2), s) := rfl

/-- A token that is ahead can be bound if it is a name and no keyword. -/
theorem ensures_ahead : Ensures ahead fun a =>
    ∀ n plain, a.2.1 = .name n plain → isName n = true → IsBindable n := by
  intro s a rest h n plain htoken hname
  rw [ahead_eq] at h
  cases h
  exact isBindable_of_tokenAt htoken hname

theorem ensures_bindable : Ensures bindable IsBindable := by
  refine ensures_ahead.bind ?_
  rintro ⟨ended, token, rest⟩ htoken
  split
  · rename_i n plain rest heq
    cases heq
    exact ensures_ite (fun hname => ensures_then fun _ => ensures_pure (htoken n plain rfl hname))
      fun _ => ensures_failure
  · exact ensures_failure

/-! ### Patterns -/

/-- All that a pattern binds can be bound. -/
def Pattern.BindsNames (q : Pattern) : Prop := ∀ n ∈ q.bound, IsBindable n

theorem Pattern.mem_boundByAll {qs : List Pattern} {n : Text} :
    n ∈ Pattern.boundByAll qs ↔ ∃ q ∈ qs, n ∈ q.bound := by
  induction qs with
  | nil => simp [Pattern.boundByAll]
  | cons q qs ih => simp [Pattern.boundByAll, ih]

theorem Pattern.bindsNames_name {n : Text} (h : IsBindable n) : (Pattern.name n).BindsNames := by
  intro m hm
  rw [Pattern.bound, List.mem_singleton] at hm
  rw [hm]
  exact h

theorem Pattern.bindsNames_all {qs : List Pattern} (h : ∀ q ∈ qs, q.BindsNames) :
    ∀ n ∈ Pattern.boundByAll qs, IsBindable n := by
  intro n hn
  obtain ⟨q, hq, hmem⟩ := Pattern.mem_boundByAll.mp hn
  exact h q hq n hmem

/-- All that a statement binds can be bound. -/
def Statement.BindsNames (st : Statement) : Prop := ∀ n ∈ st.bound, IsBindable n

/-- A declaration binds what the patterns of its declarators bind. -/
theorem Statement.bindsNames_bindings {hoisted : Bool} {list : List (Pattern × Option Expr)}
    (h : ∀ d ∈ list, d.1.BindsNames) : (Statement.bindings hoisted list).BindsNames := by
  intro n hn
  obtain ⟨d, hd, hmem⟩ := List.mem_flatMap.mp hn
  exact h d hd n hmem

theorem Statement.mem_hoistedByAll {sts : List Statement} {n : Text} :
    n ∈ Statement.hoistedByAll sts ↔ ∃ st ∈ sts, n ∈ st.hoisted := by
  induction sts with
  | nil => simp [Statement.hoistedByAll]
  | cons st sts ih => simp [Statement.hoistedByAll, ih]

/-- What a statement binds around itself it also binds where it stands. -/
theorem Statement.mem_bound_of_hoisted {st : Statement} {n : Text} (h : n ∈ st.hoisted) :
    n ∈ st.bound := by
  cases st with
  | bindings hoisted list =>
    cases hoisted with
    | true => exact h
    | false => cases h
  | compound inside => exact h
  | function name => cases h
  | classDecl name parent => cases h
  | exported names declared => cases h
  | other => cases h

theorem Statement.bindsNames_compound {inside : List Statement}
    (h : ∀ st ∈ inside, st.BindsNames) : (Statement.compound inside).BindsNames := by
  intro n hn
  obtain ⟨st, hst, hmem⟩ := Statement.mem_hoistedByAll.mp hn
  exact h st hst n (Statement.mem_bound_of_hoisted hmem)

variable {inner : Inner} (hinner : ∀ p, Ensures (inner.pattern p) Pattern.BindsNames)

include hinner

theorem ensures_elementPattern (p : Place) :
    Ensures (inner.elementPattern p) Pattern.BindsNames := by
  refine (hinner p).bind ?_
  intro target htarget
  exact ensures_then fun _ => ensures_ite
    (fun _ => ensures_then fun _ => ensures_pure htarget) fun _ => ensures_pure htarget

theorem ensures_arrayItem (p : Place) :
    Ensures (arrayItem inner p) fun o => ∀ q ∈ o, q.BindsNames := by
  have hsome : ∀ {q : Pattern}, q.BindsNames → ∀ q' ∈ some q, q'.BindsNames := by
    intro q hq q' hq'
    cases hq'
    exact hq
  refine ensures_then fun _ => ensures_ite (fun _ => ensures_pure nofun) fun _ => ?_
  refine ensures_then fun _ => ensures_ite (fun _ => ensures_pure (hsome nofun)) fun _ => ?_
  refine ensures_then fun _ => ensures_ite (fun _ => ?_) fun _ => ?_
  · refine (hinner p).bind ?_
    intro target htarget
    exact ensures_then fun _ => ensures_unless fun _ => (ensures_pure (hsome htarget))
  · refine (ensures_elementPattern hinner p).bind ?_
    intro element helement
    exact ensures_then fun _ => ensures_then fun _ => ensures_unless fun _ => (ensures_pure (hsome helement))

theorem ensures_propertyPattern (p : Place) :
    Ensures (propertyPattern inner p) Pattern.BindsNames := by
  have helement := ensures_elementPattern hinner p
  refine ensures_ahead.bind ?_
  rintro ⟨ended, token, rest⟩ htoken
  split
  · refine ensures_then fun _ => ensures_bindable.bind ?_
    intro n hn
    exact ensures_then fun _ => ensures_unless fun _ => (ensures_pure (Pattern.bindsNames_name hn))
  · exact ensures_then fun _ => ensures_then fun _ => ensures_then fun _ => helement
  · exact ensures_then fun _ => ensures_then fun _ => helement
  · exact ensures_then fun _ => ensures_then fun _ => helement
  · rename_i n plain rest heq
    cases heq
    have hname : ¬(!isName n) = true → (Pattern.name n).BindsNames := by
      intro h
      exact Pattern.bindsNames_name (htoken n plain rfl (by simpa using h))
    refine ensures_then fun _ => ensures_then fun _ => ensures_ite (fun _ => helement) fun _ => ?_
    refine ensures_ite (fun _ => ensures_failure) fun h => ?_
    exact ensures_then fun _ => ensures_ite
      (fun _ => ensures_then fun _ => ensures_pure (hname h)) fun _ => ensures_pure (hname h)
  · exact ensures_failure

theorem ensures_readPattern (p : Place) : Ensures (readPattern inner p) Pattern.BindsNames := by
  refine ensures_ahead.bind ?_
  rintro ⟨ended, token, rest⟩ htoken
  split
  · rename_i n plain rest heq
    cases heq
    refine ensures_then fun _ => ensures_ite (fun hname => ensures_pure ?_) fun _ => ensures_failure
    exact Pattern.bindsNames_name (htoken n plain rfl hname)
  · refine ensures_then fun _ => (ensures_many (ensures_arrayItem hinner p)).bind ?_
    intro items hitems
    exact ensures_pure (Pattern.bindsNames_all hitems)
  · refine ensures_then fun _ => (ensures_listUntil _ (ensures_propertyPattern hinner p)).bind ?_
    intro items hitems
    exact ensures_pure (Pattern.bindsNames_all hitems)
  · exact ensures_failure

/-! ### Statements -/

theorem ensures_declarators (p : Place) (isConst : Bool) {first : Pattern}
    (hfirst : first.BindsNames) : Ensures (declarators inner p isConst first) fun list =>
      ∀ d ∈ list, d.1.BindsNames := by
  -- what is behind the pattern of a declarator binds nothing
  have hone : ∀ pattern : Pattern, pattern.BindsNames → Ensures (do
      if ← sign? "=" then return (pattern, some (← inner.value p))
      else if needsValue isConst pattern then failure
      else return (pattern, none) : Reader (Pattern × Option Expr)) fun d => d.1.BindsNames := by
    intro pattern hpattern
    refine ensures_then fun _ => ensures_ite (fun _ => ensures_then fun _ => ensures_pure hpattern) ?_
    exact fun _ => ensures_ite (fun _ => ensures_failure) fun _ => ensures_pure hpattern
  refine (hone first hfirst).bind ?_
  intro head hhead
  refine Ensures.bind (Q := fun more => ∀ d ∈ more, d.1.BindsNames) (ensures_many ?_) ?_
  · refine ensures_then fun _ => ensures_ite (fun _ => ?_) fun _ => ensures_pure nofun
    refine (hinner p).bind fun pattern hpattern => (hone pattern hpattern).bind ?_
    intro d hd
    refine ensures_pure ?_
    intro d' hd'
    cases hd'
    exact hd
  · intro more hmore
    refine ensures_pure ?_
    intro d hd
    rcases List.mem_cons.mp hd with rfl | hd
    · exact hhead
    · exact hmore d hd

theorem ensures_variableStatement (p : Place) (hoisted isConst : Bool) :
    Ensures (variableStatement inner p hoisted isConst) Statement.BindsNames := by
  refine (hinner p).bind ?_
  intro first hfirst
  refine (ensures_declarators hinner p isConst hfirst).bind ?_
  intro list hlist
  exact ensures_then fun _ => ensures_pure (Statement.bindsNames_bindings hlist)

theorem ensures_declaringHead (p : Place) (waits hoisted isConst : Bool) :
    Ensures (declaringHead inner p waits hoisted isConst) Statement.BindsNames := by
  refine (hinner p).bind ?_
  intro pattern hpattern
  refine ensures_then fun _ => ensures_ite (fun _ => ensures_pure ?_) fun _ => ?_
  · exact Statement.bindsNames_bindings (List.forall_mem_singleton.mpr hpattern)
  · refine (ensures_declarators hinner _ isConst hpattern).bind ?_
    intro list hlist
    exact ensures_then fun _ => ensures_pure (Statement.bindsNames_bindings hlist)

omit hinner in
theorem ensures_expressionHead (p : Place) (waits : Bool) :
    Ensures (expressionHead inner p waits) Statement.BindsNames := by
  have hother : Ensures (pure .other : Reader Statement) Statement.BindsNames := ensures_pure nofun
  refine ensures_then fun o => ensures_then fun iterates => ?_
  refine ensures_ite (fun _ => ensures_unless fun _ => ?_) fun _ => hother
  exact ensures_then fun _ => ensures_then fun _ => hother

theorem ensures_loopHead (p : Place) (waits : Bool) :
    Ensures (loopHead inner p waits) Statement.BindsNames := by
  refine ensures_then ?_
  rintro ⟨ended, token, rest⟩
  split
  · exact ensures_unless fun _ => ensures_then fun _ => ensures_pure nofun
  · refine ensures_ite (fun _ => ensures_then fun _ => ensures_declaringHead hinner p _ _ _) fun _ => ?_
    refine ensures_ite (fun _ => ensures_then fun _ => ensures_declaringHead hinner p _ _ _) fun _ => ?_
    refine ensures_ite (fun _ => ensures_then fun _ => ensures_declaringHead hinner p _ _ _) fun _ => ?_
    exact ensures_expressionHead p waits
  · exact ensures_expressionHead p waits

omit hinner in
theorem ensures_functionRest (isAsync : Bool) :
    Ensures (functionRest inner isAsync) fun o => ∀ n ∈ o, IsBindable n := by
  have hrest : ∀ (isGenerator : Bool) (o : Option Text), (∀ n ∈ o, IsBindable n) →
      Ensures (do let _ ← functionTail inner isAsync isGenerator; return o : Reader (Option Text))
        fun o => ∀ n ∈ o, IsBindable n :=
    fun _ _ ho => ensures_then fun _ => ensures_pure ho
  refine ensures_then fun isGenerator => ensures_ahead.bind ?_
  rintro ⟨ended, token, rest⟩ htoken
  split
  · rename_i n plain rest heq
    cases heq
    refine ensures_unless fun h => ensures_then fun _ =>
      (ensures_pure (Q := fun o => ∀ n ∈ o, IsBindable n) ?_).bind (hrest isGenerator)
    intro m hm
    cases hm
    exact htoken n plain rfl (by simpa using h)
  · have hnone : Ensures (pure none : Reader (Option Text)) fun o => ∀ n ∈ o, IsBindable n :=
      ensures_pure nofun
    exact hnone.bind (hrest isGenerator)

omit hinner in
theorem ensures_classRest (p : Place) :
    Ensures (classRest inner p) fun x => ∀ n ∈ x.1, IsBindable n := by
  have hrest : ∀ o : Option Text, (∀ n ∈ o, IsBindable n) →
      Ensures (do return (o, ← classTail inner p) : Reader (Option Text × Option Expr))
        fun x => ∀ n ∈ x.1, IsBindable n :=
    fun _ ho => ensures_then fun _ => ensures_pure ho
  have hnone : Ensures (pure none : Reader (Option Text)) fun o => ∀ n ∈ o, IsBindable n :=
    ensures_pure nofun
  refine ensures_ahead.bind ?_
  rintro ⟨ended, token, rest⟩ htoken
  split
  · rename_i n plain rest heq
    cases heq
    refine ensures_ite (fun _ => hnone.bind hrest) fun _ => ensures_ite (fun _ => ?_) fun h => ?_
    · exact (ensures_failure (Q := fun _ => False)).bind fun _ h => h.elim
    · refine ensures_then fun _ => (ensures_pure (Q := fun o => ∀ n ∈ o, IsBindable n) ?_).bind hrest
      intro m hm
      cases hm
      exact htoken n plain rfl (by simpa using h)
  · exact hnone.bind hrest

omit hinner in
theorem ensures_functionDeclaration (isAsync : Bool) :
    Ensures (functionDeclaration inner isAsync) Statement.BindsNames := by
  refine (ensures_functionRest isAsync).bind ?_
  rintro (_ | n) hn
  · exact ensures_failure
  · refine ensures_pure ?_
    intro m hm
    rw [List.mem_singleton.mp hm]
    exact hn n rfl

omit hinner in
theorem ensures_classDeclaration (p : Place) :
    Ensures (classDeclaration inner p) Statement.BindsNames := by
  refine (ensures_classRest p).bind ?_
  rintro ⟨_ | n, parent⟩ hn
  · exact ensures_failure
  · refine ensures_pure ?_
    intro m hm
    rw [List.mem_singleton.mp hm]
    exact hn n rfl

omit hinner in
theorem ensures_expressionStatement (p : Place) :
    Ensures (expressionStatement inner p) Statement.BindsNames :=
  ensures_then fun _ => ensures_then fun _ => ensures_pure nofun

omit hinner in
theorem ensures_exportDefault (p : Place) :
    Ensures (exportDefault inner p) fun o => ∀ n ∈ o, IsBindable n := by
  have hvalue : Ensures (do let _ ← inner.value p; endStatement; return none : Reader (Option Text))
      fun o => ∀ n ∈ o, IsBindable n :=
    ensures_then fun _ => ensures_then fun _ => ensures_pure nofun
  refine ensures_then ?_
  rintro ⟨ended, token, rest⟩
  split
  · refine ensures_ite (fun _ => ensures_then fun _ => ensures_functionRest false) fun _ => ?_
    refine ensures_ite (fun _ => ensures_then fun _ => ensures_functionRest true) fun _ => ?_
    refine ensures_ite (fun _ => ensures_then fun _ => ?_) fun _ => hvalue
    exact (ensures_classRest p).bind fun _ hclass => ensures_pure hclass
  · exact hvalue

omit hinner in
/-- What an export binds is bound by the declaration behind it. -/
theorem ensures_exportTail
    (hstatement : ∀ p declares, Ensures (inner.statement p declares) Statement.BindsNames)
    (p : Place) : Ensures (exportTail inner p) Statement.BindsNames := by
  refine ensures_then fun _ => ensures_ite (fun _ => ?_) fun _ => ?_
  · refine (ensures_exportDefault p).bind ?_
    intro o ho
    refine ensures_pure ?_
    intro n hn
    exact ho n (Option.mem_toList.mp hn)
  -- the other lists of names bind nothing
  have hnames : ∀ names, Ensures (pure (.exported names []) : Reader Statement)
      Statement.BindsNames := fun _ => ensures_pure nofun
  refine ensures_then fun _ => ensures_ite (fun _ => ?_) fun _ => ?_
  · have hname : ∀ name : Option Token, Ensures
        (do fromSource; return .exported (name.bind wordOf).toList [] : Reader Statement)
        Statement.BindsNames := fun _ => ensures_then fun _ => hnames _
    refine ensures_then fun _ => ensures_ite (fun _ => ?_) fun _ => ?_
    · exact ensures_then fun name => hname name
    · exact ensures_then fun name => hname name
  refine ensures_then fun _ => ensures_ite (fun _ => ?_) fun _ => ?_
  · refine ensures_then fun specifiers => ensures_then ?_
    rintro ⟨ended, token, rest⟩
    split
    · refine ensures_ite (fun _ => ensures_then fun _ => hnames _) fun _ => ?_
      refine ensures_ite (fun _ => ?_) fun _ => ensures_then fun _ => hnames _
      exact (ensures_failure (Q := fun _ => False)).bind fun _ h => h.elim
    · refine ensures_ite (fun _ => ?_) fun _ => ensures_then fun _ => hnames _
      exact (ensures_failure (Q := fun _ => False)).bind fun _ h => h.elim
  refine ensures_then ?_
  rintro ⟨ended, token, rest⟩
  split
  · refine ensures_ite (fun _ => (hstatement _ _).bind ?_) fun _ => ensures_failure
    intro declaration hdeclaration
    split
    · exact ensures_failure
    · exact ensures_failure
    · exact ensures_pure hdeclaration
  · refine (hstatement _ _).bind ?_
    intro declaration hdeclaration
    split
    · exact ensures_pure hdeclaration
    · exact ensures_failure
  · exact ensures_failure

variable (hstatement : ∀ p declares, Ensures (inner.statement p declares) Statement.BindsNames)

include hstatement

omit hinner in
theorem ensures_block (p : Place) :
    Ensures (block inner p) fun inside => ∀ st ∈ inside, st.BindsNames := by
  refine ensures_then fun _ => ensures_many ?_
  refine ensures_then fun _ => ensures_ite (fun _ => ensures_none) fun _ => ?_
  refine (hstatement _ _).bind ?_
  intro st hst
  refine ensures_pure ?_
  intro st' h
  cases h
  exact hst

theorem ensures_forLoop (p : Place) :
    Ensures (forLoop inner p) fun inside => ∀ st ∈ inside, st.BindsNames := by
  have hrest : ∀ waits, Ensures (do
      sign "("
      let head ← loopHead inner p waits
      sign ")"
      return [head, ← belonging inner p] : Reader (List Statement))
      fun inside => ∀ st ∈ inside, st.BindsNames := by
    intro waits
    refine ensures_then fun _ => (ensures_loopHead hinner p waits).bind ?_
    intro head hhead
    refine ensures_then fun _ => (hstatement _ _).bind ?_
    intro body hbody
    exact ensures_pure (List.forall_mem_cons.mpr ⟨hhead, List.forall_mem_singleton.mpr hbody⟩)
  exact ensures_ite (fun _ => ensures_then hrest) fun _ => ensures_then hrest

omit hinner in
/-- The statements behind the colon of a case. -/
theorem ensures_behindCase (p : Place) :
    Ensures (do
      sign ":"
      let inside ← many do
        match ← ahead with
        | (_, .sign "\x7d", _) => return none
        | (_, .name w true, _) =>
          if w = "case".toList || w = "default".toList then return none
          else return some (← inner.statement { p with top := false } true)
        | _ => return some (← inner.statement { p with top := false } true)
      return some (.compound inside) : Reader (Option Statement))
      fun o => ∀ st ∈ o, st.BindsNames := by
  have hsome : Ensures (do return some (← inner.statement { p with top := false } true) :
      Reader (Option Statement)) fun o => ∀ st ∈ o, st.BindsNames := by
    refine (hstatement _ _).bind ?_
    intro st hst
    refine ensures_pure ?_
    rintro _ ⟨⟩
    exact hst
  refine ensures_then fun _ =>
    Ensures.bind (Q := fun inside => ∀ st ∈ inside, st.BindsNames) (ensures_many (ensures_then ?_)) ?_
  · rintro ⟨ended, token, rest⟩
    split
    · exact ensures_none
    · exact ensures_ite (fun _ => ensures_none) fun _ => hsome
    · exact hsome
  · intro inside hinside
    refine ensures_pure ?_
    rintro _ ⟨⟩
    exact Statement.bindsNames_compound hinside

omit hinner in
theorem ensures_case? (p : Place) :
    Ensures (case? inner p) fun o => ∀ st ∈ o, st.BindsNames := by
  refine ensures_then fun _ => ensures_ite (fun _ => ensures_none) fun _ => ?_
  refine ensures_then fun _ => ensures_ite (fun _ => ?_) fun _ => ?_
  · exact ensures_then fun _ => ensures_behindCase hstatement p
  · exact ensures_then fun _ => ensures_behindCase hstatement p

omit hinner in
theorem ensures_catchBlock (p : Place) : Ensures (catchBlock inner p) Statement.BindsNames := by
  have hblock : Ensures (do return .compound (← block inner p) : Reader Statement)
      Statement.BindsNames :=
    (ensures_block hstatement p).bind fun inside h => ensures_pure (Statement.bindsNames_compound h)
  refine ensures_then fun _ => ensures_ite (fun _ => ?_) fun _ => hblock
  exact ensures_then fun _ => ensures_then fun _ => hblock

omit hinner in
theorem ensures_tryBlock (p : Place) :
    Ensures (tryBlock inner p) fun inside => ∀ st ∈ inside, st.BindsNames := by
  have hblock := ensures_block hstatement p
  -- what is behind the block that is tried, with what was read behind `catch`
  have hend : ∀ (tried : Statement) (caught : Option Statement), tried.BindsNames →
      (∀ st ∈ caught, st.BindsNames) → Ensures (do
        if ← word? "finally" then return tried :: caught.toList ++ [.compound (← block inner p)]
        else if caught.isNone then failure
        else return tried :: caught.toList : Reader (List Statement))
        fun inside => ∀ st ∈ inside, st.BindsNames := by
    intro tried caught htried hcaught
    have hboth : ∀ st ∈ tried :: caught.toList, st.BindsNames :=
      List.forall_mem_cons.mpr ⟨htried, fun st hst => hcaught st (Option.mem_toList.mp hst)⟩
    refine ensures_then fun _ => ensures_ite (fun _ => hblock.bind ?_) fun _ => ?_
    · intro last hlast
      refine ensures_pure (List.forall_mem_append.mpr ⟨hboth, ?_⟩)
      exact List.forall_mem_singleton.mpr (Statement.bindsNames_compound hlast)
    · exact ensures_ite (fun _ => ensures_failure) fun _ => ensures_pure hboth
  refine hblock.bind ?_
  intro inside hinside
  have htried := Statement.bindsNames_compound hinside
  refine ensures_then fun _ => ensures_ite (fun _ => ?_) fun _ => ?_
  · refine Ensures.bind (Q := fun o => ∀ st ∈ o, st.BindsNames) ?_ fun caught => hend _ caught htried
    refine (ensures_catchBlock hstatement p).bind fun st hst => ensures_pure ?_
    rintro _ ⟨⟩
    exact hst
  · exact (ensures_pure (Q := fun o => ∀ st ∈ o, st.BindsNames) nofun).bind
      fun caught => hend _ caught htried

theorem ensures_controlled? (p : Place) (w : Text) :
    Ensures (controlled? inner p w) fun o => ∀ inside ∈ o, ∀ st ∈ inside, st.BindsNames := by
  have hone : ∀ st : Statement, st.BindsNames →
      Ensures (pure (some [st]) : Reader (Option (List Statement)))
        fun o => ∀ inside ∈ o, ∀ st ∈ inside, st.BindsNames := by
    intro st hst
    refine ensures_pure ?_
    rintro _ ⟨⟩
    exact List.forall_mem_singleton.mpr hst
  have hlist : ∀ r : Reader (List Statement), Ensures r (fun inside => ∀ st ∈ inside, st.BindsNames) →
      Ensures (do return some (← r) : Reader (Option (List Statement)))
        fun o => ∀ inside ∈ o, ∀ st ∈ inside, st.BindsNames := by
    intro r hr
    refine hr.bind fun inside hinside => ensures_pure ?_
    rintro _ ⟨⟩
    exact hinside
  have hbody := hstatement { p with top := false } false
  unfold controlled?
  split
  · refine ensures_then fun _ => hbody.bind fun body hst => ?_
    refine ensures_then fun _ => ensures_ite (fun _ => ?_) fun _ => hone body hst
    refine hbody.bind fun second hsecond => ensures_pure ?_
    rintro _ ⟨⟩
    exact List.forall_mem_cons.mpr ⟨hst, List.forall_mem_singleton.mpr hsecond⟩
  · exact hlist _ (ensures_forLoop hinner hstatement p)
  · exact ensures_then fun _ => hbody.bind hone
  · refine hbody.bind fun body hst => ?_
    exact ensures_then fun _ => ensures_then fun _ => ensures_then fun _ => hone body hst
  · exact ensures_then fun _ => ensures_then fun _ =>
      hlist _ (ensures_many (ensures_case? hstatement p))
  · exact hlist _ (ensures_tryBlock hstatement p)
  · exact ensures_pure nofun

theorem ensures_wordStatement (p : Place) (declares : Bool) (w rest : Text) :
    Ensures (wordStatement inner p declares w rest) Statement.BindsNames := by
  have hvariable := ensures_variableStatement hinner p
  refine ensures_ite (fun _ => ensures_then fun _ => hvariable true false) fun _ => ?_
  refine ensures_ite
    (fun _ => ensures_unless fun _ => ensures_then fun _ => hvariable false false) fun _ => ?_
  refine ensures_ite
    (fun _ => ensures_unless fun _ => ensures_then fun _ => hvariable false true) fun _ => ?_
  refine ensures_ite (fun _ => ensures_unless fun _ => (ensures_then fun _ =>
    ensures_functionDeclaration false)) fun _ => ?_
  refine ensures_ite (fun _ => ensures_unless fun _ => (ensures_then fun _ =>
    ensures_functionDeclaration true)) fun _ => ?_
  refine ensures_ite (fun _ => ensures_unless fun _ => (ensures_then fun _ =>
    ensures_classDeclaration p)) fun _ => ?_
  refine ensures_ite (fun _ => ensures_unless fun _ => (ensures_then fun _ => ensures_then fun _ =>
    ensures_pure nofun)) fun _ => ?_
  refine ensures_ite (fun _ => ensures_unless fun _ => (ensures_then fun _ =>
    ensures_exportTail hstatement p)) fun _ => ?_
  refine ensures_ite (fun _ => ensures_then fun _ => (hstatement _ _).bind ?_) fun _ => ?_
  · intro body hbody
    exact ensures_pure (Statement.bindsNames_compound (List.forall_mem_singleton.mpr hbody))
  refine ensures_then fun _ => ensures_then fun _ => (ensures_controlled? hinner hstatement p w).bind ?_
  rintro (_ | inside) hinside
  · refine ensures_then fun _ => ensures_ite (fun _ => ensures_pure nofun) fun _ => ?_
    exact ensures_then fun _ => ensures_expressionStatement p
  · exact ensures_pure (Statement.bindsNames_compound (hinside inside rfl))

theorem ensures_readStatement (p : Place) (declares : Bool) :
    Ensures (readStatement inner p declares) Statement.BindsNames := by
  refine ensures_then ?_
  rintro ⟨ended, token, rest⟩
  split
  · exact ensures_then fun _ => ensures_pure nofun
  · refine (ensures_block hstatement _).bind fun inside hinside => ensures_pure ?_
    exact Statement.bindsNames_compound hinside
  · refine ensures_then fun _ => ensures_then fun _ => ensures_unless fun _ => (ensures_then fun _ => ?_)
    exact ensures_ite (fun _ => ensures_exportTail hstatement _) fun _ => ensures_then fun _ =>
      ensures_classDeclaration _
  · exact ensures_wordStatement hinner hstatement _ declares _ _
  · exact ensures_expressionStatement _

omit hinner hstatement

/-! ### Levels -/

/-- What patterns bind on any level can be bound. -/
theorem ensures_levelPattern (n : Nat) (p : Place) :
    Ensures ((Inner.level n).pattern p) Pattern.BindsNames := by
  induction n generalizing p with
  | zero => exact ensures_failure
  | succ n ih => exact ensures_readPattern ih p

theorem ensures_levelStatement (n : Nat) (p : Place) (declares : Bool) :
    Ensures ((Inner.level n).statement p declares) Statement.BindsNames := by
  induction n generalizing p declares with
  | zero => exact ensures_failure
  | succ n ih => exact ensures_readStatement (ensures_levelPattern n) ih p declares

/-- **All that a program binds are words that can be names.** -/
theorem isBindable_of_parse
    {code : Text} {program : List Statement} {st : Statement} {n : Text}
    (h : parse? code = some program) (hst : st ∈ program) (hn : n ∈ st.bound) : IsBindable n := by
  obtain ⟨hrun, -⟩ := Option.filter_eq_some_iff.mp h
  obtain ⟨⟨statements, rest⟩, hread, rfl⟩ := Option.map_eq_some_iff.mp hrun
  refine ensures_many (Q := Statement.BindsNames) ?_ _ _ _ hread st hst n hn
  refine ensures_then ?_
  rintro ⟨ended, token, rest⟩
  split
  · exact ensures_none
  · refine (ensures_levelStatement _ _ _).bind ?_
    intro st' hst'
    refine ensures_pure ?_
    intro st'' h
    cases h
    exact hst'

end LivePreview.Program

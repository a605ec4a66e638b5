/-
Where erasing fails.

An enum is written as an object, and the values of its members are counted in 64 bit words.  The
count goes one past every member, so it fails at a member that has the largest value, and nothing
else in a step of the eraser fails.  The values are stated here over all integers: `memberValues`
counts on where the program cannot.
-/
import LivePreview.Proofs.Erasure.Token

namespace LivePreview

open Script

/-! ### The values of members -/

namespace EnumObject

/-- The value of a member, where `index` members came before and `next` is the value behind that
of the last one.  An initialiser that is no number has no value that is known. -/
def Member.value? (m : Member) (index : Nat) (next : Option Int) : Option Int :=
  match m.init with
  | some init => EnumObject.value? init
  | none => some (next.getD index)

/-- The values of members, counted over all integers. -/
def valuesFrom (index : Nat) (next : Option Int) : List Member → List (Option Int)
  | [] => []
  | m :: ms =>
    m.value? index next :: valuesFrom (index + 1) ((m.value? index next).map (· + 1)) ms

/-- The values of the members in the body of an enum. -/
def memberValues (body : Text) : List (Option Int) :=
  valuesFrom 0 (some 0) ((splitTopLevel ',' body).filterMap Member.read?)

theorem bind_eq_error_iff {α β : Type} {x : Except Overflow α} {f : α → Except Overflow β} :
    (x >>= f) = .error .overflow ↔
      x = .error .overflow ∨ ∃ a, x = .ok a ∧ f a = .error .overflow := by
  cases x with
  | error o => simp [bind, Except.bind]
  | ok a => simp [bind, Except.bind]

theorem successor_eq_error_iff (v : Int) : successor v = .error .overflow ↔ v = maxValue := by
  unfold successor
  split <;> simp_all

/-- Behind a member the count goes on, unless that member has the largest value. -/
theorem properties_cons_eq_error_iff (index : Nat) (next : Option Int) (m : Member)
    (ms : List Member) :
    properties index next (m :: ms) = .error .overflow ↔
      m.value? index next = some maxValue ∨
        properties (index + 1) ((m.value? index next).map (· + 1)) ms = .error .overflow := by
  have hlater : ∀ (next : Option Int) (text : Text),
      (properties (index + 1) next ms >>= fun later => pure (text :: later)) = .error .overflow ↔
        properties (index + 1) next ms = .error .overflow := by
    intro next text
    rw [bind_eq_error_iff]
    exact or_iff_left fun ⟨later, _, h⟩ => nomatch h
  have hcount : ∀ (v : Int) (text : Text),
      (successor v >>= fun next => properties (index + 1) (some next) ms >>= fun later =>
        pure (text :: later)) = .error .overflow ↔
      v = maxValue ∨ properties (index + 1) (some (v + 1)) ms = .error .overflow := by
    intro v text
    rw [bind_eq_error_iff, successor_eq_error_iff]
    refine or_congr_right' fun hv => ?_
    have hok : successor v = .ok (v + 1) := if_neg hv
    constructor
    · rintro ⟨_, hnext, h⟩
      cases hok.symm.trans hnext
      exact (hlater _ _).mp h
    · exact fun h => ⟨_, hok, (hlater _ _).mpr h⟩
  unfold Member.value?
  cases hinit : m.init with
  | none => simpa [properties, hinit] using hcount (next.getD index) _
  | some init =>
    cases hvalue : EnumObject.value? init with
    | none => simpa [properties, hinit, hvalue] using hlater none _
    | some v => simpa [properties, hinit, hvalue] using hcount v _

/-- **An enum has no object exactly if a member has the largest value.** -/
theorem properties_eq_error_iff (index : Nat) (next : Option Int) (ms : List Member) :
    properties index next ms = .error .overflow ↔
      some maxValue ∈ valuesFrom index next ms := by
  induction ms generalizing index next with
  | nil => exact iff_of_false nofun nofun
  | cons m ms ih =>
    rw [properties_cons_eq_error_iff, ih, valuesFrom, List.mem_cons, eq_comm]

theorem render_eq_error_iff (name body : Text) :
    render name body = .error .overflow ↔ some maxValue ∈ memberValues body := by
  rw [memberValues, ← properties_eq_error_iff, render, bind_eq_error_iff]
  exact or_iff_left fun ⟨members, _, h⟩ => nomatch h

end EnumObject

/-! ### The enums that are converted -/

namespace Erasure

open EnumObject

/-- The name of an enum, the braces around `body` and what remains behind them. -/
structure EnumFollows (name body : Text) : Prop where
  starts : startsIdent name = true
  group : ∃ rest, Text.skipBlanks (skipIdent name) = '{' :: (body ++ '}' :: rest) ∧
    afterGroup? (Text.skipBlanks (skipIdent name)) = some rest

/-- What stands behind the keyword of an enum. -/
inductive EnumKeyword (s : Text) : Text → Prop where
  | plain (h : ident s = "enum".toList) : EnumKeyword s (Text.skipBlanks (skipIdent s))
  | const (h : ident s = "const".toList)
      (h' : ident (Text.skipBlanks (skipIdent s)) = "enum".toList) :
      EnumKeyword s (Text.skipBlanks (skipIdent (Text.skipBlanks (skipIdent s))))

theorem EnumKeyword.exists_cons {s name : Text} (h : EnumKeyword s name) :
    ∃ c t, s = c :: t ∧ isIdentStart c = true := by
  have hident : ident s ≠ [] := by
    cases h with
    | plain h | const h =>
      rw [h]
      decide
  cases s with
  | nil => exact absurd rfl hident
  | cons c t =>
    refine ⟨c, t, rfl, ?_⟩
    by_contra hc
    exact hident (if_neg hc)

/-- The next step converts an enum with this body, at the start of a statement. -/
inductive Eraser.Converts (e : Eraser) (body : Text) : Prop where
  | intro {m : CodeMode} {outer : List Mode} {name : Text} (hmodes : e.modes = .code m :: outer)
      (hstatement : m.previous.statementMayStart m.newline = true)
      (hkeyword : EnumKeyword e.rest name) (hfollows : EnumFollows name body)

namespace Eraser

variable {e : Eraser}

/-- What stands between braces is the body. -/
theorem exists_body_of_afterGroup? {s rest : Text} (hopen : startsWithChar '{' s = true)
    (h : afterGroup? s = some rest) :
    ∃ body, s = '{' :: (body ++ '}' :: rest) ∧ (Text.consumed s rest).tail.dropLast = body := by
  obtain ⟨b, c, d, body, hb, hd, rfl⟩ := exists_brackets_of_afterGroup? h
  obtain rfl : c = '{' := by simpa [startsWithChar] using hopen
  obtain rfl : .curly = b := Option.some.inj hb
  obtain rfl : d = '}' := by
    unfold Bracket.closed? at hd
    split at hd
    · cases hd
    split at hd
    · cases hd
    split at hd
    · assumption
    · cases hd
  have hpieces : '{' :: (body ++ '}' :: rest) = ('{' :: (body ++ ['}'])) ++ rest := by simp
  refine ⟨body, rfl, ?_⟩
  rw [hpieces, Text.consumed_append, List.tail_cons, List.dropLast_concat]

theorem convertEnum?_eq_error_iff (name : Text) :
    e.convertEnum? name = .error .overflow ↔
      ∃ body, EnumFollows name body ∧ some maxValue ∈ memberValues body := by
  unfold convertEnum?
  dsimp only
  constructor
  · intro h
    split at h
    · cases h
    rename_i hstarts
    split at h
    · cases h
    rename_i hopen
    split at h
    · cases h
    rename_i rest hrest
    obtain hrender | ⟨object, -, hok⟩ := bind_eq_error_iff.mp h
    · obtain ⟨body, hgroup, hbody⟩ := exists_body_of_afterGroup? (by simpa using hopen) hrest
      rw [render_eq_error_iff, hbody] at hrender
      exact ⟨body, ⟨by simpa using hstarts, rest, hgroup, hrest⟩, hrender⟩
    · cases hok
  · rintro ⟨body, ⟨hstarts, rest, hgroup, hrest⟩, hvalue⟩
    have hopen : startsWithChar '{' (Text.skipBlanks (skipIdent name)) = true := by
      rw [hgroup]
      rfl
    obtain ⟨body', hgroup', hbody⟩ := exists_body_of_afterGroup? hopen hrest
    obtain rfl : body' = body := by
      rw [hgroup] at hgroup'
      exact (List.append_left_injective _ (List.cons.inj hgroup').2).symm
    have hrender := (render_eq_error_iff (ident name) body').mpr hvalue
    rw [← hbody] at hrender
    simp only [hstarts, hopen, hrest, Bool.not_true, Bool.false_eq_true, if_false]
    exact bind_eq_error_iff.mpr (Or.inl hrender)

/-! ### Steps -/

theorem isSome_word? (s : Text) : (word? s).isSome = startsIdent s := by
  cases s with
  | nil => rfl
  | cons c s =>
    by_cases hc : isIdentStart c = true <;> simp [word?, ident, startsIdent, hc]

theorem ident_of_word? {s w : Text} (h : word? s = some w) : ident s = w := by
  unfold word? at h
  split at h
  · cases h
  · exact Option.some.inj h

theorem ite_eq_error {α : Type} {p : Prop} [Decidable p] {a b : Except Overflow α} {o : Overflow}
    (h : (if p then a else b) = .error o) : p ∧ a = .error o ∨ ¬p ∧ b = .error o := by
  by_cases hp : p
  · rw [if_pos hp] at h
    exact Or.inl ⟨hp, h⟩
  · rw [if_neg hp] at h
    exact Or.inr ⟨hp, h⟩

theorem enum_do_eq_error_iff {name : Text} {kept : Eraser} (m : CodeMode) (previous : Previous) :
    (do
      match ← e.convertEnum? name with
      | some done => return done.inCode m previous
      | none => return kept : Except Overflow Eraser) = .error .overflow ↔
      ∃ body, EnumFollows name body ∧ some maxValue ∈ memberValues body := by
  rw [bind_eq_error_iff, convertEnum?_eq_error_iff]
  refine or_iff_left ?_
  rintro ⟨done?, -, h⟩
  cases done? <;> cases h

/-- At the start of a statement, the keyword of an enum is stepped over with the enum. -/
theorem stepWord_enum {m : CodeMode} {name : Text} (hkeyword : EnumKeyword e.rest name)
    (hname : startsIdent name = true) (hstatement : m.previous.statementMayStart m.newline = true) :
    e.stepWord m = (do
      match ← e.convertEnum? name with
      | some done => return done.inCode m (.sign ';')
      | none => return (e.keep (skipIdent e.rest)).inCode m (.word (ident e.rest))) := by
  cases hkeyword with
  | plain h =>
    have hsome : (word? (Text.skipBlanks (skipIdent e.rest))).isSome = true := by
      rw [isSome_word?]
      exact hname
    unfold stepWord
    refine (if_neg ?_).trans ((if_neg ?_).trans ((if_neg ?_).trans (if_pos ?_)))
    · simp [h]
    · simp [h]
    · simp [h]
    · simp only [h, hstatement, hsome, decide_true, Bool.and_self]
  | const h h' =>
    have hnext : word? (Text.skipBlanks (skipIdent e.rest)) = some "enum".toList := by
      unfold word?
      rw [h']
      rfl
    unfold stepWord
    refine (if_neg ?_).trans ((if_neg ?_).trans ((if_neg ?_).trans ((if_neg ?_).trans (if_pos ?_))))
    · simp [h]
    · simp [h]
    · simp [h]
    · simp [h]
    · simp only [h, hstatement, hnext, decide_true, Bool.and_self]

/-- Of all words, only an enum keyword at the start of a statement can fail. -/
theorem stepWord_eq_error_iff (m : CodeMode) :
    e.stepWord m = .error .overflow ↔ m.previous.statementMayStart m.newline = true ∧
      ∃ name body, EnumKeyword e.rest name ∧ EnumFollows name body ∧
        some maxValue ∈ memberValues body := by
  constructor
  · intro h
    unfold stepWord at h
    dsimp only at h
    obtain ⟨-, h⟩ | ⟨-, h⟩ := ite_eq_error h
    · split at h <;> cases h
    obtain ⟨-, h⟩ | ⟨-, h⟩ := ite_eq_error h
    · split at h <;> cases h
    obtain ⟨-, h⟩ | ⟨-, h⟩ := ite_eq_error h
    · cases h
    obtain ⟨hkeyword, h⟩ | ⟨-, h⟩ := ite_eq_error h
    · obtain ⟨body, hfollows, hvalue⟩ := (enum_do_eq_error_iff m _).mp h
      simp only [Bool.and_eq_true, decide_eq_true_eq] at hkeyword
      exact ⟨hkeyword.1.2, _, body, .plain hkeyword.1.1, hfollows, hvalue⟩
    obtain ⟨hkeyword, h⟩ | ⟨-, h⟩ := ite_eq_error h
    · obtain ⟨body, hfollows, hvalue⟩ := (enum_do_eq_error_iff m _).mp h
      simp only [Bool.and_eq_true, decide_eq_true_eq] at hkeyword
      exact ⟨hkeyword.1.2, _, body, .const hkeyword.1.1 (ident_of_word? hkeyword.2), hfollows,
        hvalue⟩
    obtain ⟨-, h⟩ | ⟨-, h⟩ := ite_eq_error h
    · cases h
    obtain ⟨-, h⟩ | ⟨-, h⟩ := ite_eq_error h
    · cases h
    obtain ⟨-, h⟩ | ⟨-, h⟩ := ite_eq_error h
    · cases h
    obtain ⟨-, h⟩ | ⟨-, h⟩ := ite_eq_error h
    · split at h <;> cases h
    obtain ⟨-, h⟩ | ⟨-, h⟩ := ite_eq_error h
    · split at h <;> cases h
    obtain ⟨-, h⟩ | ⟨-, h⟩ := ite_eq_error h <;> cases h
  · rintro ⟨hstatement, name, body, hkeyword, hfollows, hvalue⟩
    rw [stepWord_enum hkeyword hfollows.starts hstatement]
    exact (enum_do_eq_error_iff m _).mpr ⟨body, hfollows, hvalue⟩

theorem stepToken_eq_error_iff (m : CodeMode) (c : Char) (s : Text) :
    e.stepToken m c s = .error .overflow ↔
      isIdentStart c = true ∧ e.stepWord m = .error .overflow := by
  unfold stepToken
  dsimp only
  constructor
  · intro h
    obtain hword | ⟨-, h⟩ := ite_eq_error h
    · exact hword
    iterate 13
      obtain ⟨-, h⟩ | ⟨-, h⟩ := ite_eq_error h
      · cases h
    obtain ⟨-, h⟩ | ⟨-, h⟩ := ite_eq_error h
    · split at h <;> cases h
    iterate 4
      obtain ⟨-, h⟩ | ⟨-, h⟩ := ite_eq_error h
      · cases h
    obtain ⟨-, h⟩ | ⟨-, h⟩ := ite_eq_error h <;> cases h
  · rintro ⟨hstart, h⟩
    rw [if_pos hstart]
    exact h

theorem stepCode_eq_error_iff (m : CodeMode) (c : Char) (s : Text) :
    e.stepCode m c s = .error .overflow ↔
      isIdentStart c = true ∧ e.stepWord m = .error .overflow := by
  constructor
  · intro h
    unfold stepCode at h
    obtain ⟨-, h⟩ | ⟨-, h⟩ := ite_eq_error h
    · cases h
    obtain ⟨-, h⟩ | ⟨-, h⟩ := ite_eq_error h
    · cases h
    split at h
    · cases h
    · cases h
    · exact (stepToken_eq_error_iff m c s).mp h
  · rintro ⟨hstart, h⟩
    have hslash : c ≠ '/' := by
      rintro rfl
      exact absurd hstart (by decide)
    have hblank := isBlank_eq_false_of_identChar (isIdentChar_of_start hstart)
    rw [stepCode_eq_stepToken hblank hslash, stepToken_eq_error_iff]
    exact ⟨hstart, h⟩

/-- **A step fails exactly if it converts an enum in which a member has the largest value.** -/
theorem step_eq_error_iff (e : Eraser) :
    e.step = .error .overflow ↔ ∃ body, e.Converts body ∧ some maxValue ∈ memberValues body := by
  constructor
  · intro h
    unfold step at h
    split at h
    · rename_i c s mode outer hcs hmodes
      cases mode with
      | code m =>
        obtain ⟨-, hword⟩ := (stepCode_eq_error_iff m c s).mp h
        obtain ⟨hstatement, name, body, hkeyword, hfollows, hvalue⟩ :=
          (stepWord_eq_error_iff m).mp hword
        exact ⟨body, ⟨hmodes, hstatement, hkeyword, hfollows⟩, hvalue⟩
      | template | tag | children => cases h
    · cases h
  · rintro ⟨body, ⟨hmodes, hstatement, hkeyword, hfollows⟩, hvalue⟩
    rename_i m outer name
    obtain ⟨c, s, hcs, hstart⟩ := hkeyword.exists_cons
    obtain ⟨before, rest, out, report, modes⟩ := e
    obtain rfl : modes = .code m :: outer := hmodes
    obtain rfl : rest = c :: s := hcs
    exact (stepCode_eq_error_iff m c s).mpr
      ⟨hstart, (stepWord_eq_error_iff m).mpr ⟨hstatement, name, body, hkeyword, hfollows, hvalue⟩⟩

end Eraser

end Erasure

end LivePreview

/-
Groups are balanced words of brackets.

A text is a sequence of tokens: a string, a template or a comment is one token, whatever stands
inside of it, and so is any other character.  The tokens that are brackets make up a word, and
`IsGroup` says that such a word is nested well, each bracket closed by one of its own kind, and that
its last bracket closes its first.  The reader of groups finds exactly these words:
`afterGroup?_eq_some_iff`.

Between the tokens the reader keeps the kinds of the groups that it is inside of.  So the statement
behind this one is about any number of groups that are still open: `Closes` splits a word at the
brackets that close them, and what stands between two of these is nested well.
-/
import LivePreview.Proofs.Script.Prefix

namespace LivePreview.Script

/-! ### Tokens -/

/-- What a token is to the brackets of a text. -/
inductive Token where
  /-- a bracket that opens a group -/
  | opening (b : Bracket)
  /-- a bracket that closes a group -/
  | closing (b : Bracket)
  /-- anything else: a string, a template, a comment or another character -/
  | plain
deriving DecidableEq, Repr

/-- The token that starts with this character. -/
def Token.ofChar (c : Char) : Token :=
  match Bracket.opened? c, Bracket.closed? c with
  | some b, _ => .opening b
  | none, some b => .closing b
  | none, none => .plain

/-- What remains behind the token at the front of the text. -/
def tokenRest : Text → Text
  | [] => []
  | c :: s => (afterLiteral? (c :: s)).getD s

/-- From the first text on these tokens follow each other, and the second one remains. -/
inductive Tokens : Text → List Token → Text → Prop
  | done (s : Text) : Tokens s [] s
  | token {c : Char} {s rest : Text} {ts : List Token} (h : Tokens (tokenRest (c :: s)) ts rest) :
      Tokens (c :: s) (Token.ofChar c :: ts) rest

/-! ### Words of brackets -/

/-- Every bracket of the word is one of a pair: the second closes what the first opens, is of the
same kind, and what stands between them is nested well. -/
inductive WellNested : List Token → Prop
  | nil : WellNested []
  | plain {ts : List Token} (h : WellNested ts) : WellNested (.plain :: ts)
  | group {b : Bracket} {inner after : List Token} (hinner : WellNested inner)
      (hafter : WellNested after) : WellNested (.opening b :: (inner ++ .closing b :: after))

/-- A word whose first bracket is closed by its last one. -/
def IsGroup (ts : List Token) : Prop :=
  ∃ b inner, ts = .opening b :: (inner ++ [.closing b]) ∧ WellNested inner

/-- A word that closes the groups of these kinds, innermost first, with its last token. -/
def Closes : List Bracket → List Token → Prop
  | [], ts => ts = []
  | b :: up, ts => ∃ inner after, ts = inner ++ .closing b :: after ∧ WellNested inner ∧
      Closes up after

namespace Closes

variable {b b' : Bracket} {up : List Bracket} {ts : List Token}

theorem closing (h : Closes up ts) : Closes (b :: up) (.closing b :: ts) :=
  ⟨[], ts, rfl, .nil, h⟩

theorem plain (h : Closes (b :: up) ts) : Closes (b :: up) (.plain :: ts) := by
  obtain ⟨inner, after, rfl, hinner, hafter⟩ := h
  exact ⟨.plain :: inner, after, rfl, .plain hinner, hafter⟩

/-- What closes a group inside of another one is part of the inside of that one. -/
theorem opening (h : Closes (b' :: b :: up) ts) : Closes (b :: up) (.opening b' :: ts) := by
  obtain ⟨inner, after, rfl, hinner, inner', after', rfl, hinner', hafter'⟩ := h
  exact ⟨.opening b' :: (inner ++ .closing b' :: inner'), after', by simp,
    .group hinner hinner', hafter'⟩

theorem of_closing (h : Closes (b :: up) (.closing b' :: ts)) : b' = b ∧ Closes up ts := by
  obtain ⟨inner, after, hts, hinner, hafter⟩ := h
  cases hinner with
  | nil =>
    cases hts
    exact ⟨rfl, hafter⟩
  | plain => cases hts
  | group => cases hts

theorem of_plain (h : Closes (b :: up) (.plain :: ts)) : Closes (b :: up) ts := by
  obtain ⟨inner, after, hts, hinner, hafter⟩ := h
  cases hinner with
  | nil => cases hts
  | plain hinner =>
    cases hts
    exact ⟨_, after, rfl, hinner, hafter⟩
  | group => cases hts

theorem of_opening (h : Closes (b :: up) (.opening b' :: ts)) : Closes (b' :: b :: up) ts := by
  obtain ⟨inner, after, hts, hinner, hafter⟩ := h
  cases hinner with
  | nil => cases hts
  | plain => cases hts
  | group hin hbehind =>
    cases hts
    exact ⟨_, _, by simp, hin, _, after, rfl, hbehind, hafter⟩

end Closes

theorem isGroup_iff {b : Bracket} {ts : List Token} :
    IsGroup (.opening b :: ts) ↔ Closes [b] ts := by
  constructor
  · rintro ⟨b', inner, hts, hinner⟩
    cases hts
    exact ⟨inner, [], rfl, hinner, rfl⟩
  · rintro ⟨inner, after, rfl, hinner, rfl⟩
    exact ⟨b, inner, rfl, hinner⟩

/-! ### The reader of groups -/

variable {c : Char} {s rest : Text} {b b' : Bracket} {up : List Within}

theorem Bracket.opened?_cases (h : Bracket.opened? c = some b) : c = '(' ∨ c = '[' ∨ c = '{' := by
  unfold Bracket.opened? at h
  split_ifs at h <;> simp_all

theorem Bracket.closed?_cases (h : Bracket.closed? c = some b) :
    c = ')' ∨ c = ']' ∨ c = '\x7d' := by
  unfold Bracket.closed? at h
  split_ifs at h <;> simp_all

/-- A bracket that opens something closes nothing. -/
theorem Bracket.closed?_of_opened? (h : Bracket.opened? c = some b) : Bracket.closed? c = none := by
  obtain rfl | rfl | rfl := Bracket.opened?_cases h <;> rfl

theorem ofChar_of_opened? (h : Bracket.opened? c = some b) : Token.ofChar c = .opening b := by
  simp [Token.ofChar, h]

theorem ofChar_of_closed? (h : Bracket.closed? c = some b) : Token.ofChar c = .closing b := by
  cases hopen : Bracket.opened? c with
  | none => simp [Token.ofChar, hopen, h]
  | some b' => rw [Bracket.closed?_of_opened? hopen] at h; cases h

theorem ofChar_of_plain (hopen : Bracket.opened? c = none) (hclose : Bracket.closed? c = none) :
    Token.ofChar c = .plain := by
  simp [Token.ofChar, hopen, hclose]

theorem opened?_of_ofChar (h : Token.ofChar c = .opening b) : Bracket.opened? c = some b := by
  unfold Token.ofChar at h
  split at h <;> simp_all

/-- A bracket is a token of one character. -/
theorem tokenRest_of_opened? (h : Bracket.opened? c = some b) (s : Text) :
    tokenRest (c :: s) = s := by
  obtain rfl | rfl | rfl := Bracket.opened?_cases h <;> rfl

theorem tokenRest_of_closed? (h : Bracket.closed? c = some b) (s : Text) :
    tokenRest (c :: s) = s := by
  obtain rfl | rfl | rfl := Bracket.closed?_cases h <;> rfl

theorem suffix_tail_tokenRest (s : Text) : tokenRest s <:+ s.tail := by
  cases s with
  | nil => exact List.suffix_rfl
  | cons c s =>
    rw [tokenRest]
    cases hliteral : afterLiteral? (c :: s) with
    | none => exact List.suffix_rfl
    | some rest => exact suffix_tail_afterLiteral? hliteral

theorem length_tokenRest_lt (c : Char) (s : Text) :
    (tokenRest (c :: s)).length < (c :: s).length :=
  Nat.lt_succ_of_le (suffix_tail_tokenRest (c :: s)).length_le

/-- What the tokens of a text come to is an end piece of it. -/
theorem Tokens.suffix {ts : List Token} (h : Tokens s ts rest) : rest <:+ s := by
  induction h with
  | done s => exact List.suffix_rfl
  | token h ih => exact ih.trans ((suffix_tail_tokenRest _).trans (List.tail_suffix _))

theorem leave_opening (h : Bracket.opened? c = some b') (s : Text) :
    leave (.group b :: up) (c :: s) = leave (.group b' :: .group b :: up) s := by
  obtain rfl | rfl | rfl := Bracket.opened?_cases h <;> cases h <;> rfl

theorem leave_closing (h : Bracket.closed? c = some b') (s : Text) :
    leave (.group b :: up) (c :: s) = if b' = b then leave up s else none := by
  obtain rfl | rfl | rfl := Bracket.closed?_cases h <;> cases h <;> rfl

/-- Where the groups around are left, tokens that close them have been read. -/
theorem exists_tokens_of_leave {g : List Bracket} {s rest : Text}
    (h : leave (g.map .group) s = some rest) : ∃ ts, Tokens s ts rest ∧ Closes g ts := by
  -- a token is more than one character, so the induction is on the text that is left
  induction hn : s.length using Nat.strong_induction_on generalizing g s with
  | _ n ih =>
    subst hn
    cases g with
    | nil =>
      rw [List.map_nil, leave] at h
      cases h
      exact ⟨[], .done _, rfl⟩
    | cons b up =>
      cases s with
      | nil => cases h
      | cons c s =>
        rw [List.map_cons] at h
        cases hopen : Bracket.opened? c with
        | some b' =>
          rw [leave_opening hopen] at h
          obtain ⟨ts, hts, hcloses⟩ := ih s.length (Nat.lt_succ_self _) (g := b' :: b :: up) h rfl
          refine ⟨.opening b' :: ts, ?_, hcloses.opening⟩
          rw [← ofChar_of_opened? hopen]
          exact .token (by rwa [tokenRest_of_opened? hopen])
        | none =>
          cases hclose : Bracket.closed? c with
          | some b' =>
            rw [leave_closing hclose, Option.ite_none_right_eq_some] at h
            obtain ⟨rfl, h⟩ := h
            obtain ⟨ts, hts, hcloses⟩ := ih s.length (Nat.lt_succ_self _) h rfl
            refine ⟨.closing b' :: ts, ?_, hcloses.closing⟩
            rw [← ofChar_of_closed? hclose]
            exact .token (by rwa [tokenRest_of_closed? hclose])
          | none =>
            rw [leave_afterLiteral hopen hclose] at h
            obtain ⟨ts, hts, hcloses⟩ :=
              ih _ (length_tokenRest_lt c s) (g := b :: up) h rfl
            refine ⟨.plain :: ts, ?_, hcloses.plain⟩
            rw [← ofChar_of_plain hopen hclose]
            exact .token hts

/-- Behind tokens that close the groups around, these are left. -/
theorem leave_of_tokens {g : List Bracket} {s rest : Text} {ts : List Token}
    (h : Tokens s ts rest) (hcloses : Closes g ts) :
    leave (g.map .group) s = some rest := by
  induction h generalizing g with
  | done s =>
    cases g with
    | nil => rw [List.map_nil, leave]
    | cons b up =>
      obtain ⟨inner, after, hts, -⟩ := hcloses
      simp at hts
  | @token c s rest ts h ih =>
    cases g with
    | nil => cases hcloses
    | cons b up =>
      rw [List.map_cons]
      cases hopen : Bracket.opened? c with
      | some b' =>
        rw [ofChar_of_opened? hopen] at hcloses
        rw [tokenRest_of_opened? hopen] at ih
        rw [leave_opening hopen]
        exact ih hcloses.of_opening
      | none =>
        cases hclose : Bracket.closed? c with
        | some b' =>
          rw [ofChar_of_closed? hclose] at hcloses
          rw [tokenRest_of_closed? hclose] at ih
          rw [leave_closing hclose, if_pos hcloses.of_closing.1]
          exact ih hcloses.of_closing.2
        | none =>
          rw [ofChar_of_plain hopen hclose] at hcloses
          rw [leave_afterLiteral hopen hclose]
          exact ih hcloses.of_plain

/-- **The group at the front of a text is the balanced word of brackets there.** -/
theorem afterGroup?_eq_some_iff {s rest : Text} :
    afterGroup? s = some rest ↔ ∃ ts, Tokens s ts rest ∧ IsGroup ts := by
  constructor
  · intro h
    cases s with
    | nil => cases h
    | cons c s =>
      obtain ⟨b, hopen, hleave⟩ := Option.bind_eq_some_iff.mp h
      obtain ⟨ts, hts, hcloses⟩ := exists_tokens_of_leave (g := [b]) hleave
      refine ⟨.opening b :: ts, ?_, isGroup_iff.mpr hcloses⟩
      rw [← ofChar_of_opened? hopen]
      exact .token (by rwa [tokenRest_of_opened? hopen])
  · rintro ⟨ts, hts, hgroup⟩
    cases hts with
    | done =>
      obtain ⟨b, inner, hts, -⟩ := hgroup
      cases hts
    | @token c s rest ts h =>
      obtain ⟨b, inner, hword, hinner⟩ := hgroup
      obtain ⟨hchar, rfl⟩ := List.cons.inj hword
      have hopen : Bracket.opened? c = some b := opened?_of_ofChar hchar
      rw [tokenRest_of_opened? hopen] at h
      refine Option.bind_eq_some_iff.mpr ⟨b, hopen, ?_⟩
      exact leave_of_tokens (g := [b]) h ⟨inner, [], rfl, hinner, rfl⟩

end LivePreview.Script

/-
Slices of bytes, and what is made of them.

The eraser on bytes takes slices between the places that it comes to.  As long as these are where
the eraser on characters comes to, each slice is what is read there from one place to the other, and
nothing goes wrong.  So what is kept of a text, and what declarations, headers and enums come to, is
the same.  Where a byte is passed at a time, no slice is taken before the end of the character is
passed.
-/
import LivePreview.Proofs.Erasure.ByteLookahead
import LivePreview.Proofs.Erasure.Bytewise
import LivePreview.Proofs.Erasure.Cuts

namespace LivePreview.Erasure

open Script EnumObject
open Text (spread isAscii Uniform Wide spread_wide spread_ascii spread_cases exists_of_spread_eq_cons
  consumed bytes byteSize slice? offsetAfter isSlice_of_suffix)

variable {code s t start rest piece : Text} {c d : Char} {ds : Text}

namespace Bytewise

@[simp] theorem ok_bind {α β : Type} (a : α) (f : α → Checked β) :
    (Except.ok a >>= f : Checked β) = f a := rfl

@[simp] theorem bind_ok {α β : Type} (a : α) (f : α → Checked β) :
    (Except.ok a : Checked α).bind f = f a := rfl

@[simp] theorem map_ok {α β : Type} (a : α) (f : α → β) :
    (Except.ok a : Checked α).map f = .ok (f a) := rfl

/-! ### Slices -/

theorem offset_spread (hs : s <:+ code) : offset code (spread s) = offsetAfter 0 code s := by
  obtain ⟨front, rfl⟩ := hs
  rw [offset, Text.length_bytes, Text.length_spread, offsetAfter, Text.consumed_append,
    Text.byteSize_append]
  omega

/-- **A slice between two places of a text** is what is read from one to the other. -/
theorem slice_spread (hs : s <:+ code) (hrest : rest <:+ s) :
    slice code (spread s) (spread rest) = .ok (consumed s rest) := by
  rw [slice, offset_spread hs, offset_spread (hrest.trans hs), (isSlice_of_suffix hs hrest).cut]

theorem slice_nil (hs : s <:+ code) : slice code (spread s) [] = .ok s := by
  have hslice := slice_spread hs (List.nil_suffix (l := s))
  rwa [consumed, List.length_nil, Nat.sub_zero, List.take_length] at hslice

theorem behindChar_spread (hs : c :: s <:+ code) :
    behindChar code (spread (c :: s)) = .ok (spread s) := by
  have hsize : c.utf8Size = (spread [c]).length := by
    rw [Text.length_spread]
    exact (Nat.add_zero _).symm
  rw [behindChar, slice_nil hs, map_ok, List.head?_cons, Option.map_some, Option.getD_some,
    Text.spread_cons, hsize, List.drop_left]

theorem behindChar_nil : behindChar code [] = .ok [] := by
  have hslice : slice code (spread []) [] = .ok [] := slice_nil List.nil_suffix
  rw [Text.spread_nil] at hslice
  rw [behindChar, hslice]
  rfl

theorem arrowAt_spread (hs : s <:+ code) :
    arrowAt code (spread s) = .ok ("=>".toList.isPrefixOf s) := by
  rw [arrowAt, slice_nil hs, map_ok]

theorem consumed_skipIdent (s : Text) : consumed s (skipIdent s) = ident s := by
  cases s with
  | nil => rfl
  | cons c s =>
    by_cases hc : isIdentStart c = true
    · have hpieces : c :: s = (c :: s.takeWhile isIdentChar) ++ s.dropWhile isIdentChar := by
        rw [List.cons_append, List.takeWhile_append_dropWhile]
      rw [skipIdent, ident, if_pos hc, if_pos hc, hpieces, Text.consumed_append]
    · rw [skipIdent, ident, if_neg hc, if_neg hc, consumed, Nat.sub_self, List.take_zero]

theorem slice_ident (hs : s <:+ code) :
    slice code (spread s) (skipIdent (spread s)) = .ok (ident s) := by
  rw [skipIdent_spread, slice_spread hs (suffix_skipIdent s), consumed_skipIdent]

theorem word?_spread (hs : s <:+ code) : word? code (spread s) = .ok (Script.word? s) := by
  rw [word?, startsIdent_spread, slice_ident hs]
  cases s with
  | nil => rfl
  | cons c s =>
    by_cases hc : isIdentStart c = true
    · simp [startsIdent, Script.word?, ident, hc]
    · simp [startsIdent, Script.word?, ident, hc]

/-- What stands between two characters of ASCII, as it is taken out of a text. -/
theorem slice_between {opened close : Char} {inside : Text}
    (hs : opened :: (inside ++ close :: rest) <:+ code) (hopen : isAscii opened = true)
    (hclose : isAscii close = true) :
    slice code (spread (opened :: (inside ++ close :: rest))).tail
        (fromLast (spread (opened :: (inside ++ close :: rest))) (spread rest))
      = .ok (consumed (opened :: (inside ++ close :: rest)) rest).tail.dropLast := by
  have hinside : inside ++ close :: rest <:+ code := Text.suffix_of_cons hs
  have hlast : fromLast (spread (opened :: (inside ++ close :: rest))) (spread rest)
      = spread (close :: rest) := by
    have hfront : spread (opened :: (inside ++ close :: rest))
        = spread (opened :: inside) ++ spread (close :: rest) := by
      rw [← Text.spread_append, List.cons_append]
    rw [fromLast, hfront, spread_ascii hclose, List.length_append, List.length_cons]
    exact List.drop_left' (by omega)
  have hpieces : opened :: (inside ++ close :: rest) = (opened :: (inside ++ [close])) ++ rest := by
    simp
  rw [hlast, spread_ascii hopen, List.tail_cons, slice_spread hinside (List.suffix_append _ _),
    Text.consumed_append, hpieces, Text.consumed_append, List.tail_cons, List.dropLast_concat]

/-! ### Places in order -/

theorem length_spread_le (h : rest <:+ s) : (spread rest).length ≤ (spread s).length := by
  obtain ⟨piece, rfl⟩ := h
  rw [Text.spread_append, List.length_append]
  exact Nat.le_add_left _ _

/-- What is read to a place, and from there to a later one, is what is read to that. -/
theorem consumed_trans (hs : s <:+ start) (hrest : rest <:+ s) :
    consumed start s ++ consumed s rest = consumed start rest := by
  obtain ⟨front, rfl⟩ := hs
  obtain ⟨piece, rfl⟩ := hrest
  rw [Text.consumed_append, Text.consumed_append, ← List.append_assoc, Text.consumed_append]

end Bytewise

/-! ### Moves -/

namespace Eraser

variable {e : Eraser}

/-- The eraser as it stands in the bytes of the text: the character in front is the last byte of
it. -/
def inBytes (e : Eraser) : Eraser :=
  { e with before := e.before.bind fun c => (spread [c]).getLast?, rest := spread e.rest }

@[simp] theorem inBytes_rest (e : Eraser) : e.inBytes.rest = spread e.rest := rfl

@[simp] theorem inBytes_modes (e : Eraser) : e.inBytes.modes = e.modes := rfl

/-- A character has a last byte. -/
theorem exists_lastByte (c : Char) : ∃ d, (spread [c]).getLast? = some d :=
  ⟨_, List.getLast?_eq_some_getLast (Text.spread_singleton_ne_nil c)⟩

/-- The byte in front is in a class of ASCII characters if the character is. -/
theorem any_before_inBytes {p : Char → Bool} {b : Bool} (hp : Uniform p b) (e : Eraser) :
    e.inBytes.before.any p = e.before.any p := by
  rw [inBytes]
  cases e.before with
  | none => rfl
  | some c =>
    obtain ⟨d, hd⟩ := exists_lastByte c
    rw [Option.bind_some, hd, Option.any_some, Option.any_some,
      hp.spread c d (List.mem_of_getLast? hd)]

theorem lastBefore_inBytes (hrest : rest <:+ e.rest) :
    e.inBytes.lastBefore (spread rest)
      = (e.lastBefore rest).bind fun c => (spread [c]).getLast? := by
  rw [lastBefore, lastBefore, inBytes_rest, consumed_spread hrest]
  rcases List.eq_nil_or_concat (consumed e.rest rest) with hnil | ⟨piece, c, hpiece⟩
  · rw [hnil]
    rfl
  · rw [hpiece, List.concat_eq_append, Text.spread_append, List.getLast?_concat,
      List.getLast?_append_of_ne_nil _ (Text.spread_singleton_ne_nil c), Option.some_or,
      Option.bind_some]
    obtain ⟨d, hd⟩ := exists_lastByte c
    rw [hd, Option.some_or]

theorem erase_inBytes (rule : ErasureRule) (hrest : rest <:+ e.rest) :
    e.inBytes.erase rule (spread rest) = (e.erase rule rest).inBytes := by
  rw [erase, lastBefore_inBytes hrest]
  rfl

end Eraser

namespace Bytewise

variable {e : Eraser}

/-- **What is kept of a text is kept in the bytes.** -/
theorem keep_inBytes (he : e.rest <:+ code) (hrest : rest <:+ e.rest) :
    keep code e.inBytes (spread rest) = .ok (e.keep rest).inBytes := by
  rw [keep, Eraser.inBytes_rest, slice_spread he hrest, map_ok, Eraser.lastBefore_inBytes hrest]
  rfl

theorem keepChar_inBytes (he : e.rest <:+ code) (hcs : e.rest = c :: s) :
    keepChar code e.inBytes = .ok (e.keep s).inBytes := by
  rw [keepChar, Eraser.inBytes_rest, hcs, behindChar_spread (hcs ▸ he), bind_ok]
  exact keep_inBytes he (hcs ▸ List.suffix_cons c s)

theorem keepToken_inBytes (he : e.rest <:+ code) (hrest : rest <:+ e.rest) (m : CodeMode)
    (previous : Previous) :
    keepToken code e.inBytes m (spread rest) previous = .ok (e.keepToken m rest previous).inBytes := by
  rw [keepToken, keep_inBytes he hrest]
  rfl

/-! ### Declarations -/

theorem statementFrom_wide (hds : Wide ds) (k : Nat) (s : Text) :
    statementFrom code start (ds.length + k) (ds ++ s) = statementFrom code start k s := by
  induction ds with
  | nil => rw [List.length_nil, Nat.zero_add, List.nil_append]
  | cons d ds ih =>
    have hd := hds d List.mem_cons_self
    have hne : ∀ {e : Char}, isAscii e = true → d ≠ e := fun he => ne_of_wide hd he
    rw [List.length_cons, Nat.add_right_comm, List.cons_append, statementFrom,
      (brackets_of_wide hd).1, uniform_isQuote d hd, if_neg (by simp), if_neg (by simp),
      if_neg (hne rfl), if_neg (hne rfl), if_neg (hne rfl)]
    exact ih fun x hx => hds x (List.mem_cons_of_mem d hx)

/-- The statement ends where it does, since what was read of it at the end of a line is looked at as
the text that it is. -/
theorem statementFrom_spread (hstart : start <:+ code) {n k : Nat} (hs : s <:+ start)
    (hn : s.length ≤ n) (hk : (spread s).length ≤ k) :
    statementFrom code (spread start) k (spread s) = .ok (spread (statementRestFrom start n s)) := by
  induction n generalizing s k with
  | zero =>
    obtain rfl := List.length_eq_zero_iff.mp (Nat.le_zero.mp hn)
    cases k <;> rfl
  | succ n ih =>
    cases s with
    | nil => cases k <;> rfl
    | cons c s =>
      have htail : s <:+ start := Text.suffix_of_cons hs
      have hlength : s.length ≤ n := Nat.le_of_succ_le_succ hn
      cases hc : isAscii c with
      | false =>
        have hne : ∀ {e : Char}, isAscii e = true → c ≠ e := fun he => ne_of_wide hc he
        rw [Text.spread_cons c s, List.length_append] at hk
        obtain ⟨k, rfl⟩ : ∃ l, k = (spread [c]).length + l :=
          ⟨k - (spread [c]).length, by omega⟩
        rw [Text.spread_cons c s, statementFrom_wide (Text.wide_spread hc), ih htail hlength (by omega),
          statementRestFrom, (brackets_of_wide hc).1, uniform_isQuote c hc, if_neg (by simp),
          if_neg (by simp), if_neg (hne rfl), if_neg (hne rfl), if_neg (hne rfl)]
      | true =>
        have hspread := spread_ascii hc s
        rw [hspread, List.length_cons] at hk
        obtain ⟨k, rfl⟩ : ∃ l, k = l + 1 := ⟨k - 1, by omega⟩
        -- what the loop goes on with is an end piece of what is behind the character
        have hlater : ∀ {rest : Text}, rest <:+ s →
            statementFrom code (spread start) k (spread rest)
              = .ok (spread (statementRestFrom start n rest)) := fun hrest =>
          ih (hrest.trans htail) (hrest.length_le.trans hlength)
            ((length_spread_le hrest).trans (by omega))
        have hgroup := afterGroup?_spread (c :: s)
        rw [hspread] at hgroup ⊢
        rw [statementFrom, statementRestFrom]
        split_ifs with hopen hquote htick hend hline
        · rw [hgroup]
          cases hclosed : afterGroup? (c :: s) with
          | none => rfl
          | some rest => exact hlater (suffix_tail_afterGroup? hclosed)
        · rw [stringRest_spread hc]
          exact hlater (suffix_stringRest c s)
        · subst htick
          rw [skipTemplate_spread]
          exact hlater (suffix_tail_skipTemplate ('\x60' :: s))
        · rfl
        · rw [← hspread, slice_spread hstart hs, ok_bind, Text.skipBlanks_spread,
            startsWithChar_spread rfl, startsWithChar_spread rfl]
          dsimp only
          split
          · exact hlater List.suffix_rfl
          · rfl
        · exact hlater List.suffix_rfl

theorem statement_spread (hs : s <:+ code) :
    statement code (spread s) = .ok (spread (statementRest s)) :=
  statementFrom_spread hs List.suffix_rfl (Nat.le_refl _) (Nat.le_refl _)

theorem alias?_spread (hs : s <:+ code) : alias? code (spread s) = .ok ((aliasRest? s).map spread) := by
  have hnamed : Text.skipBlanks (skipIdent s) <:+ code :=
    (Text.suffix_skipBlanks _).trans ((suffix_skipIdent s).trans hs)
  have hdeclared : ∀ named : Text, (if startsWithChar '<' (spread named) = true
      then (afterTypeParameters? (spread named)).map Text.skipBlanks else some (spread named))
      = (if startsWithChar '<' named = true then (afterTypeParameters? named).map Text.skipBlanks
        else some named).map spread := by
    intro named
    rw [startsWithChar_spread rfl, afterTypeParameters?_spread]
    split
    · rw [Option.map_map, Option.map_map]
      exact Option.map_congr fun rest _ => Text.skipBlanks_spread rest
    · rfl
  simp only [alias?, aliasRest?, skipIdent_spread, Text.skipBlanks_spread, hdeclared]
  generalize hlist : (if startsWithChar '<' (Text.skipBlanks (skipIdent s)) = true
    then (afterTypeParameters? (Text.skipBlanks (skipIdent s))).map Text.skipBlanks
    else some (Text.skipBlanks (skipIdent s))) = list
  have hsuffix : ∀ {u : Text}, list = some u → u <:+ code := by
    intro u hu
    rw [hu] at hlist
    split at hlist
    · obtain ⟨closed, hclosed, rfl⟩ := Option.map_eq_some_iff.mp hlist
      exact (Text.suffix_skipBlanks _).trans (((suffix_tail_afterTypeParameters? hclosed).trans
        (List.tail_suffix _)).trans hnamed)
    · cases hlist
      exact hnamed
  split
  · rename_i value hvalue
    obtain ⟨u, rfl, hu⟩ := Option.map_eq_some_iff.mp hvalue
    obtain ⟨v, rfl, rfl⟩ := exists_of_spread_eq_cons rfl hu
    have hv : v <:+ code := Text.suffix_of_cons (hsuffix rfl)
    simp only [startsWithChar_spread (c := '=') rfl, statement_spread hv, ok_bind,
      afterType?_spread]
    split_ifs
    · rfl
    · cases afterType? v with
      | none => exact congrArg (fun rest => Except.ok (some rest)) (skipSemicolon_spread _)
      | some rest =>
        simp only [Option.map_some, endsStatement_spread]
        rw [← apply_ite spread, skipSemicolon_spread]
        rfl
  · rename_i hequals
    split
    · exact absurd (by rw [Option.map_some, spread_ascii rfl]) (hequals _)
    · rfl

/-! ### Bindings and headers -/

theorem eraseDefinite_inBytes (e : Eraser) : e.inBytes.eraseDefinite = e.eraseDefinite.inBytes := by
  unfold Eraser.eraseDefinite
  rw [Eraser.inBytes_rest]
  split
  · rename_i u hu
    obtain ⟨v, hv, hspread⟩ := exists_of_spread_eq_cons rfl hu
    obtain ⟨w, rfl, rfl⟩ := exists_of_spread_eq_cons rfl hspread.symm
    rw [hv, hspread]
    exact Eraser.erase_inBytes _ (hv ▸ List.suffix_cons _ _)
  · rename_i hbang
    split
    · rename_i w hw
      exact absurd (by rw [hw, spread_ascii rfl, spread_ascii rfl]) (hbang _)
    · rfl

theorem eraseVariableType_inBytes (he : e.rest <:+ code) :
    eraseVariableType code e.inBytes = .ok e.eraseVariableType.inBytes := by
  have hblanks := Text.suffix_skipBlanks e.rest
  simp only [eraseVariableType, Eraser.eraseVariableType, Eraser.inBytes_rest,
    Text.skipBlanks_spread]
  split
  · rename_i u hu
    obtain ⟨v, hv, rfl⟩ := exists_of_spread_eq_cons rfl hu
    rw [hv] at hblanks
    simp only [hv, afterType?_spread]
    cases htype : afterType? v with
    | none => rfl
    | some rest =>
      have hrest : rest <:+ ((e.keep (':' :: v)).trimOut).rest :=
        (suffix_afterType? htype).trans (List.suffix_cons ':' v)
      simp only [Option.map_some]
      rw [← spread_ascii rfl, keep_inBytes he hblanks, map_ok, ← Eraser.erase_inBytes _ hrest]
      rfl
  · rename_i hcolon
    split
    · rename_i v hv
      exact absurd (by rw [hv, spread_ascii rfl]) (hcolon _)
    · rfl

/-- Kept in two pieces is kept. -/
theorem keep_keep (hs : s <:+ e.rest) (hrest : rest <:+ s) : (e.keep s).keep rest = e.keep rest := by
  have hpiece := consumed_trans hs hrest
  simp only [Eraser.keep, Eraser.lastBefore, ← hpiece, List.getLast?_append, List.reverse_append,
    List.append_assoc, Option.or_assoc]

theorem eraseVariable_inBytes (he : e.rest <:+ code) :
    eraseVariable code e.inBytes = .ok (e.eraseVariable.1.inBytes, e.eraseVariable.2) := by
  have hname := Text.suffix_skipBlanks e.rest
  simp only [eraseVariable, Eraser.eraseVariable, Eraser.inBytes_rest, Text.skipBlanks_spread,
    afterPattern?_spread]
  cases hpattern : afterPattern? (Text.skipBlanks e.rest) with
  | none => rfl
  | some rest =>
    have hrest := suffix_afterPattern? hpattern
    have hbound := keep_inBytes (e := e.keep (Text.skipBlanks e.rest)) (hname.trans he) hrest
    rw [keep_keep hname hrest] at hbound
    have hcuts := (Eraser.cuts_eraseDefinite (e.keep rest)).suffix
    have htype := eraseVariableType_inBytes (e := (e.keep rest).eraseDefinite)
      (hcuts.trans ((hrest.trans hname).trans he))
    simp only [Option.map_some]
    rw [keep_inBytes he hname, ok_bind, word?_spread (hname.trans he), ok_bind, hbound, ok_bind,
      eraseDefinite_inBytes, htype, ok_bind, patternToken]
    cases Script.word? (Text.skipBlanks e.rest) <;> rfl

theorem text_eraseHeader_of_wide (hc : isAscii c = false) (hcs : e.rest = c :: s) {n : Nat} :
    e.eraseHeader (n + 1) = (e.keep s).eraseHeader n := by
  rw [Eraser.eraseHeader, hcs]
  dsimp only
  rw [if_neg (ne_of_wide hc rfl), if_neg (ne_of_wide hc rfl), if_neg (ne_of_wide hc rfl),
    uniform_isIdentStart c hc, if_neg Bool.false_ne_true]

theorem eraseHeader_of_wide {b : Eraser} (hd : isAscii d = false) (hb : b.rest = d :: ds) {n : Nat} :
    eraseHeader code (n + 1) b = (keepChar code b).bind (eraseHeader code n) := by
  rw [eraseHeader, hb]
  dsimp only
  rw [if_neg (ne_of_wide hd rfl), if_neg (ne_of_wide hd rfl), if_neg (ne_of_wide hd rfl),
    uniform_isIdentStart d hd, if_neg Bool.false_ne_true]

theorem eraseHeader_inBytes (n : Nat) (he : e.rest <:+ code) :
    eraseHeader code n e.inBytes = .ok (e.eraseHeader n).inBytes := by
  induction n generalizing e with
  | zero => rfl
  | succ n ih =>
    have hkeep : ∀ {rest : Text}, rest <:+ e.rest →
        (keep code e.inBytes (spread rest)).bind (eraseHeader code n)
          = .ok ((e.keep rest).eraseHeader n).inBytes := by
      intro rest hrest
      rw [keep_inBytes he hrest, bind_ok]
      exact ih (e := e.keep rest) (hrest.trans he)
    have herase : ∀ {rule : ErasureRule} {rest : Text}, rest <:+ e.rest →
        eraseHeader code n (e.inBytes.erase rule (spread rest))
          = .ok ((e.erase rule rest).eraseHeader n).inBytes := by
      intro rule rest hrest
      rw [Eraser.erase_inBytes rule hrest]
      exact ih (e := e.erase rule rest) (hrest.trans he)
    cases hcs : e.rest with
    | nil => simp [eraseHeader, Eraser.eraseHeader, hcs]
    | cons c s =>
      have htail : s <:+ e.rest := hcs ▸ List.suffix_cons c s
      have hword : skipIdent (c :: s) <:+ e.rest := hcs ▸ suffix_skipIdent (c :: s)
      have hchar : (keepChar code e.inBytes).bind (eraseHeader code n)
          = .ok ((e.keep s).eraseHeader n).inBytes := by
        rw [keepChar_inBytes he hcs, bind_ok]
        exact ih (e := e.keep s) (htail.trans he)
      cases hc : isAscii c with
      | false =>
        obtain ⟨d, ds, hspread, hd, -⟩ := spread_wide hc s
        have hbytes : e.inBytes.rest = d :: (ds ++ spread s) := by rw [Eraser.inBytes_rest, hcs, hspread]
        rw [eraseHeader_of_wide hd hbytes, text_eraseHeader_of_wide hc hcs]
        exact hchar
      | true =>
        have hspread := spread_ascii hc s
        have hparameters := afterTypeParameters?_spread (c :: s)
        have harguments := afterTypeArguments?_spread (c :: s)
        have hgroup := afterGroup?_spread (c :: s)
        have hident := skipIdent_spread (c :: s)
        have hslice := slice_ident (s := c :: s) (hcs ▸ he)
        rw [hspread] at hparameters harguments hgroup hident hslice
        rw [eraseHeader, Eraser.eraseHeader, Eraser.inBytes_rest, hcs, hspread]
        dsimp only
        split_ifs with hbrace hangle hround hstart himplements
        · rfl
        · rw [hparameters, harguments]
          cases hlist : afterTypeParameters? (c :: s) with
          | some rest =>
            exact herase (hcs ▸ ((suffix_tail_afterTypeParameters? hlist).trans
              (List.tail_suffix _)))
          | none =>
            cases htypes : afterTypeArguments? (c :: s) with
            | some rest =>
              exact herase (hcs ▸ ((suffix_tail_afterTypeArguments? htypes).trans
                (List.tail_suffix _)))
            | none => exact hkeep htail
        · rw [hgroup]
          cases hclosed : afterGroup? (c :: s) with
          | some rest => exact hkeep (hcs ▸ suffix_afterGroup? hclosed)
          | none => exact hkeep htail
        · rw [hslice, ok_bind, if_pos himplements, hident,
            Text.dropWhile_spread (Text.uniform_ne rfl)]
          exact herase ((List.dropWhile_suffix _).trans hword)
        · rw [hslice, ok_bind, if_neg himplements, hident]
          exact hkeep hword
        · exact hchar

end Bytewise

end LivePreview.Erasure

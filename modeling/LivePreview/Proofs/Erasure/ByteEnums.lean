/-
Enums in the bytes.

The body of an enum is a slice, and what is made of it are slices of that slice: the parts between
its commas, and of each part what is left of it without comments.  Both are found by going over
bytes one at a time, and both are cut at characters of ASCII alone, so they are those of the text.
-/
import LivePreview.Proofs.Erasure.ByteSlices

namespace LivePreview.Erasure

open Script EnumObject
open Text (spread isAscii Wide spread_ascii consumed)

variable {code body part p l s t start last rest : Text} {sep c d : Char} {ds : Text} {e : Eraser}

namespace Bytewise

/-! ### Parts -/

theorem afterLiteral?_of_wide (hc : isAscii c = false) : afterLiteral? (c :: s) = none := by
  have hne : ∀ {e : Char}, isAscii e = true → c ≠ e := fun he => ne_of_wide hc he
  rw [afterLiteral?, uniform_isQuote c hc, if_neg Bool.false_ne_true, if_neg (hne rfl)]
  · exact fun _ h => absurd h (hne rfl)
  · exact fun _ h => absurd h (hne rfl)

theorem skipPiece_of_wide (hc : isAscii c = false) : skipPiece (c :: s) = s := by
  rw [skipPiece, (brackets_of_wide hc).1, afterLiteral?_of_wide hc]
  rfl

/-- A pair of characters of ASCII in front of the bytes stands in front of the text. -/
theorem exists_pair {e : Char} (hd : isAscii d = true) (h : c :: spread s = e :: d :: t) :
    ∃ u, c :: s = e :: d :: u := by
  obtain ⟨rfl, hs⟩ := List.cons.inj h
  obtain ⟨u, rfl, -⟩ := Text.exists_of_spread_eq_cons hd hs
  exact ⟨u, rfl⟩

theorem afterLiteral?_of_plain (hline : ∀ t, c :: s ≠ '/' :: '/' :: t)
    (hblock : ∀ t, c :: s ≠ '/' :: '*' :: t) : afterLiteral? (c :: s) =
      if isQuote c then some (stringRest c s)
      else if c = '\x60' then some (skipTemplate (c :: s)) else none := by
  rw [afterLiteral?]
  · exact fun t hc hs => hline t (by rw [hc, hs])
  · exact fun t hc hs => hblock t (by rw [hc, hs])

theorem afterLiteral?_spread (hc : isAscii c = true) (s : Text) :
    afterLiteral? (c :: spread s) = (afterLiteral? (c :: s)).map spread := by
  by_cases hline : ∃ t, c :: s = '/' :: '/' :: t
  · obtain ⟨t, ht⟩ := hline
    obtain ⟨rfl, rfl⟩ := List.cons.inj ht
    rw [spread_ascii rfl]
    exact congrArg some (Text.skipLine_spread t)
  by_cases hblock : ∃ t, c :: s = '/' :: '*' :: t
  · obtain ⟨t, ht⟩ := hblock
    obtain ⟨rfl, rfl⟩ := List.cons.inj ht
    rw [spread_ascii rfl]
    exact congrArg some (blockRest_spread t)
  rw [afterLiteral?_of_plain (fun t h => hline (exists_pair rfl h))
      (fun t h => hblock (exists_pair rfl h)),
    afterLiteral?_of_plain (fun t h => hline ⟨t, h⟩) (fun t h => hblock ⟨t, h⟩)]
  split_ifs with hquote htick
  · rw [stringRest_spread hc]
    rfl
  · subst htick
    rw [skipTemplate_spread]
    rfl
  · rfl

theorem skipPiece_spread (hc : isAscii c = true) (s : Text) :
    skipPiece (c :: spread s) = spread (skipPiece (c :: s)) := by
  have hgroup := afterGroup?_spread (c :: s)
  rw [spread_ascii hc] at hgroup
  rw [skipPiece, skipPiece, hgroup, afterLiteral?_spread hc]
  split
  · cases afterGroup? (c :: s) <;> rfl
  · cases afterLiteral? (c :: s) <;> rfl

theorem splitFrom_nil (k : Nat) :
    splitFrom sep body k start [] = (slice body start []).map fun part => [part] := by
  cases k <;> rfl

theorem splitFrom_wide (hsep : isAscii sep = true) (hds : Wide ds) (k : Nat) (s : Text) :
    splitFrom sep body (ds.length + k) start (ds ++ s) = splitFrom sep body k start s := by
  induction ds with
  | nil => rw [List.length_nil, Nat.zero_add, List.nil_append]
  | cons d ds ih =>
    have hd := hds d List.mem_cons_self
    rw [List.length_cons, Nat.add_right_comm, List.cons_append, splitFrom,
      if_neg (ne_of_wide hd hsep), skipPiece_of_wide hd]
    exact ih fun x hx => hds x (List.mem_cons_of_mem d hx)

/-- The loop over the bytes has read what the loop over the text has, and cuts it where that
does. -/
theorem splitFrom_spread (hsep : isAscii sep = true) {n k : Nat} (hstart : p.reverse ++ s <:+ body)
    (hn : s.length ≤ n) (hk : (spread s).length ≤ k) :
    splitFrom sep body k (spread (p.reverse ++ s)) (spread s)
      = .ok (EnumObject.splitFrom sep n p s) := by
  induction n generalizing p s k with
  | zero =>
    obtain rfl := List.length_eq_zero_iff.mp (Nat.le_zero.mp hn)
    rw [Text.spread_nil, splitFrom_nil, slice_nil hstart]
    rfl
  | succ n ih =>
    cases s with
    | nil =>
      rw [Text.spread_nil, splitFrom_nil, slice_nil hstart, List.append_nil]
      rfl
    | cons c s =>
      have hlength : s.length ≤ n := Nat.le_of_succ_le_succ hn
      -- behind a piece the part is longer by that piece
      have hlater : ∀ {k : Nat} {rest : Text}, rest <:+ s → (spread rest).length ≤ k →
          splitFrom sep body k (spread (p.reverse ++ c :: s)) (spread rest)
            = .ok (EnumObject.splitFrom sep n ((consumed (c :: s) rest).reverse ++ p) rest) := by
        intro k rest hrest hk
        have hpiece := Text.consumed_append_of_suffix (hrest.trans (List.suffix_cons c s))
        have hpart : ((consumed (c :: s) rest).reverse ++ p).reverse ++ rest
            = p.reverse ++ c :: s := by
          rw [List.reverse_append, List.reverse_reverse, List.append_assoc, hpiece]
        have hparts := ih (p := (consumed (c :: s) rest).reverse ++ p) (hpart ▸ hstart)
          (hrest.length_le.trans hlength) hk
        rwa [hpart] at hparts
      cases hc : isAscii c with
      | false =>
        rw [Text.spread_cons c s, List.length_append] at hk
        obtain ⟨k, rfl⟩ : ∃ l, k = (spread [c]).length + l :=
          ⟨k - (spread [c]).length, by omega⟩
        rw [Text.spread_cons c s, splitFrom_wide hsep (Text.wide_spread hc),
          hlater List.suffix_rfl (by omega), EnumObject.splitFrom, if_neg (ne_of_wide hc hsep),
          skipPiece_of_wide hc]
      | true =>
        rw [spread_ascii hc, List.length_cons] at hk
        obtain ⟨k, rfl⟩ : ∃ l, k = l + 1 := ⟨k - 1, by omega⟩
        rw [spread_ascii hc, splitFrom, EnumObject.splitFrom]
        split_ifs with hends
        · have hfirst : slice body (spread (p.reverse ++ c :: s)) (spread (c :: s))
              = .ok p.reverse := by
            rw [slice_spread hstart (List.suffix_append _ _), Text.consumed_append]
          have hparts := ih (p := []) (s := s) (k := k)
            (Text.suffix_of_cons ((List.suffix_append _ _).trans hstart)) hlength (by omega)
          rw [List.reverse_nil, List.nil_append] at hparts
          rw [← spread_ascii hc, hfirst, ok_bind, hparts]
          rfl
        · have hpiece : skipPiece (c :: s) <:+ s := suffix_tail_skipPiece (c :: s)
          rw [skipPiece_spread hc]
          exact hlater hpiece ((length_spread_le hpiece).trans (by omega))

/-- **The parts of a body are slices of it.** -/
theorem splitTopLevel_eq (hsep : isAscii sep = true) (body : Text) :
    splitTopLevel sep body = .ok (EnumObject.splitTopLevel sep body) :=
  splitFrom_spread (p := []) hsep List.suffix_rfl (Nat.le_refl _) (Nat.le_refl _)

/-! ### Comments -/

theorem withoutCommentsFrom_nil (k : Nat) : withoutCommentsFrom part k last [] = slice part last [] := by
  cases k <;> rfl

theorem withoutCommentsFrom_of_plain {n : Nat} (hline : ∀ t, c :: s ≠ '/' :: '/' :: t)
    (hblock : ∀ t, c :: s ≠ '/' :: '*' :: t) :
    withoutCommentsFrom part (n + 1) last (c :: s)
      = if isQuote c then withoutCommentsFrom part n last (stringRest c s)
        else withoutCommentsFrom part n last s := by
  rw [withoutCommentsFrom]
  split
  · rename_i t h
    exact absurd h (hline t)
  · rename_i t h
    exact absurd h (hblock t)
  · rfl

theorem withoutCommentsFrom_wide (hds : Wide ds) (k : Nat) (s : Text) :
    withoutCommentsFrom part (ds.length + k) last (ds ++ s) = withoutCommentsFrom part k last s := by
  induction ds with
  | nil => rw [List.length_nil, Nat.zero_add, List.nil_append]
  | cons d ds ih =>
    have hd := hds d List.mem_cons_self
    have hslash : d ≠ '/' := ne_of_wide hd rfl
    rw [List.length_cons, Nat.add_right_comm, List.cons_append,
      withoutCommentsFrom_of_plain (fun _ h => hslash (List.cons.inj h).1)
        (fun _ h => hslash (List.cons.inj h).1), uniform_isQuote d hd, if_neg Bool.false_ne_true]
    exact ih fun x hx => hds x (List.mem_cons_of_mem d hx)

theorem consumed_nil (s : Text) : consumed s [] = s := by
  rw [consumed, List.length_nil, Nat.sub_zero, List.take_length]

theorem consumed_self (s : Text) : consumed s s = [] := by
  rw [consumed, Nat.sub_self, List.take_zero]

theorem text_withoutCommentsFrom_nil (n : Nat) : EnumObject.withoutCommentsFrom n [] = [] := by
  cases n <;> rfl

theorem text_withoutCommentsFrom_of_plain {n : Nat} (hline : ∀ t, c :: s ≠ '/' :: '/' :: t)
    (hblock : ∀ t, c :: s ≠ '/' :: '*' :: t) :
    EnumObject.withoutCommentsFrom (n + 1) (c :: s) = if isQuote c then
        consumed (c :: s) (stringRest c s) ++ EnumObject.withoutCommentsFrom n (stringRest c s)
      else c :: EnumObject.withoutCommentsFrom n s := by
  simp only [EnumObject.withoutCommentsFrom]

theorem withoutCommentsFrom_end (hlast : l <:+ part) (n k : Nat) :
    withoutCommentsFrom part k (spread l) (spread [])
      = .ok (consumed l [] ++ EnumObject.withoutCommentsFrom n []) := by
  rw [Text.spread_nil, withoutCommentsFrom_nil, slice_nil hlast, consumed_nil,
    text_withoutCommentsFrom_nil, List.append_nil]

/-- One more character is read. -/
theorem consumed_tail (hs : c :: s <:+ l) : consumed l s = consumed l (c :: s) ++ [c] := by
  have hchar : consumed (c :: s) s = [c] := Text.consumed_append [c] s
  rw [← consumed_trans hs (List.suffix_cons c s), hchar]

/-- What the loop over the text has kept already is the slice that the loop over the bytes has still
to take, from the end of the last comment on. -/
theorem withoutCommentsFrom_spread {n k : Nat} (hlast : l <:+ part) (hs : s <:+ l)
    (hn : s.length ≤ n) (hk : (spread s).length ≤ k) :
    withoutCommentsFrom part k (spread l) (spread s)
      = .ok (consumed l s ++ EnumObject.withoutCommentsFrom n s) := by
  induction n generalizing l s k with
  | zero =>
    obtain rfl := List.length_eq_zero_iff.mp (Nat.le_zero.mp hn)
    exact withoutCommentsFrom_end hlast 0 k
  | succ n ih =>
    cases s with
    | nil => exact withoutCommentsFrom_end hlast (n + 1) k
    | cons c s =>
      have hlength : s.length ≤ n := Nat.le_of_succ_le_succ hn
      have htail : s <:+ l := Text.suffix_of_cons hs
      have hone := consumed_tail hs
      -- a comment is left out, and what follows it starts a slice of its own
      have hcomment : ∀ {k : Nat} {rest : Text}, rest <:+ s → (spread s).length ≤ k →
          withoutCommentsFrom part k (spread rest) (spread rest)
            = .ok (EnumObject.withoutCommentsFrom n rest) := by
        intro k rest hrest hk
        have hlater := ih (l := rest) ((hrest.trans htail).trans hlast) List.suffix_rfl
          (hrest.length_le.trans hlength) ((length_spread_le hrest).trans hk)
        rwa [consumed_self, List.nil_append] at hlater
      cases hc : isAscii c with
      | false =>
        have hslash : c ≠ '/' := ne_of_wide hc rfl
        rw [Text.spread_cons c s, List.length_append] at hk
        obtain ⟨k, rfl⟩ : ∃ l, k = (spread [c]).length + l :=
          ⟨k - (spread [c]).length, by omega⟩
        rw [Text.spread_cons c s, withoutCommentsFrom_wide (Text.wide_spread hc),
          ih hlast htail hlength (by omega), text_withoutCommentsFrom_of_plain
            (fun _ h => hslash (List.cons.inj h).1) (fun _ h => hslash (List.cons.inj h).1),
          uniform_isQuote c hc, if_neg Bool.false_ne_true, hone, List.append_assoc]
        rfl
      | true =>
        rw [spread_ascii hc, List.length_cons] at hk
        obtain ⟨k, rfl⟩ : ∃ l, k = l + 1 := ⟨k - 1, by omega⟩
        have hk : (spread s).length ≤ k := Nat.le_of_succ_le_succ hk
        have hkept : slice part (spread l) (c :: spread s) = .ok (consumed l (c :: s)) := by
          rw [← spread_ascii hc]
          exact slice_spread hlast hs
        rw [spread_ascii hc]
        by_cases hline : ∃ t, c :: s = '/' :: '/' :: t
        · obtain ⟨t, ht⟩ := hline
          obtain ⟨rfl, rfl⟩ := List.cons.inj ht
          have hrest : Text.skipLine t <:+ '/' :: t :=
            (List.dropWhile_suffix _).trans (List.suffix_cons '/' t)
          have hlater := hcomment hrest hk
          rw [spread_ascii rfl] at hkept ⊢
          simp only [withoutCommentsFrom, hkept, ok_bind, Text.skipLine_spread, hlater]
          rfl
        by_cases hblock : ∃ t, c :: s = '/' :: '*' :: t
        · obtain ⟨t, ht⟩ := hblock
          obtain ⟨rfl, rfl⟩ := List.cons.inj ht
          have hlater := hcomment ((suffix_blockRest t).trans (List.suffix_cons '*' t)) hk
          rw [spread_ascii rfl] at hkept ⊢
          simp only [withoutCommentsFrom, hkept, ok_bind, blockRest_spread, hlater]
          rfl
        rw [withoutCommentsFrom_of_plain (fun t h => hline (exists_pair rfl h))
            (fun t h => hblock (exists_pair rfl h)),
          text_withoutCommentsFrom_of_plain (fun t h => hline ⟨t, h⟩) (fun t h => hblock ⟨t, h⟩)]
        split_ifs
        · have hstring := suffix_stringRest c s
          have hread := consumed_trans hs (hstring.trans (List.suffix_cons c s))
          rw [stringRest_spread hc, ih hlast (hstring.trans htail)
            (hstring.length_le.trans hlength) ((length_spread_le hstring).trans hk), ← hread,
            List.append_assoc]
        · rw [ih hlast htail hlength hk, hone, List.append_assoc]
          rfl

/-- **A part without its comments is made of slices of it.** -/
theorem withoutComments_eq (part : Text) :
    withoutComments part = .ok (EnumObject.withoutComments part) := by
  have hpart := withoutCommentsFrom_spread (l := part) List.suffix_rfl List.suffix_rfl
    (Nat.le_refl part.length) (Nat.le_refl _)
  rwa [consumed_self, List.nil_append] at hpart

/-! ### Objects -/

theorem readMember?_eq (part : Text) : readMember? part = .ok (Member.read? part) := by
  rw [readMember?, withoutComments_eq]
  rfl

theorem mapM_readMember? (parts : List Text) :
    parts.mapM readMember? = .ok (parts.map Member.read?) := by
  induction parts with
  | nil => rfl
  | cons part parts ih =>
    rw [List.mapM_cons, readMember?_eq, ok_bind, ih]
    rfl

/-- **The object for an enum**, or that a member has no successor. -/
theorem render_eq (name body : Text) : render name body = checked (EnumObject.render name body) := by
  have hmembers : ((EnumObject.splitTopLevel ',' body).map Member.read?).reduceOption
      = (EnumObject.splitTopLevel ',' body).filterMap Member.read? := by
    rw [List.reduceOption, List.filterMap_map]
    rfl
  rw [render, splitTopLevel_eq rfl, ok_bind, mapM_readMember?, ok_bind, hmembers, EnumObject.render]
  cases properties 0 (some 0) ((EnumObject.splitTopLevel ',' body).filterMap Member.read?) with
  | ok properties => rfl
  | error o =>
    cases o
    rfl

theorem convertEnum?_inBytes (he : e.rest <:+ code) (hname : s <:+ e.rest) :
    convertEnum? code e.inBytes (spread s)
      = (checked (e.convertEnum? s)).map (Option.map Eraser.inBytes) := by
  simp only [convertEnum?, Eraser.convertEnum?, startsIdent_spread, skipIdent_spread,
    Text.skipBlanks_spread, startsWithChar_spread (c := '{') rfl, afterGroup?_spread]
  have hbody : Text.skipBlanks (skipIdent s) <:+ s :=
    (Text.suffix_skipBlanks _).trans (suffix_skipIdent s)
  generalize Text.skipBlanks (skipIdent s) = body at hbody
  split_ifs
  · rfl
  · rfl
  cases hclosed : afterGroup? body with
  | none => rfl
  | some rest =>
    have hrest : skipSemicolon rest <:+ e.rest :=
      (suffix_skipSemicolon rest).trans ((suffix_afterGroup? hclosed).trans (hbody.trans hname))
    obtain ⟨b, opened, close, inside, hopen, hclose, rfl⟩ := exists_brackets_of_afterGroup? hclosed
    have hcode := hbody.trans (hname.trans he)
    have hw := slice_ident (hname.trans he)
    rw [skipIdent_spread] at hw
    simp only [Option.map_some, hw, ok_bind,
      slice_between hcode (isAscii_of_opened? hopen) (isAscii_of_closed? hclose), render_eq,
      skipSemicolon_spread]
    cases EnumObject.render (ident s) _ with
    | error o =>
      cases o
      rfl
    | ok object =>
      have herase := Eraser.erase_inBytes (e := e.write object) .enumDecl hrest
      exact congrArg (fun b => Except.ok (some b)) herase

end Bytewise

end LivePreview.Erasure

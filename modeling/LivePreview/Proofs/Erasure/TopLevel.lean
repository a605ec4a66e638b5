/-
The separators at the top level.

A list of members is split at its commas, but not at those that a group, a literal or a comment
holds.  `TopLevel` says in words of brackets which places of a text are left at the top: from the
front of the text up to them the tokens are groups and other tokens that open nothing.  A group
without an end has no such place behind it.  `splitTopLevel_separators` says that the text is cut at
the commas there and nowhere else.

The text is gone through piece by piece, a group or a token at a time, and so are the proofs:
`piece_induction`.
-/
import LivePreview.Proofs.Erasure.EnumBody
import LivePreview.Proofs.Erasure.Lookahead
import LivePreview.Proofs.Script.BracketWord

namespace LivePreview.EnumObject

open Script

variable {s t u : Text} {c : Char} {ts : List Token}

/-! ### The parts of a text -/

theorem splitFrom_ne_nil (sep : Char) (n : Nat) (part s : Text) : splitFrom sep n part s ≠ [] := by
  induction n generalizing part s with
  | zero => exact List.cons_ne_nil _ _
  | succ n ih =>
    cases s with
    | nil => exact List.cons_ne_nil _ _
    | cons c s =>
      simp only [splitFrom]
      split
      · exact List.cons_ne_nil _ _
      · exact ih _ _

theorem join_splitFrom (sep : Char) (n : Nat) (part s : Text) :
    Text.join [sep] (splitFrom sep n part s) = part.reverse ++ s := by
  induction n generalizing part s with
  | zero => exact List.intercalate_singleton
  | succ n ih =>
    cases s with
    | nil => simp [splitFrom, Text.join]
    | cons c s =>
      simp only [splitFrom]
      split
      · rename_i hsep
        obtain ⟨first, others, hparts⟩ :=
          List.exists_cons_of_ne_nil (splitFrom_ne_nil sep n [] s)
        have hs := ih [] s
        rw [hparts] at hs ⊢
        rw [Text.join, List.intercalate_cons_cons, ← Text.join, hs, hsep]
        simp
      · have hpiece := (Erasure.suffix_tail_skipPiece (c :: s)).trans (List.suffix_cons c s)
        rw [ih, List.reverse_append, List.reverse_reverse, List.append_assoc,
          Text.consumed_append_of_suffix hpiece]

/-- The parts between the separators make up the text. -/
theorem join_splitTopLevel (sep : Char) (s : Text) :
    Text.join [sep] (splitTopLevel sep s) = s :=
  join_splitFrom sep s.length [] s

/-! ### Places at the top level -/

/-- Words whose groups are all closed.  A bracket that closes nothing is passed by itself. -/
inductive Flat : List Token → Prop
  | nil : Flat []
  | plain {ts : List Token} (h : Flat ts) : Flat (.plain :: ts)
  | closing (b : Bracket) {ts : List Token} (h : Flat ts) : Flat (.closing b :: ts)
  | group {word ts : List Token} (hword : IsGroup word) (h : Flat ts) : Flat (word ++ ts)

/-- The place `t` of the text `s` lies outside groups, literals and comments. -/
def TopLevel (s t : Text) : Prop := ∃ ts, Tokens s ts t ∧ Flat ts

theorem exists_of_tokens_append {ts' : List Token} (h : Tokens s (ts ++ ts') t) :
    ∃ u, Tokens s ts u ∧ Tokens u ts' t := by
  induction ts generalizing s with
  | nil => exact ⟨s, .done s, h⟩
  | cons tok ts ih =>
    cases h with
    | token h =>
      obtain ⟨u, hu, hbehind⟩ := ih h
      exact ⟨u, .token hu, hbehind⟩

theorem tokens_append {ts' : List Token} (h : Tokens s ts u) (h' : Tokens u ts' t) :
    Tokens s (ts ++ ts') t := by
  induction h with
  | done => exact h'
  | token _ ih => exact .token (ih h')

theorem tokens_cons_iff {tok : Token} :
    Tokens (c :: s) (tok :: ts) t ↔ tok = Token.ofChar c ∧ Tokens (tokenRest (c :: s)) ts t := by
  constructor
  · intro h
    cases h with
    | token h => exact ⟨rfl, h⟩
  · rintro ⟨rfl, h⟩
    exact .token h

theorem opened?_eq_none_iff : Bracket.opened? c = none ↔ ∀ b, Token.ofChar c ≠ .opening b := by
  rw [Option.eq_none_iff_forall_ne_some]
  refine forall_congr' fun b => not_congr ⟨ofChar_of_opened?, opened?_of_ofChar⟩

/-- A group that ends is one piece. -/
theorem skipPiece_of_afterGroup? (h : afterGroup? (c :: s) = some u) : skipPiece (c :: s) = u := by
  obtain ⟨b, hopen, -⟩ := Option.bind_eq_some_iff.mp h
  rw [skipPiece, hopen, h]
  rfl

/-- So is a token that opens nothing. -/
theorem skipPiece_of_opened? (hopen : Bracket.opened? c = none) :
    skipPiece (c :: s) = tokenRest (c :: s) := by
  rw [skipPiece, hopen, tokenRest]
  rfl

/-- A group without an end reaches to the end of the text. -/
theorem skipPiece_of_unclosed {b : Bracket} (hopen : Bracket.opened? c = some b)
    (h : afterGroup? (c :: s) = none) : skipPiece (c :: s) = [] := by
  rw [skipPiece, hopen, h]
  rfl

theorem TopLevel.suffix (h : TopLevel s t) : t <:+ s := by
  obtain ⟨ts, hts, -⟩ := h
  exact hts.suffix

theorem topLevel_skipPiece (h : TopLevel (skipPiece (c :: s)) t) (ht : t ≠ []) :
    TopLevel (c :: s) t := by
  cases hopen : Bracket.opened? c with
  | none =>
    rw [skipPiece_of_opened? hopen] at h
    obtain ⟨ts, hts, hflat⟩ := h
    refine ⟨Token.ofChar c :: ts, .token hts, ?_⟩
    cases htoken : Token.ofChar c with
    | plain => exact .plain hflat
    | closing b => exact .closing b hflat
    | opening b => exact absurd htoken (opened?_eq_none_iff.mp hopen b)
  | some b =>
    cases hgroup : afterGroup? (c :: s) with
    | some u =>
      rw [skipPiece_of_afterGroup? hgroup] at h
      obtain ⟨ts, hts, hflat⟩ := h
      obtain ⟨word, hword, hgroup⟩ := afterGroup?_eq_some_iff.mp hgroup
      exact ⟨word ++ ts, tokens_append hword hts, .group hgroup hflat⟩
    | none =>
      rw [skipPiece_of_unclosed hopen hgroup] at h
      exact absurd (List.suffix_nil.mp h.suffix) ht

/-- **The places at the top level behind a piece are those of what remains behind it.** -/
theorem topLevel_cons_iff (ht : t ≠ []) :
    TopLevel (c :: s) t ↔ t = c :: s ∨ TopLevel (skipPiece (c :: s)) t := by
  constructor
  · rintro ⟨ts, hts, hflat⟩
    have single : ∀ {tok ts}, Tokens (c :: s) (tok :: ts) t → Flat ts → (∀ b, tok ≠ .opening b) →
        TopLevel (skipPiece (c :: s)) t := by
      intro tok ts hts hflat hopen
      obtain ⟨rfl, htail⟩ := tokens_cons_iff.mp hts
      rw [skipPiece_of_opened? (opened?_eq_none_iff.mpr hopen)]
      exact ⟨ts, htail, hflat⟩
    cases hflat with
    | nil =>
      cases hts
      exact .inl rfl
    | plain hflat => exact .inr (single hts hflat nofun)
    | closing b hflat => exact .inr (single hts hflat nofun)
    | group hword hflat =>
      obtain ⟨u, hu, hbehind⟩ := exists_of_tokens_append hts
      rw [skipPiece_of_afterGroup? (afterGroup?_eq_some_iff.mpr ⟨_, hu, hword⟩)]
      exact .inr ⟨_, hbehind, hflat⟩
  · rintro (rfl | h)
    · exact ⟨[], .done _, .nil⟩
    · exact topLevel_skipPiece h ht

/-! ### Piece by piece -/

/-- Every text is made of commas and other pieces. -/
@[elab_as_elim]
theorem piece_induction {motive : Text → Prop} (nil : motive [])
    (comma : ∀ s, motive s → motive (',' :: s))
    (piece : ∀ c t s, c ≠ ',' → skipPiece (c :: (t ++ s)) = s → motive s → motive (c :: (t ++ s)))
    (s : Text) : motive s := by
  induction hn : s.length using Nat.strong_induction_on generalizing s with
  | _ n ih =>
    subst hn
    cases s with
    | nil => exact nil
    | cons c s =>
      by_cases hc : c = ','
      · subst hc
        exact comma s (ih s.length (Nat.lt_succ_self _) s rfl)
      · obtain ⟨t, ht⟩ := Erasure.suffix_tail_skipPiece (c :: s)
        have hlt : (skipPiece (c :: s)).length < (c :: s).length :=
          Nat.lt_succ_of_le (List.IsSuffix.length_le ⟨t, ht⟩)
        have ht : t ++ skipPiece (c :: s) = s := ht
        have hskip : skipPiece (c :: (t ++ skipPiece (c :: s))) = skipPiece (c :: s) := by rw [ht]
        have hwhole := piece c t _ hc hskip (ih _ hlt _ rfl)
        rwa [ht] at hwhole

/-- What was read of the first part stands in front of it. -/
theorem partsBehind_eq_modifyHead (part s : Text) :
    partsBehind part s = (partsBehind [] s).modifyHead (part.reverse ++ ·) := by
  induction s using piece_induction generalizing part with
  | nil => simp [partsBehind_nil]
  | comma s => simp [partsBehind_comma]
  | piece c t s hc hpiece ih =>
    rw [partsBehind_piece t hc hpiece, partsBehind_piece t hc hpiece, ih, ih ((c :: t).reverse ++ []),
      List.modifyHead_modifyHead]
    congr 1
    funext first
    simp

/-- A piece in front belongs to the first part. -/
theorem partsBehind_nil_piece {t : Text} (hc : c ≠ ',') (h : skipPiece (c :: (t ++ s)) = s) :
    partsBehind [] (c :: (t ++ s)) = (partsBehind [] s).modifyHead (c :: t ++ ·) := by
  rw [partsBehind_piece t hc h, partsBehind_eq_modifyHead, List.append_nil, List.reverse_reverse]

theorem partsBehind_ne_nil (part s : Text) : partsBehind part s ≠ [] :=
  splitFrom_ne_nil ',' s.length part s

theorem join_partsBehind (s : Text) : Text.join [','] (partsBehind [] s) = s :=
  join_splitTopLevel ',' s

/-! ### The separators -/

/-- What stands behind the separators between these parts, for each of them. -/
def behindSeparators : List Text → List Text
  | _ :: part :: parts => Text.join [','] (part :: parts) :: behindSeparators (part :: parts)
  | _ => []

theorem behindSeparators_singleton (part : Text) : behindSeparators [part] = [] := rfl

theorem behindSeparators_modifyHead (f : Text → Text) (parts : List Text) :
    behindSeparators (parts.modifyHead f) = behindSeparators parts := by
  match parts with
  | [] | [_] | _ :: _ :: _ => rfl

theorem behindSeparators_cons (part : Text) {parts : List Text} (h : parts ≠ []) :
    behindSeparators (part :: parts) = Text.join [','] parts :: behindSeparators parts := by
  obtain ⟨next, others, rfl⟩ := List.exists_cons_of_ne_nil h
  rfl

theorem length_behindSeparators {parts : List Text} (h : parts ≠ []) :
    parts.length = (behindSeparators parts).length + 1 := by
  induction parts with
  | nil => exact absurd rfl h
  | cons part parts ih =>
    cases parts with
    | nil => rfl
    | cons next others =>
      have hnext := List.cons_ne_nil next others
      have hrest := ih hnext
      rw [behindSeparators_cons part hnext]
      simp only [List.length_cons] at hrest ⊢
      omega

/-- **The text is cut at its top-level commas.** -/
theorem mem_behindSeparators_iff :
    t ∈ behindSeparators (partsBehind [] s) ↔ TopLevel s (',' :: t) := by
  induction s using piece_induction with
  | nil =>
    rw [partsBehind_nil, behindSeparators_singleton]
    refine iff_of_false List.not_mem_nil ?_
    exact fun h => absurd (List.suffix_nil.mp h.suffix) (List.cons_ne_nil _ _)
  | comma s ih =>
    rw [partsBehind_comma, behindSeparators_cons _ (partsBehind_ne_nil [] s), join_partsBehind,
      List.mem_cons, ih, topLevel_cons_iff (List.cons_ne_nil _ _), List.cons_inj_right]
    exact Iff.rfl
  | piece c u s hc hpiece ih =>
    have hcomma : ',' :: t ≠ c :: (u ++ s) := fun h => hc (List.cons.inj h).1.symm
    rw [partsBehind_nil_piece hc hpiece, behindSeparators_modifyHead, ih,
      topLevel_cons_iff (List.cons_ne_nil _ _), hpiece, or_iff_right hcomma]

theorem nodup_behindSeparators (s : Text) : (behindSeparators (partsBehind [] s)).Nodup := by
  induction s using piece_induction with
  | nil =>
    rw [partsBehind_nil, behindSeparators_singleton]
    exact List.nodup_nil
  | comma s ih =>
    rw [partsBehind_comma, behindSeparators_cons _ (partsBehind_ne_nil [] s), join_partsBehind]
    refine List.nodup_cons.mpr ⟨fun hmem => ?_, ih⟩
    -- what stands behind a separator of a text is shorter than the text
    have hle := (mem_behindSeparators_iff.mp hmem).suffix.length_le
    exact absurd hle (by simp)
  | piece c t s hc hpiece ih =>
    rwa [partsBehind_nil_piece hc hpiece, behindSeparators_modifyHead]

/-! ### One part -/

/-- A piece that ends inside of a text ends there without the text behind. -/
theorem skipPiece_cut {b : Text} (h : skipPiece (c :: (s ++ b)) = t ++ b) :
    skipPiece (c :: s) = t := by
  cases hopen : Bracket.opened? c with
  | none =>
    rw [skipPiece_of_opened? hopen] at h ⊢
    exact afterLiteral?_cut h
  | some bracket =>
    cases hgroup : afterGroup? (c :: (s ++ b)) with
    | some u =>
      obtain rfl : u = t ++ b := (skipPiece_of_afterGroup? hgroup).symm.trans h
      exact skipPiece_of_afterGroup? (afterGroup?_cut (s := c :: s) hgroup (List.cons_ne_nil c s))
    | none =>
      rw [skipPiece_of_unclosed hopen hgroup] at h
      obtain ⟨rfl, rfl⟩ := List.append_eq_nil_iff.mp h.symm
      rw [List.append_nil] at hgroup
      exact skipPiece_of_unclosed hopen hgroup

/-- The first part, and the text behind it. -/
theorem exists_first_part (s : Text) :
    ∃ first others b, partsBehind [] s = first :: others ∧ s = first ++ b := by
  obtain ⟨first, others, hparts⟩ := List.exists_cons_of_ne_nil (partsBehind_ne_nil [] s)
  have hjoin := join_partsBehind s
  rw [hparts] at hjoin
  cases others with
  | nil => exact ⟨first, [], [], hparts, by rw [← hjoin]; simp [Text.join]⟩
  | cons next others =>
    refine ⟨first, next :: others, [','] ++ Text.join [','] (next :: others), hparts, ?_⟩
    rw [← hjoin, Text.join, List.intercalate_cons_cons, List.append_assoc]
    rfl

/-- **A part is not cut again.** -/
theorem partsBehind_of_mem {part : Text} (h : part ∈ partsBehind [] s) :
    partsBehind [] part = [part] := by
  induction s using piece_induction generalizing part with
  | nil =>
    rw [partsBehind_nil, List.mem_singleton] at h
    rw [h]
    rfl
  | comma s ih =>
    rw [partsBehind_comma] at h
    obtain rfl | h := List.mem_cons.mp h
    · rfl
    · exact ih h
  | piece c t s hc hpiece ih =>
    obtain ⟨first, others, b, hparts, hs⟩ := exists_first_part s
    rw [partsBehind_nil_piece hc hpiece, hparts, List.modifyHead_cons] at h
    rw [hparts] at ih
    obtain rfl | h := List.mem_cons.mp h
    · have hfirst : partsBehind [] first = [first] := ih List.mem_cons_self
      have hcut : skipPiece (c :: (t ++ first)) = first := by
        refine skipPiece_cut (b := b) ?_
        rw [List.append_assoc, ← hs, hpiece]
      rw [List.cons_append, partsBehind_nil_piece hc hcut, hfirst, List.modifyHead_cons,
        List.cons_append]
    · exact ih (List.mem_cons_of_mem first h)

/-- **Members are cut at the commas at the top level, and nothing is lost**: the parts with commas
between them are the text, there is one part more than there are such commas, the text behind any of
these is what the parts behind it make up, and a part is not cut again. -/
theorem splitTopLevel_separators (s : Text) :
    Text.join [','] (splitTopLevel ',' s) = s ∧
    (splitTopLevel ',' s).length = {t : Text | TopLevel s (',' :: t)}.ncard + 1 ∧
    (∀ t, t ∈ behindSeparators (splitTopLevel ',' s) ↔ TopLevel s (',' :: t)) ∧
    ∀ part ∈ splitTopLevel ',' s, splitTopLevel ',' part = [part] := by
  have hset : {t : Text | TopLevel s (',' :: t)}
      = (behindSeparators (partsBehind [] s)).toFinset := by
    ext t
    rw [Set.mem_ofPred_eq, ← mem_behindSeparators_iff, Finset.mem_coe, List.mem_toFinset]
  refine ⟨join_splitTopLevel ',' s, ?_, fun t => mem_behindSeparators_iff,
    fun part => partsBehind_of_mem⟩
  rw [hset, Set.ncard_coe_finset, List.toFinset_card_of_nodup (nodup_behindSeparators s)]
  exact length_behindSeparators (partsBehind_ne_nil [] s)

end LivePreview.EnumObject

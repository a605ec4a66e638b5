/-
What the eraser looks for, in the bytes.

Most of what the eraser looks for is looked for by readers of code and types, which come to the same
place in the bytes of a text as in the text.  So does what it adds to them: the ends of regular
expressions, declarations, patterns and tags.  All of these stop at characters of ASCII, and where
one of them passes a single byte of another character it passes the others behind it.
-/
import LivePreview.Proofs.Erasure.Lookahead
import LivePreview.Proofs.Script.Offsets

namespace LivePreview.Erasure

open Script
open Text (spread isAscii Uniform Wide uniform_of spread_wide spread_ascii spread_cases
  exists_of_spread_eq_cons)

variable {s t rest : Text} {c d : Char} {ds : Text}

/-! ### Questions about one character -/

theorem any_head?_spread {p : Char → Bool} (h : Uniform p false) (s : Text) :
    (spread s).head?.any p = s.head?.any p := by
  obtain ⟨rfl, hs⟩ | ⟨c, t, -, rfl, hs⟩ | ⟨c, t, d, ds, hc, hd, rfl, hs⟩ := spread_cases s
  · rfl
  · rw [hs, List.head?_cons, List.head?_cons]
  · rw [hs, List.head?_cons, List.head?_cons, Option.any_some, Option.any_some, h c hc, h d hd]

theorem uniform_or {p q : Char → Bool} (hp : Uniform p false) (hq : Uniform q false) :
    Uniform (fun c => p c || q c) false := by
  intro c hc
  show (p c || q c) = false
  rw [hp c hc, hq c hc, Bool.or_false]

theorem uniform_eq (hd : isAscii d = true) : Uniform (· == d) false := by
  refine uniform_of fun c h => ?_
  rw [beq_iff_eq.mp h]
  exact hd

theorem uniform_isAsciiLetter : Uniform isAsciiLetter false := by
  refine uniform_of fun c h => isAscii_of_isIdentStart ?_
  rw [isIdentStart, h]
  rfl

theorem uniform_isTagNameChar : Uniform Eraser.isTagNameChar false :=
  uniform_or (uniform_or (uniform_or uniform_isIdentChar (uniform_eq rfl)) (uniform_eq rfl))
    (uniform_eq rfl)

/-! ### Readers of types -/

theorem afterType?_spread (s : Text) : afterType? (spread s) = (afterType? s).map spread :=
  spreads_rest? .whole s

theorem afterTypeParameters?_spread (s : Text) :
    afterTypeParameters? (spread s) = (afterTypeParameters? s).map spread :=
  Scan.rest?_spread (k := .typeParameters) rfl

theorem afterTypeArguments?_spread (s : Text) :
    afterTypeArguments? (spread s) = (afterTypeArguments? s).map spread :=
  Scan.rest?_spread (k := .typeArguments) rfl

/-! ### Regular expressions -/

theorem regexRest?_wide (inClass : Bool) (hds : Wide ds) (s : Text) :
    regexRest? inClass (ds ++ s) = regexRest? inClass s := by
  induction ds with
  | nil => rfl
  | cons d ds ih =>
    have hd := hds d List.mem_cons_self
    have hne : ∀ {e : Char}, isAscii e = true → d ≠ e := fun he => ne_of_wide hd he
    have hslash : d ≠ '/' := hne rfl
    rw [List.cons_append, regexRest?, if_neg (hne rfl), if_neg (hne rfl), if_neg (hne rfl),
      if_neg (by simp [hslash])]
    · exact ih fun x hx => hds x (List.mem_cons_of_mem d hx)
    · exact fun _ _ h => absurd h (hne rfl)

theorem regexRest?_spread (inClass : Bool) (s : Text) :
    regexRest? inClass (spread s) = (regexRest? inClass s).map spread := by
  fun_induction regexRest? inClass s with
  | case1 => rfl
  | case2 inClass c s ih =>
    rw [spread_ascii rfl]
    cases hc : isAscii c with
    | true => rw [spread_ascii hc, regexRest?, ih]
    | false =>
      obtain ⟨d, ds, hspread, -, hds⟩ := spread_wide hc s
      rw [hspread, regexRest?, regexRest?_wide inClass hds, ih]
  | case3 inClass s hescape =>
    rw [spread_ascii rfl, regexRest?, if_pos rfl]
    · rfl
    · exact last_spread hescape
  | case4 inClass s hescape hline ih =>
    rw [spread_ascii rfl, regexRest?, if_neg hline, if_pos rfl, ih]
    exact last_spread hescape
  | case5 inClass s hescape hline hopen ih =>
    rw [spread_ascii rfl, regexRest?, if_neg hline, if_neg hopen, if_pos rfl, ih]
    exact last_spread hescape
  | case6 inClass c s hescape hline hopen hclose hend =>
    have hslash : c = '/' := by simp_all
    subst hslash
    rw [spread_ascii rfl, regexRest?, if_neg hline, if_neg hopen, if_neg hclose, if_pos hend,
      Text.dropWhile_spread uniform_isIdentChar]
    · rfl
    · exact last_spread hescape
  | case7 inClass c s hescape hline hopen hclose hend ih =>
    cases hc : isAscii c with
    | true =>
      rw [spread_ascii hc, regexRest?, if_neg hline, if_neg hopen, if_neg hclose, if_neg hend, ih]
      exact last_spread hescape
    | false => rw [Text.spread_cons, regexRest?_wide _ (Text.wide_spread hc), ih]

/-! ### Declarations -/

theorem skipSemicolon_spread (s : Text) : skipSemicolon (spread s) = spread (skipSemicolon s) := by
  unfold skipSemicolon
  rw [Text.skipInline_spread]
  generalize Text.skipInline s = t
  split
  · rename_i u hu
    obtain ⟨v, rfl, rfl⟩ := exists_of_spread_eq_cons rfl hu
    rfl
  · rename_i hsemicolon
    split
    · exact absurd (spread_ascii rfl _) (hsemicolon _)
    · rfl

theorem endsStatement_spread (s : Text) : endsStatement (spread s) = endsStatement s := by
  have huniform : Uniform (fun c => c == ';' || c == '\n' || c == '\r' || c == '}') false :=
    uniform_or (uniform_or (uniform_or (uniform_eq rfl) (uniform_eq rfl)) (uniform_eq rfl))
      (uniform_eq rfl)
  unfold endsStatement
  rw [Text.skipInline_spread]
  obtain ⟨h, hs⟩ | ⟨c, t, -, h, hs⟩ | ⟨c, t, d, ds, hc, hd, h, hs⟩ :=
    spread_cases (Text.skipInline s)
  · rw [h, Text.spread_nil]
  · rw [hs, h]
  · rw [hs, h]
    exact (huniform d hd).trans (huniform c hc).symm

theorem interfaceRest?_spread (s : Text) :
    interfaceRest? (spread s) = (interfaceRest? s).map spread := by
  have huniform : Uniform (fun c => c != '{' && c != ';') true := fun c hc => by
    have hopen : c ≠ '{' := ne_of_wide hc rfl
    have hend : c ≠ ';' := ne_of_wide hc rfl
    simp [hopen, hend]
  simp only [interfaceRest?, Text.dropWhile_spread huniform, startsWithChar_spread (c := '{') rfl,
    afterGroup?_spread]
  split
  · rw [Option.map_map, Option.map_map]
    exact Option.map_congr fun rest _ => skipSemicolon_spread rest
  · rfl

/-! ### Bindings, parameters and markup -/

theorem afterPattern?_spread (s : Text) : afterPattern? (spread s) = (afterPattern? s).map spread := by
  obtain ⟨rfl, hs⟩ | ⟨c, t, hc, rfl, hs⟩ | ⟨c, t, d, ds, hc, hd, rfl, hs⟩ := spread_cases s
  · rfl
  · have hgroup := afterGroup?_spread (c :: t)
    have hident := skipIdent_spread (c :: t)
    rw [hs] at hgroup hident ⊢
    rw [afterPattern?, afterPattern?, hgroup, hident]
    split_ifs <;> rfl
  · have hnone : ∀ {c : Char} {t : Text}, isAscii c = false → afterPattern? (c :: t) = none := by
      intro c t hc
      have hcurly : c ≠ '{' := ne_of_wide hc rfl
      have hsquare : c ≠ '[' := ne_of_wide hc rfl
      rw [afterPattern?, if_neg (by simp [hcurly, hsquare]), uniform_isIdentStart c hc,
        if_neg Bool.false_ne_true]
    rw [hs, hnone hc, hnone hd]
    rfl

theorem afterThisType?_spread (s : Text) :
    Eraser.afterThisType? (spread s) = (Eraser.afterThisType? s).map spread := by
  unfold Eraser.afterThisType?
  split
  · rename_i u hu
    obtain ⟨v, rfl, rfl⟩ := exists_of_spread_eq_cons rfl hu
    rw [afterType?_spread, Option.map_map]
    refine Eq.trans (Option.map_congr fun rest _ => ?_) (Option.map_map spread _ (afterType? v)).symm
    rw [Function.comp_apply, Function.comp_apply, Text.skipBlanks_spread]
    generalize Text.skipBlanks rest = t
    split
    · rename_i u hu
      obtain ⟨w, rfl, rfl⟩ := exists_of_spread_eq_cons rfl hu
      exact Text.skipBlanks_spread w
    · rename_i hcomma
      split
      · exact absurd (spread_ascii rfl _) (hcomma _)
      · rfl
  · rename_i hcolon
    split
    · exact absurd (spread_ascii rfl _) (hcolon _)
    · rfl

theorem behind_spread (hd : isAscii d = true) (s : Text) :
    Eraser.behind d (spread s) = spread (Eraser.behind d s) := by
  rw [Eraser.behind, Eraser.behind, Text.dropWhile_spread (Text.uniform_ne hd)]
  obtain ⟨h, hs⟩ | ⟨c, t, -, h, hs⟩ | ⟨c, t, _, _, hc, -, h, -⟩ :=
    spread_cases (s.dropWhile (· != d))
  · rw [h]
    rfl
  · rw [hs, h]
    rfl
  · have hmark := List.head_dropWhile_not (· != d) (l := s) (by rw [h]; exact List.cons_ne_nil _ _)
    simp only [h, List.head_cons, bne_eq_false_iff_eq] at hmark
    rw [hmark, hd] at hc
    cases hc

end LivePreview.Erasure

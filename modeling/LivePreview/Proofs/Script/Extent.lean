/-
Groups, strings and templates in front of more text.

What these readers leave is an end piece of what they were given, and a group ends with a
bracket of the kind that opened it.

`leave` decides on one character, and looks at a second one only where the first could
open a comment or a hole of a template.  It stops on a closing character, never between
two such characters, so what it reads does not depend on the text that follows.
-/
import LivePreview.Proofs.Script.Word
import LivePreview.Script.Extent

namespace LivePreview.Script

/-! ### What is left is an end piece -/

theorem suffix_leave {inside : List Within} {s rest : Text} (h : leave inside s = some rest) :
    rest <:+ s := by
  fun_induction leave inside s with
  | case1 s =>
    cases h
    exact List.suffix_rfl
  | case2 | case19 => cases h
  | case8 up s ih | case10 up s ih | case13 b up s ih | case14 b up s ih =>
    exact (ih h).trans ((List.suffix_cons _ s).trans (List.suffix_cons _ _))
  | _ =>
    rename_i ih
    exact (ih h).trans (List.suffix_cons _ _)

theorem suffix_stringRest (quote : Char) (s : Text) : stringRest quote s <:+ s := by
  fun_induction stringRest quote s with
  | case1 => exact List.suffix_rfl
  | case2 c s ih => exact ih.trans ((List.suffix_cons c s).trans (List.suffix_cons _ _))
  | case3 s => exact List.suffix_rfl
  | case4 => exact List.suffix_cons _ _
  | case5 c s _ _ _ ih => exact ih.trans (List.suffix_cons c s)

theorem suffix_tail_skipTemplate (s : Text) : skipTemplate s <:+ s.tail := by
  cases s with
  | nil => exact List.suffix_rfl
  | cons c s =>
    rw [skipTemplate]
    cases h : leave [.template] s with
    | none => exact List.nil_suffix
    | some rest => exact suffix_leave h

theorem suffix_skipTemplate (s : Text) : skipTemplate s <:+ s :=
  (suffix_tail_skipTemplate s).trans (List.tail_suffix s)

theorem suffix_blockRest (s : Text) : blockRest s <:+ s := by
  fun_induction blockRest s with
  | case1 => exact List.suffix_rfl
  | case2 s => exact (List.suffix_cons '/' s).trans (List.suffix_cons '*' _)
  | case3 c s _ ih => exact ih.trans (List.suffix_cons c s)

/-- A block comment ends at its first closing mark. -/
theorem blockRest_append {body : Text} (h : ¬ ['*', '/'] <:+: body) (s : Text) :
    blockRest (body ++ '*' :: '/' :: s) = s := by
  induction body with
  | nil => rfl
  | cons c body ih =>
    have hbehind : ¬ ['*', '/'] <:+: body := fun hin => h (hin.trans (List.suffix_cons c body).isInfix)
    rw [List.cons_append, blockRest, ih hbehind]
    rintro t rfl ht
    cases body with
    | nil => exact absurd (List.cons.inj ht).1 (by decide)
    | cons d body =>
      obtain rfl : d = '/' := (List.cons.inj ht).1
      exact h (List.prefix_append ['*', '/'] body).isInfix

theorem suffix_tail_afterLiteral? {s rest : Text} (h : afterLiteral? s = some rest) :
    rest <:+ s.tail := by
  unfold afterLiteral? at h
  split at h
  · cases h
  · rename_i s
    cases h
    exact (List.dropWhile_suffix _).trans (List.suffix_cons _ s)
  · rename_i s
    cases h
    exact (suffix_blockRest s).trans (List.suffix_cons _ s)
  · rename_i c s _ _
    split at h
    · cases h
      exact suffix_stringRest c s
    · split at h
      · cases h
        exact suffix_tail_skipTemplate (c :: s)
      · cases h

/-- The characters that something is left with. -/
def Within.LeftBy : Within → Char → Prop
  | .group b, d => Bracket.closed? d = some b
  | .quoted q, d => d = '\n' ∨ d = q
  | .template, d => d = '\x60'
  | .lineComment, d => d = '\n'
  | .blockComment, d => d = '/'
  | .escaped, _ => True

/-- **What remains stands behind a character that the outermost of all is left with.** -/
theorem exists_last_of_leave {inside : List Within} {w : Within} {s rest : Text}
    (h : leave inside s = some rest) (hlast : inside.getLast? = some w) :
    ∃ d, w.LeftBy d ∧ d :: rest <:+ s := by
  have behind : ∀ {c : Char} {t : Text},
      (∃ d, w.LeftBy d ∧ d :: rest <:+ t) → ∃ d, w.LeftBy d ∧ d :: rest <:+ c :: t := by
    rintro c t ⟨d, hd, ht⟩
    exact ⟨d, hd, ht.trans (List.suffix_cons c t)⟩
  -- what is left here is the outermost one, or another one is
  have left : ∀ {v : Within} {up : List Within} {c : Char} {t : Text}, leave up t = some rest →
      (v :: up).getLast? = some w → v.LeftBy c →
      (up.getLast? = some w → ∃ d, w.LeftBy d ∧ d :: rest <:+ t) →
      ∃ d, w.LeftBy d ∧ d :: rest <:+ c :: t := by
    intro v up c t ht hv hc ih
    cases up with
    | nil =>
      obtain rfl : v = w := Option.some.inj hv
      obtain rfl : t = rest := by simpa [leave] using ht
      exact ⟨c, hc, List.suffix_rfl⟩
    | cons v' up =>
      rw [List.getLast?_cons_cons] at hv
      exact behind (ih hv)
  fun_induction leave inside s with
  | case1 => cases hlast
  | case2 | case19 => cases h
  | case3 up c s ih => exact left h hlast trivial (ih h)
  | case5 q up c s _ hc ih => exact left h hlast (by simpa [Within.LeftBy] using hc) (ih h)
  | case7 up c s ih =>
    by_cases hc : c = '\n'
    · simp only [hc, if_true] at h ih
      exact left h hlast hc (ih h)
    · simp only [hc, if_false] at h ih
      exact behind (ih h hlast)
  | case8 up s ih => exact behind (left h hlast rfl (ih h))
  | case12 up c s _ _ ih =>
    by_cases hc : c = '\x60'
    · simp only [hc, if_true] at h ih
      exact left h hlast hc (ih h)
    · simp only [hc, if_false] at h ih
      exact behind (ih h hlast)
  | case10 up s ih | case13 b up s ih | case14 b up s ih =>
    exact behind (behind (ih h (by simpa using hlast)))
  | case18 up c s _ _ _ _ closed hclosed _ ih => exact left h hlast hclosed (ih h)
  | _ =>
    rename_i ih
    exact behind (ih h (by simpa using hlast))

/-- **A group ends with a bracket of its own kind.** -/
theorem exists_closing_of_leave {inside : List Within} {b : Bracket} {s rest : Text}
    (h : leave inside s = some rest) (hlast : inside.getLast? = some (.group b)) :
    ∃ d, Bracket.closed? d = some b ∧ d :: rest <:+ s :=
  exists_last_of_leave h hlast

theorem exists_brackets_of_afterGroup? {s rest : Text} (h : afterGroup? s = some rest) :
    ∃ b c d inside, Bracket.opened? c = some b ∧ Bracket.closed? d = some b ∧
      s = c :: (inside ++ d :: rest) := by
  cases s with
  | nil => cases h
  | cons c s =>
    obtain ⟨b, hopen, hleave⟩ := Option.bind_eq_some_iff.mp h
    obtain ⟨d, hclose, inside, rfl⟩ := exists_closing_of_leave hleave rfl
    exact ⟨b, c, d, inside, hopen, hclose, rfl⟩

theorem suffix_tail_afterGroup? {s rest : Text} (h : afterGroup? s = some rest) :
    rest <:+ s.tail := by
  obtain ⟨b, c, d, inside, -, -, rfl⟩ := exists_brackets_of_afterGroup? h
  exact ⟨inside ++ [d], by simp⟩

theorem suffix_afterGroup? {s rest : Text} (h : afterGroup? s = some rest) : rest <:+ s :=
  (suffix_tail_afterGroup? h).trans (List.tail_suffix s)

theorem length_afterGroup?_lt {s rest : Text} (h : afterGroup? s = some rest) :
    rest.length < s.length := by
  obtain ⟨b, c, d, inside, -, -, rfl⟩ := exists_brackets_of_afterGroup? h
  simp only [List.length_cons, List.length_append]
  omega

/-! ### The text that follows -/

/-- A pair of characters that does not stand at the front of a text does not stand there
when more text follows either, unless the text ends between them. -/
theorem no_pair_append {c d e : Char} {s more : Text} (h : ∀ t, c = d → s = e :: t → False)
    (hne : c = d → s ≠ []) : ∀ t, c = d → s ++ more = e :: t → False := by
  intro t hc hs
  cases s with
  | nil => exact hne hc rfl
  | cons x s =>
    obtain ⟨rfl, -⟩ := List.cons.inj hs
    exact h s hc rfl

/-- **Leaving does not look at what follows.** -/
theorem leave_append {inside : List Within} {s rest : Text} (more : Text)
    (h : leave inside s = some rest) : leave inside (s ++ more) = some (rest ++ more) := by
  have ended : ∀ {w : Within} {up : List Within} {t : Text},
      leave (w :: up) t = some rest → t ≠ [] := by
    rintro w up t ht rfl
    simp [leave] at ht
  fun_induction leave inside s with
  | case1 s => simp_all [leave]
  | case2 => cases h
  | case3 up c s ih => simpa [leave] using ih h
  | case4 q up s ih => simpa [leave] using ih h
  | case5 q up c s hc hend ih => simp_all [leave]
  | case6 q up c s hc hend ih => simp_all [leave]
  | case7 up c s ih => simpa [leave] using ih h
  | case8 up s ih => simpa [leave] using ih h
  | case9 up c s hpair ih =>
    rw [List.cons_append, leave]
    · exact ih h
    · exact no_pair_append hpair fun _ => ended h
  | case10 up s ih => simpa [leave] using ih h
  | case11 up s hpair ih => simpa [leave] using ih h
  | case12 up c s hpair hc ih =>
    rw [List.cons_append, leave, if_neg hc]
    · exact ih h
    · refine no_pair_append hpair ?_
      rintro rfl
      exact ended (by simpa using h)
  | case13 b up s ih => simpa [leave] using ih h
  | case14 b up s ih => simpa [leave] using ih h
  | case15 b up c s hline hblock hq ih =>
    have hc : c ≠ '/' := by
      rintro rfl
      exact absurd hq (by decide)
    rw [List.cons_append, leave, if_pos hq]
    · exact ih h
    · exact no_pair_append hline fun h => absurd h hc
    · exact no_pair_append hblock fun h => absurd h hc
  | case16 b up s hline hblock hq ih => simpa [leave, hq] using ih h
  | case17 b up c s hline hblock hq hb inner ho ih =>
    rw [List.cons_append, leave, if_neg hq, if_neg hb, ho]
    · exact ih h
    · exact no_pair_append hline fun _ => ended h
    · exact no_pair_append hblock fun _ => ended h
  | case18 up c s hline hblock hq hb closed hcl ho ih =>
    have hc : c ≠ '/' := by
      rintro rfl
      simp [Bracket.closed?] at hcl
    rw [List.cons_append, leave, if_neg hq, if_neg hb, ho, hcl]
    · simpa using ih h
    · exact no_pair_append hline fun h => absurd h hc
    · exact no_pair_append hblock fun h => absurd h hc
  | case19 b up c s hline hblock hq hb closed hcl ho hne => cases h
  | case20 b up c s hline hblock hq hb hcl ho ih =>
    rw [List.cons_append, leave, if_neg hq, if_neg hb, ho, hcl]
    · exact ih h
    · exact no_pair_append hline fun _ => ended h
    · exact no_pair_append hblock fun _ => ended h

theorem afterGroup?_append {s rest : Text} (more : Text) (h : afterGroup? s = some rest) :
    afterGroup? (s ++ more) = some (rest ++ more) := by
  cases s with
  | nil => cases h
  | cons c s =>
    obtain ⟨b, hb, hleave⟩ := Option.bind_eq_some_iff.mp h
    exact Option.bind_eq_some_iff.mpr ⟨b, hb, leave_append more hleave⟩

/-! ### What is around -/

/-- **Leaving does not look at what is around**: the reader goes on with what it is still inside
of. -/
theorem leave_around {inside : List Within} {s rest : Text} (up : List Within)
    (h : leave inside s = some rest) : leave (inside ++ up) s = leave up rest := by
  fun_induction leave inside s with
  | case1 s =>
    cases h
    rfl
  | case2 => cases h
  | case3 w c s ih => simpa [leave] using ih h
  | case4 q w s ih => simpa [leave] using ih h
  | case5 q w c s hc hend ih => simpa [leave, hc, hend] using ih h
  | case6 q w c s hc hend ih => simpa [leave, hc, hend] using ih h
  | case7 w c s ih =>
    rw [List.cons_append, leave]
    by_cases hc : c = '\n'
    · simpa [hc] using ih h
    · simpa [hc] using ih h
  | case8 w s ih => simpa [leave] using ih h
  | case9 w c s hpair ih => simpa [leave, hpair] using ih h
  | case10 w s ih => simpa [leave] using ih h
  | case11 w s hpair ih => simpa [leave, hpair] using ih h
  | case12 w c s hpair hc ih =>
    rw [List.cons_append, leave, if_neg hc]
    · by_cases htick : c = '\x60'
      · simpa [htick] using ih h
      · simpa [htick] using ih h
    · exact hpair
  | case13 b w s ih => simpa [leave] using ih h
  | case14 b w s ih => simpa [leave] using ih h
  | case15 b w c s hline hblock hq ih =>
    rw [List.cons_append, leave, if_pos hq]
    · exact ih h
    · exact hline
    · exact hblock
  | case16 b w s hline hblock hq ih => simpa [leave, hq] using ih h
  | case17 b w c s hline hblock hq hb inner ho ih =>
    rw [List.cons_append, leave, if_neg hq, if_neg hb, ho]
    · exact ih h
    · exact hline
    · exact hblock
  | case18 w c s hline hblock hq hb closed hcl ho ih =>
    rw [List.cons_append, leave, if_neg hq, if_neg hb, ho, hcl]
    · simpa using ih h
    · exact hline
    · exact hblock
  | case19 => cases h
  | case20 b w c s hline hblock hq hb hcl ho ih =>
    rw [List.cons_append, leave, if_neg hq, if_neg hb, ho, hcl]
    · exact ih h
    · exact hline
    · exact hblock

end LivePreview.Script

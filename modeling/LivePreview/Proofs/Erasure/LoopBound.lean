/-
No loop of the eraser is stopped by its bound.

The loops that read a name, a statement, a class header or the body of an enum count down a bound,
and so do the steps of a run.  Each round leaves less to read, so as many rounds as there are
characters are enough: every larger bound gives the same result, which is what the loop comes to
when nothing counts it.  `bound_stable` is that argument, once for all loops.
-/
import LivePreview.Proofs.Script.TypeReading
import LivePreview.Proofs.Erasure.Advance

namespace LivePreview

open Script

/-- A loop whose rounds leave less to read does not depend on a bound that is large enough. -/
theorem bound_stable {α β : Type} (size : α → Nat) (loop : Nat → α → β)
    (hend : ∀ n k x, size x = 0 → loop n x = loop k x)
    (hround : ∀ n k x, (∀ y, size y < size x → loop n y = loop k y) →
      loop (n + 1) x = loop (k + 1) x)
    {n k : Nat} {x : α} (hn : size x ≤ n) (hk : size x ≤ k) : loop n x = loop k x := by
  induction n generalizing k x with
  | zero => exact hend _ _ _ (Nat.le_zero.mp hn)
  | succ n ih =>
    cases k with
    | zero => exact hend _ _ _ (Nat.le_zero.mp hk)
    | succ k => exact hround n k x fun y hy => ih (by omega) (by omega)

/-! ### Names and declarations -/

theorem dottedRest_stable {n k : Nat} {s : Text} (hn : s.length ≤ n) (hk : s.length ≤ k) :
    dottedRest n s = dottedRest k s := by
  refine bound_stable List.length dottedRest ?_ ?_ hn hk
  · intro n k s hs
    obtain rfl := List.length_eq_zero_iff.mp hs
    cases n <;> cases k <;> rfl
  · intro n k s hshorter
    have hs := (suffix_skipIdent s).length_le
    simp only [dottedRest]
    split
    · rename_i t ht
      rw [ht, List.length_cons] at hs
      rw [hshorter t (by omega)]
    · rfl

namespace Erasure

theorem statementRestFrom_stable {n k : Nat} {start s : Text} (hn : s.length ≤ n)
    (hk : s.length ≤ k) : statementRestFrom start n s = statementRestFrom start k s := by
  refine bound_stable List.length (statementRestFrom start) ?_ ?_ hn hk
  · intro n k s hs
    obtain rfl := List.length_eq_zero_iff.mp hs
    cases n <;> cases k <;> rfl
  · intro n k s hshorter
    cases s with
    | nil => rfl
    | cons c s =>
      have htail : ∀ {t : Text}, t <:+ s →
          statementRestFrom start n t = statementRestFrom start k t :=
        fun ht => hshorter _ (Nat.lt_succ_of_le ht.length_le)
      unfold statementRestFrom
      rw [htail (suffix_stringRest c s), htail (suffix_tail_skipTemplate (c :: s)),
        htail List.suffix_rfl]
      split
      · split
        · rename_i rest hrest
          exact htail (suffix_tail_afterGroup? hrest)
        · rfl
      · rfl

end Erasure

/-! ### Bodies of enums -/

namespace EnumObject

theorem splitFrom_stable {sep : Char} {n k : Nat} {part s : Text} (hn : s.length ≤ n)
    (hk : s.length ≤ k) : splitFrom sep n part s = splitFrom sep k part s := by
  refine bound_stable (fun x : Text × Text => x.2.length) (fun n x => splitFrom sep n x.1 x.2)
    ?_ ?_ (x := (part, s)) hn hk
  · rintro n k ⟨part, s⟩ hs
    obtain rfl := List.length_eq_zero_iff.mp hs
    cases n <;> cases k <;> simp [splitFrom]
  · rintro n k ⟨part, s⟩ hshorter
    cases s with
    | nil => rfl
    | cons c s =>
      have htail : ∀ {part t : Text}, t <:+ s → splitFrom sep n part t = splitFrom sep k part t :=
        fun ht => hshorter (_, _) (Nat.lt_succ_of_le ht.length_le)
      simp only [splitFrom]
      rw [htail List.suffix_rfl, htail (Erasure.suffix_tail_skipPiece (c :: s))]

theorem withoutCommentsFrom_stable {n k : Nat} {s : Text} (hn : s.length ≤ n)
    (hk : s.length ≤ k) : withoutCommentsFrom n s = withoutCommentsFrom k s := by
  refine bound_stable List.length withoutCommentsFrom ?_ ?_ hn hk
  · intro n k s hs
    obtain rfl := List.length_eq_zero_iff.mp hs
    cases n <;> cases k <;> rfl
  · intro n k s hshorter
    cases s with
    | nil => rfl
    | cons c s =>
      have htail : ∀ {t : Text}, t <:+ s → withoutCommentsFrom n t = withoutCommentsFrom k t :=
        fun ht => hshorter _ (Nat.lt_succ_of_le ht.length_le)
      simp only [withoutCommentsFrom]
      split
      · rename_i t hpair
        obtain ⟨-, rfl⟩ := List.cons.inj hpair
        exact htail ((List.dropWhile_suffix _).trans (List.suffix_cons _ t))
      · rename_i t hpair
        obtain ⟨-, rfl⟩ := List.cons.inj hpair
        exact htail ((suffix_blockRest t).trans (List.suffix_cons _ t))
      · rw [htail (suffix_stringRest c s), htail List.suffix_rfl]

end EnumObject

/-! ### Headers and runs -/

namespace Erasure.Eraser

theorem eraseHeader_stable {n k : Nat} {e : Eraser} (hn : e.rest.length ≤ n)
    (hk : e.rest.length ≤ k) : e.eraseHeader n = e.eraseHeader k := by
  refine bound_stable (fun e : Eraser => e.rest.length) eraseHeader ?_ ?_ hn hk
  · intro n k e hs
    have hnil := List.length_eq_zero_iff.mp hs
    cases n <;> cases k <;> simp [eraseHeader, hnil]
  · intro n k e hshorter
    unfold eraseHeader
    cases hcs : e.rest with
    | nil => rfl
    | cons c s =>
      rw [hcs] at hshorter
      have hkeep : ∀ {rest : Text}, rest <:+ s →
          (e.keep rest).eraseHeader n = (e.keep rest).eraseHeader k :=
        fun ht => hshorter _ (Nat.lt_succ_of_le ht.length_le)
      have herase : ∀ {rule : ErasureRule} {rest : Text}, rest <:+ s →
          (e.erase rule rest).eraseHeader n = (e.erase rule rest).eraseHeader k :=
        fun ht => hshorter _ (Nat.lt_succ_of_le ht.length_le)
      dsimp only
      split_ifs with hbrace hangle hround hstart himplements
      · rfl
      · split
        · rename_i rest hrest
          refine herase ?_
          obtain hparameters | ⟨-, harguments⟩ := Option.or_eq_some_iff.mp hrest
          · exact suffix_tail_afterTypeParameters? hparameters
          · exact suffix_tail_afterTypeArguments? harguments
        · exact hkeep List.suffix_rfl
      · cases hgroup : afterGroup? (c :: s) with
        | none => exact hkeep List.suffix_rfl
        | some rest => exact hkeep (suffix_tail_afterGroup? hgroup)
      · exact herase ((List.dropWhile_suffix _).trans
          (suffix_tail_skipIdent (s := c :: s) hstart))
      · exact hkeep (suffix_tail_skipIdent (s := c :: s) hstart)
      · exact hkeep List.suffix_rfl

theorem run_of_nil {e : Eraser} (h : e.rest = [] ∨ e.modes = []) (n : Nat) :
    run n e = .ok e := by
  induction n with
  | zero => rfl
  | succ n ih =>
    unfold run
    split
    · rfl
    · rw [step_of_nil h]
      exact ih

theorem run_stable {n k : Nat} {e : Eraser} (hn : e.rest.length ≤ n) (hk : e.rest.length ≤ k) :
    run n e = run k e := by
  refine bound_stable (fun e : Eraser => e.rest.length) run ?_ ?_ hn hk
  · intro n k e hs
    have hnil := List.length_eq_zero_iff.mp hs
    rw [run_of_nil (Or.inl hnil), run_of_nil (Or.inl hnil)]
  · intro n k e hshorter
    by_cases hrest : e.rest = []
    · rw [run_of_nil (Or.inl hrest), run_of_nil (Or.inl hrest)]
    cases hmodes : e.modes with
    | nil => rw [run_of_nil (Or.inr hmodes), run_of_nil (Or.inr hmodes)]
    | cons mode outer =>
      unfold run
      split
      · rfl
      · cases hstep : e.step with
        | error o => rfl
        | ok e' =>
          obtain ⟨entered, hsteps, -⟩ := stepsTo_step List.suffix_rfl hrest hmodes hstep
          exact hshorter e' (hsteps.length_lt hrest)

end Erasure.Eraser

end LivePreview

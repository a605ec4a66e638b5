/-
Runs over bytes.

A run over the bytes of a text comes to what the run over the text comes to, one step for one step.
Since a text has no more characters than bytes, the bound on the steps of the one is as good as that
of the other.

The readers of types start wherever a type may be, in the middle of what the eraser reads.  What
they take out of the bytes starts at a character of ASCII, and in the bytes of a text such a
character stands where it stands in the text.
-/
import LivePreview.Proofs.Erasure.ByteTokens

namespace LivePreview.Erasure

open Script
open Text (spread isAscii spread_ascii)

variable {code s t rest : Text} {c : Char} {e : Eraser}

/-! ### Places in the bytes -/

/-- An end piece of two pieces is one of the second, or it starts in the first. -/
theorem suffix_append_cases {front : Text} (h : c :: t <:+ front ++ s) : c :: t <:+ s ∨ c ∈ front := by
  obtain hlate | hearly := List.suffix_or_suffix_of_suffix h (List.suffix_append front s)
  · exact .inl hlate
  · obtain ⟨piece, hpiece⟩ := hearly
    cases piece with
    | nil => exact .inl ⟨[], hpiece.symm⟩
    | cons d piece =>
      obtain ⟨rfl, rfl⟩ := List.cons.inj hpiece
      obtain ⟨before, hbefore⟩ := h
      have hfront : before ++ d :: piece = front := by
        rw [← List.append_left_inj s, List.append_assoc]
        exact hbefore
      exact .inr (hfront ▸ List.mem_append_right before List.mem_cons_self)

/-- **A character of ASCII in the bytes of a text is one of the text.** -/
theorem exists_of_suffix_spread (hc : isAscii c = true) (h : c :: t <:+ spread code) :
    ∃ s, c :: s <:+ code ∧ t = spread s := by
  induction code with
  | nil => exact absurd (List.suffix_nil.mp h) (List.cons_ne_nil c t)
  | cons d code ih =>
    have hlater : c :: t <:+ spread code → ∃ s, c :: s <:+ d :: code ∧ t = spread s := by
      intro h
      obtain ⟨s, hs, ht⟩ := ih h
      exact ⟨s, hs.trans (List.suffix_cons d code), ht⟩
    cases hd : isAscii d with
    | true =>
      rw [spread_ascii hd] at h
      obtain hhere | hlate := List.suffix_cons_iff.mp h
      · obtain ⟨rfl, rfl⟩ := List.cons.inj hhere
        exact ⟨code, List.suffix_rfl, rfl⟩
      · exact hlater hlate
    | false =>
      rw [Text.spread_cons] at h
      obtain hlate | hc' := suffix_append_cases h
      · exact hlater hlate
      · exact absurd hc (by simp [Text.wide_spread hd c hc'])

namespace Bytewise

/-- A word in the bytes is a slice wherever it stands. -/
theorem slice_word (ht : t <:+ spread code) (hword : startsIdent t = true) :
    ∃ w, slice code t (skipIdent t) = .ok w := by
  cases t with
  | nil => cases hword
  | cons c t =>
    have hc : isAscii c = true := isAscii_of_isIdentStart hword
    obtain ⟨s, hs, rfl⟩ := exists_of_suffix_spread hc ht
    rw [← spread_ascii hc]
    exact ⟨_, slice_ident hs⟩

/-- What stands behind a group in the bytes is a slice wherever the group stands. -/
theorem slice_behind_group (ht : t <:+ spread code) (hgroup : afterGroup? t = some rest) :
    ∃ w, slice code (Text.skipBlanks rest) [] = .ok w := by
  obtain ⟨b, c, d, inside, hopen, -, rfl⟩ := exists_brackets_of_afterGroup? hgroup
  have hc := isAscii_of_opened? hopen
  obtain ⟨s, hs, hspread⟩ := exists_of_suffix_spread hc ht
  rw [hspread, ← spread_ascii hc, afterGroup?_spread] at hgroup
  obtain ⟨u, hu, rfl⟩ := Option.map_eq_some_iff.mp hgroup
  rw [Text.skipBlanks_spread]
  exact ⟨_, slice_nil ((Text.suffix_skipBlanks u).trans ((suffix_afterGroup? hu).trans hs))⟩

/-! ### Runs -/

theorem suffix_step {e' : Eraser} (he : e.rest <:+ code) (hstep : e.step = .ok e') :
    e'.rest <:+ code := by
  by_cases hrest : e.rest = []
  · rw [Eraser.step_of_nil (Or.inl hrest)] at hstep
    cases hstep
    exact he
  cases hmodes : e.modes with
  | nil =>
    rw [Eraser.step_of_nil (Or.inr hmodes)] at hstep
    cases hstep
    exact he
  | cons mode outer =>
    obtain ⟨entered, hsteps, -⟩ := Eraser.stepsTo_step he hrest hmodes hstep
    exact hsteps.suffix_code

/-- **A run over the bytes comes to what the run over the text comes to.** -/
theorem run_inBytes (n : Nat) (he : e.rest <:+ code) :
    run code n e.inBytes = outcome (Eraser.run n e) := by
  induction n generalizing e with
  | zero => rfl
  | succ n ih =>
    cases hrest : e.rest with
    | nil =>
      have hbytes : e.inBytes.rest = [] := congrArg spread hrest
      rw [Eraser.run_of_nil (Or.inl hrest), run, hbytes]
      rfl
    | cons c s =>
      have hbytes : e.inBytes.rest ≠ [] := by
        rw [Eraser.inBytes_rest, hrest, Text.spread_cons]
        exact List.append_ne_nil_of_left_ne_nil (Text.spread_singleton_ne_nil c) _
      have hrun : run code (n + 1) e.inBytes = (step code e.inBytes).bind (run code n) := by
        rw [run]
        split
        · contradiction
        · rfl
      have htext : Eraser.run (n + 1) e = e.step.bind (Eraser.run n) := by
        rw [Eraser.run, hrest]
      rw [hrun, htext, step_inBytes he]
      cases hstep : e.step with
      | error o =>
        cases o
        rfl
      | ok e' => exact ih (suffix_step he hstep)

/-- **Erasing byte by byte is erasing**, and no slice is cut wrong. -/
theorem erase_eq (code : Text) : erase code = checked (eraseTypes code) := by
  have hrun := run_inBytes (e := Eraser.start code) (spread code).length List.suffix_rfl
  have hbound : Eraser.run (spread code).length (Eraser.start code)
      = Eraser.run code.length (Eraser.start code) :=
    Eraser.run_stable (length_le_spread code) (Nat.le_refl code.length)
  rw [hbound] at hrun
  rw [erase, eraseTypes]
  rw [show run code (spread code).length { rest := spread code, modes := [.code {}] } = _ from hrun]
  cases Eraser.run code.length (Eraser.start code) with
  | error o =>
    cases o
    rfl
  | ok e => rfl

end Bytewise

end LivePreview.Erasure

/-
How far steps lead.

A text that is erased comes in pieces, of which some are kept and the others are removed,
each as a hit of one rule.  `past` is the eraser behind such pieces.  Pieces one behind the
other are a list of pieces again, which is all that an argument over a printed program has
to know about states.

`Reaches` says that steps lead from one state to another and that each of them leaves
less to read.  So a text is handled by a run, whose fuel is its length, as soon as steps
lead to its end.
-/
import LivePreview.Proofs.Text.Reading
import LivePreview.Erasure.Step

namespace LivePreview.Erasure

/-! ### Pieces of a text -/

/-- A piece of a text, with what is to become of it. -/
inductive Piece where
  | kept (s : Text)
  | erased (rule : ErasureRule) (s : Text)
deriving DecidableEq, Repr

namespace Piece

/-- The text of a piece. -/
def text : Piece → Text
  | kept s => s
  | erased _ s => s

/-- What is kept of a piece. -/
def keptText : Piece → Text
  | kept s => s
  | erased _ _ => []

/-- The rule that removes a piece. -/
def rule? : Piece → Option ErasureRule
  | kept _ => none
  | erased rule _ => some rule

end Piece

/-- The text that pieces make up. -/
def wholeText (ps : List Piece) : Text := ps.flatMap Piece.text

/-- What is kept of pieces. -/
def keptText (ps : List Piece) : Text := ps.flatMap Piece.keptText

/-- The rules that remove pieces, in the order of the pieces. -/
def removals (ps : List Piece) : List ErasureRule := ps.filterMap Piece.rule?

section

variable (s : Text) (rule : ErasureRule) (ps qs : List Piece)

@[simp] theorem wholeText_nil : wholeText [] = [] := rfl

@[simp] theorem wholeText_kept : wholeText (.kept s :: ps) = s ++ wholeText ps := rfl

@[simp] theorem wholeText_erased : wholeText (.erased rule s :: ps) = s ++ wholeText ps := rfl

@[simp] theorem wholeText_append : wholeText (ps ++ qs) = wholeText ps ++ wholeText qs :=
  List.flatMap_append

@[simp] theorem keptText_nil : keptText [] = [] := rfl

@[simp] theorem keptText_kept : keptText (.kept s :: ps) = s ++ keptText ps := rfl

@[simp] theorem keptText_erased : keptText (.erased rule s :: ps) = keptText ps := rfl

@[simp] theorem keptText_append : keptText (ps ++ qs) = keptText ps ++ keptText qs :=
  List.flatMap_append

@[simp] theorem removals_nil : removals [] = [] := rfl

@[simp] theorem removals_kept : removals (.kept s :: ps) = removals ps := rfl

@[simp] theorem removals_erased : removals (.erased rule s :: ps) = rule :: removals ps := rfl

@[simp] theorem removals_append : removals (ps ++ qs) = removals ps ++ removals qs :=
  List.filterMap_append

theorem length_removals :
    (removals ps).length = (ps.filter fun piece => piece.rule?.isSome).length := by
  induction ps with
  | nil => rfl
  | cons piece ps ih => cases piece <;> simp [Piece.rule?, ih]

end

namespace Eraser

/-- The eraser behind pieces, with `rest` still to be read. -/
def past (e : Eraser) (ps : List Piece) (rest : Text) : Eraser where
  before := (wholeText ps).getLast?.or e.before
  rest := rest
  out := (keptText ps).reverse ++ e.out
  report := ⟨(removals ps).reverse ++ e.report.hits⟩
  modes := e.modes

section

variable (e : Eraser) (ps : List Piece) (rest : Text)

@[simp] theorem past_rest : (e.past ps rest).rest = rest := rfl

@[simp] theorem past_modes : (e.past ps rest).modes = e.modes := rfl

@[simp] theorem past_before : (e.past ps rest).before = (wholeText ps).getLast?.or e.before := rfl

@[simp] theorem enter_rest (mode : Mode) : (e.enter mode).rest = e.rest := rfl

/-- **Pieces behind pieces are pieces.** -/
@[simp] theorem past_past (qs : List Piece) (rest₂ : Text) :
    (e.past ps rest).past qs rest₂ = e.past (ps ++ qs) rest₂ := by
  simp [past, Option.or_assoc]

end

variable {e : Eraser} {r rest : Text}

/-- What is kept is a piece. -/
theorem keep_eq (h : e.rest = r ++ rest) : e.keep rest = e.past [.kept r] rest := by
  simp [keep, lastBefore, past, h]

theorem keep_cons {c : Char} {s : Text} (h : e.rest = c :: s) :
    e.keep s = e.past [.kept [c]] s :=
  keep_eq (r := [c]) h

/-- What is erased is a piece. -/
theorem erase_eq (rule : ErasureRule) (h : e.rest = r ++ rest) :
    e.erase rule rest = e.past [.erased rule r] rest := by
  simp [erase, lastBefore, past, h, ErasureReport.hit]

/-- The text ends with a character that is no inline blank. -/
def EndsVisibly (s : Text) : Prop := ∃ c, s.getLast? = some c ∧ isInline c = false

theorem endsVisibly_singleton {c : Char} (h : isInline c = false) : EndsVisibly [c] := ⟨c, rfl, h⟩

theorem EndsVisibly.append {t : Text} (h : EndsVisibly t) (s : Text) : EndsVisibly (s ++ t) := by
  obtain ⟨c, hc, hblank⟩ := h
  exact ⟨c, by rw [List.getLast?_append, hc, Option.some_or], hblank⟩

/-- Blanks that were kept are taken back where what is behind them is erased. -/
theorem erase_trimOut_past {ps : List Piece} {blanks : Text} (r rest : Text) (rule : ErasureRule)
    (hblanks : ∀ c ∈ blanks, isInline c = true)
    (hkept : EndsVisibly (keptText ps)) :
    ((e.past (ps ++ [.kept blanks]) (r ++ rest)).trimOut).erase rule rest
      = e.past (ps ++ [.erased rule (blanks ++ r)]) rest := by
  obtain ⟨c, hlast, hc⟩ := hkept
  have hstop : Text.Stops isInline ((keptText ps).reverse ++ e.out) := by
    intro d hd
    rw [List.head?_append, List.head?_reverse, hlast, Option.some_or] at hd
    obtain rfl : c = d := by simpa using hd
    exact hc
  have hdrop : (blanks.reverse ++ ((keptText ps).reverse ++ e.out)).dropWhile isInline
      = (keptText ps).reverse ++ e.out :=
    Text.dropWhile_append (fun c hc => hblanks c (List.mem_reverse.mp hc)) hstop
  simp [past, trimOut, erase, lastBefore, hdrop, ErasureReport.hit, Option.or_assoc]

/-! ### Steps and runs -/

/-- Steps lead from one state to another, and each of them reads something. -/
inductive Reaches : Eraser → Eraser → Prop where
  | refl (e : Eraser) : Reaches e e
  | step {e e₁ e₂ : Eraser} (h : e.step = .ok e₁) (hlt : e₁.rest.length < e.rest.length)
      (hs : Reaches e₁ e₂) : Reaches e e₂

namespace Reaches

variable {e₁ e₂ e₃ : Eraser}

theorem one (h : e₁.step = .ok e₂) (hlt : e₂.rest.length < e₁.rest.length) : Reaches e₁ e₂ :=
  .step h hlt (.refl e₂)

theorem trans (h : Reaches e₁ e₂) (h' : Reaches e₂ e₃) : Reaches e₁ e₃ := by
  induction h with
  | refl => exact h'
  | step hstep hlt _ ih => exact .step hstep hlt (ih h')

/-- A run goes through every state that steps lead to. -/
theorem run_eq (h : Reaches e₁ e₂) {n : Nat} (hn : e₁.rest.length ≤ n) :
    ∃ k, e₂.rest.length ≤ k ∧ run n e₁ = run k e₂ := by
  induction h generalizing n with
  | refl => exact ⟨n, hn, rfl⟩
  | step hstep hlt _ ih =>
    obtain ⟨n, rfl⟩ : ∃ m, n = m + 1 := ⟨n - 1, by omega⟩
    obtain ⟨k, hk, hrun⟩ := ih (show _ ≤ n by omega)
    refine ⟨k, hk, ?_⟩
    rw [run]
    split
    · rename_i hnil
      rw [hnil] at hlt
      simp at hlt
    · rw [hstep, ← hrun]
      rfl

/-- A run ends where steps lead to the end of the text. -/
theorem run_eq_ok (h : Reaches e₁ e₂) (hend : e₂.rest = []) {n : Nat}
    (hn : e₁.rest.length ≤ n) : run n e₁ = .ok e₂ := by
  obtain ⟨k, -, hrun⟩ := h.run_eq hn
  rw [hrun]
  cases k with
  | zero => rfl
  | succ k =>
    rw [run]
    simp [hend]

end Reaches

/-- One step over pieces. -/
theorem reaches_pieces {mode mode' : Mode} {ps : List Piece} (h : e.rest = wholeText ps ++ rest)
    (hne : wholeText ps ≠ [])
    (hstep : (e.enter mode).step = .ok ((e.past ps rest).enter mode')) :
    Reaches (e.enter mode) ((e.past ps rest).enter mode') := by
  refine .one hstep ?_
  have := List.length_pos_iff.mpr hne
  simp only [enter_rest, past_rest, h, List.length_append]
  omega

theorem reaches_past {mode mode' : Mode} {piece : Piece} (h : e.rest = piece.text ++ rest)
    (hne : piece.text ≠ [])
    (hstep : (e.enter mode).step = .ok ((e.past [piece] rest).enter mode')) :
    Reaches (e.enter mode) ((e.past [piece] rest).enter mode') := by
  have hwhole : wholeText [piece] = piece.text := List.append_nil piece.text
  exact reaches_pieces (by rw [hwhole, h]) (hwhole ▸ hne) hstep

/-- Steps over further pieces. -/
theorem Reaches.andThen {a : Eraser} {ps qs : List Piece} {s t : Text} {mode mode' : Mode}
    (h : Reaches a ((e.past ps s).enter mode))
    (h' : (e.past ps s).rest = s →
      Reaches ((e.past ps s).enter mode) (((e.past ps s).past qs t).enter mode')) :
    Reaches a ((e.past (ps ++ qs) t).enter mode') := by
  rw [← past_past]
  exact h.trans (h' rfl)

/-- Only what pieces come to matters. -/
theorem past_congr {ps qs : List Piece} {s : Text} (hwhole : wholeText ps = wholeText qs)
    (hkept : keptText ps = keptText qs) (hhits : removals ps = removals qs) :
    e.past ps s = e.past qs s := by
  simp [past, hwhole, hkept, hhits]

theorem Reaches.regroup {a : Eraser} {ps qs : List Piece} {s : Text} {mode : Mode}
    (h : Reaches a ((e.past ps s).enter mode)) (hwhole : wholeText ps = wholeText qs)
    (hkept : keptText ps = keptText qs) (hhits : removals ps = removals qs) :
    Reaches a ((e.past qs s).enter mode) := by
  rwa [past_congr hwhole hkept hhits] at h

/-- The eraser in front of a text, in no mode. -/
def bare (code : Text) : Eraser := { rest := code, modes := [] }

end Eraser

/-- A text is erased to what is kept of its pieces. -/
theorem eraseTypes_eq_of_reaches {ps : List Piece} {mode : Mode}
    (h : Eraser.Reaches (Eraser.start (wholeText ps))
      (((Eraser.bare (wholeText ps)).past ps []).enter mode)) :
    eraseTypes (wholeText ps) = .ok ⟨keptText ps, ⟨(removals ps).reverse⟩⟩ := by
  have hrun := h.run_eq_ok rfl (Nat.le_refl (wholeText ps).length)
  simp [eraseTypes, hrun, Except.map, Eraser.enter, Eraser.past, Eraser.bare]

end LivePreview.Erasure

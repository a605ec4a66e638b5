/-
The readers of groups and of templates, as they call each other.

A group may hold templates, and a template holds groups behind `$`, so the reader of the one calls
the reader of the other.  `Call` has a rule for each thing that one of them can do next, and a
derivation of it is a call that comes to an end.  Every call does, and in one way only: `call_iff`.

A program that keeps code as bytes asks for the group at an offset and is given the offset behind
it.  `IsGroupAt` says what a group is there, in words of brackets and without the reader;
`groups_recognised` says that the reader finds it wherever there is one, and that it comes to an end
wherever there is none.
-/
import LivePreview.Proofs.Script.BracketWord
import LivePreview.Proofs.Script.ByteReading

namespace LivePreview.Script

/-- Which of the two readers is called, and for groups the kinds of those that it is inside of,
innermost first. -/
inductive CallKind where
  | groups (up : List Bracket)
  | template

/-- With this text in front of it, a call returns what remains behind the outermost group, if that
is closed, or what remains behind the template, where nothing does behind one without an end.  A
reader of templates starts behind the backtick. -/
inductive Call : CallKind → Text → Option Text → Prop
  | groupsEnded (up : List Bracket) : Call (.groups up) [] none
  | outside {c : Char} {s : Text} (hc : Bracket.opened? c = none) : Call (.groups []) (c :: s) none
  | opening {up : List Bracket} {c : Char} {b : Bracket} {s : Text} {r : Option Text}
      (hc : Bracket.opened? c = some b) (h : Call (.groups (b :: up)) s r) :
      Call (.groups up) (c :: s) r
  | last {c : Char} {b : Bracket} {s : Text} (hc : Bracket.closed? c = some b) :
      Call (.groups [b]) (c :: s) (some s)
  | closing {up : List Bracket} {c : Char} {b b' : Bracket} {s : Text} {r : Option Text}
      (hc : Bracket.closed? c = some b) (h : Call (.groups (b' :: up)) s r) :
      Call (.groups (b :: b' :: up)) (c :: s) r
  | mismatch {up : List Bracket} {c : Char} {b b' : Bracket} {s : Text}
      (hc : Bracket.closed? c = some b') (hne : b' ≠ b) : Call (.groups (b :: up)) (c :: s) none
  | template {up : List Bracket} {b : Bracket} {s t : Text} {r : Option Text}
      (ht : Call .template s (some t)) (h : Call (.groups (b :: up)) t r) :
      Call (.groups (b :: up)) ('\x60' :: s) r
  | literal {up : List Bracket} {c : Char} {b : Bracket} {s t : Text} {r : Option Text}
      (hc : c ≠ '\x60') (ht : afterLiteral? (c :: s) = some t) (h : Call (.groups (b :: up)) t r) :
      Call (.groups (b :: up)) (c :: s) r
  | passed {up : List Bracket} {c : Char} {b : Bracket} {s : Text} {r : Option Text}
      (hopen : Bracket.opened? c = none) (hclose : Bracket.closed? c = none)
      (hliteral : afterLiteral? (c :: s) = none) (h : Call (.groups (b :: up)) s r) :
      Call (.groups (b :: up)) (c :: s) r
  | templateEnded : Call .template [] (some [])
  | tick (s : Text) : Call .template ('\x60' :: s) (some s)
  | escape {c : Char} {s : Text} {r : Option Text} (h : Call .template s r) :
      Call .template ('\\' :: c :: s) r
  | lastEscape : Call .template ['\\'] (some [])
  | hole {s t : Text} {r : Option Text} (hhole : Call (.groups []) ('{' :: s) (some t))
      (h : Call .template t r) : Call .template ('$' :: '{' :: s) r
  | openHole {s : Text} (hhole : Call (.groups []) ('{' :: s) none) :
      Call .template ('$' :: '{' :: s) (some [])
  | inTemplate {c : Char} {s : Text} {r : Option Text} (hslash : c ≠ '\\') (htick : c ≠ '\x60')
      (hhole : ∀ u, c = '$' → s = '{' :: u → False) (h : Call .template s r) :
      Call .template (c :: s) r

variable {s t rest : Text} {c : Char} {b b' : Bracket} {up : List Bracket} {r : Option Text}

/-! ### What a call comes to -/

theorem leave_append_eq (inside up : List Within) (s : Text) :
    leave (inside ++ up) s = (leave inside s).bind (leave up) := by
  cases h : leave inside s with
  | some t => exact leave_around up h
  | none =>
    refine Option.eq_none_iff_forall_not_mem.mpr fun rest hrest => ?_
    obtain ⟨t, ht, -⟩ := exists_of_leave_append hrest
    rw [h] at ht
    cases ht

/-- What remains behind a template, from behind its backtick on. -/
def templateRest (s : Text) : Text := (leave [.template] s).getD []

theorem templateRest_hole (s : Text) :
    templateRest ('$' :: '{' :: s) = ((afterGroup? ('{' :: s)).map templateRest).getD [] := by
  have hleave : leave [.template] ('$' :: '{' :: s) = leave ([.group .curly] ++ [.template]) s := rfl
  have hgroup : afterGroup? ('{' :: s) = leave [.group .curly] s := rfl
  rw [templateRest, hleave, leave_append_eq, hgroup]
  cases leave [.group .curly] s <;> rfl

theorem templateRest_of_ne (hslash : c ≠ '\\') (htick : c ≠ '\x60')
    (hhole : ∀ u, c = '$' → s = '{' :: u → False) : templateRest (c :: s) = templateRest s := by
  rw [templateRest, leave, if_neg hslash, if_neg htick, templateRest]
  exact hhole

/-- What a call comes to. -/
def CallKind.result : CallKind → Text → Option Text
  | .groups [], s => afterGroup? s
  | .groups (b :: up), s => leave (.group b :: up.map .group) s
  | .template, s => some (templateRest s)

theorem result_outside (hc : Bracket.opened? c = none) (s : Text) :
    (CallKind.groups []).result (c :: s) = none := by
  rw [CallKind.result, afterGroup?, hc, Option.bind_none]

theorem result_opening (hc : Bracket.opened? c = some b) (s : Text) :
    (CallKind.groups up).result (c :: s) = (CallKind.groups (b :: up)).result s := by
  cases up with
  | nil => rw [CallKind.result, afterGroup?, hc, Option.bind_some, CallKind.result, List.map_nil]
  | cons b' up => exact leave_opening hc s

theorem result_last (hc : Bracket.closed? c = some b) (s : Text) :
    (CallKind.groups [b]).result (c :: s) = some s := by
  rw [CallKind.result, leave_closing hc, if_pos rfl, List.map_nil, leave]

theorem result_closing (hc : Bracket.closed? c = some b) (s : Text) :
    (CallKind.groups (b :: b' :: up)).result (c :: s) = (CallKind.groups (b' :: up)).result s := by
  rw [CallKind.result, leave_closing hc, if_pos rfl]
  rfl

theorem result_mismatch (hc : Bracket.closed? c = some b') (hne : b' ≠ b) (s : Text) :
    (CallKind.groups (b :: up)).result (c :: s) = none := by
  rw [CallKind.result, leave_closing hc, if_neg hne]

/-- A literal is no bracket. -/
theorem ofChar_of_afterLiteral? (h : afterLiteral? (c :: s) = some t) :
    Bracket.opened? c = none ∧ Bracket.closed? c = none := by
  constructor
  · refine Option.eq_none_iff_forall_not_mem.mpr fun b hb => ?_
    obtain rfl | rfl | rfl := Bracket.opened?_cases hb <;> simp [afterLiteral?, isQuote] at h
  · refine Option.eq_none_iff_forall_not_mem.mpr fun b hb => ?_
    obtain rfl | rfl | rfl := Bracket.closed?_cases hb <;> simp [afterLiteral?, isQuote] at h

theorem result_literal (h : afterLiteral? (c :: s) = some t) :
    (CallKind.groups (b :: up)).result (c :: s) = (CallKind.groups (b :: up)).result t := by
  obtain ⟨hopen, hclose⟩ := ofChar_of_afterLiteral? h
  rw [CallKind.result, leave_afterLiteral hopen hclose, h]
  rfl

theorem result_passed (hopen : Bracket.opened? c = none) (hclose : Bracket.closed? c = none)
    (hliteral : afterLiteral? (c :: s) = none) :
    (CallKind.groups (b :: up)).result (c :: s) = (CallKind.groups (b :: up)).result s := by
  rw [CallKind.result, leave_afterLiteral hopen hclose, hliteral]
  rfl

theorem afterLiteral?_tick (s : Text) : afterLiteral? ('\x60' :: s) = some (templateRest s) := rfl

/-! ### Every call ends -/

/-- A call that ends returns its result. -/
theorem Call.result {k : CallKind} (h : Call k s r) : r = k.result s := by
  induction h with
  | groupsEnded up => cases up <;> rfl
  | outside hc => exact (result_outside hc _).symm
  | opening hc h ih => rw [result_opening hc, ih]
  | last hc => exact (result_last hc _).symm
  | closing hc h ih => rw [result_closing hc, ih]
  | mismatch hc hne => exact (result_mismatch hc hne _).symm
  | template ht h iht ih => rw [result_literal (afterLiteral?_tick _), ih, Option.some.inj iht]
  | literal hc ht h ih => rw [result_literal ht, ih]
  | passed hopen hclose hliteral h ih => rw [result_passed hopen hclose hliteral, ih]
  | templateEnded => rfl
  | tick s => simp [CallKind.result, templateRest, leave]
  | escape h ih => exact ih
  | lastEscape => rfl
  | hole hhole h ihhole ih =>
    rw [ih, CallKind.result, CallKind.result, templateRest_hole, ← CallKind.result, ← ihhole]
    rfl
  | openHole hhole ihhole =>
    rw [CallKind.result, templateRest_hole, ← CallKind.result, ← ihhole]
    rfl
  | inTemplate hslash htick hhole h ih =>
    rw [ih, CallKind.result, CallKind.result, templateRest_of_ne hslash htick hhole]

/-- A call of the reader of groups ends if the calls on less text do. -/
theorem call_groups (up : List Bracket) (c : Char) (s : Text)
    (ih : ∀ k t, t.length ≤ s.length → Call k t (k.result t)) :
    Call (.groups up) (c :: s) ((CallKind.groups up).result (c :: s)) := by
  have hs := Nat.le_refl s.length
  cases hopen : Bracket.opened? c with
  | some b =>
    rw [result_opening hopen]
    exact .opening hopen (ih _ s hs)
  | none =>
    cases up with
    | nil =>
      rw [result_outside hopen]
      exact .outside hopen
    | cons b up =>
      cases hclose : Bracket.closed? c with
      | some b' =>
        by_cases hb : b' = b
        · subst hb
          cases up with
          | nil =>
            rw [result_last hclose]
            exact .last hclose
          | cons b up =>
            rw [result_closing hclose]
            exact .closing hclose (ih _ s hs)
        · rw [result_mismatch hclose hb]
          exact .mismatch hclose hb
      | none =>
        cases hliteral : afterLiteral? (c :: s) with
        | none =>
          rw [result_passed hopen hclose hliteral]
          exact .passed hopen hclose hliteral (ih _ s hs)
        | some t =>
          have ht := (suffix_tail_afterLiteral? hliteral).length_le
          rw [result_literal hliteral]
          by_cases htick : c = '\x60'
          · subst htick
            cases hliteral
            exact .template (ih .template s hs) (ih _ _ ht)
          · exact .literal htick hliteral (ih _ t ht)

/-- A call of the reader of templates ends if the calls on less text do. -/
theorem call_template (c : Char) (s : Text)
    (ih : ∀ k t, t.length ≤ s.length → Call k t (k.result t)) :
    Call .template (c :: s) (CallKind.template.result (c :: s)) := by
  by_cases hslash : c = '\\'
  · subst hslash
    cases s with
    | nil => exact .lastEscape
    | cons d s => exact .escape (ih .template s (Nat.le_succ _))
  by_cases htick : c = '\x60'
  · subst htick
    have htemplate : templateRest ('\x60' :: s) = s := by simp [templateRest, leave]
    rw [CallKind.result, htemplate]
    exact .tick s
  by_cases hhole : ∃ u, c = '$' ∧ s = '{' :: u
  · obtain ⟨u, rfl, rfl⟩ := hhole
    have hcall := ih (.groups []) ('{' :: u) (Nat.le_refl _)
    rw [CallKind.result] at hcall
    rw [CallKind.result, templateRest_hole]
    cases hgroup : afterGroup? ('{' :: u) with
    | none =>
      rw [hgroup] at hcall
      exact .openHole hcall
    | some t =>
      rw [hgroup] at hcall
      exact .hole hcall (ih .template t (suffix_afterGroup? hgroup).length_le)
  · have hne : ∀ u, c = '$' → s = '{' :: u → False := fun u hc hu => hhole ⟨u, hc, hu⟩
    rw [CallKind.result, templateRest_of_ne hslash htick hne]
    exact .inTemplate hslash htick hne (ih .template s (Nat.le_refl _))

/-- **Every call ends**: there is a derivation of it, whatever the text. -/
theorem call_result (k : CallKind) (s : Text) : Call k s (k.result s) := by
  induction hn : s.length using Nat.strong_induction_on generalizing k s with
  | _ n ih =>
    subst hn
    cases s with
    | nil =>
      cases k with
      | groups up => cases up <;> exact .groupsEnded _
      | template => exact .templateEnded
    | cons c s =>
      have hless : ∀ k t, t.length ≤ s.length → Call k t (k.result t) := fun k t ht =>
        ih _ (Nat.lt_succ_of_le ht) k t rfl
      cases k with
      | groups up => exact call_groups up c s hless
      | template => exact call_template c s hless

theorem call_iff {k : CallKind} : Call k s r ↔ r = k.result s :=
  ⟨Call.result, fun h => h ▸ call_result k s⟩

end LivePreview.Script

namespace LivePreview

open Text (ofBytes byteEnd?)

variable {bs : List UInt8} {pos e e' : Nat}

/-- A reader that leaves end pieces comes to an offset if it leaves what is behind this offset. -/
theorem Text.byteEnd?_eq_some_iff {read : Text → Option Text}
    (hread : ∀ s rest, read s = some rest → rest <:+ s) :
    byteEnd? read pos bs = some e ↔
      e ≤ bs.length ∧ read ((ofBytes bs).drop pos) = some ((ofBytes bs).drop e) := by
  rw [byteEnd?, Option.map_eq_some_iff]
  constructor
  · rintro ⟨rest, hrest, rfl⟩
    have hsuffix : rest <:+ ofBytes bs := (hread _ _ hrest).trans (List.drop_suffix pos _)
    have hdrop := List.suffix_iff_eq_drop.mp hsuffix
    rw [Text.length_ofBytes] at hdrop
    exact ⟨Nat.sub_le _ _, by rw [← hdrop, hrest]⟩
  · rintro ⟨hle, hrest⟩
    refine ⟨_, hrest, ?_⟩
    rw [List.length_drop, Text.length_ofBytes]
    omega

namespace Script

/-- From `pos` to `e` these bytes are a group: a bracket is opened at `pos`, and the tokens up to
`e` are a word of brackets that are closed by their own kind, the first of them by the last
token. -/
structure IsGroupAt (bs : List UInt8) (pos e : Nat) : Prop where
  opens : ∃ c b, (ofBytes bs)[pos]? = some c ∧ Bracket.opened? c = some b
  within : e ≤ bs.length
  word : ∃ ts, Tokens ((ofBytes bs).drop pos) ts ((ofBytes bs).drop e) ∧ IsGroup ts

/-- A word whose first token is a bracket starts with that bracket. -/
theorem exists_opened_of_tokens {s rest : Text} {ts : List Token} (h : Tokens s ts rest)
    (hgroup : IsGroup ts) : ∃ c b, s.head? = some c ∧ Bracket.opened? c = some b := by
  obtain ⟨b, inner, rfl, -⟩ := hgroup
  cases h' : Token.opening b :: (inner ++ [.closing b]) with
  | nil => cases h'
  | cons t ts =>
    rw [h'] at h
    cases h with
    | @token c s =>
      injection h' with hchar
      exact ⟨c, b, rfl, opened?_of_ofChar hchar.symm⟩

theorem byteEnd?_afterGroup?_iff : byteEnd? afterGroup? pos bs = some e ↔ IsGroupAt bs pos e := by
  rw [Text.byteEnd?_eq_some_iff fun _ _ => suffix_afterGroup?, afterGroup?_eq_some_iff]
  constructor
  · rintro ⟨hle, ts, hts, hgroup⟩
    obtain ⟨c, b, hc, hb⟩ := exists_opened_of_tokens hts hgroup
    rw [List.head?_drop] at hc
    exact ⟨⟨c, b, hc, hb⟩, hle, ts, hts, hgroup⟩
  · exact fun h => ⟨h.within, h.word⟩

/-- **The reader of groups recognises the balanced ones and no others**: from any offset into any
bytes it comes to the end of the group there, of which there is at most one, and to none if there is
no group.  It and the reader of templates, which call each other, come to an end on every text, and
what they do in the bytes of a text is what they do in the text. -/
theorem groups_recognised (bs : List UInt8) (pos : Nat) :
    (∀ e, byteEnd? afterGroup? pos bs = some e ↔ IsGroupAt bs pos e) ∧
    (∀ e e', IsGroupAt bs pos e ∧ IsGroupAt bs pos e' → e = e') ∧
    (byteEnd? afterGroup? pos bs = none ↔ ∀ e, ¬ IsGroupAt bs pos e) ∧
    (∀ k s, ∃! r, Call k s r) ∧
    (∀ s r, Call (.groups []) s r ↔ r = afterGroup? s) ∧
    (∀ s r, Call .template s r ↔ r = some (skipTemplate ('\x60' :: s))) ∧
    (∀ s : Text, afterGroup? s.spread = (afterGroup? s).map Text.spread) := by
  refine ⟨fun e => byteEnd?_afterGroup?_iff, ?_, ?_,
    fun k s => ⟨k.result s, call_result k s, fun _ => Call.result⟩,
    fun s r => call_iff, fun s r => call_iff, afterGroup?_spread⟩
  · rintro e e' ⟨he, he'⟩
    rw [← byteEnd?_afterGroup?_iff] at he he'
    exact Option.some.inj (he.symm.trans he')
  · rw [Option.eq_none_iff_forall_ne_some]
    exact forall_congr' fun e => not_congr byteEnd?_afterGroup?_iff

end Script

end LivePreview

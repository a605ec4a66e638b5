/-
What the grammar of the JSON format gives is read.

The reader looks at one character to tell which value it is in front of, and it stops in front of a
blank, a comma or a closing bracket.  So it reads a written value to its end whatever stands behind
one of these, `part?_written`, and a text that writes a value is read as that value, however it is
laid out: `read?_writes`.

The bound of the calls has to be twice the number of characters, because a value and the list that
it stands in each take one call, and at least one character.
-/
import LivePreview.Proofs.Json.Grammar
import LivePreview.Proofs.Text.Reading

namespace LivePreview.Json

variable {s t b body rest : Text} {c : Char} {n : Nat} {us : List Unit16} {v : Option Text}

/-! ### Blanks -/

theorem isBlank_iff : isBlank c = true ↔ c ∈ [' ', '\t', '\n', '\r'] := by
  simp [isBlank, or_assoc]

/-- Blanks are skipped up to what is none. -/
theorem skipBlanks_append (hb : Blanks b) (hc : isBlank c = false) :
    skipBlanks (b ++ c :: s) = c :: s := by
  rw [skipBlanks, List.dropWhile_append_of_pos fun d hd => isBlank_iff.mpr (hb d hd),
    List.dropWhile_cons_of_neg (by simp [hc])]

theorem skipBlanks_blanks (hb : Blanks b) : skipBlanks b = [] := by
  rw [skipBlanks, List.dropWhile_eq_nil_iff]
  exact fun d hd => isBlank_iff.mpr (hb d hd)

/-! ### Strings -/

theorem hexDigit?_of_isHex (h : IsHex c n) : hexDigit? c = some n := by
  have digits : ∀ ds : List Char, ds = "0123456789abcdef".toList ∨ ds = "0123456789ABCDEF".toList →
      ∀ i, (hi : i < ds.length) → hexDigit? ds[i] = some i := by
    rintro ds (rfl | rfl) <;> decide
  obtain h | h := h
  · obtain ⟨hn, rfl⟩ := List.getElem?_eq_some_iff.mp h
    exact digits _ (.inl rfl) n hn
  · obtain ⟨hn, rfl⟩ := List.getElem?_eq_some_iff.mp h
    exact digits _ (.inr rfl) n hn

theorem unitsRest?_units (h : Units body us) (rest : Text) :
    unitsRest? (body ++ '"' :: rest) = some (us, rest) := by
  induction h with
  | nil => rfl
  | char hc hquote hslash h ih =>
    rw [List.cons_append, unitsRest?, ih]
    · simp [Nat.not_lt.mpr hc, hslash]
    · exact hquote
    · exact fun _ _ _ _ _ heq => absurd heq hslash
    · exact fun _ _ heq => absurd heq hslash
  | short he h ih =>
    simp only [shortEscapes, List.mem_cons, Prod.mk.injEq, List.not_mem_nil, or_false] at he
    obtain ⟨rfl, rfl⟩ | ⟨rfl, rfl⟩ | ⟨rfl, rfl⟩ | ⟨rfl, rfl⟩ | ⟨rfl, rfl⟩ | ⟨rfl, rfl⟩ | ⟨rfl, rfl⟩ |
      ⟨rfl, rfl⟩ := he <;>
    simp [unitsRest?, shortEscape?, ih]
  | code ha hb hc hd h ih =>
    simp [unitsRest?, hex4?, hexDigit?_of_isHex ha, hexDigit?_of_isHex hb, hexDigit?_of_isHex hc,
      hexDigit?_of_isHex hd, ih]

/-- A unit that is no half of a pair is a character by itself. -/
theorem textOf?_code (hhigh : isHighHalf n = false) (hlow : isLowHalf n = false)
    (us : List Unit16) : textOf? (.code n :: us) = (textOf? us).map (Char.ofNat n :: ·) := by
  match us with
  | [] => simp [textOf?, hhigh, hlow]
  | .char c :: us => simp [textOf?, hhigh, hlow]
  | .code m :: us => simp [textOf?, hhigh, hlow]

/-- Units spell one text at most, and the reader finds it. -/
theorem textOf?_eq_some_iff : textOf? us = some t ↔ Spells us t := by
  constructor
  · intro h
    fun_induction textOf? us generalizing t with
    | case1 =>
      cases h
      exact .nil
    | case2 c us ih =>
      obtain ⟨u, hu, rfl⟩ := Option.map_eq_some_iff.mp h
      exact .char (ih hu)
    | case3 a b us ha hb ih =>
      obtain ⟨u, hu, rfl⟩ := Option.map_eq_some_iff.mp h
      exact .pair ha hb (ih hu)
    | case4 | case5 | case7 => cases h
    | case6 a b us ha hb ih =>
      obtain ⟨u, hu, rfl⟩ := Option.map_eq_some_iff.mp h
      exact .code (by simpa using ha) (by simpa using hb) (ih hu)
    | case8 a us hnext ha ih =>
      obtain ⟨u, hu, rfl⟩ := Option.map_eq_some_iff.mp h
      simp only [Bool.or_eq_true, not_or, Bool.not_eq_true] at ha
      exact .code ha.1 ha.2 (ih hu)
  · intro h
    induction h with
    | nil => rfl
    | char h ih => rw [textOf?, ih, Option.map_some]
    | code hhigh hlow h ih => rw [textOf?_code hhigh hlow, ih, Option.map_some]
    | pair ha hb h ih => rw [textOf?, if_pos ha, if_pos hb, ih, Option.map_some]

theorem isString_of_units (h : Units s us) : IsString s (textOf? us) :=
  ⟨us, h, fun _ => textOf?_eq_some_iff⟩

/-- Between quotes these characters stand for themselves. -/
def isPlain (c : Char) : Bool := 32 ≤ c.toNat && c != '"' && c != '\\'

/-- A text of such characters is written as it is. -/
theorem isString_plain (h : s.all isPlain = true) : IsString s (some s) := by
  have hunits : Units s (s.map .char) ∧ textOf? (s.map .char) = some s := by
    induction s with
    | nil => exact ⟨.nil, rfl⟩
    | cons c s ih =>
      obtain ⟨hc, hs⟩ := Bool.and_eq_true_iff.mp h
      simp only [isPlain, Bool.and_eq_true, decide_eq_true_eq, bne_iff_ne] at hc
      obtain ⟨hunits, htext⟩ := ih hs
      exact ⟨.char hc.1.1 hc.1.2 hc.2 hunits, by rw [List.map_cons, textOf?, htext, Option.map_some]⟩
  exact hunits.2 ▸ isString_of_units hunits.1

theorem stringRest?_isString (h : IsString body v) (rest : Text) :
    stringRest? (body ++ '"' :: rest) = some (v, rest) := by
  obtain ⟨us, hus, hv⟩ := h
  have htext : textOf? us = v := Option.ext fun t => by
    rw [hv, textOf?_eq_some_iff]
  rw [stringRest?, unitsRest?_units hus, Option.map_some, ← htext]

/-! ### Numbers -/

/-- What may stand behind a value: nothing, a blank, a comma or a closing bracket. -/
def Ends (rest : Text) : Prop :=
  ∀ c, rest.head? = some c → c ∈ [' ', '\t', '\n', '\r', ',', ']', '}']

theorem Ends.not_digit (h : Ends rest) : rest.head?.any isAsciiDigit = false := by
  cases rest with
  | nil => rfl
  | cons c rest =>
    have hc := h c rfl
    simp only [List.mem_cons, List.not_mem_nil, or_false] at hc
    obtain rfl | rfl | rfl | rfl | rfl | rfl | rfl := hc <;> rfl

theorem Ends.ne (h : Ends rest) (hc : c ∉ [' ', '\t', '\n', '\r', ',', ']', '}']) (s : Text) :
    rest ≠ c :: s := by
  rintro rfl
  exact hc (h c rfl)

/-- Digits are read up to what is none. -/
theorem digits?_append {ds : Text} (hds : IsDigits ds) (hrest : rest.head?.any isAsciiDigit = false) :
    digits? (ds ++ rest) = some rest := by
  obtain ⟨hne, hall⟩ := hds
  have hhead : (ds ++ rest).head?.any isAsciiDigit = true := by
    obtain ⟨d, ds, rfl⟩ := List.exists_cons_of_ne_nil hne
    exact hall d List.mem_cons_self
  have hstop : rest.dropWhile isAsciiDigit = rest := by
    cases rest with
    | nil => rfl
    | cons c rest => exact List.dropWhile_cons_of_neg (by simpa using hrest)
  rw [digits?, if_pos hhead, List.dropWhile_append_of_pos hall, hstop]

theorem whole?_append {whole : Text} (hwhole : whole = ['0'] ∨ IsDigits whole ∧ whole.head? ≠ some '0')
    (hrest : rest.head?.any isAsciiDigit = false) : whole? (whole ++ rest) = some rest := by
  obtain rfl | ⟨hdigits, hzero⟩ := hwhole
  · rw [List.singleton_append, whole?, if_neg (by simp [hrest])]
  · rw [whole?, digits?_append hdigits hrest]
    rintro t ht
    obtain ⟨d, ds, rfl⟩ := List.exists_cons_of_ne_nil hdigits.1
    exact hzero (congrArg some (List.cons.inj ht).1)

theorem fraction?_append {fraction : Text}
    (hfraction : fraction = [] ∨ ∃ ds, fraction = '.' :: ds ∧ IsDigits ds)
    (hrest : rest.head?.any isAsciiDigit = false) (hdot : ∀ t, rest ≠ '.' :: t) :
    fraction? (fraction ++ rest) = some rest := by
  obtain rfl | ⟨ds, rfl, hds⟩ := hfraction
  · rw [List.nil_append, fraction?]
    exact hdot
  · rw [List.cons_append, fraction?, digits?_append hds hrest]

theorem exponent?_append {exponent : Text}
    (hexponent : exponent = [] ∨ ∃ mark plus ds, exponent = mark :: (plus ++ ds) ∧
      (mark = 'e' ∨ mark = 'E') ∧ (plus = [] ∨ plus = ['+'] ∨ plus = ['-']) ∧ IsDigits ds)
    (hrest : Ends rest) : exponent? (exponent ++ rest) = some rest := by
  obtain rfl | ⟨mark, plus, ds, rfl, hmark, hplus, hds⟩ := hexponent
  · cases rest with
    | nil => rfl
    | cons c rest =>
      have hc : ¬ (c = 'e' || c = 'E') = true := by
        have hsmall := hrest.ne (c := 'e') (by decide) rest
        have hcapital := hrest.ne (c := 'E') (by decide) rest
        simpa using ⟨fun h => hsmall (by rw [h]), fun h => hcapital (by rw [h])⟩
      exact if_neg hc
  · have hdigits := digits?_append hds hrest.not_digit
    have hmark : (mark = 'e' || mark = 'E') = true := by simpa using hmark
    obtain rfl | rfl | rfl := hplus
    · have hsign : ∀ {c t}, isAsciiDigit c = false → ds ++ rest ≠ c :: t := by
        rintro c t hc h
        obtain ⟨d, ds, rfl⟩ := List.exists_cons_of_ne_nil hds.1
        rw [← (List.cons.inj h).1, hds.2 d List.mem_cons_self] at hc
        cases hc
      rw [List.nil_append, List.cons_append, exponent?, if_pos hmark, hdigits]
      · exact fun _ => hsign rfl
      · exact fun _ => hsign rfl
    · exact (if_pos hmark).trans hdigits
    · exact (if_pos hmark).trans hdigits

/-- **A number is read to its end.** -/
theorem number?_append (h : IsNumber s) (hrest : Ends rest) : number? (s ++ rest) = some rest := by
  obtain ⟨sign, whole, fraction, exponent, rfl, hsign, hwhole, hfraction, hexponent⟩ := h
  -- neither a digit nor a point stands behind the whole part by mistake
  have hbehind : (exponent ++ rest).head?.any isAsciiDigit = false ∧
      ∀ t, exponent ++ rest ≠ '.' :: t := by
    obtain rfl | ⟨mark, plus, ds, rfl, hmark, -, -⟩ := hexponent
    · exact ⟨hrest.not_digit, hrest.ne (by decide)⟩
    · obtain rfl | rfl := hmark <;> exact ⟨rfl, nofun⟩
  have hpoint : (fraction ++ (exponent ++ rest)).head?.any isAsciiDigit = false := by
    obtain rfl | ⟨ds, rfl, -⟩ := hfraction
    · exact hbehind.1
    · rfl
  have hunsigned : whole? (whole ++ (fraction ++ (exponent ++ rest)))
      = some (fraction ++ (exponent ++ rest)) := whole?_append hwhole hpoint
  have hminus : ∀ t, whole ++ (fraction ++ (exponent ++ rest)) ≠ '-' :: t := by
    intro t h
    rw [h] at hunsigned
    simp [whole?, digits?, isAsciiDigit] at hunsigned
  have hunsigned : (do exponent? (← fraction? (← whole? (whole ++ (fraction ++ (exponent ++ rest))))))
      = some rest := by
    rw [hunsigned, Option.bind_eq_bind, Option.bind_some, fraction?_append hfraction hbehind.1 hbehind.2]
    exact exponent?_append hexponent hrest
  simp only [List.append_assoc]
  obtain rfl | rfl := hsign
  · rw [List.nil_append, number?]
    · exact hunsigned
    · exact hminus
  · exact hunsigned

/-! ### Steps of the reader -/

variable {more u w : Text} {f : Form} {x : Json} {xs : List Json} {key : Option Text}
  {ms : List (Option Text × Json)}

/-- Blanks in front of anything are skipped. -/
theorem part?_blanks (hb : Blanks b) (hc : isBlank c = false) (n : Nat) (f : Form) (t : Text) :
    part? (n + 1) f (b ++ c :: t) = part? (n + 1) f (c :: t) := by
  have hskip : skipBlanks (c :: t) = c :: t := skipBlanks_append blanks_nil hc
  cases f <;> rw [part?, part?, skipBlanks_append hb hc, hskip]

/-- An array from behind its bracket on. -/
def arrayFrom? (n : Nat) (s : Text) : Option (Part × Text) :=
  match part? n (.items true) s with
  | some (.items vs, rest) => some (.value (.array vs), rest)
  | _ => none

/-- An object from behind its brace on. -/
def objectFrom? (n : Nat) (s : Text) : Option (Part × Text) :=
  match part? n (.members true) s with
  | some (.members ms, rest) => some (.value (.object ms), rest)
  | _ => none

theorem part?_string (n : Nat) (t : Text) : part? (n + 1) .value ('"' :: t)
    = (stringRest? t).map fun r => (.value (.string r.1), r.2) := rfl

theorem part?_array (h : part? n (.items true) t = some (.items xs, rest)) :
    part? (n + 1) .value ('[' :: t) = some (.value (.array xs), rest) := by
  have hstep : part? (n + 1) .value ('[' :: t) = arrayFrom? n t := rfl
  rw [hstep, arrayFrom?, h]

theorem part?_object (h : part? n (.members true) t = some (.members ms, rest)) :
    part? (n + 1) .value ('{' :: t) = some (.value (.object ms), rest) := by
  have hstep : part? (n + 1) .value ('{' :: t) = objectFrom? n t := rfl
  rw [hstep, objectFrom?, h]

/-- Items from the first character of one on. -/
def itemsFrom? (n : Nat) (s : Text) : Option (Part × Text) :=
  match part? n .value s with
  | some (.value v, rest) =>
    match part? n (.items false) rest with
    | some (.items vs, rest) => some (.items (v :: vs), rest)
    | _ => none
  | _ => none

/-- Members from the quote of a key on. -/
def membersFrom? (n : Nat) (s : Text) : Option (Part × Text) :=
  match (Text.after? ['"'] s).bind stringRest? with
  | none => none
  | some (key, rest) =>
    match (Text.after? [':'] (skipBlanks rest)).bind (part? n .value) with
    | some (.value v, rest) =>
      match part? n (.members false) rest with
      | some (.members ms, rest) => some (.members ((key, v) :: ms), rest)
      | _ => none
    | _ => none

theorem part?_firstItem (hblank : isBlank c = false) (hclose : c ≠ ']') (n : Nat) (t : Text) :
    part? (n + 1) (.items true) (c :: t) = itemsFrom? n (c :: t) := by
  have hskip : skipBlanks (c :: t) = c :: t := skipBlanks_append blanks_nil hblank
  rw [part?, hskip]
  split
  · exact absurd (List.cons.inj ‹_›).1 hclose
  · rfl

theorem part?_nextItem (n : Nat) (s : Text) :
    part? (n + 1) (.items false) (',' :: s) = itemsFrom? n s := rfl

theorem part?_firstMember (n : Nat) (t : Text) :
    part? (n + 1) (.members true) ('"' :: t) = membersFrom? n ('"' :: t) := rfl

theorem part?_nextMember (n : Nat) (s : Text) :
    part? (n + 1) (.members false) (',' :: s) = membersFrom? n (skipBlanks s) := rfl

theorem itemsFrom?_eq (hx : part? n .value s = some (.value x, more))
    (hxs : part? n (.items false) more = some (.items xs, rest)) :
    itemsFrom? n s = some (.items (x :: xs), rest) := by
  rw [itemsFrom?, hx]
  simp only [hxs]

theorem membersFrom?_eq (hkey : stringRest? t = some (key, u)) (hcolon : skipBlanks u = ':' :: w)
    (hx : part? n .value w = some (.value x, more))
    (hms : part? n (.members false) more = some (.members ms, rest)) :
    membersFrom? n ('"' :: t) = some (.members ((key, x) :: ms), rest) := by
  have hquote : (Text.after? ['"'] ('"' :: t)).bind stringRest? = some (key, u) := hkey
  have hafter : Text.after? [':'] (':' :: w) = some w := rfl
  rw [membersFrom?, hquote]
  simp only [hcolon, hafter, Option.bind_some, hx, hms]

/-! ### Values -/

theorem ends_append (hb : Blanks b) (hc : c ∈ [',', ']', '}']) (s : Text) : Ends (b ++ c :: s) := by
  intro d hd
  cases b with
  | nil =>
    cases hd
    exact List.mem_append_right [' ', '\t', '\n', '\r'] hc
  | cons e b =>
    cases hd
    exact List.mem_append_left [',', ']', '}'] (hb d List.mem_cons_self)

/-- The first character of a number. -/
theorem exists_of_isNumber (h : IsNumber s) :
    ∃ c t, s = c :: t ∧ (c = '-' ∨ isAsciiDigit c = true) := by
  obtain ⟨sign, whole, fraction, exponent, rfl, hsign, hwhole, -, -⟩ := h
  obtain rfl | rfl := hsign
  · obtain rfl | ⟨⟨hne, hdigits⟩, -⟩ := hwhole
    · exact ⟨'0', _, rfl, .inr rfl⟩
    · obtain ⟨d, ds, rfl⟩ := List.exists_cons_of_ne_nil hne
      exact ⟨d, _, rfl, .inr (hdigits d List.mem_cons_self)⟩
  · exact ⟨'-', _, rfl, .inl rfl⟩

/-- What starts a number is no blank, no quote and no bracket. -/
theorem ne_of_number (h : c = '-' ∨ isAsciiDigit c = true) :
    isBlank c = false ∧ ∀ d ∈ ['"', '[', '{', ']', '}'], c ≠ d := by
  have hne : ∀ d ∈ [' ', '\t', '\n', '\r', '"', '[', '{', ']', '}'], c ≠ d := by
    rintro d hd rfl
    simp only [List.mem_cons, List.not_mem_nil, or_false] at hd
    obtain rfl | rfl | rfl | rfl | rfl | rfl | rfl | rfl | rfl := hd <;> revert h <;> decide
  constructor
  · rw [Bool.eq_false_iff, ne_eq, isBlank_iff]
    exact fun hmem => hne c (List.mem_append_left ['"', '[', '{', ']', '}'] hmem) rfl
  · exact fun d hd => hne d (List.mem_append_right [' ', '\t', '\n', '\r'] hd)

/-- What starts a value is no blank and closes nothing. -/
theorem exists_first (h : Written s (.value x)) :
    ∃ c t, s = c :: t ∧ isBlank c = false ∧ c ≠ ']' := by
  cases h with
  | number h =>
    obtain ⟨c, t, rfl, hc⟩ := exists_of_isNumber h
    obtain ⟨hblank, hne⟩ := ne_of_number hc
    exact ⟨c, t, rfl, hblank, hne ']' (by decide)⟩
  | null | true | false => exact ⟨_, _, rfl, rfl, by decide⟩
  | string | array | object => exact ⟨_, _, rfl, rfl, by decide⟩

theorem length_pos_of_written (h : Written s (.value x)) : 0 < s.length := by
  obtain ⟨c, t, rfl, -⟩ := exists_first h
  exact Nat.succ_pos t.length

/-- A written value is read to its end. -/
def ReadsValue (s : Text) (x : Json) : Prop :=
  ∀ b rest n, Blanks b → Ends rest → 2 * s.length ≤ n + 1 →
    part? (n + 1) .value (b ++ (s ++ rest)) = some (.value x, rest)

/-- So are the items of an array, from its opening bracket on, or from the comma in front of
them. -/
def ReadsItems (s : Text) (xs : List Json) : Prop :=
  ∀ rest n, 2 * s.length ≤ n →
    part? (n + 1) (.items true) (s ++ ']' :: rest) = some (.items xs, rest) ∧
    (xs ≠ [] → ∀ b, Blanks b →
      part? (n + 1) (.items false) (b ++ ',' :: (s ++ ']' :: rest)) = some (.items xs, rest))

/-- And so are the members of an object. -/
def ReadsMembers (s : Text) (ms : List (Option Text × Json)) : Prop :=
  ∀ rest n, 2 * s.length ≤ n →
    part? (n + 1) (.members true) (s ++ '}' :: rest) = some (.members ms, rest) ∧
    (ms ≠ [] → ∀ b, Blanks b →
      part? (n + 1) (.members false) (b ++ ',' :: (s ++ '}' :: rest)) = some (.members ms, rest))

theorem readsValue_null : ReadsValue "null".toList .null := by
  intro b rest n hb _ _
  exact part?_blanks (t := 'u' :: 'l' :: 'l' :: rest) hb rfl n .value

theorem readsValue_true : ReadsValue "true".toList (.bool true) := by
  intro b rest n hb _ _
  exact part?_blanks (t := 'r' :: 'u' :: 'e' :: rest) hb rfl n .value

theorem readsValue_false : ReadsValue "false".toList (.bool false) := by
  intro b rest n hb _ _
  exact part?_blanks (t := 'a' :: 'l' :: 's' :: 'e' :: rest) hb rfl n .value

theorem readsValue_number (h : IsNumber s) : ReadsValue s (.number s) := by
  intro b rest n hb hrest _
  have hread := number?_append h hrest
  have hconsumed := Text.consumed_append s rest
  obtain ⟨c, t, rfl, hc⟩ := exists_of_isNumber h
  obtain ⟨hblank, hne⟩ := ne_of_number hc
  have hnumber : (c = '-' || isAsciiDigit c) = true := by simpa using hc
  rw [List.cons_append] at hread hconsumed
  rw [part?, List.cons_append, skipBlanks_append hb hblank]
  simp only [if_neg (hne '"' (by decide)), if_neg (hne '[' (by decide)),
    if_neg (hne '{' (by decide)), if_pos hnumber, hread, Option.map_some, hconsumed]

theorem readsValue_string (h : IsString s v) : ReadsValue ('"' :: (s ++ ['"'])) (.string v) := by
  intro b rest n hb _ _
  rw [List.cons_append, List.append_assoc, part?_blanks hb rfl, List.singleton_append,
    part?_string, stringRest?_isString h rest]
  rfl

theorem readsValue_array (h : ReadsItems s xs) : ReadsValue ('[' :: (s ++ [']'])) (.array xs) := by
  intro b rest n hb _ hn
  obtain ⟨n, rfl⟩ : ∃ k, n = k + 1 := ⟨n - 1, by simp at hn; omega⟩
  have hread := (h rest n (by simp at hn; omega)).1
  rw [List.cons_append, List.append_assoc, part?_blanks hb rfl, List.singleton_append]
  exact part?_array hread

theorem readsValue_object (h : ReadsMembers s ms) :
    ReadsValue ('{' :: (s ++ ['}'])) (.object ms) := by
  intro b rest n hb _ hn
  obtain ⟨n, rfl⟩ : ∃ k, n = k + 1 := ⟨n - 1, by simp at hn; omega⟩
  have hread := (h rest n (by simp at hn; omega)).1
  rw [List.cons_append, List.append_assoc, part?_blanks hb rfl, List.singleton_append]
  exact part?_object hread

/-! ### Items and members -/

theorem part?_noItem (hb : Blanks b) (n : Nat) (first : Bool) (rest : Text) :
    part? (n + 1) (.items first) (b ++ ']' :: rest) = some (.items [], rest) :=
  part?_blanks hb rfl n (.items first) rest

theorem part?_noMember (hb : Blanks b) (n : Nat) (first : Bool) (rest : Text) :
    part? (n + 1) (.members first) (b ++ '}' :: rest) = some (.members [], rest) :=
  part?_blanks hb rfl n (.members first) rest

theorem readsItems_nil (hb : Blanks b) : ReadsItems b [] :=
  fun rest n _ => ⟨part?_noItem hb n true rest, fun h => absurd rfl h⟩

theorem readsMembers_nil (hb : Blanks b) : ReadsMembers b [] :=
  fun rest n _ => ⟨part?_noMember hb n true rest, fun h => absurd rfl h⟩

/-- An item is read in front of others, if these are. -/
theorem part?_item (hb : Blanks b) (hs : Written s (.value x)) (hx : ReadsValue s x)
    (hmore : Ends more) (hn : 2 * s.length ≤ n)
    (hxs : part? n (.items false) more = some (.items xs, rest)) :
    part? (n + 1) (.items true) (b ++ (s ++ more)) = some (.items (x :: xs), rest) ∧
    ∀ b', Blanks b' → part? (n + 1) (.items false) (b' ++ ',' :: (b ++ (s ++ more)))
      = some (.items (x :: xs), rest) := by
  obtain ⟨c, t, rfl, hblank, hclose⟩ := exists_first hs
  obtain ⟨n, rfl⟩ : ∃ k, n = k + 1 := ⟨n - 1, by simp at hn; omega⟩
  constructor
  · rw [List.cons_append, part?_blanks hb hblank, part?_firstItem hblank hclose]
    exact itemsFrom?_eq (hx [] more n blanks_nil hmore hn) hxs
  · intro b' hb'
    rw [part?_blanks hb' rfl, part?_nextItem]
    exact itemsFrom?_eq (hx b more n hb hmore hn) hxs

/-- So is a member. -/
theorem part?_member {front : Text} (hfront : IsKey front key) (hs : Written s (.value x))
    (hx : ReadsValue s x) (hmore : Ends more) (hn : 2 * s.length ≤ n)
    (hms : part? n (.members false) more = some (.members ms, rest)) :
    part? (n + 1) (.members true) (front ++ (s ++ more)) = some (.members ((key, x) :: ms), rest) ∧
    ∀ b, Blanks b → part? (n + 1) (.members false) (b ++ ',' :: (front ++ (s ++ more)))
      = some (.members ((key, x) :: ms), rest) := by
  obtain ⟨b₀, body, b₁, b₂, rfl, hkey, hb₀, hb₁, hb₂⟩ := hfront
  have hlength := length_pos_of_written hs
  obtain ⟨n, rfl⟩ : ∃ k, n = k + 1 := ⟨n - 1, by omega⟩
  have hquoted : b₀ ++ '"' :: (body ++ '"' :: (b₁ ++ ':' :: b₂)) ++ (s ++ more)
      = b₀ ++ '"' :: (body ++ '"' :: (b₁ ++ ':' :: (b₂ ++ (s ++ more)))) := by simp
  have hread := membersFrom?_eq (stringRest?_isString hkey (b₁ ++ ':' :: (b₂ ++ (s ++ more))))
    (skipBlanks_append hb₁ rfl) (hx b₂ more n hb₂ hmore hn) hms
  rw [hquoted]
  constructor
  · rw [part?_blanks hb₀ rfl, part?_firstMember, hread]
  · intro b hb
    rw [part?_blanks hb rfl, part?_nextMember, skipBlanks_append hb₀ rfl, hread]

theorem readsItems_last {b' : Text} (hb : Blanks b) (hs : Written s (.value x))
    (hx : ReadsValue s x) (hb' : Blanks b') : ReadsItems (b ++ (s ++ b')) [x] := by
  intro rest n hn
  have hlength := length_pos_of_written hs
  obtain ⟨n, rfl⟩ : ∃ k, n = k + 1 := ⟨n - 1, by simp at hn; omega⟩
  have hend := part?_noItem hb' n false rest
  obtain ⟨htrue, hfalse⟩ := part?_item hb hs hx (ends_append hb' (by decide) rest)
    (by simp at hn; omega) hend
  simp only [List.append_assoc]
  exact ⟨htrue, fun _ => hfalse⟩

theorem readsItems_cons {b' : Text} {y : Json} (hb : Blanks b) (hs : Written s (.value x))
    (hx : ReadsValue s x) (hb' : Blanks b') (hxs : ReadsItems t (y :: xs)) :
    ReadsItems (b ++ (s ++ (b' ++ ',' :: t))) (x :: y :: xs) := by
  intro rest n hn
  obtain ⟨n, rfl⟩ : ∃ k, n = k + 1 := ⟨n - 1, by simp at hn; omega⟩
  have hmore := (hxs rest n (by simp at hn; omega)).2 (List.cons_ne_nil y xs) b' hb'
  obtain ⟨htrue, hfalse⟩ := part?_item hb hs hx (ends_append hb' (by decide) _)
    (by simp at hn; omega) hmore
  simp only [List.append_assoc, List.cons_append]
  exact ⟨htrue, fun _ => hfalse⟩

theorem readsMembers_last {front : Text} (hfront : IsKey front key) (hs : Written s (.value x))
    (hx : ReadsValue s x) (hb : Blanks b) : ReadsMembers (front ++ (s ++ b)) [(key, x)] := by
  intro rest n hn
  have hlength := length_pos_of_written hs
  obtain ⟨n, rfl⟩ : ∃ k, n = k + 1 := ⟨n - 1, by simp at hn; omega⟩
  have hend := part?_noMember hb n false rest
  obtain ⟨htrue, hfalse⟩ := part?_member hfront hs hx (ends_append hb (by decide) rest)
    (by simp at hn; omega) hend
  simp only [List.append_assoc]
  exact ⟨htrue, fun _ => hfalse⟩

theorem readsMembers_cons {front : Text} {m : Option Text × Json} (hfront : IsKey front key)
    (hs : Written s (.value x)) (hx : ReadsValue s x) (hb : Blanks b)
    (hms : ReadsMembers t (m :: ms)) :
    ReadsMembers (front ++ (s ++ (b ++ ',' :: t))) ((key, x) :: m :: ms) := by
  intro rest n hn
  obtain ⟨n, rfl⟩ : ∃ k, n = k + 1 := ⟨n - 1, by simp at hn; omega⟩
  have hmore := (hms rest n (by simp at hn; omega)).2 (List.cons_ne_nil m ms) b hb
  obtain ⟨htrue, hfalse⟩ := part?_member hfront hs hx (ends_append hb (by decide) _)
    (by simp at hn; omega) hmore
  simp only [List.append_assoc, List.cons_append]
  exact ⟨htrue, fun _ => hfalse⟩

/-! ### All of the format -/

/-- What a text writes is read from it. -/
def Reads (s : Text) : Part → Prop
  | .value x => ReadsValue s x
  | .items xs => ReadsItems s xs
  | .members ms => ReadsMembers s ms

theorem reads_of_written {p : Part} (h : Written s p) : Reads s p := by
  induction h with
  | null => exact readsValue_null
  | true => exact readsValue_true
  | false => exact readsValue_false
  | number h => exact readsValue_number h
  | string h => exact readsValue_string h
  | array _ ih => exact readsValue_array ih
  | object _ ih => exact readsValue_object ih
  | noItem hb => exact readsItems_nil hb
  | lastItem hb h hb' ih => exact readsItems_last hb h ih hb'
  | item hb h hb' _ ih ihmore => exact readsItems_cons hb h ih hb' ihmore
  | noMember hb => exact readsMembers_nil hb
  | lastMember hfront h hb ih => exact readsMembers_last hfront h ih hb
  | member hfront h hb _ ih ihmore => exact readsMembers_cons hfront h ih hb ihmore

theorem ends_of_blanks (hb : Blanks b) : Ends b := by
  intro c hc
  exact List.mem_append_left [',', ']', '}'] (hb c (List.mem_of_mem_head? hc))

/-- **A text is read as the value that it writes**, however it is laid out. -/
theorem read?_writes (h : Writes s x) : read? s = some x := by
  obtain ⟨b, t, b', rfl, hb, hb', ht⟩ := h
  have hvalue : part? (2 * (b ++ (t ++ b')).length + 2) .value (b ++ (t ++ b'))
      = some (.value x, b') :=
    reads_of_written ht b b' _ hb (ends_of_blanks hb') (by simp; omega)
  rw [read?, hvalue]
  simp [skipBlanks_blanks hb']

end LivePreview.Json

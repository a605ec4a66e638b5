/-
The members of an enum.

A member is written as a key and perhaps an initialiser, with blanks and comments around them.  It
is cut out of the body between two commas, freed of its comments, and cut again at its first `=`:
behind the key, as long as the key is no string that holds one.  What is read of it is then the text
of the key and that of the initialiser.

The value of a member that is a number is counted on, and a member without an initialiser has the
value that the count stands at.  The key is written as a name of a property, and what that name
denotes is what the key denotes.
-/
import LivePreview.Proofs.Erasure.EnumBody
import LivePreview.Proofs.Erasure.EnumOverflow
import LivePreview.Proofs.Text.Quoted

namespace LivePreview.EnumObject

open Script
open Text (Stops)

/-! ### Keys -/

/-- The characters that stand in no name. -/
def keyMarks : List Char := '=' :: ',' :: '\\' :: '\x00' :: tokenMarks

/-- True of the characters of a name.  Letters and digits of any script are among them. -/
def isKeyChar (c : Char) : Bool := !isSpace c && !keyMarks.contains c

/-- A key as it is written: a name, or a string without a backslash. -/
inductive WrittenKey where
  | name (w : Text) (ne_nil : w ≠ []) (isPlain : ∀ c ∈ w, isKeyChar c = true)
  | quoted (q : StringType) (isPlain : '\\' ∉ q.body)

namespace WrittenKey

def text : WrittenKey → Text
  | .name w _ _ => w
  | .quoted q _ => q.text

/-- The name of the property that a key denotes. -/
def denoted : WrittenKey → Text
  | .name w _ _ => w
  | .quoted q _ => q.body

/-- A key that is read as what it is.  A string is cut at an `=`, it loses quotes of the other kind
from its ends, and what is written for a null character takes in a digit behind it. -/
def Sound : WrittenKey → Prop
  | .name _ _ _ => True
  | .quoted q _ => '=' ∉ q.body ∧ Stops isQuote q.body ∧ Stops isQuote q.body.reverse ∧
      Text.NullsApart q.body

end WrittenKey

/-- Identifiers are names. -/
theorem isKeyChar_of_isIdentChar {c : Char} (h : isIdentChar c = true) : isKeyChar c = true := by
  have hmarks : keyMarks.all (fun c => !isIdentChar c) = true := by decide
  have hmark : c ∉ keyMarks := fun hmem => by
    simpa [h] using List.all_eq_true.mp hmarks c hmem
  simp [isKeyChar, isSpace_eq_false_of_isIdentChar h, hmark]

/-- The name of a property that a text denotes in an object: an identifier, or a string literal. -/
def propertyOf? : Text → Option Text
  | '"' :: s => Text.literalValue? .plain s
  | s => if isIdentifier s then some s else none

section Name

variable {w : Text} (h : ∀ c ∈ w, isKeyChar c = true)

include h

theorem not_mem_of_name {d : Char} (hd : d ∈ keyMarks) : d ∉ w := by
  intro hmem
  have hkey := h d hmem
  rw [isKeyChar, Bool.and_eq_true, Bool.not_eq_true', Bool.not_eq_true'] at hkey
  simp [hd] at hkey

theorem isSpace_of_name : ∀ c ∈ w, isSpace c = false := by
  intro c hc
  have hkey := h c hc
  rw [isKeyChar, Bool.and_eq_true, Bool.not_eq_true'] at hkey
  exact hkey.1

theorem isQuote_of_name : ∀ c ∈ w, isQuote c = false := by
  intro c hc
  have hdouble : c ≠ '"' := by
    rintro rfl
    exact not_mem_of_name h (by decide) hc
  have hsingle : c ≠ '\'' := by
    rintro rfl
    exact not_mem_of_name h (by decide) hc
  simp [isQuote, hdouble, hsingle]

theorem isTokenChar_of_name : ∀ c ∈ w, isTokenChar c = true := by
  intro c hc
  by_contra htoken
  have hmem : c ∈ tokenMarks := by simpa [isTokenChar] using htoken
  exact not_mem_of_name h (by simp [keyMarks, hmem]) hc

end Name

/-- A class of characters stops at both ends of a text that has none of them. -/
theorem stops_of_forall {p : Char → Bool} {w : Text} (h : ∀ c ∈ w, p c = false) :
    Stops p w ∧ Stops p w.reverse :=
  ⟨fun c hc => h c (List.mem_of_mem_head? hc),
    fun c hc => h c (List.mem_reverse.mp (List.mem_of_mem_head? hc))⟩

/-- The end of a text is the end of its last part. -/
theorem stops_reverse_append {p : Char → Bool} {v : Text} (hne : v ≠ []) (h : Stops p v.reverse)
    (u : Text) : Stops p (u ++ v).reverse := by
  obtain ⟨c, t, ht⟩ := List.exists_cons_of_ne_nil (List.reverse_ne_nil_iff.mpr hne)
  rw [ht] at h
  rw [List.reverse_append, ht]
  exact Text.stops_cons.mpr (Text.stops_cons.mp h)

theorem stops_string {p : Char → Bool} (hp : p '"' = false ∧ p '\'' = false) (q : StringType) :
    Stops p q.text ∧ Stops p q.text.reverse := by
  have hquote : p q.quote = false := by
    have h := q.isQuote
    simp only [Script.isQuote, Bool.or_eq_true, beq_iff_eq] at h
    rcases h with h | h <;> rw [h]
    · exact hp.1
    · exact hp.2
  have hreverse : q.text.reverse = q.quote :: (q.body.reverse ++ [q.quote]) := by
    simp [StringType.text]
  exact ⟨Text.stops_cons.mpr hquote, hreverse ▸ Text.stops_cons.mpr hquote⟩

namespace WrittenKey

variable (k : WrittenKey)

theorem ne_nil : k.text ≠ [] := by
  cases k with
  | name w hne _ => exact hne
  | quoted q _ => exact List.cons_ne_nil _ _

theorem stops_isSpace : Stops isSpace k.text ∧ Stops isSpace k.text.reverse := by
  cases k with
  | name w _ h => exact stops_of_forall (isSpace_of_name h)
  | quoted q _ => exact stops_string (by decide) q

theorem passed : Passed k.text := by
  cases k with
  | name w _ h =>
    refine .chars fun c hc => ⟨isTokenChar_of_name h c hc, ?_⟩
    rintro rfl
    exact not_mem_of_name h (by decide) hc
  | quoted q _ => exact .string q

theorem strips : Strips k.text k.text := by
  cases k with
  | name w _ h => exact .chars (isTokenChar_of_name h)
  | quoted q _ => exact .string q

variable {k} (hk : k.Sound)

include hk

theorem not_mem_equals : '=' ∉ k.text := by
  cases k with
  | name w _ h => exact not_mem_of_name h (by decide)
  | quoted q _ =>
    have hquote : '=' ≠ q.quote := fun heq => absurd q.isQuote (by rw [← heq]; decide)
    simp [text, StringType.text, hquote, hk.1]

/-- Without its quotes, a key is what it denotes. -/
theorem trimBy_text : Text.trimBy isQuote k.text = k.denoted := by
  cases k with
  | name w _ h =>
    obtain ⟨hfirst, hlast⟩ := stops_of_forall (isQuote_of_name h)
    have htrim := Text.trimBy_append (u := []) (v := []) (by simp) (by simp) hfirst hlast
    rwa [List.nil_append, List.append_nil] at htrim
  | quoted q _ =>
    have hquote : ∀ c ∈ [q.quote], isQuote c = true := fun c hc =>
      List.mem_singleton.mp hc ▸ q.isQuote
    exact Text.trimBy_append hquote hquote hk.2.1 hk.2.2.1

theorem nullsApart : Text.NullsApart k.denoted := by
  cases k with
  | name w _ h =>
    have hnull : '\x00' ∉ w := not_mem_of_name h (by decide)
    refine List.isChain_iff_forall_rel_of_append_cons_cons.mpr ?_
    rintro c d u v rfl rfl
    simp at hnull
  | quoted q _ => exact hk.2.2.2

/-- **The name that is written for a key denotes the property that the key denotes.** -/
theorem propertyOf?_propertyName : propertyOf? (propertyName k.text) = some k.denoted := by
  rw [propertyName, trimBy_text hk]
  split
  · rename_i hident
    unfold propertyOf?
    split
    · rename_i s hs
      rw [hs] at hident
      exact absurd hident (by simp [isIdentifier, isIdentStart, isAsciiLetter])
    · rw [if_pos hident]
  · show Text.literalValue? .plain (k.denoted.flatMap Text.quotedChar ++ ['"']) = _
    exact Text.literalValue?_quoted (nullsApart hk)

end WrittenKey

/-! ### Initialisers -/

/-- The sign in front of a number. -/
inductive Sign where
  | none
  | minus
  | plus

def Sign.text : Sign → Text
  | .none => []
  | .minus => ['-']
  | .plus => ['+']

/-- A decimal number. -/
structure Numeral where
  sign : Sign
  digits : Text
  ne_nil : digits ≠ []
  isDigit : ∀ c ∈ digits, isAsciiDigit c = true

def Numeral.text (n : Numeral) : Text := n.sign.text ++ n.digits

def Numeral.value (n : Numeral) : Int :=
  match n.sign with
  | .minus => -(Nat.ofDigitChars 10 n.digits 0 : Int)
  | _ => (Nat.ofDigitChars 10 n.digits 0 : Int)

/-- What a member is given as its value. -/
inductive Initializer where
  | number (n : Numeral)
  | string (q : StringType)
  | template (t : TemplateType)

def Initializer.text : Initializer → Text
  | .number n => n.text
  | .string q => q.text
  | .template t => t.text

/-- The number that an initialiser stands for. -/
def Initializer.number? : Initializer → Option Int
  | .number n => some n.value
  | _ => Option.none

namespace Numeral

variable (n : Numeral)

/-- A number is made of digits and signs. -/
theorem mem_text {c : Char} (hc : c ∈ n.text) : isAsciiDigit c = true ∨ c = '-' ∨ c = '+' := by
  rcases List.mem_append.mp hc with hsign | hdigit
  · cases hcase : n.sign <;> simp_all [Sign.text]
  · exact Or.inl (n.isDigit c hdigit)

/-- A class of characters with neither digits nor signs stops at both ends of a number. -/
theorem stops_text {p : Char → Bool} (hdigit : ∀ c, isAsciiDigit c = true → p c = false)
    (hminus : p '-' = false) (hplus : p '+' = false) : Stops p n.text ∧ Stops p n.text.reverse := by
  refine stops_of_forall fun c hc => ?_
  rcases n.mem_text hc with h | rfl | rfl
  · exact hdigit c h
  · exact hminus
  · exact hplus

theorem digitsValue?_digits : digitsValue? n.digits = some (Nat.ofDigitChars 10 n.digits 0) := by
  have hempty : n.digits.isEmpty = false := by simp [n.ne_nil]
  have hall : n.digits.all isAsciiDigit = true := List.all_eq_true.mpr n.isDigit
  rw [digitsValue?, hempty, hall]
  rfl

/-- A number is read as the number that it is, if it fits. -/
theorem value?_text (h : minValue ≤ n.value ∧ n.value ≤ maxValue) :
    value? n.text = some n.value := by
  have hdigits := n.digitsValue?_digits
  obtain ⟨sign, digits, hne, hdigit⟩ := n
  obtain ⟨c, tail, rfl⟩ := List.exists_cons_of_ne_nil hne
  have hc : isAsciiDigit c = true := hdigit c List.mem_cons_self
  have hminus : c ≠ '-' := by rintro rfl; exact absurd hc (by decide)
  have hplus : c ≠ '+' := by rintro rfl; exact absurd hc (by decide)
  have hfits : ∀ v : Int, minValue ≤ v ∧ v ≤ maxValue →
      (some v).filter (fun v => decide (minValue ≤ v) && decide (v ≤ maxValue)) = some v := by
    intro v hv
    simp [Option.filter, hv]
  unfold value?
  cases sign with
  | none =>
    have htext : Numeral.text ⟨.none, c :: tail, hne, hdigit⟩ = c :: tail := rfl
    simp only [htext]
    split
    · exact absurd (List.cons.inj ‹c :: tail = _›).1 hminus
    · exact absurd (List.cons.inj ‹c :: tail = _›).1 hplus
    · rw [hdigits]
      exact hfits _ h
  | minus =>
    show Option.filter _ (Option.map _ (digitsValue? (c :: tail) >>= _)) = _
    rw [hdigits]
    exact hfits _ h
  | plus =>
    show Option.filter _ (Option.map _ (digitsValue? (c :: tail) >>= _)) = _
    rw [hdigits]
    exact hfits _ h

end Numeral

namespace Initializer

variable (i : Initializer)

theorem ne_nil : i.text ≠ [] := by
  cases i with
  | number n => simp [text, Numeral.text, n.ne_nil]
  | string q => exact List.cons_ne_nil _ _
  | template t => exact List.cons_ne_nil _ _

theorem stops_isSpace : Stops isSpace i.text ∧ Stops isSpace i.text.reverse := by
  cases i with
  | number n =>
    refine n.stops_text (fun c hc => ?_) (by decide) (by decide)
    exact isSpace_eq_false_of_isIdentChar (by simp [isIdentChar, hc])
  | string q => exact stops_string (by decide) q
  | template t =>
    have hreverse : t.text.reverse = '\x60' :: (t.body.reverse ++ ['\x60']) := by
      simp [TemplateType.text]
    exact ⟨Text.stops_cons.mpr (by decide), hreverse ▸ Text.stops_cons.mpr (by decide)⟩

theorem isTokenChar_number (n : Numeral) : ∀ c ∈ n.text, isTokenChar c = true ∧ c ≠ ',' := by
  intro c hc
  rcases n.mem_text hc with h | rfl | rfl
  · refine ⟨isTokenChar_of (by decide) h, ?_⟩
    rintro rfl
    exact absurd h (by decide)
  · decide
  · decide

theorem passed : Passed i.text := by
  cases i with
  | number n => exact .chars (isTokenChar_number n)
  | string q => exact .string q
  | template t => exact .template t

theorem value?_number {v : Int} (h : i.number? = some v) (hfits : minValue ≤ v ∧ v ≤ maxValue) :
    value? i.text = some v := by
  cases i with
  | number n =>
    obtain rfl : n.value = v := Option.some.inj h
    exact n.value?_text hfits
  | string q => cases h
  | template t => cases h

/-- What is no number has no value that is known. -/
theorem value?_other (h : i.number? = Option.none) : value? i.text = Option.none := by
  have hnone : ∀ c s, isAsciiDigit c = false → digitsValue? (c :: s) = Option.none := by
    intro c s hc
    simp [digitsValue?, hc]
  cases i with
  | number n => cases h
  | string q =>
    have hquote : isAsciiDigit q.quote = false ∧ q.quote ≠ '-' ∧ q.quote ≠ '+' := by
      have hq := q.isQuote
      simp only [Script.isQuote, Bool.or_eq_true, beq_iff_eq] at hq
      rcases hq with hq | hq <;> rw [hq] <;> decide
    have hdigits := hnone q.quote (q.body ++ [q.quote]) hquote.1
    show value? (q.quote :: (q.body ++ [q.quote])) = _
    simp [value?, hdigits, hquote]
  | template t => rfl

end Initializer

/-! ### Members -/

/-- An initialiser, behind its `=`. -/
structure Assignment where
  front : Gap
  back : Gap
  value : Initializer

/-- A member as it is written. -/
structure WrittenMember where
  before : Gap
  key : WrittenKey
  init : Option Assignment
  after : Gap

namespace WrittenMember

variable (m : WrittenMember)

/-- The key and the initialiser. -/
def core : Text :=
  m.key.text ++ match m.init with
    | none => []
    | some a => a.front.text ++ '=' :: (a.back.text ++ a.value.text)

def text : Text := m.before.text ++ (m.core ++ m.after.text)

/-- The key and the initialiser without the comments between them. -/
def bareCore : Text :=
  m.key.text ++ match m.init with
    | none => []
    | some a => a.front.blanks ++ '=' :: (a.back.blanks ++ a.value.text)

/-- What is read of the member. -/
def read : Member := ⟨m.key.text, m.init.map fun a => a.value.text⟩

/-- A template whose text can be taken for code: as such it opens no comment, and no string in which
a comment behind it is lost. -/
def TemplateSound (t : TemplateType) : Prop :=
  Strips.CommentFree t.body ∨ (NoMarks t.body ∧ ∀ k, Filler.comment k ∉ m.after)

/-- A member that is read as what it is. -/
structure Sound : Prop where
  key : m.key.Sound
  template : ∀ a ∈ m.init, ∀ t, a.value = .template t → m.TemplateSound t

theorem passed_equals : Passed ['='] := .char (by decide) (by decide)

theorem passed : Passed m.text := by
  refine (Passed.gap _).append (.append (m.key.passed.append ?_) (.gap _))
  cases m.init with
  | none => exact .nil
  | some a => exact (Passed.gap _).append (passed_equals.append ((Passed.gap _).append a.value.passed))

variable {m}

/-- A gap without comments is blank. -/
theorem text_of_noComment {g : Gap} (h : ∀ k, Filler.comment k ∉ g) : g.text = g.blanks := by
  refine List.flatMap_congr fun f hf => ?_
  cases f with
  | blank => rfl
  | comment k => exact absurd hf (h k)

theorem noMarks_template {t : TemplateType} (h : NoMarks t.body) {u : Text} (hu : '/' ∉ u) :
    NoMarks (t.text ++ u) := by
  have htick : NoMarks ('\x60' :: u) := noMarks_of_not_mem (by simp [hu])
  have hbody : NoMarks (t.body ++ '\x60' :: u) := by
    refine List.isChain_append.mpr ⟨h, htick, fun c _ d hd _ => ?_⟩
    obtain rfl : '\x60' = d := Option.some.inj hd
    decide
  have htext : t.text ++ u = '\x60' :: (t.body ++ '\x60' :: u) := by simp [TemplateType.text]
  rw [htext]
  exact List.isChain_cons.mpr ⟨fun _ _ heq => absurd heq (by decide), hbody⟩

/-- The comments behind the initialiser are taken out, and nothing of the initialiser is. -/
theorem withoutComments_value (hm : m.Sound) {a : Assignment} (ha : m.init = some a) :
    withoutComments (a.value.text ++ m.after.text) = a.value.text ++ m.after.blanks := by
  have hafter : withoutComments m.after.text = m.after.blanks := by
    have hgap := Strips.gap m.after []
    rwa [List.append_nil, show withoutComments [] = [] from rfl, List.append_nil] at hgap
  have hstrips : Strips a.value.text a.value.text →
      withoutComments (a.value.text ++ m.after.text) = a.value.text ++ m.after.blanks := fun h => by
    rw [h, hafter]
  cases hvalue : a.value with
  | number n =>
    have hchars : Strips n.text n.text := .chars fun c hc => (Initializer.isTokenChar_number n c hc).1
    exact hvalue ▸ hstrips (hvalue ▸ hchars)
  | string q => exact hvalue ▸ hstrips (hvalue ▸ .string q)
  | template t =>
    rcases hm.template a (by simp [ha]) t hvalue with hfree | ⟨hmarks, hnone⟩
    · exact hvalue ▸ hstrips (hvalue ▸ .template hfree)
    · have hblank : '/' ∉ m.after.blanks := fun hmem =>
        absurd (m.after.isSpace_blanks '/' hmem) (by decide)
      rw [text_of_noComment hnone]
      exact withoutComments_of_noMarks (noMarks_template hmarks hblank)

theorem withoutComments_text (hm : m.Sound) :
    withoutComments m.text = m.before.blanks ++ (m.bareCore ++ m.after.blanks) := by
  have hequals : Strips ['='] ['='] := .chars fun c hc => List.mem_singleton.mp hc ▸ rfl
  rw [text, Strips.gap]
  congr 1
  cases hinit : m.init with
  | none =>
    have hgap := Strips.gap m.after []
    rw [List.append_nil, show withoutComments [] = [] from rfl, List.append_nil] at hgap
    rw [core, bareCore, hinit, List.append_nil, m.key.strips, hgap]
  | some a =>
    have hcore : m.core ++ m.after.text = (m.key.text ++ (a.front.text ++ (['='] ++ a.back.text)))
        ++ (a.value.text ++ m.after.text) := by
      simp [core, hinit]
    have hfront : Strips (m.key.text ++ (a.front.text ++ (['='] ++ a.back.text)))
        (m.key.text ++ (a.front.blanks ++ (['='] ++ a.back.blanks))) :=
      m.key.strips.append ((Strips.gap _).append (hequals.append (.gap _)))
    rw [hcore, hfront, withoutComments_value hm hinit, bareCore, hinit]
    simp

/-- The key and the initialiser have no blanks at their ends. -/
theorem stops_bareCore : Stops isSpace m.bareCore ∧ Stops isSpace m.bareCore.reverse := by
  obtain ⟨hfirst, hlast⟩ := m.key.stops_isSpace
  obtain ⟨c, t, ht⟩ := List.exists_cons_of_ne_nil m.key.ne_nil
  rw [bareCore]
  constructor
  · rw [ht] at hfirst ⊢
    exact Text.stops_cons.mpr (Text.stops_cons.mp hfirst)
  · cases m.init with
    | none => simpa using hlast
    | some a =>
      have hcore : m.key.text ++ (a.front.blanks ++ '=' :: (a.back.blanks ++ a.value.text))
          = (m.key.text ++ (a.front.blanks ++ '=' :: a.back.blanks)) ++ a.value.text := by simp
      rw [hcore]
      exact stops_reverse_append a.value.ne_nil a.value.stops_isSpace.2 _

/-- **A member is read as its key and its initialiser.** -/
theorem read?_text (hm : m.Sound) : Member.read? m.text = some m.read := by
  obtain ⟨hfirst, hlast⟩ := m.stops_bareCore
  have htrim : Text.trim (withoutComments m.text) = m.bareCore := by
    rw [withoutComments_text hm]
    exact Text.trimBy_append m.before.isSpace_blanks m.after.isSpace_blanks hfirst hlast
  have hne : m.bareCore.isEmpty = false := by simp [bareCore, m.key.ne_nil]
  have hkey := WrittenKey.not_mem_equals hm.key
  unfold Member.read?
  simp only [htrim, hne, Bool.false_eq_true, if_false]
  cases hinit : m.init with
  | none =>
    have hcore : m.bareCore = m.key.text := by simp [bareCore, hinit]
    rw [hcore, Text.cutFirst_of_not_mem hkey, read, hinit]
    rfl
  | some a =>
    have hcore : m.bareCore
        = (m.key.text ++ a.front.blanks) ++ '=' :: (a.back.blanks ++ a.value.text) := by
      simp [bareCore, hinit]
    have hfront : '=' ∉ m.key.text ++ a.front.blanks := fun hmem => by
      rcases List.mem_append.mp hmem with h | h
      · exact hkey h
      · exact absurd (a.front.isSpace_blanks '=' h) (by decide)
    have hkeyText : Text.trim (m.key.text ++ a.front.blanks) = m.key.text := by
      obtain ⟨hfirst, hlast⟩ := m.key.stops_isSpace
      exact Text.trimBy_append (u := []) (by simp) a.front.isSpace_blanks hfirst hlast
    have hvalueText : Text.trim (a.back.blanks ++ a.value.text) = a.value.text := by
      obtain ⟨hfirst, hlast⟩ := a.value.stops_isSpace
      have htrim := Text.trimBy_append (v := []) a.back.isSpace_blanks (by simp) hfirst hlast
      rwa [List.append_nil] at htrim
    rw [hcore, Text.cutFirst_append hfront, read, hinit]
    simp only [hkeyText, hvalueText, Option.map_some]

end WrittenMember

/-! ### Values -/

namespace WrittenMember

variable (m : WrittenMember)

/-- The value of a member, where the count stands at `next`. -/
def value? (next : Option Int) : Option Int :=
  match m.init with
  | none => next
  | some a => a.value.number?

/-- The text of the value of a member, where the count stands at `next`. -/
def valueText (next : Int) : Text :=
  match m.init with
  | none => (toString next).toList
  | some a => a.value.text

/-- The property that stands for a member, where the count stands at `next`. -/
def property (next : Int) : Text := propertyName m.key.text ++ ": ".toList ++ m.valueText next

end WrittenMember

/-- Every member without an initialiser is counted, and all numbers fit with their successors. -/
def Counted : Option Int → List WrittenMember → Prop
  | _, [] => True
  | next, m :: ms =>
    (m.init.isNone → next.isSome) ∧ (∀ v ∈ m.value? next, minValue ≤ v ∧ v < maxValue) ∧
      Counted ((m.value? next).map (· + 1)) ms

instance : (next : Option Int) → (ms : List WrittenMember) → Decidable (Counted next ms)
  | _, [] => isTrue trivial
  | next, m :: ms =>
    have : Decidable (Counted ((m.value? next).map (· + 1)) ms) := instDecidableCounted _ ms
    inferInstanceAs (Decidable (_ ∧ _ ∧ _))

/-- The properties of an enum, one for each member, where the count stands at `next`. -/
def propertiesFrom : Option Int → List WrittenMember → List Text
  | _, [] => []
  | next, m :: ms =>
    m.property (next.getD 0) :: propertiesFrom ((m.value? next).map (· + 1)) ms

theorem successor_of_lt {v : Int} (h : v < maxValue) : successor v = .ok (v + 1) :=
  if_neg (Int.ne_of_lt h)

/-- The property of a member is in front of those behind it, for which the count goes on. -/
theorem properties_cons {next : Option Int} {m : WrittenMember}
    (hcount : m.init.isNone → next.isSome)
    (hfits : ∀ v ∈ m.value? next, minValue ≤ v ∧ v < maxValue) (index : Nat) (ms : List Member) :
    properties index next (m.read :: ms)
      = (properties (index + 1) ((m.value? next).map (· + 1)) ms).map (m.property (next.getD 0) :: ·) := by
  unfold WrittenMember.value? at hfits ⊢
  unfold WrittenMember.property WrittenMember.valueText
  cases hinit : m.init with
  | none =>
    obtain ⟨v, rfl⟩ := Option.isSome_iff_exists.mp (hcount (by simp [hinit]))
    have hsuccessor : successor v = .ok (v + 1) := successor_of_lt (hfits v (by simp [hinit])).2
    simp [properties, WrittenMember.read, hinit, hsuccessor]
    rfl
  | some a =>
    cases hnumber : a.value.number? with
    | none =>
      have hvalue := a.value.value?_other hnumber
      simp [properties, WrittenMember.read, hinit, hvalue, hnumber]
      rfl
    | some v =>
      obtain ⟨hmin, hmax⟩ := hfits v (by simp [hinit, hnumber])
      have hsuccessor : successor v = .ok (v + 1) := successor_of_lt hmax
      have hvalue := a.value.value?_number hnumber ⟨hmin, Int.le_of_lt hmax⟩
      simp [properties, WrittenMember.read, hinit, hvalue, hnumber, hsuccessor]
      rfl

/-- **The members that are counted have their properties, in order.** -/
theorem properties_read {next : Option Int} {ms : List WrittenMember} (h : Counted next ms)
    (index : Nat) :
    properties index next (ms.map WrittenMember.read) = .ok (propertiesFrom next ms) := by
  induction ms generalizing next index with
  | nil => rfl
  | cons m ms ih =>
    obtain ⟨hcount, hfits, hbehind⟩ := h
    rw [List.map_cons, properties_cons hcount hfits, ih hbehind]
    rfl

end LivePreview.EnumObject

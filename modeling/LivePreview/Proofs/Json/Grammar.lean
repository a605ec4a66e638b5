/-
The grammar of the JSON format.

`Writes s v` says that the text `s` writes the value `v`: blanks may stand wherever the format lets
them, a character of a string may be written in any of its ways, and the members of an object are
listed in the order in which they stand.  Nothing in here reads a text from the front, so a
statement about all texts that write a value is one about all ways to lay it out.

A string is a list of units, and a unit may be one half of a surrogate pair.  Where such a half
stands alone the string spells no text, and the value of it is `none`.
-/
import LivePreview.Json.Read

namespace LivePreview.Json

/-- Blanks of the format, any number of them. -/
def Blanks (s : Text) : Prop := ∀ c ∈ s, c ∈ [' ', '\t', '\n', '\r']

theorem blanks_nil : Blanks [] := fun _ h => absurd h List.not_mem_nil

/-! ### Strings -/

/-- A digit to base sixteen, with small letters or capitals. -/
def IsHex (c : Char) (n : Nat) : Prop :=
  "0123456789abcdef".toList[n]? = some c ∨ "0123456789ABCDEF".toList[n]? = some c

/-- What stands behind the backslash of a short escape, and what it stands for. -/
def shortEscapes : List (Char × Char) :=
  [('"', '"'), ('\\', '\\'), ('/', '/'), ('b', '\x08'), ('f', '\x0c'), ('n', '\n'), ('r', '\r'),
    ('t', '\t')]

/-- The text between the quotes of a string, unit by unit. -/
inductive Units : Text → List Unit16 → Prop
  | nil : Units [] []
  | char {c : Char} {s : Text} {us : List Unit16} (hc : 32 ≤ c.toNat) (hquote : c ≠ '"')
      (hslash : c ≠ '\\') (h : Units s us) : Units (c :: s) (.char c :: us)
  | short {e c : Char} {s : Text} {us : List Unit16} (he : (e, c) ∈ shortEscapes)
      (h : Units s us) : Units ('\\' :: e :: s) (.char c :: us)
  | code {a b c d : Char} {i j k l : Nat} {s : Text} {us : List Unit16} (ha : IsHex a i)
      (hb : IsHex b j) (hc : IsHex c k) (hd : IsHex d l) (h : Units s us) :
      Units ('\\' :: 'u' :: a :: b :: c :: d :: s) (.code (4096 * i + 256 * j + 16 * k + l) :: us)

/-- The text that units spell: a unit of sixteen bits is a character, or one half of one. -/
inductive Spells : List Unit16 → Text → Prop
  | nil : Spells [] []
  | char {c : Char} {us : List Unit16} {t : Text} (h : Spells us t) : Spells (.char c :: us) (c :: t)
  | code {n : Nat} {us : List Unit16} {t : Text} (hhigh : isHighHalf n = false)
      (hlow : isLowHalf n = false) (h : Spells us t) : Spells (.code n :: us) (Char.ofNat n :: t)
  | pair {a b : Nat} {us : List Unit16} {t : Text} (ha : isHighHalf a = true)
      (hb : isLowHalf b = true) (h : Spells us t) :
      Spells (.code a :: .code b :: us)
        (Char.ofNat (0x10000 + 0x400 * (a - 0xD800) + (b - 0xDC00)) :: t)

/-- Between its quotes the string is written so; `none` if it spells no text. -/
def IsString (body : Text) (v : Option Text) : Prop :=
  ∃ us, Units body us ∧ ∀ t, v = some t ↔ Spells us t

/-! ### Numbers -/

/-- At least one digit. -/
def IsDigits (s : Text) : Prop := s ≠ [] ∧ ∀ c ∈ s, isAsciiDigit c = true

/-- A number: a whole part without a zero in front of other digits, and around it what is
optional. -/
def IsNumber (s : Text) : Prop :=
  ∃ sign whole fraction exponent,
    s = sign ++ (whole ++ (fraction ++ exponent)) ∧ (sign = [] ∨ sign = ['-']) ∧
    (whole = ['0'] ∨ IsDigits whole ∧ whole.head? ≠ some '0') ∧
    (fraction = [] ∨ ∃ ds, fraction = '.' :: ds ∧ IsDigits ds) ∧
    (exponent = [] ∨ ∃ mark plus ds, exponent = mark :: (plus ++ ds) ∧ (mark = 'e' ∨ mark = 'E') ∧
      (plus = [] ∨ plus = ['+'] ∨ plus = ['-']) ∧ IsDigits ds)

/-- A whole part alone is a number. -/
theorem isNumber_of_isDigits {s : Text} (h : IsDigits s) (hzero : s.head? ≠ some '0') : IsNumber s :=
  ⟨[], s, [], [], by simp, .inl rfl, .inr ⟨h, hzero⟩, .inl rfl, .inl rfl⟩

/-! ### Values -/

/-- The key of a member, with the colon and the blanks around. -/
def IsKey (s : Text) (key : Option Text) : Prop :=
  ∃ b body b' b'', s = b ++ '"' :: (body ++ '"' :: (b' ++ ':' :: b'')) ∧ IsString body key ∧
    Blanks b ∧ Blanks b' ∧ Blanks b''

/-- The text writes a value, or what stands between the brackets of an array or an object. -/
inductive Written : Text → Part → Prop
  | null : Written "null".toList (.value .null)
  | true : Written "true".toList (.value (.bool true))
  | false : Written "false".toList (.value (.bool false))
  | number {s : Text} (h : IsNumber s) : Written s (.value (.number s))
  | string {s : Text} {v : Option Text} (h : IsString s v) :
      Written ('"' :: (s ++ ['"'])) (.value (.string v))
  | array {s : Text} {vs : List Json} (h : Written s (.items vs)) :
      Written ('[' :: (s ++ [']'])) (.value (.array vs))
  | object {s : Text} {ms : List (Option Text × Json)} (h : Written s (.members ms)) :
      Written ('{' :: (s ++ ['}'])) (.value (.object ms))
  | noItem {b : Text} (hb : Blanks b) : Written b (.items [])
  | lastItem {b s b' : Text} {v : Json} (hb : Blanks b) (h : Written s (.value v)) (hb' : Blanks b') :
      Written (b ++ (s ++ b')) (.items [v])
  | item {b s b' t : Text} {v w : Json} {vs : List Json} (hb : Blanks b) (h : Written s (.value v))
      (hb' : Blanks b') (hmore : Written t (.items (w :: vs))) :
      Written (b ++ (s ++ (b' ++ ',' :: t))) (.items (v :: w :: vs))
  | noMember {b : Text} (hb : Blanks b) : Written b (.members [])
  | lastMember {front s b : Text} {key : Option Text} {v : Json} (hfront : IsKey front key)
      (h : Written s (.value v)) (hb : Blanks b) : Written (front ++ (s ++ b)) (.members [(key, v)])
  | member {front s b t : Text} {key : Option Text} {v : Json} {m : Option Text × Json}
      {ms : List (Option Text × Json)} (hfront : IsKey front key) (h : Written s (.value v))
      (hb : Blanks b) (hmore : Written t (.members (m :: ms))) :
      Written (front ++ (s ++ (b ++ ',' :: t))) (.members ((key, v) :: m :: ms))

/-- The text writes the value, with nothing but blanks around it. -/
def Writes (s : Text) (v : Json) : Prop :=
  ∃ b t b', s = b ++ (t ++ b') ∧ Blanks b ∧ Blanks b' ∧ Written t (.value v)

end LivePreview.Json

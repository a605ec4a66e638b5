/-
Text byte by byte.

A program that keeps its text in UTF-8 reads one byte after the other.  `ofBytes` is the text that
such a reader sees, one character for each byte, and `spread` is a text of characters taken apart in
this way: a character of ASCII stays what it is, and any other becomes two to four characters that
are none of ASCII.  So what a reader asks about ASCII characters has the same answer in both, and a
place that it comes to in the bytes lies between two characters if it lies behind as many of them
in the text.
-/
import LivePreview.Page.RunId
import LivePreview.Proofs.Text.Place

namespace LivePreview.Text

/-! ### Bytes -/

/-- Bytes as a text: each one is a character of its own. -/
def ofBytes (bs : List UInt8) : Text := bs.map Char.ofUInt8

/-- A text as it is seen byte by byte. -/
def spread (s : Text) : Text := ofBytes (bytes s)

/-- True of the characters of ASCII. -/
def isAscii (c : Char) : Bool := c.toNat < 128

theorem toNat_ofUInt8 (b : UInt8) : (Char.ofUInt8 b).toNat = b.toNat := by
  simp [Char.ofUInt8, Char.toNat]

@[simp] theorem length_ofBytes (bs : List UInt8) : (ofBytes bs).length = bs.length :=
  List.length_map ..

theorem length_bytes (s : Text) : (bytes s).length = byteSize s := by
  induction s with
  | nil => rfl
  | cons c s ih => simp_all [bytes, byteSize]

theorem length_spread (s : Text) : (spread s).length = byteSize s := by
  rw [spread, length_ofBytes, length_bytes]

@[simp] theorem spread_nil : spread [] = [] := rfl

theorem spread_append (s t : Text) : spread (s ++ t) = spread s ++ spread t := by
  simp [spread, ofBytes, bytes]

theorem spread_cons (c : Char) (s : Text) : spread (c :: s) = spread [c] ++ spread s :=
  spread_append [c] s

/-- A character of ASCII is one byte. -/
theorem spread_ascii {c : Char} (h : isAscii c = true) (s : Text) :
    spread (c :: s) = c :: spread s := by
  have hc : c.toNat < 128 := by simpa [isAscii] using h
  have hbyte : Char.ofUInt8 (UInt8.ofNat c.toNat) = c := by
    rw [← Char.toNat_inj, toNat_ofUInt8, UInt8.toNat_ofNat']
    omega
  have hone : spread [c] = [c] := by
    simp [spread, bytes, ofBytes, String.utf8EncodeChar, Nat.le_of_lt_succ hc, hbyte]
  rw [spread_cons, hone, List.singleton_append]

/-- The bytes of any other character are none of ASCII. -/
theorem isAscii_of_mem_spread {c d : Char} (h : isAscii c = false) (hd : d ∈ spread [c]) :
    isAscii d = false := by
  have hc : ¬ c.toNat ≤ 127 := by simpa [isAscii, Nat.lt_succ_iff] using h
  obtain ⟨b, hb, rfl⟩ := List.mem_map.mp hd
  have hb : b ∈ String.utf8EncodeChar c := by simpa [bytes] using hb
  have hlarge : 128 ≤ b.toNat := by
    simp only [String.utf8EncodeChar, Char.toNat_val, hc, if_false] at hb
    split_ifs at hb <;> simp only [List.mem_cons, List.not_mem_nil, or_false] at hb
    · rcases hb with rfl | rfl <;> rw [UInt8.toNat_ofNat'] <;> omega
    · rcases hb with rfl | rfl | rfl <;> rw [UInt8.toNat_ofNat'] <;> omega
    · rcases hb with rfl | rfl | rfl | rfl <;> rw [UInt8.toNat_ofNat'] <;> omega
  simpa [isAscii, toNat_ofUInt8] using hlarge

theorem spread_singleton_ne_nil (c : Char) : spread [c] ≠ [] := by
  simp [spread, ofBytes, bytes, String.utf8EncodeChar_ne_nil]

/-! ### Offsets into bytes -/

/-- Where a reader of bytes that starts at an offset comes to, as an offset. -/
def byteEnd? (read : Text → Option Text) (offset : Nat) (bs : List UInt8) : Option Nat :=
  (read ((ofBytes bs).drop offset)).map fun rest => bs.length - rest.length

/-- An offset lies between two characters, or at an end of the text, if as many bytes are the first
characters of the text. -/
theorem dropBytes?_eq_some_iff {offset : Nat} {s t : Text} :
    dropBytes? offset s = some t ↔ ∃ front, s = front ++ t ∧ byteSize front = offset := by
  constructor
  · intro h
    fun_induction dropBytes? offset s with
    | case1 s =>
      cases h
      exact ⟨[], rfl, rfl⟩
    | case2 => cases h
    | case3 n c s hsize ih =>
      obtain ⟨front, rfl, hfront⟩ := ih h
      refine ⟨c :: front, rfl, ?_⟩
      rw [byteSize_cons, hfront]
      omega
    | case4 => cases h
  · rintro ⟨front, rfl, rfl⟩
    exact dropBytes?_append front t

theorem drop_spread_append (front t : Text) :
    (spread (front ++ t)).drop (byteSize front) = spread t := by
  rw [spread_append, ← length_spread, List.drop_left]

/-- A reader that does the same on the bytes of a text as on the text comes to the same offset. -/
theorem byteEnd?_bytes {read : Text → Option Text} {offset : Nat} {s t : Text}
    (hdrop : dropBytes? offset s = some t) (hread : read (spread t) = (read t).map spread)
    (hsuffix : ∀ rest, read t = some rest → rest <:+ t) :
    byteEnd? read offset (bytes s) = endOffset? read offset s := by
  obtain ⟨front, rfl, rfl⟩ := dropBytes?_eq_some_iff.mp hdrop
  rw [byteEnd?, ← spread, drop_spread_append, hread, endOffset?, seek, seekFrom_append,
    Option.map_map]
  cases h : read t with
  | none => rfl
  | some rest =>
    obtain ⟨piece, rfl⟩ := hsuffix rest h
    rw [Option.map_some, Option.map_some, Function.comp_apply, offsetAfter, consumed_append,
      length_bytes, length_spread, byteSize_append, byteSize_append]
    congr 1
    omega

end LivePreview.Text

import SpaceCube.Library.MachineWord

/- The well-formed byte sequences of UTF-8, and that they are the encodings of characters. -/
namespace Utf8Text
open MachineWord

def octets (c : Char) : List Byte := (String.utf8EncodeChar c).map UInt8.toBitVec

def encode (text : List Char) : List Byte := text.flatMap octets

def Tail (b : Byte) : Prop := 0x80 ≤ b.toNat ∧ b.toNat ≤ 0xBF

/-- The bytes of one character and its number. -/
inductive Form : List Byte → Nat → Prop where
  | one {a : Byte} {v : Nat} (first : a.toNat < 0x80) (number : v = a.toNat) : Form [a] v
  | two {a b : Byte} {v : Nat} (low : 0xC2 ≤ a.toNat) (high : a.toNat ≤ 0xDF) (tail : Tail b)
    (number : v = a.toNat % 32 * 64 + b.toNat % 64) : Form [a, b] v
  | three {a b c : Byte} {v : Nat} (low : 0xE0 ≤ a.toNat) (high : a.toNat ≤ 0xEF) (second : Tail b)
    (third : Tail c) (shortest : a.toNat = 0xE0 → 0xA0 ≤ b.toNat)
    (noSurrogate : a.toNat = 0xED → b.toNat ≤ 0x9F)
    (number : v = (a.toNat % 16 * 64 + b.toNat % 64) * 64 + c.toNat % 64) : Form [a, b, c] v
  | four {a b c d : Byte} {v : Nat} (low : 0xF0 ≤ a.toNat) (high : a.toNat ≤ 0xF4) (second : Tail b)
    (third : Tail c) (fourth : Tail d) (shortest : a.toNat = 0xF0 → 0x90 ≤ b.toNat)
    (inRange : a.toNat = 0xF4 → b.toNat ≤ 0x8F)
    (number : v = ((a.toNat % 8 * 64 + b.toNat % 64) * 64 + c.toNat % 64) * 64 + d.toNat % 64) :
    Form [a, b, c, d] v

theorem byte_toNat (n : Nat) (small : n < 256) : (UInt8.ofNat n).toBitVec.toNat = n := by
  simp [Nat.mod_eq_of_lt small]

theorem char_range (c : Char) : c.toNat < 0xD800 ∨ 0xDFFF < c.toNat ∧ c.toNat < 0x110000 := c.valid

theorem form_of_char (c : Char) : Form (octets c) c.toNat := by
  have range := char_range c
  have number : c.val.toNat = c.toNat := rfl
  unfold octets String.utf8EncodeChar
  dsimp only
  rw [number]
  generalize c.toNat = v at range ⊢
  split
  · have first := byte_toNat v (by omega)
    exact .one (by omega) first.symm
  · split
    · have first := byte_toNat (v / 64 % 0x20 + 0xc0) (by omega)
      have second := byte_toNat (v % 0x40 + 0x80) (by omega)
      exact .two (by omega) (by omega) ⟨by omega, by omega⟩ (by omega)
    · split
      · have first := byte_toNat (v / 4096 % 0x10 + 0xe0) (by omega)
        have second := byte_toNat (v / 64 % 0x40 + 0x80) (by omega)
        have third := byte_toNat (v % 0x40 + 0x80) (by omega)
        exact .three (by omega) (by omega) ⟨by omega, by omega⟩ ⟨by omega, by omega⟩ (by omega)
          (by omega) (by omega)
      · have first := byte_toNat (v / 262144 % 0x08 + 0xf0) (by omega)
        have second := byte_toNat (v / 4096 % 0x40 + 0x80) (by omega)
        have third := byte_toNat (v / 64 % 0x40 + 0x80) (by omega)
        have fourth := byte_toNat (v % 0x40 + 0x80) (by omega)
        exact .four (by omega) (by omega) ⟨by omega, by omega⟩ ⟨by omega, by omega⟩
          ⟨by omega, by omega⟩ (by omega) (by omega) (by omega)

theorem byte_of_toNat {b : Byte} {n : Nat} (same : b.toNat = n) :
    (UInt8.ofNat n).toBitVec = b := by
  apply BitVec.eq_of_toNat_eq
  rw [byte_toNat n (same ▸ b.isLt), same]

theorem char_of_number (v : Nat) (valid : v.isValidChar) : ∃ c : Char, c.toNat = v :=
  ⟨Char.ofNatAux v valid, rfl⟩

theorem char_of_form {bytes : List Byte} {v : Nat} (form : Form bytes v) :
    ∃ c : Char, c.toNat = v ∧ octets c = bytes := by
  have valid : v < 0xD800 ∨ 0xDFFF < v ∧ v < 0x110000 := by
    cases form with
    | one first number => omega
    | two low high tail number => omega
    | three low high second third shortest noSurrogate number =>
      obtain ⟨secondLow, secondHigh⟩ := second
      omega
    | four low high second third fourth shortest inRange number =>
      obtain ⟨secondLow, secondHigh⟩ := second
      omega
  obtain ⟨c, rfl⟩ := char_of_number v valid
  refine ⟨c, rfl, ?_⟩
  have number : c.val.toNat = c.toNat := rfl
  unfold octets String.utf8EncodeChar
  dsimp only
  rw [number]
  generalize c.toNat = v at form
  cases form with
  | one first number =>
    rw [if_pos (by omega), List.map_cons, byte_of_toNat number.symm]
    rfl
  | @two a b _ low high tail number =>
    obtain ⟨tailLow, tailHigh⟩ := tail
    rw [if_neg (by omega), if_pos (by omega)]
    simp only [List.map_cons, List.map_nil]
    rw [byte_of_toNat (show a.toNat = v / 64 % 0x20 + 0xc0 by omega),
      byte_of_toNat (show b.toNat = v % 0x40 + 0x80 by omega)]
  | @three a b c _ low high second third shortest noSurrogate number =>
    obtain ⟨secondLow, secondHigh⟩ := second
    obtain ⟨thirdLow, thirdHigh⟩ := third
    rw [if_neg (by omega), if_neg (by omega), if_pos (by omega)]
    simp only [List.map_cons, List.map_nil]
    rw [byte_of_toNat (show a.toNat = v / 4096 % 0x10 + 0xe0 by omega),
      byte_of_toNat (show b.toNat = v / 64 % 0x40 + 0x80 by omega),
      byte_of_toNat (show c.toNat = v % 0x40 + 0x80 by omega)]
  | @four a b c d _ low high second third fourth shortest inRange number =>
    obtain ⟨secondLow, secondHigh⟩ := second
    obtain ⟨thirdLow, thirdHigh⟩ := third
    obtain ⟨fourthLow, fourthHigh⟩ := fourth
    rw [if_neg (by omega), if_neg (by omega), if_neg (by omega)]
    simp only [List.map_cons, List.map_nil]
    rw [byte_of_toNat (show a.toNat = v / 262144 % 0x08 + 0xf0 by omega),
      byte_of_toNat (show b.toNat = v / 4096 % 0x40 + 0x80 by omega),
      byte_of_toNat (show c.toNat = v / 64 % 0x40 + 0x80 by omega),
      byte_of_toNat (show d.toNat = v % 0x40 + 0x80 by omega)]

end Utf8Text

import Mathlib.Logic.Function.Basic
import SpaceCube.Library.Base64Text

/- The base64 of websocketpp, which writes the keys of the opening handshake. Its two arrays
   hold whatever the stack held, until the loop has filled them. -/
namespace Base64
open Base64Text

/-- The letters of a C++ string literal. -/
def letters (s : String) : List UInt8 := s.toList.map Char.toUInt8

def base64Chars : List UInt8 :=
  letters "ABCDEFGHIJKLMNOPQRSTUVWXYZabcdefghijklmnopqrstuvwxyz0123456789+/"

def isBase64 (c : UInt8) : Bool :=
  c == 43 || (c ≥ 47 && c ≤ 57) || (c ≥ 65 && c ≤ 90) || (c ≥ 97 && c ≤ 122)

/-- '=' -/
def padding : UInt8 := 61

structure Encoder where
  i : Nat
  charArray3 : Nat → UInt8
  ret : List UInt8

/-- Three bytes as four sextets. -/
def charArray4 (charArray3 : Nat → UInt8) : List UInt8 :=
  [(charArray3 0 &&& 0xfc) >>> 2,
    ((charArray3 0 &&& 0x03) <<< 4) + ((charArray3 1 &&& 0xf0) >>> 4),
    ((charArray3 1 &&& 0x0f) <<< 2) + ((charArray3 2 &&& 0xc0) >>> 6),
    charArray3 2 &&& 0x3f]

def base64Char (v : UInt8) : UInt8 := base64Chars.getD v.toNat 0

def encodeByte (s : Encoder) (byte : UInt8) : Encoder :=
  let filled := Function.update s.charArray3 s.i byte
  if s.i + 1 = 3 then ⟨0, filled, s.ret ++ (charArray4 filled).map base64Char⟩
  else ⟨s.i + 1, filled, s.ret⟩

/-- What follows the loop: a group that was begun is filled up with zeros. -/
def encodeRest (s : Encoder) : List UInt8 :=
  if s.i = 0 then s.ret
  else
    let filled := fun j => if s.i ≤ j then 0 else s.charArray3 j
    s.ret ++ ((charArray4 filled).take (s.i + 1)).map base64Char ++
      List.replicate (3 - s.i) padding

def base64Encode (before : Nat → UInt8) (input : List UInt8) : List UInt8 :=
  encodeRest (input.foldl encodeByte ⟨0, before, []⟩)

structure Decoder where
  i : Nat
  charArray4 : Nat → UInt8
  ret : List UInt8

/-- base64_chars.find, whose npos becomes 255 as an unsigned char. -/
def find (c : UInt8) : UInt8 := ((base64Chars.idxOf? c).map UInt8.ofNat).getD 255

/-- Four sextets as three bytes. -/
def charArray3 (charArray4 : Nat → UInt8) : List UInt8 :=
  [(charArray4 0 <<< 2) + ((charArray4 1 &&& 0x30) >>> 4),
    ((charArray4 1 &&& 0xf) <<< 4) + ((charArray4 2 &&& 0x3c) >>> 2),
    ((charArray4 2 &&& 0x3) <<< 6) + charArray4 3]

def decodeByte (s : Decoder) (c : UInt8) : Decoder :=
  let filled := Function.update s.charArray4 s.i c
  if s.i + 1 = 4 then
    let found := find ∘ filled
    ⟨0, found, s.ret ++ charArray3 found⟩
  else ⟨s.i + 1, filled, s.ret⟩

def inAlphabet (c : UInt8) : Bool := c != padding && isBase64 c

def decodeLoop (s : Decoder) : List UInt8 → Decoder
  | [] => s
  | c :: rest => if inAlphabet c then decodeLoop (decodeByte s c) rest else s

/-- What follows the loop: the zeros that fill a group up are looked up as well. -/
def decodeRest (s : Decoder) : List UInt8 :=
  if s.i = 0 then s.ret
  else
    let filled := fun j => if s.i ≤ j then 0 else s.charArray4 j
    s.ret ++ (charArray3 (find ∘ filled)).take (s.i - 1)

def base64Decode (before : Nat → UInt8) (input : List UInt8) : List UInt8 :=
  decodeRest (decodeLoop ⟨0, before, []⟩ input)

section Bits
variable (a : UInt8)

theorem every_byte {p : UInt8 → Prop} (all : ∀ n : Fin 256, p (UInt8.ofNat n)) : p a := by
  have here := all ⟨a.toNat, a.toNat_lt⟩
  simpa using here

/-- What the encoder cuts out of a byte. -/
theorem encode_bits : ((a &&& 0xfc) >>> 2).toNat = a.toNat / 4 ∧
    ((a &&& 0x03) <<< 4).toNat = a.toNat % 4 * 16 ∧
    ((a &&& 0xf0) >>> 4).toNat = a.toNat / 16 ∧
    ((a &&& 0x0f) <<< 2).toNat = a.toNat % 16 * 4 ∧
    ((a &&& 0xc0) >>> 6).toNat = a.toNat / 64 ∧ (a &&& 0x3f).toNat = a.toNat % 64 := by
  apply every_byte a
  decide +kernel

/-- What the decoder cuts out of a sextet. -/
theorem decode_bits : (a <<< 2).toNat = a.toNat * 4 % 256 ∧
    ((a &&& 0x30) >>> 4).toNat = a.toNat / 16 % 4 ∧
    ((a &&& 0xf) <<< 4).toNat = a.toNat % 16 * 16 ∧
    ((a &&& 0x3c) >>> 2).toNat = a.toNat / 4 % 16 ∧
    ((a &&& 0x3) <<< 6).toNat = a.toNat % 4 * 64 := by
  apply every_byte a
  decide +kernel

end Bits

theorem same_byte {x : UInt8} {n : Nat} (same : x.toNat = n) : x = UInt8.ofNat n := by
  rw [← same, UInt8.ofNat_toNat]

theorem byte_value {n : Nat} (bound : n < 256) : (UInt8.ofNat n).toNat = n := by
  rw [UInt8.toNat_ofNat', Nat.mod_eq_of_lt bound]

/-- The byte that stands for a sextet. -/
def code (n : Nat) : UInt8 := (symbol n).toUInt8

theorem code_read {n : Nat} (bound : n < 64) :
    base64Char (UInt8.ofNat n) = code n ∧ inAlphabet (code n) ∧ (find (code n)).toNat = n := by
  have table : ∀ u : Fin 64, base64Char (UInt8.ofNat u) = code u ∧ inAlphabet (code u) ∧
      (find (code u)).toNat = u := by decide +kernel
  exact table ⟨n, bound⟩

/-- The sextets of three bytes, as they are written. -/
theorem coded (bytes : Nat → UInt8) :
    (charArray4 bytes).map base64Char =
      [code ((bytes 0).toNat / 4), code ((bytes 0).toNat % 4 * 16 + (bytes 1).toNat / 16),
        code ((bytes 1).toNat % 16 * 4 + (bytes 2).toNat / 64), code ((bytes 2).toNat % 64)] := by
  have h0 := (bytes 0).toNat_lt
  have h1 := (bytes 1).toNat_lt
  have h2 := (bytes 2).toNat_lt
  obtain ⟨top_six, low_two, -⟩ := encode_bits (bytes 0)
  obtain ⟨-, -, top_four, low_four, -⟩ := encode_bits (bytes 1)
  obtain ⟨-, -, -, -, top_two, low_six⟩ := encode_bits (bytes 2)
  have first := same_byte top_six
  have second : ((bytes 0 &&& 0x03) <<< 4) + ((bytes 1 &&& 0xf0) >>> 4) =
      UInt8.ofNat ((bytes 0).toNat % 4 * 16 + (bytes 1).toNat / 16) := by
    apply same_byte
    rw [UInt8.toNat_add, low_two, top_four]
    omega
  have third : ((bytes 1 &&& 0x0f) <<< 2) + ((bytes 2 &&& 0xc0) >>> 6) =
      UInt8.ofNat ((bytes 1).toNat % 16 * 4 + (bytes 2).toNat / 64) := by
    apply same_byte
    rw [UInt8.toNat_add, low_four, top_two]
    omega
  have fourth := same_byte low_six
  simp only [charArray4, first, second, third, fourth, List.map_cons, List.map_nil]
  rw [(code_read (by omega)).1, (code_read (by omega)).1, (code_read (by omega)).1,
    (code_read (by omega)).1]

/-- The standard text, as bytes. -/
def standard (input : List UInt8) : List UInt8 := (encode input).map Char.toUInt8

theorem standard_one (a : UInt8) : standard [a] =
    [code (a.toNat / 4), code (a.toNat % 4 * 16), padding, padding] := rfl

theorem standard_two (a b : UInt8) : standard [a, b] =
    [code (a.toNat / 4), code (a.toNat % 4 * 16 + b.toNat / 16), code (b.toNat % 16 * 4),
      padding] := rfl

theorem standard_group (a b c : UInt8) (rest : List UInt8) :
    standard (a :: b :: c :: rest) = code (a.toNat / 4) ::
      code (a.toNat % 4 * 16 + b.toNat / 16) :: code (b.toNat % 16 * 4 + c.toNat / 64) ::
      code (c.toNat % 64) :: standard rest := rfl

theorem encode_standard (input : List UInt8) : ∀ before ret,
    encodeRest (input.foldl encodeByte ⟨0, before, ret⟩) = ret ++ standard input := by
  -- the induction takes the bytes in the groups of the standard
  induction input using encode.induct with
  | case1 =>
    intro before ret
    simp [encodeRest, standard, encode]
  | case2 a =>
    intro before ret
    rw [standard_one]
    simp [encodeByte, encodeRest, coded, List.map_take]
  | case3 a b =>
    intro before ret
    rw [standard_two]
    simp [encodeByte, encodeRest, coded, List.map_take]
  | case4 a b c rest ih =>
    intro before ret
    simp only [List.foldl_cons, encodeByte, Nat.reduceAdd, Nat.reduceEqDiff, ↓reduceIte]
    rw [ih, standard_group]
    simp [coded]

theorem read_code (s : Decoder) {n : Nat} (bound : n < 64) (rest : List UInt8) :
    decodeLoop s (code n :: rest) = decodeLoop (decodeByte s (code n)) rest := by
  rw [decodeLoop, if_pos (code_read bound).2.1]

theorem found {n : Nat} (bound : n < 64) : (find (code n)).toNat = n :=
  (code_read bound).2.2

theorem read_padding (s : Decoder) (rest : List UInt8) :
    decodeLoop s (padding :: rest) = s := by
  rw [decodeLoop, if_neg (by decide)]

section Groups
variable {a b c x y : UInt8} {q r : Nat}

/-- r is what the second sextet holds of the next byte. -/
theorem first_byte (high : x.toNat = a.toNat / 4) (low : y.toNat = a.toNat % 4 * 16 + r)
    (small : r < 16) : (x <<< 2) + ((y &&& 0x30) >>> 4) = a := by
  have ha := a.toNat_lt
  obtain ⟨up, -⟩ := decode_bits x
  obtain ⟨-, top, -⟩ := decode_bits y
  apply UInt8.toNat_inj.mp
  rw [UInt8.toNat_add, up, top, high, low]
  omega

/-- q is what the second sextet holds of the byte before. -/
theorem second_byte (high : x.toNat = q * 16 + b.toNat / 16)
    (low : y.toNat = b.toNat % 16 * 4 + r) (small : r < 4) :
    ((x &&& 0xf) <<< 4) + ((y &&& 0x3c) >>> 2) = b := by
  have hb := b.toNat_lt
  obtain ⟨-, -, four, -⟩ := decode_bits x
  obtain ⟨-, -, -, middle, -⟩ := decode_bits y
  apply UInt8.toNat_inj.mp
  rw [UInt8.toNat_add, four, middle, high, low]
  omega

theorem third_byte (high : x.toNat = q * 4 + c.toNat / 64) (low : y.toNat = c.toNat % 64) :
    ((x &&& 0x3) <<< 6) + y = c := by
  have hc := c.toNat_lt
  obtain ⟨-, -, -, -, two⟩ := decode_bits x
  apply UInt8.toNat_inj.mp
  rw [UInt8.toNat_add, two, high, low]
  omega

end Groups

theorem decode_standard (input : List UInt8) : ∀ before ret,
    decodeRest (decodeLoop ⟨0, before, ret⟩ (standard input)) = ret ++ input := by
  induction input using encode.induct with
  | case1 =>
    intro before ret
    simp [standard, encode, decodeLoop, decodeRest]
  | case2 a =>
    intro before ret
    have ha := a.toNat_lt
    rw [standard_one, read_code _ (by omega), read_code _ (by omega), read_padding]
    have first := first_byte (a := a) (r := 0) (found (n := a.toNat / 4) (by omega))
      (found (n := a.toNat % 4 * 16) (by omega)) (by omega)
    simp [decodeByte, decodeRest, charArray3, first]
  | case3 a b =>
    intro before ret
    have ha := a.toNat_lt
    have hb := b.toNat_lt
    rw [standard_two, read_code _ (by omega), read_code _ (by omega), read_code _ (by omega),
      read_padding]
    have second := found (n := a.toNat % 4 * 16 + b.toNat / 16) (by omega)
    have third := found (n := b.toNat % 16 * 4) (by omega)
    have one := first_byte (a := a) (found (by omega)) second (by omega)
    have two := second_byte (b := b) (r := 0) second third (by omega)
    simp [decodeByte, decodeRest, charArray3, one, two]
  | case4 a b c rest ih =>
    intro before ret
    have ha := a.toNat_lt
    have hb := b.toNat_lt
    have hc := c.toNat_lt
    rw [standard_group, read_code _ (by omega), read_code _ (by omega), read_code _ (by omega),
      read_code _ (by omega)]
    simp only [decodeByte, Nat.reduceAdd, Nat.reduceEqDiff, ↓reduceIte]
    rw [ih]
    have second := found (n := a.toNat % 4 * 16 + b.toNat / 16) (by omega)
    have third := found (n := b.toNat % 16 * 4 + c.toNat / 64) (by omega)
    have one := first_byte (a := a) (found (by omega)) second (by omega)
    have two := second_byte (b := b) second third (by omega)
    have three := third_byte (c := c) third (found (by omega))
    simp [charArray3, one, two, three]

/-- Decoders that differ in what their arrays hold from i on. -/
structure SameRead (s t : Decoder) : Prop where
  i : s.i = t.i
  ret : s.ret = t.ret
  filled : ∀ j < s.i, s.charArray4 j = t.charArray4 j

variable {s t : Decoder}

theorem same_byte_read (same : SameRead s t) (c : UInt8) :
    SameRead (decodeByte s c) (decodeByte t c) := by
  have place := same.i
  have filled : ∀ j < s.i + 1, Function.update s.charArray4 s.i c j =
      Function.update t.charArray4 t.i c j := by
    intro j below
    by_cases here : j = s.i
    · rw [here, Function.update_self, place, Function.update_self]
    · rw [Function.update_of_ne here, Function.update_of_ne (place ▸ here)]
      exact same.filled j (by omega)
  unfold decodeByte
  rw [← place]
  rw [← place] at filled
  split
  · rename_i full
    have group : charArray3 (find ∘ Function.update s.charArray4 s.i c) =
        charArray3 (find ∘ Function.update t.charArray4 s.i c) := by
      simp only [charArray3, Function.comp_apply]
      rw [filled 0 (by omega), filled 1 (by omega), filled 2 (by omega), filled 3 (by omega)]
    exact ⟨rfl, by simp only [same.ret, group], fun j below => absurd below (by simp)⟩
  · exact ⟨rfl, same.ret, filled⟩

theorem same_loop (text : List UInt8) : ∀ {s t : Decoder}, SameRead s t →
    SameRead (decodeLoop s text) (decodeLoop t text) := by
  induction text with
  | nil =>
    intro s t same
    exact same
  | cons c rest ih =>
    intro s t same
    rw [decodeLoop, decodeLoop]
    split
    · exact ih (same_byte_read same c)
    · exact same

theorem same_rest (same : SameRead s t) : decodeRest s = decodeRest t := by
  have place := same.i
  unfold decodeRest
  rw [← place, same.ret]
  have filled : (fun j => if s.i ≤ j then 0 else s.charArray4 j) =
      fun j => if s.i ≤ j then 0 else t.charArray4 j := by
    funext j
    split
    · rfl
    · exact same.filled j (by omega)
  rw [filled]

theorem decode_before (before other : Nat → UInt8) (text : List UInt8) :
    base64Decode before text = base64Decode other text := by
  have initially : SameRead ⟨0, before, []⟩ ⟨0, other, []⟩ :=
    ⟨rfl, rfl, fun j below => absurd below (by simp)⟩
  exact same_rest (same_loop text initially)

theorem loop_letters (text : List UInt8) : ∀ s,
    decodeLoop s text = decodeLoop s (text.takeWhile inAlphabet) := by
  induction text with
  | nil => exact fun s => rfl
  | cons c rest ih =>
    intro s
    by_cases letter : inAlphabet c
    · rw [List.takeWhile_cons_of_pos letter, decodeLoop, decodeLoop, if_pos letter, if_pos letter]
      exact ih _
    · rw [List.takeWhile_cons_of_neg letter, decodeLoop, decodeLoop, if_neg letter]

/-- Four letters make three bytes, and those of an open group count three quarters each. -/
theorem loop_counts (text : List UInt8) : ∀ s, s.i < 4 →
    (decodeLoop s text).i < 4 ∧
      4 * (decodeLoop s text).ret.length + 3 * (decodeLoop s text).i =
        4 * s.ret.length + 3 * s.i + 3 * (text.takeWhile inAlphabet).length := by
  induction text with
  | nil =>
    intro s small
    exact ⟨small, rfl⟩
  | cons c rest ih =>
    intro s small
    by_cases letter : inAlphabet c
    · have one : (decodeByte s c).i < 4 ∧ 4 * (decodeByte s c).ret.length +
          3 * (decodeByte s c).i = 4 * s.ret.length + 3 * s.i + 3 := by
        unfold decodeByte
        split
        · simp only [charArray3, List.length_append, List.length_cons, List.length_nil]
          omega
        · simp only
          omega
      obtain ⟨below, total⟩ := ih _ one.1
      rw [decodeLoop, if_pos letter, List.takeWhile_cons_of_pos letter, List.length_cons]
      exact ⟨below, by rw [total, one.2]; omega⟩
    · rw [decodeLoop, if_neg letter, List.takeWhile_cons_of_neg letter]
      exact ⟨small, rfl⟩

theorem decode_size (before : Nat → UInt8) (text : List UInt8) :
    (base64Decode before text).length = 6 * (text.takeWhile inAlphabet).length / 8 := by
  obtain ⟨below, total⟩ := loop_counts text ⟨0, before, []⟩ (by simp)
  simp only [List.length_nil] at total
  unfold base64Decode decodeRest
  split
  · omega
  · simp only [charArray3, List.length_append, List.length_take, List.length_cons,
      List.length_nil]
    omega

theorem letter_code {c : UInt8} (letter : inAlphabet c) :
    (find c).toNat < 64 ∧ code (find c).toNat = c := by
  have table : inAlphabet c → (find c).toNat < 64 ∧ code (find c).toNat = c := by
    apply every_byte c
    decide +kernel
  exact table letter

/-- Whole groups of letters are the standard text of some bytes. -/
theorem groups_standard (n : Nat) : ∀ text : List UInt8, text.length = 4 * n →
    (∀ c ∈ text, inAlphabet c) → ∃ input, standard input = text := by
  induction n with
  | zero =>
    intro text size _
    exact ⟨[], (List.length_eq_zero_iff.mp size).symm⟩
  | succ n ih =>
    intro text size letters
    match text, size with
    | c0 :: c1 :: c2 :: c3 :: rest, size =>
      obtain ⟨input, same⟩ := ih rest (by simp only [List.length_cons] at size; omega)
        (fun c member => letters c (by simp [member]))
      obtain ⟨small0, back0⟩ := letter_code (letters c0 (by simp))
      obtain ⟨small1, back1⟩ := letter_code (letters c1 (by simp))
      obtain ⟨small2, back2⟩ := letter_code (letters c2 (by simp))
      obtain ⟨small3, back3⟩ := letter_code (letters c3 (by simp))
      have first := byte_value (n := (find c0).toNat * 4 + (find c1).toNat / 16) (by omega)
      have second := byte_value (n := (find c1).toNat % 16 * 16 + (find c2).toNat / 4) (by omega)
      have third := byte_value (n := (find c2).toNat % 4 * 64 + (find c3).toNat) (by omega)
      refine ⟨UInt8.ofNat ((find c0).toNat * 4 + (find c1).toNat / 16) ::
        UInt8.ofNat ((find c1).toNat % 16 * 16 + (find c2).toNat / 4) ::
        UInt8.ofNat ((find c2).toNat % 4 * 64 + (find c3).toNat) :: input, ?_⟩
      have sextet0 : ((find c0).toNat * 4 + (find c1).toNat / 16) / 4 = (find c0).toNat := by
        omega
      have sextet1 : ((find c0).toNat * 4 + (find c1).toNat / 16) % 4 * 16 +
          ((find c1).toNat % 16 * 16 + (find c2).toNat / 4) / 16 = (find c1).toNat := by omega
      have sextet2 : ((find c1).toNat % 16 * 16 + (find c2).toNat / 4) % 16 * 4 +
          ((find c2).toNat % 4 * 64 + (find c3).toNat) / 64 = (find c2).toNat := by omega
      have sextet3 : ((find c2).toNat % 4 * 64 + (find c3).toNat) % 64 = (find c3).toNat := by
        omega
      rw [standard_group, same, first, second, third, sextet0, sextet1, sextet2, sextet3,
        back0, back1, back2, back3]

theorem encode_once (before : Nat → UInt8) (input : List UInt8) :
    base64Encode before input = standard input := encode_standard input before []

theorem decode_once (before : Nat → UInt8) (input : List UInt8) :
    base64Decode before (standard input) = input := decode_standard input before []

/-- Encoding and decoding undo each other, whatever the arrays held before. The text is the
    standard one, decoding takes the letters that a text begins with and no others, and every
    text of whole groups of letters is the encoding of what it decodes to. -/
theorem base64_exact (before other : Nat → UInt8) :
    (∀ input, base64Encode before input = (encode input).map Char.toUInt8 ∧
      base64Decode other (base64Encode before input) = input) ∧
    (∀ text, base64Decode before text = base64Decode other (text.takeWhile inAlphabet) ∧
      (base64Decode before text).length = 6 * (text.takeWhile inAlphabet).length / 8) ∧
    ∀ text, (∀ c ∈ text, inAlphabet c) → 4 ∣ text.length →
      base64Encode before (base64Decode other text) = text := by
  refine ⟨?_, ?_, ?_⟩
  · intro input
    rw [encode_once]
    exact ⟨rfl, decode_once other input⟩
  · intro text
    refine ⟨?_, decode_size before text⟩
    rw [decode_before before other]
    unfold base64Decode
    rw [loop_letters]
  · intro text letters groups
    obtain ⟨n, size⟩ := groups
    obtain ⟨input, same⟩ := groups_standard n text size letters
    rw [← same, decode_once, encode_once]

/-- The key that the tests of the processor use. -/
theorem sample_base64 :
    base64Encode (fun _ => 7) (letters "the sample nonce") = letters "dGhlIHNhbXBsZSBub25jZQ==" ∧
      base64Decode (fun _ => 9) (letters "dGhlIHNhbXBsZSBub25jZQ==") =
        letters "the sample nonce" ∧
      base64Encode (fun _ => 7) (base64Decode (fun _ => 9) (letters "TWFu")) =
        letters "TWFu" := by
  obtain ⟨encoded, _, back⟩ := base64_exact (fun _ => 7) (fun _ => 9)
  obtain ⟨text, decoded⟩ := encoded (letters "the sample nonce")
  have here : (encode (letters "the sample nonce")).map Char.toUInt8 =
      letters "dGhlIHNhbXBsZSBub25jZQ==" := by decide +kernel
  rw [text, here] at decoded
  exact ⟨text.trans here, decoded, back (letters "TWFu") (by decide +kernel) (by decide +kernel)⟩

end Base64

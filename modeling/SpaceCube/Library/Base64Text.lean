import Mathlib.Data.Fintype.Basic

/- Standard base64 with the lenient reading: characters outside the alphabet are
   skipped, and a completed padding ends the input whatever follows it. -/
namespace Base64Text

def symbol (v : Nat) : Char :=
  if v < 26 then Char.ofNat (65 + v)
  else if v < 52 then Char.ofNat (71 + v)
  else if v < 62 then Char.ofNat (v - 4)
  else if v = 62 then '+' else '/'

def sextet? (c : Char) : Option Nat :=
  if 65 ≤ c.toNat ∧ c.toNat ≤ 90 then some (c.toNat - 65)
  else if 97 ≤ c.toNat ∧ c.toNat ≤ 122 then some (c.toNat - 71)
  else if 48 ≤ c.toNat ∧ c.toNat ≤ 57 then some (c.toNat + 4)
  else if c = '+' then some 62
  else if c = '/' then some 63
  else none

def encode : List UInt8 → List Char
  | [] => []
  | [a] => [symbol (a.toNat / 4), symbol (a.toNat % 4 * 16), '=', '=']
  | [a, b] => [symbol (a.toNat / 4), symbol (a.toNat % 4 * 16 + b.toNat / 16),
      symbol (b.toNat % 16 * 4), '=']
  | a :: b :: c :: rest =>
      symbol (a.toNat / 4) :: symbol (a.toNat % 4 * 16 + b.toNat / 16) ::
        symbol (b.toNat % 16 * 4 + c.toNat / 64) :: symbol (c.toNat % 64) :: encode rest

/-- quad counts the sextets of the open group, left holds its bits not yet emitted and
    pads the padding seen since the last sextet. -/
def decodeFrom : Nat → Nat → Nat → List Char → Option (List UInt8)
  | quad, _, _, [] => if quad = 0 then some [] else none
  | quad, left, pads, c :: cs =>
    if c = '=' then
      if 2 ≤ quad then
        if 4 ≤ quad + (pads + 1) then some [] else decodeFrom quad left (pads + 1) cs
      else decodeFrom quad left pads cs
    else match sextet? c with
      | none => decodeFrom quad left pads cs
      | some v => match quad with
        | 0 => decodeFrom 1 v 0 cs
        | 1 => (decodeFrom 2 (v % 16) 0 cs).map (UInt8.ofNat (left * 4 + v / 16) :: ·)
        | 2 => (decodeFrom 3 (v % 4) 0 cs).map (UInt8.ofNat (left * 16 + v / 4) :: ·)
        | _ => (decodeFrom 0 0 0 cs).map (UInt8.ofNat (left * 64 + v) :: ·)

def decode (cs : List Char) : Option (List UInt8) := decodeFrom 0 0 0 cs

theorem symbol_read (v : Nat) (bound : v < 64) :
    sextet? (symbol v) = some v ∧ symbol v ≠ '=' := by
  have table : ∀ u : Fin 64, sextet? (symbol u.val) = some u.val ∧ symbol u.val ≠ '=' := by
    decide
  exact table ⟨v, bound⟩

theorem symbol_ascii (v : Nat) (bound : v < 64) : (symbol v).toNat < 128 := by
  have table : ∀ u : Fin 64, (symbol u.val).toNat < 128 := by decide
  exact table ⟨v, bound⟩

section Symbols
variable (left pads v : Nat) (cs : List Char) (bound : v < 64)
include bound

theorem decode_first : decodeFrom 0 left pads (symbol v :: cs) = decodeFrom 1 v 0 cs := by
  obtain ⟨value, plain⟩ := symbol_read v bound
  rw [decodeFrom, if_neg plain, value]
  rfl

theorem decode_second : decodeFrom 1 left pads (symbol v :: cs) =
    (decodeFrom 2 (v % 16) 0 cs).map (UInt8.ofNat (left * 4 + v / 16) :: ·) := by
  obtain ⟨value, plain⟩ := symbol_read v bound
  rw [decodeFrom, if_neg plain, value]
  rfl

theorem decode_third : decodeFrom 2 left pads (symbol v :: cs) =
    (decodeFrom 3 (v % 4) 0 cs).map (UInt8.ofNat (left * 16 + v / 4) :: ·) := by
  obtain ⟨value, plain⟩ := symbol_read v bound
  rw [decodeFrom, if_neg plain, value]
  rfl

theorem decode_fourth : decodeFrom 3 left pads (symbol v :: cs) =
    (decodeFrom 0 0 0 cs).map (UInt8.ofNat (left * 64 + v) :: ·) := by
  obtain ⟨value, plain⟩ := symbol_read v bound
  rw [decodeFrom, if_neg plain, value]
  rfl

end Symbols

theorem byte_split (x : UInt8) (n : Nat) (same : n = x.toNat) : UInt8.ofNat n = x := by
  rw [same, UInt8.ofNat_toNat]

theorem decode_encode (bs : List UInt8) : decode (encode bs) = some bs := by
  induction bs using encode.induct with
  | case1 => rfl
  | case2 a =>
    have ha := a.toNat_lt
    simp only [decode, encode]
    rw [decode_first _ _ _ _ (by omega), decode_second _ _ _ _ (by omega)]
    rw [byte_split a (a.toNat / 4 * 4 + a.toNat % 4 * 16 / 16) (by omega)]
    rfl
  | case3 a b =>
    have ha := a.toNat_lt
    have hb := b.toNat_lt
    simp only [decode, encode]
    rw [decode_first _ _ _ _ (by omega), decode_second _ _ _ _ (by omega),
      decode_third _ _ _ _ (by omega)]
    rw [byte_split a (a.toNat / 4 * 4 + (a.toNat % 4 * 16 + b.toNat / 16) / 16) (by omega),
      byte_split b ((a.toNat % 4 * 16 + b.toNat / 16) % 16 * 16 + b.toNat % 16 * 4 / 4) (by omega)]
    rfl
  | case4 a b c rest ih =>
    have ha := a.toNat_lt
    have hb := b.toNat_lt
    have hc := c.toNat_lt
    have tail : decodeFrom 0 0 0 (encode rest) = some rest := ih
    simp only [decode, encode]
    rw [decode_first _ _ _ _ (by omega), decode_second _ _ _ _ (by omega),
      decode_third _ _ _ _ (by omega), decode_fourth _ _ _ _ (by omega)]
    rw [tail, byte_split a (a.toNat / 4 * 4 + (a.toNat % 4 * 16 + b.toNat / 16) / 16) (by omega),
      byte_split b ((a.toNat % 4 * 16 + b.toNat / 16) % 16 * 16 +
        (b.toNat % 16 * 4 + c.toNat / 64) / 4) (by omega),
      byte_split c ((b.toNat % 16 * 4 + c.toNat / 64) % 4 * 64 + c.toNat % 64) (by omega)]
    rfl

theorem encode_ascii (bs : List UInt8) : ∀ c ∈ encode bs, c.toNat < 128 := by
  induction bs using encode.induct with
  | case1 => simp [encode]
  | case2 a =>
    have ha := a.toNat_lt
    simp [encode, symbol_ascii (a.toNat / 4) (by omega), symbol_ascii (a.toNat % 4 * 16) (by omega)]
  | case3 a b =>
    have ha := a.toNat_lt
    have hb := b.toNat_lt
    simp [encode, symbol_ascii (a.toNat / 4) (by omega),
      symbol_ascii (a.toNat % 4 * 16 + b.toNat / 16) (by omega),
      symbol_ascii (b.toNat % 16 * 4) (by omega)]
  | case4 a b c rest ih =>
    have ha := a.toNat_lt
    have hb := b.toNat_lt
    have hc := c.toNat_lt
    simpa [encode, symbol_ascii (a.toNat / 4) (by omega),
      symbol_ascii (a.toNat % 4 * 16 + b.toNat / 16) (by omega),
      symbol_ascii (b.toNat % 16 * 4 + c.toNat / 64) (by omega),
      symbol_ascii (c.toNat % 64) (by omega)] using ih

end Base64Text

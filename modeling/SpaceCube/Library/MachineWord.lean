import Mathlib.Data.List.Basic
import Mathlib.Tactic.Ring

/- Machine words and the bytes they hold in memory, in either byte order: unions of a word
   with an array, network order, and a word read from and written back to a buffer. -/
namespace MachineWord

abbrev Byte := BitVec 8

inductive ByteOrder where
  | little
  | big
  deriving DecidableEq

/-- How far from the low end of a word of n bytes the byte at index i lies. -/
def ByteOrder.place (order : ByteOrder) (n i : Nat) : Nat :=
  match order with
  | .little => i
  | .big => n - 1 - i

variable {w : Nat}

def byteAt (order : ByteOrder) (n : Nat) (x : BitVec w) (i : Nat) : Byte :=
  x.extractLsb' (8 * order.place n i) 8

def toBytes (order : ByteOrder) (n : Nat) (x : BitVec w) : List Byte :=
  (List.range n).map (byteAt order n x)

/-- The number that bytes stand for, the low end first. -/
def value : List Byte → Nat
  | [] => 0
  | b :: bs => b.toNat + 256 * value bs

def ofBytes (order : ByteOrder) (w : Nat) (bytes : List Byte) : BitVec w :=
  match order with
  | .little => BitVec.ofNat w (value bytes)
  | .big => BitVec.ofNat w (value bytes.reverse)

/-- From host to network order and back: a machine with the low end first turns its words
    around. -/
def toNetwork (order : ByteOrder) (n : Nat) (x : BitVec w) : BitVec w :=
  match order with
  | .little => ofBytes .big w (toBytes .little n x)
  | .big => x

theorem toBytes_length (order : ByteOrder) (n : Nat) (x : BitVec w) :
    (toBytes order n x).length = n := by
  simp [toBytes]

theorem toBytes_get (order : ByteOrder) (n : Nat) (x : BitVec w) {i : Nat} (below : i < n) :
    (toBytes order n x)[i]? = some (byteAt order n x i) := by
  simp [toBytes, below]

theorem place_place (order : ByteOrder) {n i : Nat} (below : i < n) :
    order.place n (order.place n i) = i := by
  cases order with
  | little => rfl
  | big =>
    simp only [ByteOrder.place]
    omega

theorem place_below (order : ByteOrder) {n i : Nat} (below : i < n) : order.place n i < n := by
  cases order with
  | little => exact below
  | big =>
    simp only [ByteOrder.place]
    omega

theorem value_bound (bytes : List Byte) : value bytes < 2 ^ (8 * bytes.length) := by
  induction bytes with
  | nil => decide
  | cons b bs ih =>
    have digit := b.isLt
    have power : 2 ^ (8 * (b :: bs).length) = 256 * 2 ^ (8 * bs.length) := by
      rw [List.length_cons, Nat.mul_add, Nat.pow_add]
      ring
    rw [power, value]
    omega

/-- The i-th byte of the number is the i-th of the bytes. -/
theorem value_digit {bytes : List Byte} {i : Nat} {b : Byte} (here : bytes[i]? = some b) :
    value bytes / 2 ^ (8 * i) % 256 = b.toNat := by
  induction bytes generalizing i with
  | nil => simp at here
  | cons first rest ih =>
    have digit := first.isLt
    cases i with
    | zero =>
      obtain rfl := Option.some.inj here
      simp only [value, Nat.mul_zero, Nat.pow_zero, Nat.div_one]
      omega
    | succ i =>
      have power : 2 ^ (8 * (i + 1)) = 256 * 2 ^ (8 * i) := by
        rw [Nat.mul_add, Nat.pow_add]
        ring
      have shifted : (first.toNat + 256 * value rest) / 256 = value rest := by omega
      rw [power, ← Nat.div_div_eq_div_mul, value, shifted]
      exact ih (List.getElem?_cons_succ ▸ here)

theorem byteAt_toNat (order : ByteOrder) (n : Nat) (x : BitVec w) (i : Nat) :
    (byteAt order n x i).toNat = x.toNat / 2 ^ (8 * order.place n i) % 256 := by
  simp [byteAt, Nat.shiftRight_eq_div_pow]

/-- A word is told by its bytes. -/
theorem word_ext (order : ByteOrder) {n : Nat} (wide : w = 8 * n) {x y : BitVec w}
    (same : ∀ i < n, byteAt order n x i = byteAt order n y i) : x = y := by
  refine BitVec.eq_of_getLsbD_eq fun j below => ?_
  have inside : j / 8 < n := by omega
  have bytes := same _ (place_below order inside)
  simp only [byteAt, place_place order inside] at bytes
  have bits := congrArg (·.getLsbD (j % 8)) bytes
  have here : 8 * (j / 8) + j % 8 = j := Nat.div_add_mod j 8
  simpa [BitVec.getLsbD_extractLsb', Nat.mod_lt, here] using bits

theorem byteAt_ofBytes (order : ByteOrder) {n i : Nat} {bytes : List Byte} {b : Byte}
    (sized : bytes.length = n) (wide : w = 8 * n) (here : bytes[i]? = some b) :
    byteAt order n (ofBytes order w bytes) i = b := by
  subst sized wide
  obtain ⟨below, _⟩ := List.getElem?_eq_some_iff.mp here
  apply BitVec.eq_of_toNat_eq
  rw [byteAt_toNat]
  cases order with
  | little =>
    rw [ofBytes, BitVec.toNat_ofNat, Nat.mod_eq_of_lt (value_bound bytes)]
    exact value_digit here
  | big =>
    have bound := value_bound bytes.reverse
    rw [List.length_reverse] at bound
    rw [ofBytes, BitVec.toNat_ofNat, Nat.mod_eq_of_lt bound]
    apply value_digit
    rw [ByteOrder.place, List.getElem?_reverse (by omega)]
    rwa [show bytes.length - 1 - (bytes.length - 1 - i) = i by omega]

theorem toBytes_ofBytes (order : ByteOrder) {n : Nat} {bytes : List Byte}
    (sized : bytes.length = n) (wide : w = 8 * n) :
    toBytes order n (ofBytes order w bytes) = bytes := by
  refine List.ext_getElem? fun i => ?_
  by_cases below : i < n
  · have short : i < bytes.length := by omega
    have inside : bytes[i]? = some bytes[i] := List.getElem?_eq_getElem short
    rw [toBytes_get order n _ below, byteAt_ofBytes order sized wide inside, inside]
  · rw [List.getElem?_eq_none (by rw [toBytes_length]; omega),
      List.getElem?_eq_none (by omega)]

theorem ofBytes_toBytes (order : ByteOrder) {n : Nat} (wide : w = 8 * n) (x : BitVec w) :
    ofBytes order w (toBytes order n x) = x := by
  refine word_ext order wide fun i below => ?_
  exact byteAt_ofBytes order (toBytes_length order n x) wide (toBytes_get order n x below)

/-- Whatever the machine, a word in network order has its high end first in memory. -/
theorem toNetwork_toBytes (order : ByteOrder) {n : Nat} (wide : w = 8 * n) (x : BitVec w) :
    toBytes order n (toNetwork order n x) = toBytes .big n x := by
  cases order with
  | big => rfl
  | little =>
    refine List.ext_getElem? fun i => ?_
    by_cases below : i < n
    · rw [toBytes_get _ n _ below, toBytes_get _ n _ below]
      have turned := byteAt_ofBytes .big (toBytes_length .little n x) wide
        (toBytes_get .little n x (place_below .big below))
      simp only [toNetwork, byteAt, ByteOrder.place] at turned ⊢
      rw [show n - 1 - (n - 1 - i) = i by omega] at turned
      rw [turned]
    · rw [List.getElem?_eq_none (by rw [toBytes_length]; omega),
        List.getElem?_eq_none (by rw [toBytes_length]; omega)]

/-- Bytes read into a word in network order are the number with its high end first. -/
theorem toNetwork_ofBytes (order : ByteOrder) {n : Nat} {bytes : List Byte}
    (sized : bytes.length = n) (wide : w = 8 * n) :
    toNetwork order n (ofBytes order w bytes) = ofBytes .big w bytes := by
  cases order with
  | big => rfl
  | little => rw [toNetwork, toBytes_ofBytes .little sized wide]

theorem byteAt_xor (order : ByteOrder) (n : Nat) (x y : BitVec w) (i : Nat) :
    byteAt order n (x ^^^ y) i = byteAt order n x i ^^^ byteAt order n y i := by
  simp only [byteAt]
  refine BitVec.eq_of_getLsbD_eq fun j below => ?_
  simp [below]

end MachineWord

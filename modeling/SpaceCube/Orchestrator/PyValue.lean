import Mathlib.Data.Rat.Defs
import SpaceCube.Library.InsertionDict

/- The decoded JSON values the orchestrator reads, with the Python conversions it
   applies to them: dictionary keys, int(), == with a counter and range(). -/
namespace PyValue
open InsertionDict

inductive PyFloat where
  | finite (q : Rat)
  | infinite (negative : Bool)
  | nan
  deriving DecidableEq

inductive Json where
  | null
  | bool (b : Bool)
  | int (n : Int)
  | float (x : PyFloat)
  | str (s : String)
  | arr (items : List Json)
  | obj (fields : List (String × Json))

/-- A hashable value up to Python equality: True is 1 and 2.0 is 2. -/
inductive Key where
  | null
  | int (n : Int)
  | float (x : PyFloat)
  | str (s : String)
  deriving DecidableEq

inductive PyErr where
  | typeError
  | keyError (key : Key)
  | indexError
  | attributeError
  | valueError
  | overflowError
  | zeroDivisionError
  | validationError
  | kafkaError
  deriving DecidableEq

def Key.ofNat (n : Nat) : Key := .int n

theorem key_ofNat_injective : Function.Injective Key.ofNat := by
  intro a b same
  exact Int.ofNat.inj (Key.int.inj same)

/-- Lists and dictionaries are unhashable. -/
def Json.hashKey : Json → Except PyErr Key
  | .null => .ok .null
  | .bool b => .ok (.int (if b then 1 else 0))
  | .int n => .ok (.int n)
  | .float (.finite q) => .ok (if q.den = 1 then .int q.num else .float (.finite q))
  | .float x => .ok (.float x)
  | .str s => .ok (.str s)
  | .arr _ => .error .typeError
  | .obj _ => .error .typeError

/-- A counter compared with a JSON value by ==. -/
def Json.equalsNat (n : Nat) (j : Json) : Bool :=
  match j.hashKey with
  | .ok k => decide (k = Key.ofNat n)
  | .error _ => false

/-- The stop of range(j). -/
def Json.rangeStop : Json → Except PyErr Nat
  | .int n => .ok n.toNat
  | .bool b => .ok (if b then 1 else 0)
  | _ => .error .typeError

/-- The count that a value announces, none when it is not one. -/
def Json.count? : Json → Option Nat
  | .int n => if 0 ≤ n then some n.toNat else none
  | .bool b => some (if b then 1 else 0)
  | _ => none

theorem count_range {j : Json} {T : Nat} (h : j.count? = some T) : j.rangeStop = .ok T := by
  cases j with
  | int n =>
    simp only [Json.count?] at h
    split at h
    · simpa [Json.rangeStop] using h
    · contradiction
  | bool b => simpa [Json.count?, Json.rangeStop] using h
  | _ => simp [Json.count?] at h

theorem count_equals {j : Json} {T : Nat} (h : j.count? = some T) (n : Nat) :
    j.equalsNat n = true ↔ n = T := by
  cases j with
  | int m =>
    simp only [Json.count?] at h
    split at h
    · simp only [Option.some.injEq] at h
      simp only [Json.equalsNat, Json.hashKey, Key.ofNat, Key.int.injEq, decide_eq_true_eq]
      omega
    · contradiction
  | bool b =>
    simp only [Json.count?, Option.some.injEq] at h
    simp only [Json.equalsNat, Json.hashKey, Key.ofNat, Key.int.injEq, decide_eq_true_eq]
    cases b <;> simp at h ⊢ <;> omega
  | _ => simp [Json.count?] at h

/-- A value that equals a counter and that range() accepts is the announced count. -/
theorem equals_range_count {j : Json} {n stop : Nat} (eq : j.equalsNat n = true)
    (range : j.rangeStop = .ok stop) : stop = n ∧ j.count? = some n := by
  cases j with
  | int m =>
    simp only [Json.equalsNat, Json.hashKey, Key.ofNat, Key.int.injEq, decide_eq_true_eq] at eq
    simp only [Json.rangeStop, Except.ok.injEq] at range
    subst m
    simp [Json.count?, ← range]
  | bool b =>
    simp only [Json.equalsNat, Json.hashKey, Key.ofNat, Key.int.injEq, decide_eq_true_eq] at eq
    simp only [Json.rangeStop, Except.ok.injEq] at range
    cases b <;> simp at eq range <;> simp [Json.count?] <;> omega
  | _ => simp [Json.rangeStop] at range

def digitValue? (c : Char) : Option Nat :=
  if 48 ≤ c.toNat ∧ c.toNat ≤ 57 then some (c.toNat - 48) else none

/-- Decimal digits, where an underscore stands between two digits only. -/
def readDigits : Nat → Bool → List Char → Option Nat
  | acc, afterDigit, [] => if afterDigit then some acc else none
  | acc, afterDigit, c :: cs =>
    if c = '_' then (if afterDigit then readDigits acc false cs else none)
    else (digitValue? c).bind fun d => readDigits (10 * acc + d) true cs

/-- The zeros of the decimal digits of Unicode 13, in which nine digits follow each. -/
def decimalZeros : List Nat :=
  [0x30, 0x660, 0x6f0, 0x7c0, 0x966, 0x9e6, 0xa66, 0xae6, 0xb66, 0xbe6, 0xc66, 0xce6, 0xd66,
    0xde6, 0xe50, 0xed0, 0xf20, 0x1040, 0x1090, 0x17e0, 0x1810, 0x1946, 0x19d0, 0x1a80, 0x1a90,
    0x1b50, 0x1bb0, 0x1c40, 0x1c50, 0xa620, 0xa8d0, 0xa900, 0xa9d0, 0xa9f0, 0xaa50, 0xabf0,
    0xff10, 0x104a0, 0x10d30, 0x11066, 0x110f0, 0x11136, 0x111d0, 0x112f0, 0x11450, 0x114d0,
    0x11650, 0x116c0, 0x11730, 0x118e0, 0x11950, 0x11c50, 0x11d50, 0x11da0, 0x16a60, 0x16b50,
    0x1d7ce, 0x1d7d8, 0x1d7e2, 0x1d7ec, 0x1d7f6, 0x1e140, 0x1e2f0, 0x1e950, 0x1fbf0]

def toDecimal? (c : Char) : Option Nat :=
  (decimalZeros.find? fun z => z ≤ c.toNat ∧ c.toNat ≤ z + 9).map (c.toNat - ·)

/-- White space beyond ASCII. -/
def isUnicodeSpace (c : Char) : Bool :=
  c.toNat ∈ [0x85, 0xa0, 0x1680, 0x2028, 0x2029, 0x202f, 0x205f, 0x3000] ∨
    (0x2000 ≤ c.toNat ∧ c.toNat ≤ 0x200a)

/-- A character without a place in ASCII ends the text with a question mark. -/
def toAscii : List Char → List Char
  | [] => []
  | c :: cs =>
    if c.toNat < 127 then c :: toAscii cs
    else if isUnicodeSpace c then ' ' :: toAscii cs
    else match toDecimal? c with
      | some d => Char.ofNat (48 + d) :: toAscii cs
      | none => ['?']

/-- What int() reads of a string: an ASCII string is left as it is. -/
def transformDecimalAndSpace (cs : List Char) : List Char :=
  if cs.all fun c => c.toNat < 128 then cs else toAscii cs

/-- The white space of C, which int() strips. -/
def isSpace (c : Char) : Bool := (9 ≤ c.toNat ∧ c.toNat ≤ 13) ∨ c.toNat = 32

/-- The default of sys.set_int_max_str_digits. -/
def maxStrDigits : Nat := 4300

def readNat (cs : List Char) : Option Nat :=
  if (cs.filter (· ≠ '_')).length ≤ maxStrDigits then readDigits 0 false cs else none

/-- The literals that int() reads from a string. -/
def intLiteral? (s : String) : Option Int :=
  let text := transformDecimalAndSpace s.toList
  let trimmed := ((text.dropWhile isSpace).reverse.dropWhile isSpace).reverse
  match trimmed with
  | [] => none
  | c :: cs =>
    if c = '-' then (readNat cs).map fun n => -(n : Int)
    else if c = '+' then (readNat cs).map fun n => (n : Int)
    else (readNat (c :: cs)).map fun n => (n : Int)

example : intLiteral? "\u0661\u0662\u00a0" = some 12 ∧ intLiteral? "0\u001f" = none := by
  decide +kernel

def Json.toInt : Json → Except PyErr Int
  | .bool b => .ok (if b then 1 else 0)
  | .int n => .ok n
  | .float (.finite q) => .ok (q.num.tdiv q.den)
  | .float (.infinite _) => .error .overflowError
  | .float .nan => .error .valueError
  | .str s => match intLiteral? s with
    | some n => .ok n
    | none => .error .valueError
  | .null => .error .typeError
  | .arr _ => .error .typeError
  | .obj _ => .error .typeError

/-- data[name], where only a dictionary has string keys. -/
def Json.item (data : Json) (name : String) : Except PyErr Json :=
  match data with
  | .obj fields => match lookup fields name with
    | some v => .ok v
    | none => .error (.keyError (.str name))
  | _ => .error .typeError

end PyValue

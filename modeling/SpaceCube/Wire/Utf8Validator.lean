import SpaceCube.Library.Utf8Text

/- The UTF-8 validator of websocketpp: a table of byte types and transitions read one byte
   at a time, on text that may arrive in pieces. -/
namespace Utf8Validator
open MachineWord Utf8Text

def utf8Accept : Nat := 0
def utf8Reject : Nat := 1

def utf8d : List Nat := [
  0,0,0,0,0,0,0,0,0,0,0,0,0,0,0,0,0,0,0,0,0,0,0,0,0,0,0,0,0,0,0,0, -- 00..1f
  0,0,0,0,0,0,0,0,0,0,0,0,0,0,0,0,0,0,0,0,0,0,0,0,0,0,0,0,0,0,0,0, -- 20..3f
  0,0,0,0,0,0,0,0,0,0,0,0,0,0,0,0,0,0,0,0,0,0,0,0,0,0,0,0,0,0,0,0, -- 40..5f
  0,0,0,0,0,0,0,0,0,0,0,0,0,0,0,0,0,0,0,0,0,0,0,0,0,0,0,0,0,0,0,0, -- 60..7f
  1,1,1,1,1,1,1,1,1,1,1,1,1,1,1,1,9,9,9,9,9,9,9,9,9,9,9,9,9,9,9,9, -- 80..9f
  7,7,7,7,7,7,7,7,7,7,7,7,7,7,7,7,7,7,7,7,7,7,7,7,7,7,7,7,7,7,7,7, -- a0..bf
  8,8,2,2,2,2,2,2,2,2,2,2,2,2,2,2,2,2,2,2,2,2,2,2,2,2,2,2,2,2,2,2, -- c0..df
  0xa,0x3,0x3,0x3,0x3,0x3,0x3,0x3,0x3,0x3,0x3,0x3,0x3,0x4,0x3,0x3, -- e0..ef
  0xb,0x6,0x6,0x6,0x5,0x8,0x8,0x8,0x8,0x8,0x8,0x8,0x8,0x8,0x8,0x8, -- f0..ff
  0x0,0x1,0x2,0x3,0x5,0x8,0x7,0x1,0x1,0x1,0x4,0x6,0x1,0x1,0x1,0x1, -- s0..s0
  1,1,1,1,1,1,1,1,1,1,1,1,1,1,1,1,1,0,1,1,1,1,1,0,1,0,1,1,1,1,1,1, -- s1..s2
  1,2,1,1,1,1,1,2,1,2,1,1,1,1,1,1,1,1,1,1,1,1,1,2,1,1,1,1,1,1,1,1, -- s3..s4
  1,2,1,1,1,1,1,1,1,2,1,1,1,1,1,1,1,1,1,1,1,1,1,3,1,3,1,1,1,1,1,1, -- s5..s6
  1,3,1,1,1,1,1,3,1,3,1,1,1,1,1,1,1,3,1,1,1,1,1,1,1,1,1,1,1,1,1,1] -- s7..s8

structure Validator where
  state : Nat
  codepoint : BitVec 32
  deriving DecidableEq

def Validator.fresh : Validator := ⟨utf8Accept, 0⟩

/-- The free function decode: one byte. -/
def Validator.consume (v : Validator) (byte : Byte) : Validator :=
  let type := utf8d.getD byte.toNat 0
  { codepoint :=
      if v.state ≠ utf8Accept then (byte &&& 0x3f).setWidth 32 ||| (v.codepoint <<< 6)
      else ((0xff : BitVec 32) >>> type) &&& byte.setWidth 32
    state := utf8d.getD (256 + v.state * 16 + type) 0 }

/-- Whether no byte was refused, and the validator where the loop stopped. -/
def Validator.decode (v : Validator) : List Byte → Bool × Validator
  | [] => (true, v)
  | byte :: rest =>
    let v := v.consume byte
    if v.state = utf8Reject then (false, v) else v.decode rest

def Validator.complete (v : Validator) : Bool := v.state = utf8Accept

def validate (s : List Byte) : Bool :=
  let (ok, v) := Validator.fresh.decode s
  if !ok then false else v.complete

/-- The type of a byte, which is where it stands among the 256. -/
def typeOf (b : Nat) : Nat :=
  if b < 0x80 then 0 else if b < 0x90 then 1 else if b < 0xA0 then 9 else if b < 0xC0 then 7
  else if b < 0xC2 then 8 else if b < 0xE0 then 2 else if b = 0xE0 then 10
  else if b = 0xED then 4 else if b < 0xF0 then 3 else if b = 0xF0 then 11
  else if b < 0xF4 then 6 else if b = 0xF4 then 5 else 8

/-- The state after a first byte of each type. -/
def startOf (type : Nat) : Nat :=
  match type with
  | 0 => 0
  | 2 => 2
  | 3 => 3
  | 4 => 5
  | 5 => 8
  | 6 => 7
  | 10 => 4
  | 11 => 6
  | _ => 1

/-- The bits of a first byte that belong to the number. -/
def lead (b : Nat) : Nat :=
  if b < 0x80 then b else if b < 0xE0 then b % 32 else if b < 0xF0 then b % 16 else b % 8

/-- What a state inside a character takes next: the least and the greatest byte, and the state
    after it. -/
def expected : Nat → Nat × Nat × Nat
  | 2 => (0x80, 0xBF, 0)
  | 3 => (0x80, 0xBF, 2)
  | 4 => (0xA0, 0xBF, 2)
  | 5 => (0x80, 0x9F, 2)
  | 6 => (0x90, 0xBF, 3)
  | 7 => (0x80, 0xBF, 3)
  | _ => (0x80, 0x8F, 3)

/-- The state after a byte of a type: inside a character only the three types of tail bytes can
    go on. -/
def next (state type : Nat) : Nat :=
  if state = 0 then startOf type
  else if state = 1 then 1
  else
    let (low, high, after) := expected state
    if type = 1 ∧ low = 0x80 ∨ type = 9 ∧ low ≤ 0x90 ∧ 0x9F ≤ high ∨ type = 7 ∧ high = 0xBF
    then after else 1

theorem utf8d_parts : utf8d = (List.range 256).map typeOf ++
    (List.range 144).map fun i => next (i / 16) (i % 16) := by decide +kernel

theorem type_read (b : Byte) : utf8d.getD b.toNat 0 = typeOf b.toNat := by
  have inside : b.toNat < 256 := b.isLt
  rw [utf8d_parts, List.getD_eq_getElem?_getD, List.getElem?_append_left (by simpa using inside)]
  simp [inside]

theorem type_small : ∀ b : Fin 256, typeOf b.val < 12 := by decide +kernel

theorem next_read {state type : Nat} (known : state < 9) (small : type < 12) :
    utf8d.getD (256 + state * 16 + type) 0 = next state type := by
  have parts : ((List.range 256).map typeOf).length = 256 := by
    rw [List.length_map, List.length_range]
  have place : 256 + state * 16 + type - 256 = state * 16 + type := by omega
  have inside : state * 16 + type < 144 := by omega
  have quotient : (state * 16 + type) / 16 = state := by omega
  have rest : (state * 16 + type) % 16 = type := by omega
  rw [utf8d_parts, List.getD_eq_getElem?_getD, List.getElem?_append_right (by omega), parts, place]
  simp [inside, quotient, rest]

theorem lead_table : ∀ b : Fin 256, startOf (typeOf b.val) ≠ 1 →
    (((0xff : BitVec 32) >>> typeOf b.val) &&& BitVec.ofNat 32 b.val).toNat = lead b.val := by
  decide +kernel

variable {v : Validator} {b : Byte}

theorem consume_state (known : v.state < 9) :
    (v.consume b).state = next v.state (typeOf b.toNat) := by
  rw [Validator.consume]
  dsimp only
  rw [type_read, next_read known (type_small ⟨b.toNat, b.isLt⟩)]

theorem start_codepoint (accept : v.state = 0) (going : (v.consume b).state ≠ 1) :
    (v.consume b).codepoint.toNat = lead b.toNat := by
  have state := consume_state (v := v) (b := b) (by omega)
  rw [accept] at state
  have table := lead_table ⟨b.toNat, b.isLt⟩ (fun refused => going (state.trans refused))
  dsimp only at table
  rw [BitVec.ofNat_toNat] at table
  rw [Validator.consume]
  dsimp only
  rw [if_neg (fun inside => inside accept), type_read]
  exact table

theorem tail_codepoint (inside : v.state ≠ utf8Accept) (small : v.codepoint.toNat < 2 ^ 26) :
    (v.consume b).codepoint.toNat = v.codepoint.toNat * 64 + b.toNat % 64 := by
  have low : ((b &&& 0x3f).setWidth 32).toNat = b.toNat % 64 := by
    have bits : (b &&& 0x3f).toNat = b.toNat % 64 := by
      rw [BitVec.toNat_and]
      exact Nat.and_two_pow_sub_one_eq_mod b.toNat 6
    rw [BitVec.toNat_setWidth, bits]
    omega
  have high : (v.codepoint <<< 6).toNat = v.codepoint.toNat <<< 6 := by
    rw [BitVec.toNat_shiftLeft, Nat.shiftLeft_eq]
    omega
  have apart : b.toNat % 64 < 2 ^ 6 := Nat.mod_lt _ (by decide)
  rw [Validator.consume]
  dsimp only
  rw [if_pos inside, BitVec.toNat_or, low, high, Nat.or_comm, ← Nat.shiftLeft_add_eq_or_of_lt apart,
    Nat.shiftLeft_eq]

theorem expected_table : ∀ s : Fin 7, ∀ b : Fin 256, next (s.val + 2) (typeOf b.val) =
    if (expected (s.val + 2)).1 ≤ b.val ∧ b.val ≤ (expected (s.val + 2)).2.1
    then (expected (s.val + 2)).2.2 else 1 := by decide +kernel

/-- A byte that a state inside a character takes, and one that it does not. -/
theorem consume_inside (inside : 2 ≤ v.state) (known : v.state < 9) :
    (v.consume b).state =
      if (expected v.state).1 ≤ b.toNat ∧ b.toNat ≤ (expected v.state).2.1
      then (expected v.state).2.2 else 1 := by
  have read := expected_table ⟨v.state - 2, by omega⟩ ⟨b.toNat, b.isLt⟩
  simp only [show v.state - 2 + 2 = v.state by omega] at read
  rw [consume_state known, read]

/-- The state after a first byte. -/
def start (b : Nat) : Nat :=
  if b < 0x80 then 0 else if b < 0xC2 then 1 else if b < 0xE0 then 2 else if b = 0xE0 then 4
  else if b = 0xED then 5 else if b < 0xF0 then 3 else if b = 0xF0 then 6 else if b < 0xF4 then 7
  else if b = 0xF4 then 8 else 1

theorem start_table : ∀ b : Fin 256, next 0 (typeOf b.val) = start b.val := by decide +kernel

theorem consume_first (accept : v.state = 0) : (v.consume b).state = start b.toNat := by
  rw [consume_state (by omega), accept]
  exact start_table ⟨b.toNat, b.isLt⟩

/-- The bytes take the validator on to another state, whatever comes after them. -/
def Goes (v : Validator) (bytes : List Byte) (w : Validator) : Prop :=
  ∀ rest, v.decode (bytes ++ rest) = w.decode rest

theorem goes_one (going : (v.consume b).state ≠ utf8Reject) : Goes v [b] (v.consume b) := by
  intro rest
  rw [List.singleton_append, Validator.decode]
  exact if_neg going

theorem goes_more {xs ys : List Byte} {w u : Validator} (first : Goes v xs w)
    (second : Goes w ys u) : Goes v (xs ++ ys) u := by
  intro rest
  rw [List.append_assoc, first, second]

/-- What a state expects of its next byte. -/
structure Fits (v : Validator) (b : Byte) (after : Nat) : Prop where
  inside : 2 ≤ v.state
  known : v.state < 9
  low : (expected v.state).1 ≤ b.toNat
  high : b.toNat ≤ (expected v.state).2.1
  after : (expected v.state).2.2 = after

theorem fits_known {s low high after : Nat} (state : v.state = s) (inside : 2 ≤ s) (known : s < 9)
    (expects : expected s = (low, high, after)) (above : low ≤ b.toNat) (below : b.toNat ≤ high) :
    Fits v b after := by
  subst state
  exact ⟨inside, known, by rw [expects]; exact above, by rw [expects]; exact below,
    by rw [expects]⟩

theorem fits_last (state : v.state = 2) (tail : Tail b) : Fits v b 0 :=
  fits_known state (by decide) (by decide) rfl tail.1 tail.2

theorem fits_middle (state : v.state = 3) (tail : Tail b) : Fits v b 2 :=
  fits_known state (by decide) (by decide) rfl tail.1 tail.2

/-- One tail byte, and what it adds to the number. -/
theorem goes_tail {after : Nat} (fits : Fits v b after) (small : v.codepoint.toNat < 2 ^ 26) :
    Goes v [b] (v.consume b) ∧ (v.consume b).state = after ∧
      (v.consume b).codepoint.toNat = v.codepoint.toNat * 64 + b.toNat % 64 := by
  have state := consume_inside (b := b) fits.inside fits.known
  rw [if_pos ⟨fits.low, fits.high⟩] at state
  have going : (expected v.state).2.2 ≠ 1 := by
    have table : ∀ s : Fin 9, (expected s.val).2.2 ≠ 1 := by decide
    exact table ⟨v.state, fits.known⟩
  refine ⟨goes_one (state ▸ going), state.trans fits.after, tail_codepoint ?_ small⟩
  exact Nat.ne_of_gt (Nat.lt_of_lt_of_le (by decide) fits.inside)

/-- The bytes take the validator back between characters, with a number. -/
def Reads (v : Validator) (bytes : List Byte) (n : Nat) : Prop :=
  ∃ w, Goes v bytes w ∧ w.state = 0 ∧ w.codepoint.toNat = n

theorem reads_one (fits : Fits v b 0) (small : v.codepoint.toNat < 2 ^ 26) :
    Reads v [b] (v.codepoint.toNat * 64 + b.toNat % 64) := by
  obtain ⟨goes, state, number⟩ := goes_tail fits small
  exact ⟨_, goes, state, number⟩

theorem reads_more {bytes : List Byte} {n after : Nat} (fits : Fits v b after)
    (small : v.codepoint.toNat < 2 ^ 26)
    (rest : ∀ w : Validator, w.state = after →
      w.codepoint.toNat = v.codepoint.toNat * 64 + b.toNat % 64 → Reads w bytes n) :
    Reads v (b :: bytes) n := by
  obtain ⟨goes, state, number⟩ := goes_tail fits small
  obtain ⟨w, goes₂, state₂, number₂⟩ := rest _ state number
  exact ⟨w, goes_more goes goes₂, state₂, number₂⟩

/-- The first byte of a longer character. -/
theorem reads_first {a : Byte} {bytes : List Byte} {n : Nat} (accept : v.state = 0)
    (going : start a.toNat ≠ 1)
    (rest : ∀ w : Validator, w.state = start a.toNat → w.codepoint.toNat = lead a.toNat →
      Reads w bytes n) : Reads v (a :: bytes) n := by
  have state := consume_first (b := a) accept
  obtain ⟨w, goes, state₂, number⟩ :=
    rest (v.consume a) state (start_codepoint accept (state ▸ going))
  exact ⟨w, goes_more (goes_one (state ▸ going)) goes, state₂, number⟩

section FirstByte
variable {a : Nat}

theorem start_two (low : 0xC2 ≤ a) (high : a ≤ 0xDF) : start a = 2 ∧ lead a = a % 32 := by
  constructor
  · unfold start
    rw [if_neg (by omega), if_neg (by omega), if_pos (by omega)]
  · unfold lead
    rw [if_neg (by omega), if_pos (by omega)]

theorem start_three (low : 0xE0 ≤ a) (high : a ≤ 0xEF) :
    (a = 0xE0 ∧ start a = 4 ∨ a = 0xED ∧ start a = 5 ∨ start a = 3) ∧ lead a = a % 16 := by
  constructor
  · unfold start
    rw [if_neg (by omega), if_neg (by omega), if_neg (by omega)]
    split
    · rename_i e0
      exact Or.inl ⟨e0, rfl⟩
    · split
      · rename_i ed
        exact Or.inr (Or.inl ⟨ed, rfl⟩)
      · exact Or.inr (Or.inr (if_pos (by omega)))
  · unfold lead
    rw [if_neg (by omega), if_neg (by omega), if_pos (by omega)]

theorem start_four (low : 0xF0 ≤ a) (high : a ≤ 0xF4) :
    (a = 0xF0 ∧ start a = 6 ∨ a = 0xF4 ∧ start a = 8 ∨ start a = 7) ∧ lead a = a % 8 := by
  constructor
  · unfold start
    rw [if_neg (by omega), if_neg (by omega), if_neg (by omega), if_neg (by omega),
      if_neg (by omega), if_neg (by omega)]
    split
    · rename_i f0
      exact Or.inl ⟨f0, rfl⟩
    · split
      · exact Or.inr (Or.inr rfl)
      · exact Or.inr (Or.inl ⟨by omega, if_pos (by omega)⟩)
  · unfold lead
    rw [if_neg (by omega), if_neg (by omega), if_neg (by omega)]

end FirstByte

/-- What the first byte of a character of three bytes asks of the second. -/
theorem fits_three {a : Byte} (low : 0xE0 ≤ a.toNat) (high : a.toNat ≤ 0xEF) (second : Tail b)
    (shortest : a.toNat = 0xE0 → 0xA0 ≤ b.toNat) (noSurrogate : a.toNat = 0xED → b.toNat ≤ 0x9F)
    (state : v.state = start a.toNat) : Fits v b 2 := by
  rcases (start_three low high).1 with ⟨e0, four⟩ | ⟨ed, five⟩ | three
  · exact fits_known (state.trans four) (by decide) (by decide) rfl (shortest e0) second.2
  · exact fits_known (state.trans five) (by decide) (by decide) rfl second.1 (noSurrogate ed)
  · exact fits_middle (state.trans three) second

theorem fits_four {a : Byte} (low : 0xF0 ≤ a.toNat) (high : a.toNat ≤ 0xF4) (second : Tail b)
    (shortest : a.toNat = 0xF0 → 0x90 ≤ b.toNat) (inRange : a.toNat = 0xF4 → b.toNat ≤ 0x8F)
    (state : v.state = start a.toNat) : Fits v b 3 := by
  rcases (start_four low high).1 with ⟨f0, six⟩ | ⟨f4, eight⟩ | seven
  · exact fits_known (state.trans six) (by decide) (by decide) rfl (shortest f0) second.2
  · exact fits_known (state.trans eight) (by decide) (by decide) rfl second.1 (inRange f4)
  · exact fits_known (state.trans seven) (by decide) (by decide) rfl second.1 second.2

/-- The bytes of a character take the validator from between characters to there again, and
    leave the character's number. -/
theorem reads_form {bytes : List Byte} {n : Nat} (form : Form bytes n) (accept : v.state = 0) :
    Reads v bytes n := by
  cases form with
  | @one a _ low number =>
    have begins : start a.toNat = 0 := if_pos low
    have state := (consume_first (b := a) accept).trans begins
    refine ⟨v.consume a, goes_one (by rw [state]; decide), state, ?_⟩
    rw [start_codepoint accept (by omega), number, lead, if_pos low]
  | @two a b _ low high tail number =>
    obtain ⟨begins, leads⟩ := start_two low high
    refine reads_first accept (by omega) fun w state number₂ => ?_
    rw [number, ← leads, ← number₂]
    exact reads_one (fits_last (state.trans begins) tail) (by omega)
  | @three a b c _ low high second third shortest noSurrogate number =>
    obtain ⟨begins, leads⟩ := start_three low high
    refine reads_first accept (by omega) fun w state number₂ => ?_
    refine reads_more (fits_three low high second shortest noSurrogate state) (by omega) ?_
    intro u state₂ number₃
    rw [number, ← leads, ← number₂, ← number₃]
    exact reads_one (fits_last state₂ third) (by omega)
  | @four a b c d _ low high second third fourth shortest inRange number =>
    obtain ⟨begins, leads⟩ := start_four low high
    refine reads_first accept (by omega) fun w state number₂ => ?_
    refine reads_more (fits_four low high second shortest inRange state) (by omega) ?_
    intro u state₂ number₃
    refine reads_more (fits_middle state₂ third) (by omega) ?_
    intro x state₃ number₄
    rw [number, ← leads, ← number₂, ← number₃, ← number₄]
    exact reads_one (fits_last state₃ fourth) (by omega)

theorem reads_text (text : List Char) (accept : v.state = 0) :
    ∃ w, Goes v (encode text) w ∧ w.state = 0 := by
  induction text generalizing v with
  | nil => exact ⟨v, fun rest => rfl, accept⟩
  | cons c text ih =>
    obtain ⟨w, goes, state, _⟩ := reads_form (form_of_char c) accept
    obtain ⟨u, goes₂, state₂⟩ := ih state
    exact ⟨u, goes_more goes goes₂, state₂⟩

theorem decode_nil : v.decode [] = (true, v) := rfl

theorem goes_decode {bytes : List Byte} {w : Validator} (goes : Goes v bytes w) :
    v.decode bytes = (true, w) := by
  have whole := goes []
  rwa [List.append_nil, decode_nil] at whole

/-- The bytes are read to the end, and the end is between characters. -/
def Completes (v : Validator) (bytes : List Byte) : Prop :=
  (v.decode bytes).1 = true ∧ (v.decode bytes).2.state = 0

theorem completes_cons {rest : List Byte} (completes : Completes v (b :: rest)) :
    (v.consume b).state ≠ 1 ∧ Completes (v.consume b) rest := by
  unfold Completes at completes
  rw [Validator.decode] at completes
  split at completes
  · exact absurd completes.1 Bool.false_ne_true
  · rename_i going
    exact ⟨going, completes⟩

/-- Inside a character there is a next byte, and it is one that the state takes. -/
theorem completes_inside {bytes : List Byte} (inside : 2 ≤ v.state) (known : v.state < 9)
    (completes : Completes v bytes) : ∃ b rest, bytes = b :: rest ∧
      (expected v.state).1 ≤ b.toNat ∧ b.toNat ≤ (expected v.state).2.1 ∧
      (v.consume b).state = (expected v.state).2.2 ∧ Completes (v.consume b) rest := by
  cases bytes with
  | nil =>
    have ended : v.state = 0 := completes.2
    omega
  | cons b rest =>
    obtain ⟨going, completes⟩ := completes_cons completes
    have state := consume_inside (b := b) inside known
    split at state
    · rename_i range
      exact ⟨b, rest, rfl, range.1, range.2, state, completes⟩
    · exact absurd state going

theorem completes_known {s low high after : Nat} {bytes : List Byte} (state : v.state = s)
    (inside : 2 ≤ s) (known : s < 9) (expects : expected s = (low, high, after))
    (completes : Completes v bytes) : ∃ b rest w, bytes = b :: rest ∧ low ≤ b.toNat ∧
      b.toNat ≤ high ∧ w.state = after ∧ Completes w rest := by
  subst state
  obtain ⟨b, rest, same, above, below, next, completes⟩ :=
    completes_inside inside known completes
  rw [expects] at above below next
  exact ⟨b, rest, _, same, above, below, next, completes⟩

theorem completes_last {bytes : List Byte} (state : v.state = 2) (completes : Completes v bytes) :
    ∃ b rest w, bytes = b :: rest ∧ Tail b ∧ w.state = 0 ∧ Completes w rest := by
  obtain ⟨b, rest, w, same, low, high, next, completes⟩ :=
    completes_known state (by decide) (by decide) rfl completes
  exact ⟨b, rest, w, same, ⟨low, high⟩, next, completes⟩

theorem start_cases (a : Nat) (small : a < 256) (going : start a ≠ 1) :
    a < 0x80 ∨ 0xC2 ≤ a ∧ a ≤ 0xDF ∨ 0xE0 ≤ a ∧ a ≤ 0xEF ∨ 0xF0 ≤ a ∧ a ≤ 0xF4 := by
  have table : ∀ a : Fin 256, start a.val ≠ 1 →
      a.val < 0x80 ∨ 0xC2 ≤ a.val ∧ a.val ≤ 0xDF ∨ 0xE0 ≤ a.val ∧ a.val ≤ 0xEF ∨
        0xF0 ≤ a.val ∧ a.val ≤ 0xF4 := by decide +kernel
  exact table ⟨a, small⟩ going

/-- The second byte of a character of three bytes. -/
theorem completes_three {a : Byte} {bytes : List Byte} (low : 0xE0 ≤ a.toNat)
    (high : a.toNat ≤ 0xEF) (state : v.state = start a.toNat) (completes : Completes v bytes) :
    ∃ b rest w, bytes = b :: rest ∧ Tail b ∧ (a.toNat = 0xE0 → 0xA0 ≤ b.toNat) ∧
      (a.toNat = 0xED → b.toNat ≤ 0x9F) ∧ w.state = 2 ∧ Completes w rest := by
  rcases (start_three low high).1 with ⟨e0, four⟩ | ⟨ed, five⟩ | three
  · obtain ⟨b, rest, w, same, least, most, next, completes⟩ :=
      completes_known (state.trans four) (by decide) (by decide) rfl completes
    exact ⟨b, rest, w, same, ⟨by omega, by omega⟩, by omega, by omega, next, completes⟩
  · obtain ⟨b, rest, w, same, least, most, next, completes⟩ :=
      completes_known (state.trans five) (by decide) (by decide) rfl completes
    exact ⟨b, rest, w, same, ⟨by omega, by omega⟩, by omega, by omega, next, completes⟩
  · obtain ⟨b, rest, w, same, least, most, next, completes⟩ :=
      completes_known (state.trans three) (by decide) (by decide) rfl completes
    have notFirst : a.toNat ≠ 0xE0 := by
      intro e0
      rw [e0] at three
      contradiction
    have notSurrogate : a.toNat ≠ 0xED := by
      intro ed
      rw [ed] at three
      contradiction
    exact ⟨b, rest, w, same, ⟨least, most⟩, by omega, by omega, next, completes⟩

theorem completes_four {a : Byte} {bytes : List Byte} (low : 0xF0 ≤ a.toNat)
    (high : a.toNat ≤ 0xF4) (state : v.state = start a.toNat) (completes : Completes v bytes) :
    ∃ b rest w, bytes = b :: rest ∧ Tail b ∧ (a.toNat = 0xF0 → 0x90 ≤ b.toNat) ∧
      (a.toNat = 0xF4 → b.toNat ≤ 0x8F) ∧ w.state = 3 ∧ Completes w rest := by
  rcases (start_four low high).1 with ⟨f0, six⟩ | ⟨f4, eight⟩ | seven
  · obtain ⟨b, rest, w, same, least, most, next, completes⟩ :=
      completes_known (state.trans six) (by decide) (by decide) rfl completes
    exact ⟨b, rest, w, same, ⟨by omega, by omega⟩, by omega, by omega, next, completes⟩
  · obtain ⟨b, rest, w, same, least, most, next, completes⟩ :=
      completes_known (state.trans eight) (by decide) (by decide) rfl completes
    exact ⟨b, rest, w, same, ⟨by omega, by omega⟩, by omega, by omega, next, completes⟩
  · obtain ⟨b, rest, w, same, least, most, next, completes⟩ :=
      completes_known (state.trans seven) (by decide) (by decide) rfl completes
    have notFirst : a.toNat ≠ 0xF0 := by
      intro f0
      rw [f0] at seven
      contradiction
    have notLast : a.toNat ≠ 0xF4 := by
      intro f4
      rw [f4] at seven
      contradiction
    exact ⟨b, rest, w, same, ⟨least, most⟩, by omega, by omega, next, completes⟩

/-- Bytes read to their end from between characters begin with a character. -/
theorem completes_first {bytes : List Byte} (accept : v.state = 0) (some : bytes ≠ [])
    (completes : Completes v bytes) : ∃ char n rest w, bytes = char ++ rest ∧ Form char n ∧
      w.state = 0 ∧ Completes w rest := by
  cases bytes with
  | nil => contradiction
  | cons a bytes =>
    obtain ⟨going, completes⟩ := completes_cons completes
    have state := consume_first (b := a) accept
    rw [state] at going
    generalize v.consume a = w at state completes
    rcases start_cases a.toNat a.isLt going with one | ⟨low, high⟩ | ⟨low, high⟩ | ⟨low, high⟩
    · exact ⟨[a], _, bytes, w, rfl, .one one rfl, state.trans (if_pos one), completes⟩
    · obtain ⟨b, rest, u, rfl, tail, ends, completes⟩ :=
        completes_last (state.trans (start_two low high).1) completes
      exact ⟨[a, b], _, rest, u, rfl, .two low high tail rfl, ends, completes⟩
    · obtain ⟨b, rest, u, rfl, second, shortest, noSurrogate, next, completes⟩ :=
        completes_three low high state completes
      obtain ⟨c, rest, x, rfl, third, ends, completes⟩ := completes_last next completes
      exact ⟨[a, b, c], _, rest, x, rfl, .three low high second third shortest noSurrogate rfl,
        ends, completes⟩
    · obtain ⟨b, rest, u, rfl, second, shortest, inRange, next, completes⟩ :=
        completes_four low high state completes
      obtain ⟨c, rest, x, rfl, cLow, cHigh, next, completes⟩ :=
        completes_known next (by decide) (by decide) rfl completes
      obtain ⟨d, rest, y, rfl, fourth, ends, completes⟩ := completes_last next completes
      exact ⟨[a, b, c, d], _, rest, y, rfl,
        .four low high second ⟨cLow, cHigh⟩ fourth shortest inRange rfl, ends, completes⟩

theorem completes_text {bytes : List Byte} (accept : v.state = 0)
    (completes : Completes v bytes) : ∃ text, encode text = bytes := by
  induction length : bytes.length using Nat.strong_induction_on generalizing v bytes with
  | _ n ih =>
    by_cases empty : bytes = []
    · exact ⟨[], empty.symm⟩
    · obtain ⟨char, number, rest, w, rfl, form, state, after⟩ :=
        completes_first accept empty completes
      obtain ⟨c, _, rfl⟩ := char_of_form form
      have shorter : rest.length < n := by
        have some : octets c ≠ [] := by
          intro none
          rw [none] at form
          cases form
        have positive := List.length_pos_of_ne_nil some
        rw [List.length_append] at length
        omega
      obtain ⟨text, same⟩ := ih rest.length shorter state after rfl
      exact ⟨c :: text, by rw [encode, List.flatMap_cons, ← same]; rfl⟩

theorem completes_more {after : Nat} {rest : List Byte} (fits : Fits v b after)
    (completes : ∀ w : Validator, w.state = after → Completes w rest) :
    Completes v (b :: rest) := by
  have state := consume_inside (b := b) fits.inside fits.known
  rw [if_pos ⟨fits.low, fits.high⟩, fits.after] at state
  have going : (v.consume b).state ≠ utf8Reject := by
    have table : ∀ s : Fin 9, (expected s.val).2.2 ≠ 1 := by decide
    rw [state, ← fits.after]
    exact table ⟨v.state, fits.known⟩
  unfold Completes
  rw [Validator.decode, if_neg going]
  exact completes _ state

/-- From every state that has not refused, some bytes lead back between characters. -/
theorem completable (known : v.state < 9) (going : v.state ≠ 1) : ∃ more, Completes v more := by
  have last : ∀ w : Validator, w.state = 2 → Completes w [0x80] := fun w state =>
    completes_more (fits_last state ⟨by decide, by decide⟩) fun u ends => ⟨rfl, ends⟩
  have middle : ∀ w : Validator, w.state = 3 → Completes w [0x80, 0x80] := fun w state =>
    completes_more (fits_middle state ⟨by decide, by decide⟩) last
  have states : v.state = 0 ∨ v.state = 2 ∨ v.state = 3 ∨ v.state = 4 ∨ v.state = 5 ∨
      v.state = 6 ∨ v.state = 7 ∨ v.state = 8 := by omega
  rcases states with s | s | s | s | s | s | s | s
  · exact ⟨[], rfl, s⟩
  · exact ⟨_, last v s⟩
  · exact ⟨_, middle v s⟩
  · exact ⟨_, completes_more (b := 0xA0)
      (fits_known s (by decide) (by decide) rfl (by decide) (by decide)) last⟩
  · exact ⟨_, completes_more (b := 0x80)
      (fits_known s (by decide) (by decide) rfl (by decide) (by decide)) last⟩
  · exact ⟨_, completes_more (b := 0x90)
      (fits_known s (by decide) (by decide) rfl (by decide) (by decide)) middle⟩
  · exact ⟨_, completes_more (b := 0x80)
      (fits_known s (by decide) (by decide) rfl (by decide) (by decide)) middle⟩
  · exact ⟨_, completes_more (b := 0x80)
      (fits_known s (by decide) (by decide) rfl (by decide) (by decide)) middle⟩

theorem decode_refused {rest : List Byte} (refused : (v.consume b).state = utf8Reject) :
    v.decode (b :: rest) = (false, v.consume b) := if_pos refused

theorem decode_goes {rest : List Byte} (going : (v.consume b).state ≠ utf8Reject) :
    v.decode (b :: rest) = (v.consume b).decode rest := if_neg going

/-- Pieces of text: where the first leaves off the second goes on. -/
theorem decode_append (xs ys : List Byte) : v.decode (xs ++ ys) =
    if (v.decode xs).1 = true then (v.decode xs).2.decode ys else v.decode xs := by
  induction xs generalizing v with
  | nil => rfl
  | cons x xs ih =>
    rw [List.cons_append]
    by_cases refused : (v.consume x).state = utf8Reject
    · rw [decode_refused refused, decode_refused refused]
      rfl
    · rw [decode_goes refused, decode_goes refused, ih]

theorem next_known (state : Nat) (known : state < 9) (type : Nat) (small : type < 12) :
    next state type < 9 := by
  have table : ∀ s : Fin 9, ∀ t : Fin 12, next s.val t.val < 9 := by decide
  exact table ⟨state, known⟩ ⟨type, small⟩

theorem decode_known {bytes : List Byte} (known : v.state < 9) (going : v.state ≠ utf8Reject)
    (read : (v.decode bytes).1 = true) :
    (v.decode bytes).2.state < 9 ∧ (v.decode bytes).2.state ≠ utf8Reject := by
  induction bytes generalizing v with
  | nil => exact ⟨known, going⟩
  | cons b bytes ih =>
    by_cases refused : (v.consume b).state = utf8Reject
    · rw [decode_refused refused] at read
      contradiction
    · rw [decode_goes refused] at read ⊢
      have known₂ : (v.consume b).state < 9 := by
        rw [consume_state known]
        exact next_known _ known _ (type_small ⟨b.toNat, b.isLt⟩)
      exact ih known₂ refused read

/-- A validator between characters accepts exactly the texts. -/
theorem completes_iff {bytes : List Byte} (accept : v.state = 0) :
    Completes v bytes ↔ ∃ text, encode text = bytes := by
  constructor
  · exact completes_text accept
  · rintro ⟨text, rfl⟩
    obtain ⟨w, goes, state⟩ := reads_text text accept
    rw [Completes, goes_decode goes]
    exact ⟨rfl, state⟩

/-- It goes on exactly as long as what it has read begins a text. -/
theorem decode_iff {bytes : List Byte} (accept : v.state = 0) :
    (v.decode bytes).1 = true ↔ ∃ more text, encode text = bytes ++ more := by
  constructor
  · intro read
    obtain ⟨known, going⟩ := decode_known (by omega) (by rw [accept]; decide) read
    obtain ⟨more, completes⟩ := completable known going
    refine ⟨more, (completes_iff accept).mp ?_⟩
    rw [Completes, decode_append, if_pos read]
    exact completes
  · rintro ⟨more, text, same⟩
    obtain ⟨read, _⟩ := (completes_iff accept).mpr ⟨text, same⟩
    rw [decode_append] at read
    split at read
    · assumption
    · exact read

/-- validate accepts exactly the encodings of lists of characters; a validator that reads its
    text in pieces refuses at the first byte after which no text can begin so; and after the
    last byte of a character it holds that character's number. -/
theorem validator_exact :
    (∀ s, validate s = true ↔ ∃ text, encode text = s) ∧
      (∀ bytes, (Validator.fresh.decode bytes).1 = true ↔
        ∃ more text, encode text = bytes ++ more) ∧
      (∀ xs ys, Validator.fresh.decode (xs ++ ys) =
        if (Validator.fresh.decode xs).1 = true then (Validator.fresh.decode xs).2.decode ys
        else Validator.fresh.decode xs) ∧
      ∀ (text : List Char) (c : Char), ∃ w, Validator.fresh.decode (encode (text ++ [c])) =
        (true, w) ∧ w.complete = true ∧ w.codepoint.toNat = c.toNat := by
  refine ⟨?_, fun bytes => decode_iff rfl, decode_append, ?_⟩
  · intro s
    rw [← completes_iff (v := .fresh) rfl, Completes, validate]
    dsimp only
    cases (Validator.fresh.decode s).1 with
    | false => simp
    | true =>
      simp only [Bool.not_true, Bool.false_eq_true, ↓reduceIte, true_and]
      exact decide_eq_true_iff
  · intro text c
    obtain ⟨w, goes, state⟩ := reads_text (v := .fresh) text rfl
    obtain ⟨u, goes₂, state₂, number⟩ := reads_form (form_of_char c) state
    have whole : encode (text ++ [c]) = encode text ++ octets c := by
      simp [encode]
    refine ⟨u, ?_, decide_eq_true state₂, number⟩
    rw [whole]
    exact goes_decode (goes_more goes goes₂)

end Utf8Validator

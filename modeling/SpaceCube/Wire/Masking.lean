import SpaceCube.Library.Keystream
import SpaceCube.Library.MachineWord

/- How websocketpp masks payloads: byte by byte, word by word, and piecewise with a
   prepared key that is shifted around between the pieces. -/
namespace Masking
open MachineWord

/-- The word size must be 4 or 8. -/
structure Machine where
  order : ByteOrder
  sizeT : Nat
  supported : sizeT = 4 ∨ sizeT = 8

abbrev Machine.Word (m : Machine) := BitVec (8 * m.sizeT)

abbrev MaskingKey := BitVec 32

variable (m : Machine)

/-- The byte array of the union that a masking key is. -/
def c (key : MaskingKey) (i : Nat) : Byte := byteAt m.order 4 key i

def prepareMaskingKey (key : MaskingKey) : m.Word :=
  let lowBits : m.Word := key.setWidth _
  if m.sizeT = 8 then (lowBits <<< 32) ||| lowBits else lowBits

def circshiftPreparedKey (preparedKey : m.Word) (offset : Nat) : m.Word :=
  if offset = 0 then preparedKey
  else match m.order with
    | .little =>
      let temp := preparedKey <<< ((m.sizeT - offset) * 8)
      (preparedKey >>> (offset * 8)) ||| temp
    | .big =>
      let temp := preparedKey >>> ((m.sizeT - offset) * 8)
      (preparedKey <<< (offset * 8)) ||| temp

def byteMaskFrom (key : MaskingKey) : Nat → List Byte → List Byte
  | _, [] => []
  | keyIndex, x :: xs => (x ^^^ c m key keyIndex) :: byteMaskFrom key ((keyIndex + 1) % 4) xs

def byteMask (key : MaskingKey) (keyOffset : Nat) (input : List Byte) : List Byte :=
  byteMaskFrom m key (keyOffset % 4) input

/-- The loop over whole words: each is read from the buffer, masked and written back. -/
def maskWords (preparedKey : m.Word) : Nat → List Byte → List Byte
  | 0, _ => []
  | n + 1, input =>
    let word := ofBytes m.order (8 * m.sizeT) (input.take m.sizeT) ^^^ preparedKey
    toBytes m.order m.sizeT word ++ maskWords preparedKey n (input.drop m.sizeT)

def wordMaskExact (key : MaskingKey) (input : List Byte) : List Byte :=
  let n := input.length / m.sizeT
  maskWords m (prepareMaskingKey m key) n input ++
    (input.drop (n * m.sizeT)).mapIdx fun i x => x ^^^ c m key ((n * m.sizeT + i) % 4)

/-- The masked buffer and the key for what follows it. -/
def wordMaskCirc (preparedKey : m.Word) (input : List Byte) : List Byte × m.Word :=
  let n := input.length / m.sizeT
  let l := input.length - n * m.sizeT
  (maskWords m preparedKey n input ++
      (input.drop (input.length - l)).mapIdx fun i x =>
        x ^^^ byteAt m.order m.sizeT preparedKey i,
    circshiftPreparedKey m preparedKey l)

def byteMaskCirc (preparedKey : m.Word) (input : List Byte) : List Byte × m.Word :=
  let key : MaskingKey := preparedKey.setWidth 32
  (input.mapIdx fun i x => x ^^^ c m key (i % 4),
    circshiftPreparedKey m preparedKey (input.length % 4))

/-- Masking as an operation on the payload alone: byte i meets byte i mod 4 of the key. -/
def masked (key : MaskingKey) (start : Nat) (input : List Byte) : List Byte :=
  Keystream.applyFrom (· ^^^ ·) (fun i => c m key (i % 4)) start input

/-- A prepared key that stands at a place of the stream. -/
def StandsAt (key : MaskingKey) (start : Nat) (preparedKey : m.Word) : Prop :=
  ∀ i < m.sizeT, byteAt m.order m.sizeT preparedKey i = c m key ((start + i) % 4)

variable {m} {key : MaskingKey} {start : Nat} {preparedKey : m.Word}

theorem size_pos : 0 < m.sizeT := by
  rcases m.supported with four | eight
  · omega
  · omega

theorem four_divides (m : Machine) : 4 ∣ m.sizeT := by
  rcases m.supported with four | eight
  · exact ⟨1, four⟩
  · exact ⟨2, eight⟩

/-- The prepared key repeats the masking key over the whole word. -/
theorem prepared_bit (m : Machine) (key : MaskingKey) {q : Nat} (below : q < 8 * m.sizeT) :
    (prepareMaskingKey m key).getLsbD q = key.getLsbD (q % 32) := by
  have wide : ∀ p, 32 ≤ p → key.getLsbD p = false := fun p beyond =>
    BitVec.getLsbD_of_ge key p beyond
  unfold prepareMaskingKey
  split
  · rename_i eight
    by_cases low : q < 32
    · simp [low, below, Nat.mod_eq_of_lt low]
    · have high : q % 32 = q - 32 := by omega
      simp [low, below, high, wide q (by omega)]
  · have four := m.supported
    rw [Nat.mod_eq_of_lt (by omega)]
    simp [below]

/-- Bit j of byte i of a word of n bytes, for words of four bytes and their multiples. -/
theorem place_bit (order : ByteOrder) {n i j : Nat} (below : i < n) (bit : j < 8) (four : 4 ∣ n) :
    (8 * order.place n i + j) % 32 = 8 * order.place 4 (i % 4) + j := by
  cases order with
  | little =>
    simp only [ByteOrder.place]
    omega
  | big =>
    simp only [ByteOrder.place]
    omega

theorem prepared_stands (m : Machine) (key : MaskingKey) :
    StandsAt m key 0 (prepareMaskingKey m key) := by
  intro i below
  have inside := place_below m.order below
  refine BitVec.eq_of_getLsbD_eq fun j bit => ?_
  simp only [byteAt, c, BitVec.getLsbD_extractLsb', bit, decide_true, Bool.true_and, Nat.zero_add]
  rw [prepared_bit m key (by omega), place_bit m.order below bit (four_divides m)]

/-- A shift by fewer bytes than the word has turns the word around by that many bytes. -/
theorem circshift_byte (preparedKey : m.Word) {offset i : Nat} (short : offset < m.sizeT)
    (below : i < m.sizeT) :
    byteAt m.order m.sizeT (circshiftPreparedKey m preparedKey offset) i =
      byteAt m.order m.sizeT preparedKey ((offset + i) % m.sizeT) := by
  have beyond : ∀ p, 8 * m.sizeT ≤ p → preparedKey.getLsbD p = false :=
    fun p large => BitVec.getLsbD_of_ge preparedKey p large
  have round : (offset + i) % m.sizeT =
      if offset + i < m.sizeT then offset + i else offset + i - m.sizeT := by
    split
    · rename_i small
      exact Nat.mod_eq_of_lt small
    · rw [Nat.mod_eq_sub_mod (by omega), Nat.mod_eq_of_lt (by omega)]
  refine BitVec.eq_of_getLsbD_eq fun j bit => ?_
  unfold circshiftPreparedKey
  split
  · rename_i none
    rw [none, Nat.zero_add, Nat.mod_eq_of_lt below]
  · simp only [byteAt, BitVec.getLsbD_extractLsb', bit, decide_true, Bool.true_and, round]
    cases m.order with
    | little =>
      simp only [ByteOrder.place, BitVec.getLsbD_or, BitVec.getLsbD_ushiftRight,
        BitVec.getLsbD_shiftLeft]
      split
      · have early : 8 * i + j < (m.sizeT - offset) * 8 := by omega
        simp only [early, decide_true, Bool.not_true, Bool.and_false, Bool.false_and, Bool.or_false]
        congr 1
        omega
      · have late : ¬ 8 * i + j < (m.sizeT - offset) * 8 := by omega
        have inside : 8 * i + j < 8 * m.sizeT := by omega
        simp only [late, inside, beyond (offset * 8 + (8 * i + j)) (by omega), decide_true,
          decide_false, Bool.not_false, Bool.true_and, Bool.false_or]
        congr 1
        omega
    | big =>
      simp only [ByteOrder.place, BitVec.getLsbD_or, BitVec.getLsbD_ushiftRight,
        BitVec.getLsbD_shiftLeft]
      split
      · have late : ¬ 8 * (m.sizeT - 1 - i) + j < offset * 8 := by omega
        have inside : 8 * (m.sizeT - 1 - i) + j < 8 * m.sizeT := by omega
        simp only [late, inside, beyond ((m.sizeT - offset) * 8 + (8 * (m.sizeT - 1 - i) + j))
          (by omega), decide_true, decide_false, Bool.not_false, Bool.true_and, Bool.or_false]
        congr 1
        omega
      · have early : 8 * (m.sizeT - 1 - i) + j < offset * 8 := by omega
        simp only [early, decide_true, Bool.not_true, Bool.and_false, Bool.false_and,
          Bool.false_or]
        congr 1
        omega

theorem circshift_stands (stands : StandsAt m key start preparedKey) {offset : Nat}
    (short : offset < m.sizeT) :
    StandsAt m key (start + offset) (circshiftPreparedKey m preparedKey offset) := by
  intro i below
  have four := four_divides m
  have period : (start + (offset + i) % m.sizeT) % 4 = (start + offset + i) % 4 := by
    rw [Nat.add_mod, Nat.mod_mod_of_dvd _ four, ← Nat.add_mod, Nat.add_assoc]
  rw [circshift_byte preparedKey short below, stands _ (Nat.mod_lt _ size_pos), period]

/-- The key at a place of the stream is the same four bytes further on. -/
theorem stands_period (stands : StandsAt m key start preparedKey) (n : Nat) :
    StandsAt m key (start + n * 4) preparedKey := by
  intro i below
  rw [stands i below, show (start + n * 4 + i) % 4 = (start + i) % 4 by omega]

/-- The four bytes that byte_mask_circ masks with are four bytes of the prepared key. -/
theorem low_bytes (m : Machine) (preparedKey : m.Word) {i : Nat} (below : i < 4) :
    ∃ q < m.sizeT, q % 4 = i ∧
      c m (preparedKey.setWidth 32) i = byteAt m.order m.sizeT preparedKey q := by
  have supported := m.supported
  have same : ∀ p q : Nat, p = q → 8 * p + 8 ≤ 32 →
      (preparedKey.setWidth 32).extractLsb' (8 * p) 8 = preparedKey.extractLsb' (8 * q) 8 := by
    intro p q equal low
    subst equal
    refine BitVec.eq_of_getLsbD_eq fun j bit => ?_
    simp [bit, show 8 * p + j < 32 by omega]
  cases order : m.order with
  | little =>
    refine ⟨i, by omega, Nat.mod_eq_of_lt below, ?_⟩
    rw [c, order]
    exact same _ _ rfl (by simp only [ByteOrder.place]; omega)
  | big =>
    refine ⟨m.sizeT - 4 + i, by omega, by omega, ?_⟩
    rw [c, order]
    refine same _ _ ?_ (by simp only [ByteOrder.place]; omega)
    simp only [ByteOrder.place]
    omega

theorem masked_get (m : Machine) (key : MaskingKey) (start : Nat) (input : List Byte) (i : Nat) :
    (masked m key start input)[i]? = input[i]?.map (· ^^^ c m key ((start + i) % 4)) :=
  Keystream.applyFrom_get _ _ start input i

theorem masked_append (m : Machine) (key : MaskingKey) (start : Nat) (xs ys : List Byte) :
    masked m key start (xs ++ ys) =
      masked m key start xs ++ masked m key (start + xs.length) ys :=
  Keystream.applyFrom_append _ _ start xs ys

theorem masked_length (m : Machine) (key : MaskingKey) (start : Nat) (input : List Byte) :
    (masked m key start input).length = input.length :=
  Keystream.applyFrom_length _ _ start input

theorem masked_twice (m : Machine) (key : MaskingKey) (start : Nat) (input : List Byte) :
    masked m key start (masked m key start input) = input :=
  Keystream.applyFrom_twice (fun x k => by rw [BitVec.xor_assoc, BitVec.xor_self,
    BitVec.xor_zero]) start input

theorem masked_mod (m : Machine) (key : MaskingKey) (start : Nat) (input : List Byte) :
    masked m key (start % 4) input = masked m key start input := by
  refine Keystream.applyFrom_congr fun i _ => ?_
  rw [Nat.mod_add_mod]

/-- Bytes masked by place, with a list of key bytes that agrees with the stream there. -/
theorem mapIdx_masked {input : List Byte} {bytes : Nat → Byte}
    (same : ∀ i < input.length, bytes i = c m key ((start + i) % 4)) :
    (input.mapIdx fun i x => x ^^^ bytes i) = masked m key start input := by
  refine List.ext_getElem? fun i => ?_
  rw [masked_get, List.getElem?_mapIdx]
  by_cases below : i < input.length
  · rw [same i below]
  · rw [List.getElem?_eq_none (by omega)]
    rfl

theorem byteMaskFrom_masked (m : Machine) (key : MaskingKey) (keyIndex : Nat) (small : keyIndex < 4)
    (input : List Byte) : byteMaskFrom m key keyIndex input = masked m key keyIndex input := by
  induction input generalizing keyIndex with
  | nil => rfl
  | cons x xs ih =>
    rw [byteMaskFrom, ih _ (Nat.mod_lt _ (by decide)), masked_mod]
    simp only [masked, Keystream.applyFrom, Nat.mod_eq_of_lt small]

theorem byteMask_masked (m : Machine) (key : MaskingKey) (keyOffset : Nat) (input : List Byte) :
    byteMask m key keyOffset input = masked m key keyOffset input := by
  rw [byteMask, byteMaskFrom_masked m key _ (Nat.mod_lt _ (by decide)), masked_mod]

theorem byteMaskCirc_masked (stands : StandsAt m key start preparedKey) (input : List Byte) :
    (byteMaskCirc m preparedKey input).1 = masked m key start input ∧
      StandsAt m key (start + input.length) (byteMaskCirc m preparedKey input).2 := by
  constructor
  · refine mapIdx_masked fun i _ => ?_
    obtain ⟨q, inside, place, bytes⟩ := low_bytes m preparedKey (Nat.mod_lt i (by decide : 4 > 0))
    rw [bytes, stands q inside, show (start + q) % 4 = (start + i) % 4 by omega]
  · have short : input.length % 4 < m.sizeT := by
      have supported := m.supported
      omega
    have moved := stands_period (circshift_stands stands short) (input.length / 4)
    rwa [show start + input.length % 4 + input.length / 4 * 4 = start + input.length by omega]
      at moved

/-- One whole word read, masked and written back is its bytes masked. -/
theorem word_masked (stands : StandsAt m key start preparedKey) {input : List Byte}
    (sized : input.length = m.sizeT) :
    toBytes m.order m.sizeT (ofBytes m.order (8 * m.sizeT) input ^^^ preparedKey) =
      masked m key start input := by
  refine List.ext_getElem? fun i => ?_
  rw [masked_get]
  by_cases below : i < m.sizeT
  · have short : i < input.length := by omega
    have here : input[i]? = some input[i] := List.getElem?_eq_getElem short
    rw [toBytes_get _ _ _ below, byteAt_xor, byteAt_ofBytes m.order sized rfl here,
      stands i below, here]
    rfl
  · rw [List.getElem?_eq_none (by rw [toBytes_length]; omega),
      List.getElem?_eq_none (by omega)]
    rfl

theorem stands_word (stands : StandsAt m key start preparedKey) :
    StandsAt m key (start + m.sizeT) preparedKey := by
  obtain ⟨q, size⟩ := four_divides m
  have moved := stands_period stands q
  rwa [show start + q * 4 = start + m.sizeT by omega] at moved

theorem maskWords_masked (stands : StandsAt m key start preparedKey) {n : Nat}
    {input : List Byte} (enough : n * m.sizeT ≤ input.length) :
    maskWords m preparedKey n input = masked m key start (input.take (n * m.sizeT)) := by
  induction n generalizing start input with
  | zero => simp [maskWords, masked, Keystream.applyFrom]
  | succ n ih =>
    rw [Nat.succ_mul] at enough ⊢
    have first : (input.take m.sizeT).length = m.sizeT := by
      rw [List.length_take]
      omega
    have rest : n * m.sizeT ≤ (input.drop m.sizeT).length := by
      rw [List.length_drop]
      omega
    have cut : input.take (n * m.sizeT + m.sizeT) =
        input.take m.sizeT ++ (input.drop m.sizeT).take (n * m.sizeT) := by
      rw [Nat.add_comm, List.take_add]
    rw [maskWords, word_masked stands first, ih (stands_word stands) rest, cut, masked_append,
      first]

theorem stands_words (stands : StandsAt m key start preparedKey) (n : Nat) :
    StandsAt m key (start + n * m.sizeT) preparedKey := by
  obtain ⟨q, size⟩ := four_divides m
  have moved := stands_period stands (n * q)
  rwa [Nat.mul_assoc, Nat.mul_comm q 4, ← size] at moved

theorem whole_words (m : Machine) (length : Nat) : length / m.sizeT * m.sizeT ≤ length :=
  Nat.div_mul_le_self length m.sizeT

theorem wordMaskCirc_masked (stands : StandsAt m key start preparedKey) (input : List Byte) :
    (wordMaskCirc m preparedKey input).1 = masked m key start input ∧
      StandsAt m key (start + input.length) (wordMaskCirc m preparedKey input).2 := by
  have whole := whole_words m input.length
  have partly : input.length - input.length / m.sizeT * m.sizeT < m.sizeT := by
    have digit := Nat.mod_lt input.length (size_pos (m := m))
    have parts := Nat.div_add_mod' input.length m.sizeT
    omega
  have standing := stands_words stands (input.length / m.sizeT)
  constructor
  · have first : (input.take (input.length / m.sizeT * m.sizeT)).length =
        input.length / m.sizeT * m.sizeT := by
      rw [List.length_take]
      omega
    have split := masked_append m key start (input.take (input.length / m.sizeT * m.sizeT))
      (input.drop (input.length / m.sizeT * m.sizeT))
    rw [List.take_append_drop, first] at split
    rw [wordMaskCirc, split]
    dsimp only
    rw [Nat.sub_sub_self whole, maskWords_masked stands whole]
    congr 1
    refine mapIdx_masked fun i below => ?_
    rw [List.length_drop] at below
    exact standing i (by omega)
  · have shifted := circshift_stands standing partly
    rwa [Nat.add_assoc, Nat.add_sub_cancel' whole] at shifted

theorem wordMaskExact_masked (m : Machine) (key : MaskingKey) (input : List Byte) :
    wordMaskExact m key input = masked m key 0 input := by
  have whole := whole_words m input.length
  have first : (input.take (input.length / m.sizeT * m.sizeT)).length =
      input.length / m.sizeT * m.sizeT := by
    rw [List.length_take]
    omega
  have split := masked_append m key 0 (input.take (input.length / m.sizeT * m.sizeT))
    (input.drop (input.length / m.sizeT * m.sizeT))
  rw [List.take_append_drop, first, Nat.zero_add] at split
  rw [wordMaskExact, split, maskWords_masked (prepared_stands m key) whole]
  congr 1
  exact mapIdx_masked fun i _ => rfl

/-- A piece of a payload and the circular function that masks it. -/
inductive Piece where
  | bytes (input : List Byte)
  | words (input : List Byte)

def Piece.input : Piece → List Byte
  | .bytes input => input
  | .words input => input

def Piece.mask (preparedKey : m.Word) : Piece → List Byte × m.Word
  | .bytes input => byteMaskCirc m preparedKey input
  | .words input => wordMaskCirc m preparedKey input

/-- A payload masked in pieces, each with the key that the one before it returned. -/
def maskPieces (preparedKey : m.Word) : List Piece → List Byte
  | [] => []
  | piece :: rest => (piece.mask preparedKey).1 ++ maskPieces (piece.mask preparedKey).2 rest

def content (pieces : List Piece) : List Byte := pieces.flatMap Piece.input

theorem piece_masked (stands : StandsAt m key start preparedKey) (piece : Piece) :
    (piece.mask preparedKey).1 = masked m key start piece.input ∧
      StandsAt m key (start + piece.input.length) (piece.mask preparedKey).2 := by
  cases piece with
  | bytes input => exact byteMaskCirc_masked stands input
  | words input => exact wordMaskCirc_masked stands input

theorem pieces_masked (stands : StandsAt m key start preparedKey) (pieces : List Piece) :
    maskPieces preparedKey pieces = masked m key start (content pieces) := by
  induction pieces generalizing start preparedKey with
  | nil => rfl
  | cons piece rest ih =>
    obtain ⟨bytes, moved⟩ := piece_masked stands piece
    have whole : content (piece :: rest) = piece.input ++ content rest := List.flatMap_cons
    rw [maskPieces, bytes, ih moved, whole, masked_append]

/-- However a payload is cut and whichever circular function masks each piece, the result is
    that of masking it byte by byte, of masking it by exact words, and of masking its parts
    at their offsets; and masking the result again, cut in any other way, restores it. -/
theorem masking_agrees (m : Machine) (key : MaskingKey) (pieces : List Piece) :
    maskPieces (prepareMaskingKey m key) pieces = byteMask m key 0 (content pieces) ∧
      wordMaskExact m key (content pieces) = byteMask m key 0 (content pieces) ∧
      (∀ xs ys, content pieces = xs ++ ys →
        byteMask m key 0 (content pieces) =
          byteMask m key 0 xs ++ byteMask m key xs.length ys) ∧
      ∀ pieces', content pieces' = maskPieces (prepareMaskingKey m key) pieces →
        maskPieces (prepareMaskingKey m key) pieces' = content pieces := by
  have prepared := prepared_stands m key
  have streamed : ∀ pieces, maskPieces (prepareMaskingKey m key) pieces =
      masked m key 0 (content pieces) := pieces_masked prepared
  refine ⟨?_, ?_, ?_, ?_⟩
  · rw [streamed, byteMask_masked]
  · rw [wordMaskExact_masked, byteMask_masked]
  · intro xs ys cut
    rw [cut, byteMask_masked, byteMask_masked, byteMask_masked, masked_append, Nat.zero_add]
  · intro pieces' same
    rw [streamed, same, streamed, masked_twice]

/-- A text of five bytes under the key with bytes 37 fa 21 3d. -/
example : byteMask ⟨.little, 8, .inr rfl⟩ 0x3d21fa37 0 [0x48, 0x65, 0x6c, 0x6c, 0x6f] =
    [0x7f, 0x9f, 0x4d, 0x51, 0x58] := by decide

end Masking

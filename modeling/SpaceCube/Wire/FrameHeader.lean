import Mathlib.Data.Fintype.Basic
import SpaceCube.Wire.Masking

/- The header of a frame: the two bytes every frame begins with, the extended part that
   holds a long payload size and the masking key, and the functions that write and read
   their fields. -/
namespace FrameHeader
open MachineWord Masking

inductive Opcode where
  | continuation
  | text
  | binary
  | rsv3
  | rsv4
  | rsv5
  | rsv6
  | rsv7
  | close
  | ping
  | pong
  | controlRsvb
  | controlRsvc
  | controlRsvd
  | controlRsve
  | controlRsvf
  deriving DecidableEq

def Opcode.value : Opcode → Byte
  | .continuation => 0x0
  | .text => 0x1
  | .binary => 0x2
  | .rsv3 => 0x3
  | .rsv4 => 0x4
  | .rsv5 => 0x5
  | .rsv6 => 0x6
  | .rsv7 => 0x7
  | .close => 0x8
  | .ping => 0x9
  | .pong => 0xA
  | .controlRsvb => 0xB
  | .controlRsvc => 0xC
  | .controlRsvd => 0xD
  | .controlRsve => 0xE
  | .controlRsvf => 0xF

/-- The cast of four bits to an opcode. -/
def Opcode.cast (bits : Byte) : Opcode :=
  match bits.toNat with
  | 0x0 => .continuation
  | 0x1 => .text
  | 0x2 => .binary
  | 0x3 => .rsv3
  | 0x4 => .rsv4
  | 0x5 => .rsv5
  | 0x6 => .rsv6
  | 0x7 => .rsv7
  | 0x8 => .close
  | 0x9 => .ping
  | 0xA => .pong
  | 0xB => .controlRsvb
  | 0xC => .controlRsvc
  | 0xD => .controlRsvd
  | 0xE => .controlRsve
  | _ => .controlRsvf

def Opcode.reserved (v : Opcode) : Bool :=
  (Opcode.rsv3.value ≤ v.value && v.value ≤ Opcode.rsv7.value) ||
    (Opcode.controlRsvb.value ≤ v.value && v.value ≤ Opcode.controlRsvf.value)

/-- No opcode is negative. -/
def Opcode.invalid (v : Opcode) : Bool := 0xF < v.value

def Opcode.isControl (v : Opcode) : Bool := 0x8 ≤ v.value

def basicHeaderLength : Nat := 2
def maxExtendedHeaderLength : Nat := 12
def payloadSizeBasic : Nat := 125
def payloadSizeExtended : Nat := 0xFFFF

def bhb0Opcode : Byte := 0x0F
def bhb0Rsv3 : Byte := 0x10
def bhb0Rsv2 : Byte := 0x20
def bhb0Rsv1 : Byte := 0x40
def bhb0Fin : Byte := 0x80
def bhb1Payload : Byte := 0x7F
def bhb1Mask : Byte := 0x80
def payloadSizeCode16bit : Byte := 0x7E
def payloadSizeCode64bit : Byte := 0x7F

structure BasicHeader where
  b0 : Byte
  b1 : Byte
  deriving DecidableEq

structure ExtendedHeader where
  bytes : List Byte
  deriving DecidableEq

def firstByte (op : Opcode) (fin rsv1 rsv2 rsv3 : Bool) : Byte :=
  let b0 : Byte := 0x00
  let b0 := if fin then b0 ||| bhb0Fin else b0
  let b0 := if rsv1 then b0 ||| bhb0Rsv1 else b0
  let b0 := if rsv2 then b0 ||| bhb0Rsv2 else b0
  let b0 := if rsv3 then b0 ||| bhb0Rsv3 else b0
  b0 ||| (op.value &&& bhb0Opcode)

def basicValue (size : Nat) : Byte :=
  if size ≤ payloadSizeBasic then BitVec.ofNat 8 size
  else if size ≤ payloadSizeExtended then payloadSizeCode16bit
  else payloadSizeCode64bit

def secondByte (basic : Byte) (mask : Bool) : Byte :=
  let b1 : Byte := 0x00
  let b1 := if mask then b1 ||| bhb1Mask else b1
  b1 ||| basic

def BasicHeader.make (op : Opcode) (size : Nat) (fin mask : Bool)
    (rsv1 rsv2 rsv3 : Bool := false) : BasicHeader :=
  ⟨firstByte op fin rsv1 rsv2 rsv3, secondByte (basicValue size) mask⟩

/-- The array with the bytes of source copied in at an offset. -/
def copyAt (bytes : List Byte) (offset : Nat) (source : List Byte) : List Byte :=
  bytes.take offset ++ source ++ bytes.drop (offset + source.length)

def ExtendedHeader.zero : ExtendedHeader := ⟨List.replicate maxExtendedHeaderLength 0x00⟩

variable (m : Machine)

/-- The header with the size copied in, and where the masking key goes. -/
def ExtendedHeader.copyPayload (e : ExtendedHeader) (payloadSize : Nat) : ExtendedHeader × Nat :=
  let payloadOffset :=
    if payloadSize ≤ payloadSizeBasic then 8
    else if payloadSize ≤ payloadSizeExtended then 6 else 0
  let temp64 := toNetwork m.order 8 (BitVec.ofNat 64 payloadSize)
  (⟨copyAt e.bytes 0 ((toBytes m.order 8 temp64).drop payloadOffset)⟩, 8 - payloadOffset)

def ExtendedHeader.ofSize (payloadSize : Nat) : ExtendedHeader :=
  (ExtendedHeader.zero.copyPayload m payloadSize).1

def ExtendedHeader.ofSizeKey (payloadSize : Nat) (maskingKey : MaskingKey) : ExtendedHeader :=
  let (e, offset) := ExtendedHeader.zero.copyPayload m payloadSize
  ⟨copyAt e.bytes offset (toBytes m.order 4 maskingKey)⟩

def getFin (h : BasicHeader) : Bool := h.b0 &&& bhb0Fin == bhb0Fin
def getRsv1 (h : BasicHeader) : Bool := h.b0 &&& bhb0Rsv1 == bhb0Rsv1
def getRsv2 (h : BasicHeader) : Bool := h.b0 &&& bhb0Rsv2 == bhb0Rsv2
def getRsv3 (h : BasicHeader) : Bool := h.b0 &&& bhb0Rsv3 == bhb0Rsv3
def getOpcode (h : BasicHeader) : Opcode := .cast (h.b0 &&& bhb0Opcode)
def getMasked (h : BasicHeader) : Bool := h.b1 &&& bhb1Mask == bhb1Mask
def getBasicSize (h : BasicHeader) : Byte := h.b1 &&& bhb1Payload

def getMaskingKeyOffset (h : BasicHeader) : Nat :=
  if getBasicSize h = payloadSizeCode16bit then 2
  else if getBasicSize h = payloadSizeCode64bit then 8
  else 0

def getHeaderLen (h : BasicHeader) : Nat :=
  let size := basicHeaderLength + getMaskingKeyOffset h
  if getMasked h then size + 4 else size

def prepareHeader (h : BasicHeader) (e : ExtendedHeader) : List Byte :=
  [h.b0, h.b1] ++ e.bytes.take (getHeaderLen h - basicHeaderLength)

def getMaskingKey (h : BasicHeader) (e : ExtendedHeader) : MaskingKey :=
  if getMasked h then ofBytes m.order 32 ((e.bytes.drop (getMaskingKeyOffset h)).take 4) else 0

def getExtendedSize (e : ExtendedHeader) : Nat :=
  (toNetwork m.order 2 (ofBytes m.order 16 (e.bytes.take 2))).toNat

def getJumboSize (e : ExtendedHeader) : Nat :=
  (toNetwork m.order 8 (ofBytes m.order 64 (e.bytes.take 8))).toNat

def getPayloadSize (h : BasicHeader) (e : ExtendedHeader) : Nat :=
  let val := getBasicSize h
  if val.toNat ≤ payloadSizeBasic then val.toNat
  else if val = payloadSizeCode16bit then getExtendedSize m e
  else getJumboSize m e

theorem cast_value (op : Opcode) : Opcode.cast op.value = op := by
  cases op <;> rfl

/-- The flags and the opcode that the first byte was made of. -/
structure FirstByte (b0 : Byte) (op : Opcode) (fin rsv1 rsv2 rsv3 : Bool) : Prop where
  opcode : b0 &&& bhb0Opcode = op.value
  fin : (b0 &&& bhb0Fin == bhb0Fin) = fin
  rsv1 : (b0 &&& bhb0Rsv1 == bhb0Rsv1) = rsv1
  rsv2 : (b0 &&& bhb0Rsv2 == bhb0Rsv2) = rsv2
  rsv3 : (b0 &&& bhb0Rsv3 == bhb0Rsv3) = rsv3

theorem first_byte_read (op : Opcode) (fin rsv1 rsv2 rsv3 : Bool) :
    FirstByte (firstByte op fin rsv1 rsv2 rsv3) op fin rsv1 rsv2 rsv3 := by
  cases op <;> cases fin <;> cases rsv1 <;> cases rsv2 <;> cases rsv3 <;>
    exact ⟨rfl, rfl, rfl, rfl, rfl⟩

theorem second_byte_read (basic : Byte) (small : basic.toNat < 128) (mask : Bool) :
    (secondByte basic mask &&& bhb1Mask == bhb1Mask) = mask ∧
      secondByte basic mask &&& bhb1Payload = basic := by
  have table : ∀ v : Fin 128, ∀ mask : Bool,
      (secondByte (BitVec.ofNat 8 v.val) mask &&& bhb1Mask == bhb1Mask) = mask ∧
        secondByte (BitVec.ofNat 8 v.val) mask &&& bhb1Payload = BitVec.ofNat 8 v.val := by
    decide
  have read := table ⟨basic.toNat, small⟩ mask
  rwa [BitVec.ofNat_toNat, BitVec.setWidth_eq] at read

/-- Both bytes are made of their own fields. -/
theorem first_byte_made (b0 : Byte) :
    firstByte (.cast (b0 &&& bhb0Opcode)) (b0 &&& bhb0Fin == bhb0Fin)
      (b0 &&& bhb0Rsv1 == bhb0Rsv1) (b0 &&& bhb0Rsv2 == bhb0Rsv2)
      (b0 &&& bhb0Rsv3 == bhb0Rsv3) = b0 := by
  revert b0
  decide

theorem second_byte_made (b1 : Byte) :
    secondByte (b1 &&& bhb1Payload) (b1 &&& bhb1Mask == bhb1Mask) = b1 := by
  revert b1
  decide

theorem basic_value_small (size : Nat) : (basicValue size).toNat < 128 := by
  unfold basicValue payloadSizeBasic
  split
  · rw [BitVec.toNat_ofNat]
    omega
  · split
    · decide
    · decide

/-- How many bytes of the extended header the size takes. -/
def sizeLength (size : Nat) : Nat :=
  if size ≤ payloadSizeBasic then 0 else if size ≤ payloadSizeExtended then 2 else 8

/-- Those bytes, the high end first. -/
def sizeBytes (size : Nat) : List Byte :=
  (toBytes .big 8 (BitVec.ofNat 64 size)).drop (8 - sizeLength size)

def maskBytes (mask : Bool) (key : MaskingKey) : List Byte :=
  if mask then toBytes m.order 4 key else []

theorem size_length_bound (size : Nat) : sizeLength size ≤ 8 := by
  unfold sizeLength
  split
  · omega
  · split
    · omega
    · omega

theorem size_bytes_length (size : Nat) : (sizeBytes size).length = sizeLength size := by
  have bound := size_length_bound size
  rw [sizeBytes, List.length_drop, toBytes_length]
  omega

/-- What the extended header of a size, and of a size and a key, holds. -/
theorem copied_payload (size : Nat) :
    ExtendedHeader.zero.copyPayload m size =
      (⟨sizeBytes size ++ List.replicate (12 - sizeLength size) 0⟩, sizeLength size) := by
  have offset : (if size ≤ payloadSizeBasic then 8
      else if size ≤ payloadSizeExtended then 6 else 0) = 8 - sizeLength size := by
    unfold sizeLength
    split
    · rfl
    · split
      · rfl
      · rfl
  have bound := size_length_bound size
  have bytes := size_bytes_length size
  rw [sizeBytes] at bytes
  simp only [ExtendedHeader.copyPayload, offset, toNetwork_toBytes m.order (n := 8) rfl,
    ExtendedHeader.zero, copyAt, List.take_zero, List.nil_append, Nat.zero_add,
    List.drop_replicate, bytes, maxExtendedHeaderLength, sizeBytes]
  rw [Nat.sub_sub_self bound]

/-- The extended header that goes with a basic header, masked or not. -/
def ExtendedHeader.make (size : Nat) (mask : Bool) (key : MaskingKey) : ExtendedHeader :=
  if mask then .ofSizeKey m size key else .ofSize m size

theorem made_bytes (size : Nat) (mask : Bool) (key : MaskingKey) :
    ∃ rest, (ExtendedHeader.make m size mask key).bytes =
      sizeBytes size ++ maskBytes m mask key ++ rest := by
  have bytes := size_bytes_length size
  unfold ExtendedHeader.make maskBytes
  cases mask with
  | false =>
    refine ⟨List.replicate (12 - sizeLength size) 0, ?_⟩
    simp [ExtendedHeader.ofSize, copied_payload]
  | true =>
    refine ⟨(List.replicate (12 - sizeLength size) 0).drop 4, ?_⟩
    have early : (sizeBytes size ++ List.replicate (12 - sizeLength size) 0).take
        (sizeLength size) = sizeBytes size := List.take_left' bytes
    simp only [ExtendedHeader.ofSizeKey, copied_payload, copyAt, toBytes_length, ↓reduceIte, early]
    rw [← List.drop_drop, List.drop_left' bytes]

/-- The three forms of a size, as the header tells them apart. -/
inductive SizeForm (size : Nat) (basic : Byte) (length : Nat) : Prop where
  | basic (fits : size ≤ 125) (value : basic.toNat = size) (none : length = 0)
  | extended (large : 125 < size) (fits : size ≤ 0xFFFF) (code : basic = payloadSizeCode16bit)
    (two : length = 2)
  | jumbo (large : 0xFFFF < size) (code : basic = payloadSizeCode64bit) (eight : length = 8)

theorem size_form (size : Nat) : SizeForm size (basicValue size) (sizeLength size) := by
  unfold basicValue sizeLength
  split
  · rename_i basic
    have short : size ≤ 125 := basic
    refine .basic short ?_ rfl
    rw [BitVec.toNat_ofNat]
    exact Nat.mod_eq_of_lt (by omega)
  · rename_i large
    have above : 125 < size := Nat.lt_of_not_le large
    split
    · rename_i fits
      exact .extended above fits rfl rfl
    · rename_i jumbo
      exact .jumbo (Nat.lt_of_not_le jumbo) rfl rfl

/-- A byte that is a size is not one of the two codes. -/
theorem basic_no_code {basic : Byte} (small : basic.toNat ≤ 125) :
    basic ≠ payloadSizeCode16bit ∧ basic ≠ payloadSizeCode64bit := by
  constructor
  · rintro rfl
    exact absurd small (by decide)
  · rintro rfl
    exact absurd small (by decide)

variable (op : Opcode) (size : Nat) (fin mask rsv1 rsv2 rsv3 : Bool) (key : MaskingKey)

theorem made_masked : getMasked (.make op size fin mask rsv1 rsv2 rsv3) = mask :=
  (second_byte_read _ (basic_value_small size) mask).1

theorem made_basic_size :
    getBasicSize (.make op size fin mask rsv1 rsv2 rsv3) = basicValue size :=
  (second_byte_read _ (basic_value_small size) mask).2

theorem made_key_offset :
    getMaskingKeyOffset (.make op size fin mask rsv1 rsv2 rsv3) = sizeLength size := by
  rw [getMaskingKeyOffset, made_basic_size]
  cases size_form size with
  | basic fits value none =>
    obtain ⟨notShort, notLong⟩ := basic_no_code (value ▸ fits)
    rw [if_neg notShort, if_neg notLong, none]
  | extended large fits code two => rw [if_pos code, two]
  | jumbo large code eight =>
    rw [code, eight]
    decide

theorem mask_bytes_length : (maskBytes m mask key).length = if mask then 4 else 0 := by
  cases mask with
  | false => rfl
  | true => exact toBytes_length ..

theorem made_header_len : getHeaderLen (.make op size fin mask rsv1 rsv2 rsv3) =
    2 + (sizeBytes size ++ maskBytes m mask key).length := by
  rw [getHeaderLen, made_masked, made_key_offset, List.length_append, size_bytes_length,
    mask_bytes_length, basicHeaderLength]
  cases mask with
  | false => rfl
  | true => rfl

/-- The header as it goes out: the two bytes, the size, and the key if there is one. -/
theorem prepared_header :
    prepareHeader (.make op size fin mask rsv1 rsv2 rsv3) (.make m size mask key) =
      [firstByte op fin rsv1 rsv2 rsv3, secondByte (basicValue size) mask] ++
        (sizeBytes size ++ maskBytes m mask key) := by
  obtain ⟨rest, bytes⟩ := made_bytes m size mask key
  rw [prepareHeader, bytes, made_header_len m op size fin mask rsv1 rsv2 rsv3 key,
    basicHeaderLength, Nat.add_sub_cancel_left, List.take_left]
  rfl

omit m in
/-- The last bytes of a number that fits in them are the bytes of a shorter word. -/
theorem last_bytes {n k v w x : Nat} (short : k ≤ n) (wide : w = 8 * n) (narrow : v = 8 * k) :
    (toBytes .big n (BitVec.ofNat w x)).drop (n - k) = toBytes .big k (BitVec.ofNat v x) := by
  refine List.ext_getElem? fun i => ?_
  rw [List.getElem?_drop]
  by_cases below : i < k
  · rw [toBytes_get .big n _ (by omega), toBytes_get .big k _ below]
    have same : n - 1 - (n - k + i) = k - 1 - i := by omega
    refine congrArg some (BitVec.eq_of_getLsbD_eq fun j bit => ?_)
    simp only [byteAt, ByteOrder.place, same, BitVec.getLsbD_extractLsb', bit, decide_true,
      Bool.true_and, BitVec.getLsbD_ofNat]
    rw [decide_eq_true (by omega : 8 * (k - 1 - i) + j < w),
      decide_eq_true (by omega : 8 * (k - 1 - i) + j < v)]
  · rw [List.getElem?_eq_none (by rw [toBytes_length]; omega),
      List.getElem?_eq_none (by rw [toBytes_length]; omega)]

section Reading
variable {m : Machine} {op : Opcode} {size : Nat} {fin mask rsv1 rsv2 rsv3 : Bool}
  {key : MaskingKey} {h : BasicHeader} {e : ExtendedHeader} {rest : List Byte}

theorem extended_size_read (bound : size < 2 ^ 16) (two : sizeLength size = 2)
    (bytes : e.bytes = sizeBytes size ++ rest) : getExtendedSize m e = size := by
  have sized := (size_bytes_length size).trans two
  have taken : e.bytes.take 2 = sizeBytes size := bytes ▸ List.take_left' sized
  have word : ofBytes .big 16 (sizeBytes size) = BitVec.ofNat 16 size := by
    rw [sizeBytes, two, last_bytes (n := 8) (k := 2) (v := 16) (by decide) rfl rfl]
    exact ofBytes_toBytes .big (n := 2) rfl _
  rw [getExtendedSize, taken, toNetwork_ofBytes m.order sized rfl, word, BitVec.toNat_ofNat,
    Nat.mod_eq_of_lt bound]

theorem jumbo_size_read (bound : size < 2 ^ 64) (eight : sizeLength size = 8)
    (bytes : e.bytes = sizeBytes size ++ rest) : getJumboSize m e = size := by
  have sized := (size_bytes_length size).trans eight
  have taken : e.bytes.take 8 = sizeBytes size := bytes ▸ List.take_left' sized
  have word : ofBytes .big 64 (sizeBytes size) = BitVec.ofNat 64 size := by
    rw [sizeBytes, eight, Nat.sub_self, List.drop_zero]
    exact ofBytes_toBytes .big (n := 8) rfl _
  rw [getJumboSize, taken, toNetwork_ofBytes m.order sized rfl, word, BitVec.toNat_ofNat,
    Nat.mod_eq_of_lt bound]

/-- The size is read back, whatever follows it in the extended header. -/
theorem payload_size_read (bound : size < 2 ^ 64) (basic : getBasicSize h = basicValue size)
    (bytes : e.bytes = sizeBytes size ++ rest) : getPayloadSize m h e = size := by
  unfold getPayloadSize
  dsimp only
  rw [basic]
  cases size_form size with
  | basic fits value none =>
    rw [value, if_pos (show size ≤ payloadSizeBasic from fits)]
  | extended large fits code two =>
    rw [code, if_neg (by decide), if_pos rfl]
    exact extended_size_read (Nat.lt_succ_of_le fits) two bytes
  | jumbo large code eight =>
    rw [code, if_neg (by decide), if_neg (by decide)]
    exact jumbo_size_read bound eight bytes

theorem masking_key_read (masked : getMasked h = mask)
    (offset : getMaskingKeyOffset h = sizeLength size)
    (bytes : e.bytes = sizeBytes size ++ maskBytes m mask key ++ rest) :
    getMaskingKey m h e = if mask then key else 0 := by
  rw [getMaskingKey, masked, offset]
  cases mask with
  | false => rfl
  | true =>
    have sized : (maskBytes m true key).length = 4 := mask_bytes_length m true key
    rw [bytes, List.append_assoc, List.drop_left' (size_bytes_length size),
      List.take_left' sized, if_pos rfl, if_pos rfl]
    exact ofBytes_toBytes m.order (n := 4) rfl key

end Reading

end FrameHeader

import SpaceCube.Wire.FrameHeader

/- What the hybi13 processor asks of an incoming header, and that the headers it accepts are
   exactly the ones it writes. The config disables permessage_deflate. -/
namespace HeaderChecks
open MachineWord Masking FrameHeader

/-- The error codes of the processor that the code below returns. -/
inductive ProcessorError where
  | general
  | messageTooBig
  | invalidPayload
  | invalidOpcode
  | controlTooBig
  | invalidRsvBit
  | fragmentedControl
  | invalidContinuation
  | maskingRequired
  | maskingForbidden
  | reservedCloseCode
  | invalidCloseCode
  | reasonRequiresCode
  | invalidUtf8
  | nonMinimalEncoding
  | requires64bit
  deriving DecidableEq

/-- is_enabled of the extension that the config names. -/
def deflateEnabled : Bool := false

/-- none where the code returns no error. -/
def validateIncomingBasicHeader (h : BasicHeader) (isServer newMsg : Bool) :
    Option ProcessorError :=
  let op := getOpcode h
  if op.isControl && payloadSizeBasic < (getBasicSize h).toNat then some .controlTooBig
  else if getRsv1 h && (!deflateEnabled || op.isControl) then some .invalidRsvBit
  else if getRsv2 h || getRsv3 h then some .invalidRsvBit
  else if op.reserved then some .invalidOpcode
  else if op.invalid then some .invalidOpcode
  else if op.isControl && !getFin h then some .fragmentedControl
  else if newMsg && op == .continuation then some .invalidContinuation
  else if !newMsg && !op.isControl && op != .continuation then some .invalidContinuation
  else if isServer && !getMasked h then some .maskingRequired
  else if !isServer && getMasked h then some .maskingForbidden
  else none

def validateIncomingExtendedHeader (m : Machine) (h : BasicHeader) (e : ExtendedHeader) :
    Option ProcessorError :=
  let basicSize := getBasicSize h
  let payloadSize := getPayloadSize m h e
  if basicSize = payloadSizeCode16bit ∧ payloadSize ≤ payloadSizeBasic then
    some .nonMinimalEncoding
  else if basicSize = payloadSizeCode64bit ∧ payloadSize ≤ payloadSizeExtended then
    some .nonMinimalEncoding
  else if m.sizeT = 4 ∧ payloadSize / 2 ^ 32 ≠ 0 then some .requires64bit
  else none

/-- What a basic header that is accepted says. -/
structure ValidBasic (h : BasicHeader) (isServer newMsg : Bool) : Prop where
  controlSmall : (getOpcode h).isControl = true → (getBasicSize h).toNat ≤ payloadSizeBasic
  rsv1 : getRsv1 h = false
  rsv2 : getRsv2 h = false
  rsv3 : getRsv3 h = false
  defined : (getOpcode h).reserved = false
  controlFin : (getOpcode h).isControl = true → getFin h = true
  begins : newMsg = true → getOpcode h ≠ .continuation
  continues : newMsg = false → (getOpcode h).isControl = false → getOpcode h = .continuation
  masked : getMasked h = isServer

theorem opcode_valid (op : Opcode) : op.invalid = false := by
  cases op <;> rfl

theorem check_none {failed : Prop} [Decidable failed] {ec : ProcessorError}
    {rest : Option ProcessorError} :
    (if failed then some ec else rest) = none ↔ ¬ failed ∧ rest = none := by
  split
  · rename_i here
    exact iff_of_false (by simp) fun both => both.1 here
  · rename_i absent
    exact ⟨fun passed => ⟨absent, passed⟩, And.right⟩

theorem valid_basic_iff (h : BasicHeader) (isServer newMsg : Bool) :
    validateIncomingBasicHeader h isServer newMsg = none ↔ ValidBasic h isServer newMsg := by
  have valid := opcode_valid (getOpcode h)
  unfold validateIncomingBasicHeader deflateEnabled
  simp only [check_none, valid, Bool.and_eq_true, Bool.or_eq_true, Bool.not_eq_true',
    decide_eq_true_eq, beq_iff_eq, bne_iff_ne, not_and, not_or, Bool.not_eq_true]
  constructor
  · rintro ⟨small, rsv1, ⟨rsv2, rsv3⟩, defined, _, fin, begins, continues, server, client, _⟩
    refine ⟨fun control => Nat.le_of_not_lt (small control), ?_, rsv2, rsv3, defined, ?_, begins,
      ?_, ?_⟩
    · cases here : getRsv1 h with
      | false => rfl
      | true => exact absurd trivial (rsv1 here).1
    · intro control
      simpa using fin control
    · intro old data
      simpa using continues ⟨old, data⟩
    · cases isServer with
      | false => simpa using client rfl
      | true => simpa using server rfl
  · intro facts
    refine ⟨fun control => Nat.not_lt.mpr (facts.controlSmall control), ?_,
      ⟨facts.rsv2, facts.rsv3⟩, facts.defined, trivial, ?_, facts.begins, ?_, ?_, ?_, trivial⟩
    · intro set
      exact absurd (facts.rsv1.symm.trans set) Bool.false_ne_true
    · intro control
      simpa using facts.controlFin control
    · rintro ⟨old, data⟩
      simpa using facts.continues old data
    · intro server
      simpa [server] using facts.masked
    · intro client
      simpa [client] using facts.masked

/-- The extended header that a processor holds once it has read the bytes after the first
    two: reset_headers has filled the array with zeros. -/
def receivedExtended (rest : List Byte) : ExtendedHeader :=
  ⟨copyAt ExtendedHeader.zero.bytes 0 rest⟩

theorem received_bytes (rest : List Byte) :
    ∃ pad, (receivedExtended rest).bytes = rest ++ pad := ⟨_, by
  rw [receivedExtended, copyAt, List.take_zero, List.nil_append]⟩

variable {m : Machine} {h : BasicHeader} {e : ExtendedHeader} {rest pad : List Byte}

/-- A header in its shortest form whose size the machine can hold is accepted. -/
theorem extended_accepted {size : Nat} (bound : size < 2 ^ (8 * m.sizeT))
    (basic : getBasicSize h = basicValue size) (read : getPayloadSize m h e = size) :
    validateIncomingExtendedHeader m h e = none := by
  have held : ¬ (m.sizeT = 4 ∧ size / 2 ^ 32 ≠ 0) := by
    rintro ⟨four, high⟩
    rw [four] at bound
    exact high (Nat.div_eq_of_lt bound)
  unfold validateIncomingExtendedHeader
  dsimp only
  rw [basic, read]
  cases size_form size with
  | basic fits value none =>
    obtain ⟨notShort, notLong⟩ := basic_no_code (value ▸ fits)
    rw [if_neg fun both => notShort both.1, if_neg fun both => notLong both.1, if_neg held]
  | extended large fits code two =>
    have above : ¬ size ≤ payloadSizeBasic := Nat.not_le.mpr large
    rw [code, if_neg fun both => above both.2, if_neg fun both => absurd both.1 (by decide),
      if_neg held]
  | jumbo large code eight =>
    have above : ¬ size ≤ payloadSizeExtended := Nat.not_le.mpr large
    rw [code, if_neg fun both => absurd both.1 (by decide), if_neg fun both => above both.2,
      if_neg held]

/-- The seven bits that hold a size or one of the two codes. -/
theorem basic_size_cases (h : BasicHeader) :
    (getBasicSize h).toNat ≤ 125 ∨ getBasicSize h = payloadSizeCode16bit ∨
      getBasicSize h = payloadSizeCode64bit := by
  have table : ∀ b1 : Byte, (b1 &&& bhb1Payload).toNat ≤ 125 ∨
      b1 &&& bhb1Payload = payloadSizeCode16bit ∨ b1 &&& bhb1Payload = payloadSizeCode64bit := by
    decide
  exact table h.b1

theorem extended_size_bound (m : Machine) (e : ExtendedHeader) : getExtendedSize m e < 2 ^ 16 :=
  BitVec.isLt _

theorem jumbo_size_bound (m : Machine) (e : ExtendedHeader) : getJumboSize m e < 2 ^ 64 :=
  BitVec.isLt _

/-- The size that a header holds, by its seven bits. -/
theorem payload_size_cases (m : Machine) (h : BasicHeader) (e : ExtendedHeader) :
    (getBasicSize h).toNat ≤ 125 ∧ getPayloadSize m h e = (getBasicSize h).toNat ∨
      getBasicSize h = payloadSizeCode16bit ∧ getPayloadSize m h e = getExtendedSize m e ∨
      getBasicSize h = payloadSizeCode64bit ∧ getPayloadSize m h e = getJumboSize m e := by
  unfold getPayloadSize
  dsimp only
  rcases basic_size_cases h with small | short | long
  · exact Or.inl ⟨small, if_pos small⟩
  · rw [short]
    exact Or.inr (Or.inl ⟨rfl, rfl⟩)
  · rw [long]
    exact Or.inr (Or.inr ⟨rfl, rfl⟩)

/-- What acceptance says of the size and its form. -/
structure Accepted (m : Machine) (h : BasicHeader) (e : ExtendedHeader) : Prop where
  shortest : getBasicSize h = basicValue (getPayloadSize m h e)
  bound : getPayloadSize m h e < 2 ^ (8 * m.sizeT)

theorem accepted_form (accepted : validateIncomingExtendedHeader m h e = none) :
    Accepted m h e := by
  unfold validateIncomingExtendedHeader at accepted
  dsimp only at accepted
  split at accepted
  · contradiction
  · rename_i notShort
    split at accepted
    · contradiction
    · rename_i notLong
      split at accepted
      · contradiction
      · rename_i held
        have fits : getPayloadSize m h e < 2 ^ 64 := by
          rcases payload_size_cases m h e with ⟨small, size⟩ | ⟨_, size⟩ | ⟨_, size⟩
          · omega
          · have bound := extended_size_bound m e
            omega
          · exact size ▸ jumbo_size_bound m e
        refine ⟨?_, ?_⟩
        · rcases payload_size_cases m h e with ⟨small, size⟩ | ⟨code, size⟩ | ⟨code, size⟩
          · have low : (getBasicSize h).toNat ≤ payloadSizeBasic := small
            rw [size, basicValue, if_pos low, BitVec.ofNat_toNat, BitVec.setWidth_eq]
          · have large : ¬ getPayloadSize m h e ≤ payloadSizeBasic := fun low =>
              notShort ⟨code, low⟩
            have short : getPayloadSize m h e ≤ payloadSizeExtended :=
              size ▸ Nat.le_of_lt_succ (extended_size_bound m e)
            rw [code, basicValue, if_neg large, if_pos short]
          · have large : ¬ getPayloadSize m h e ≤ payloadSizeExtended := fun low =>
              notLong ⟨code, low⟩
            have larger : ¬ getPayloadSize m h e ≤ payloadSizeBasic := fun low =>
              large (Nat.le_trans low (by decide))
            rw [code, basicValue, if_neg larger, if_neg large]
        · rcases m.supported with four | eight
          · rw [four]
            by_contra high
            refine held ⟨four, ?_⟩
            have quotient := Nat.div_pos (Nat.not_lt.mp high) (by decide : 0 < 2 ^ (8 * 4))
            omega
          · rw [eight]
            exact fits

theorem key_offset_form (shortest : getBasicSize h = basicValue (getPayloadSize m h e)) :
    getMaskingKeyOffset h = sizeLength (getPayloadSize m h e) := by
  have made := made_key_offset .text (getPayloadSize m h e) false false false false false
  rw [getMaskingKeyOffset, made_basic_size] at made
  rw [getMaskingKeyOffset, shortest, made]

/-- The bytes that hold a size are the ones written for it. -/
theorem size_bytes_form (accepted : Accepted m h e) (bytes : e.bytes = rest ++ pad)
    (sized : sizeLength (getPayloadSize m h e) ≤ rest.length) :
    rest.take (sizeLength (getPayloadSize m h e)) = sizeBytes (getPayloadSize m h e) := by
  have form := accepted.shortest
  have taken : ∀ n ≤ rest.length, e.bytes.take n = rest.take n := by
    intro n inside
    rw [bytes, List.take_append_of_le_length inside]
  have length : ∀ n ≤ rest.length, (rest.take n).length = n := by
    intro n inside
    rw [List.length_take, Nat.min_eq_left inside]
  generalize size : getPayloadSize m h e = total at sized form ⊢
  cases size_form total with
  | basic fits value none => simp [sizeBytes, none, toBytes_length]
  | extended large fits code two =>
    rw [two] at sized ⊢
    rw [code] at form
    have read : getExtendedSize m e = total := by
      rw [← size]
      unfold getPayloadSize
      dsimp only
      rw [form]
      rfl
    rw [getExtendedSize, taken 2 sized, toNetwork_ofBytes m.order (n := 2) (length 2 sized) rfl]
      at read
    rw [sizeBytes, two, last_bytes (n := 8) (k := 2) (v := 16) (by decide) rfl rfl, ← read,
      BitVec.ofNat_toNat, BitVec.setWidth_eq,
      toBytes_ofBytes .big (n := 2) (length 2 sized) rfl]
  | jumbo large code eight =>
    rw [eight] at sized ⊢
    rw [code] at form
    have read : getJumboSize m e = total := by
      rw [← size]
      unfold getPayloadSize
      dsimp only
      rw [form]
      rfl
    rw [getJumboSize, taken 8 sized, toNetwork_ofBytes m.order (n := 8) (length 8 sized) rfl]
      at read
    rw [sizeBytes, eight, Nat.sub_self, List.drop_zero, ← read, BitVec.ofNat_toNat,
      BitVec.setWidth_eq, toBytes_ofBytes .big (n := 8) (length 8 sized) rfl]

/-- The bytes after the first two are the size and, in a masked frame, the key. -/
theorem extended_bytes_form (accepted : Accepted m h e) (bytes : e.bytes = rest ++ pad)
    (whole : 2 + rest.length = getHeaderLen h) :
    rest = sizeBytes (getPayloadSize m h e) ++
      maskBytes m (getMasked h) (getMaskingKey m h e) := by
  have offset := key_offset_form accepted.shortest
  have total : rest.length = sizeLength (getPayloadSize m h e) + if getMasked h then 4 else 0 := by
    rw [getHeaderLen, offset, basicHeaderLength] at whole
    split at whole
    · rename_i masked
      rw [if_pos masked]
      omega
    · rename_i unmasked
      rw [if_neg unmasked]
      omega
  have first := size_bytes_form accepted bytes (by omega)
  conv_lhs => rw [← List.take_append_drop (sizeLength (getPayloadSize m h e)) rest, first]
  congr 1
  cases masked : getMasked h with
  | false =>
    rw [masked] at total
    exact List.drop_eq_nil_of_le (by simpa using total.le)
  | true =>
    rw [masked, if_pos rfl] at total
    have four : (rest.drop (sizeLength (getPayloadSize m h e))).length = 4 := by
      rw [List.length_drop]
      omega
    have key : getMaskingKey m h e =
        ofBytes m.order 32 (rest.drop (sizeLength (getPayloadSize m h e))) := by
      rw [getMaskingKey, if_pos masked, offset, bytes,
        List.drop_append_of_le_length (by omega), List.take_left' four]
    rw [maskBytes, if_pos rfl, key, toBytes_ofBytes m.order (n := 4) four rfl]

/-- What a header says of its frame. -/
structure Fields where
  op : Opcode
  fin : Bool
  rsv1 : Bool
  rsv2 : Bool
  rsv3 : Bool
  masked : Bool
  size : Nat
  key : MaskingKey

def Fields.basic (f : Fields) : BasicHeader :=
  .make f.op f.size f.fin f.masked f.rsv1 f.rsv2 f.rsv3

def Fields.written (m : Machine) (f : Fields) : List Byte :=
  prepareHeader f.basic (.make m f.size f.masked f.key)

def Fields.read (m : Machine) (h : BasicHeader) (e : ExtendedHeader) : Fields where
  op := getOpcode h
  fin := getFin h
  rsv1 := getRsv1 h
  rsv2 := getRsv2 h
  rsv3 := getRsv3 h
  masked := getMasked h
  size := getPayloadSize m h e
  key := getMaskingKey m h e

/-- An unmasked frame has no key; it is read as zero. -/
def Fields.keyed (f : Fields) : Fields := { f with key := if f.masked then f.key else 0 }

theorem fields_written (m : Machine) (f : Fields) : f.written m =
    [f.basic.b0, f.basic.b1] ++ (sizeBytes f.size ++ maskBytes m f.masked f.key) :=
  prepared_header m f.op f.size f.fin f.masked f.rsv1 f.rsv2 f.rsv3 f.key

theorem fields_length (m : Machine) (f : Fields) :
    2 + (sizeBytes f.size ++ maskBytes m f.masked f.key).length = getHeaderLen f.basic :=
  (made_header_len m f.op f.size f.fin f.masked f.rsv1 f.rsv2 f.rsv3 f.key).symm

/-- Whatever fills the array after them, the fields are read back. -/
theorem fields_read {f : Fields} (bound : f.size < 2 ^ (8 * m.sizeT))
    (bytes : e.bytes = sizeBytes f.size ++ maskBytes m f.masked f.key ++ pad) :
    Fields.read m f.basic e = f.keyed ∧
      validateIncomingExtendedHeader m f.basic e = none := by
  have first := first_byte_read f.op f.fin f.rsv1 f.rsv2 f.rsv3
  have masked : getMasked f.basic = f.masked :=
    made_masked f.op f.size f.fin f.masked f.rsv1 f.rsv2 f.rsv3
  have basic : getBasicSize f.basic = basicValue f.size :=
    made_basic_size f.op f.size f.fin f.masked f.rsv1 f.rsv2 f.rsv3
  have wide : f.size < 2 ^ 64 := by
    refine bound.trans_le (Nat.pow_le_pow_right (by decide) ?_)
    have supported := m.supported
    omega
  have size : getPayloadSize m f.basic e = f.size :=
    payload_size_read wide basic (by rw [bytes, List.append_assoc])
  have key : getMaskingKey m f.basic e = if f.masked then f.key else 0 :=
    masking_key_read masked (made_key_offset ..) bytes
  refine ⟨?_, extended_accepted bound basic size⟩
  have op : getOpcode f.basic = f.op := by
    rw [getOpcode, Fields.basic, BasicHeader.make, first.opcode, cast_value]
  have fin : getFin f.basic = f.fin := first.fin
  have rsv1 : getRsv1 f.basic = f.rsv1 := first.rsv1
  have rsv2 : getRsv2 f.basic = f.rsv2 := first.rsv2
  have rsv3 : getRsv3 f.basic = f.rsv3 := first.rsv3
  rw [Fields.read, op, fin, rsv1, rsv2, rsv3, masked, size, key]
  rfl

/-- A header is made of its own fields when its size has the shortest form. -/
theorem basic_made (shortest : getBasicSize h = basicValue (getPayloadSize m h e)) :
    (Fields.read m h e).basic = h := by
  have first : (Fields.read m h e).basic.b0 = h.b0 := first_byte_made h.b0
  have second : (Fields.read m h e).basic.b1 = h.b1 := by
    have made := second_byte_made h.b1
    rw [show h.b1 &&& bhb1Payload = basicValue (getPayloadSize m h e) from shortest] at made
    exact made
  obtain ⟨b0, b1⟩ := h
  simp only [Fields.basic, BasicHeader.make] at first second ⊢
  rw [first, second]

/-- The bytes of a header that is accepted are the ones written for its fields. -/
theorem accepted_written (whole : 2 + rest.length = getHeaderLen h)
    (valid : validateIncomingExtendedHeader m h (receivedExtended rest) = none) :
    (Fields.read m h (receivedExtended rest)).written m = [h.b0, h.b1] ++ rest := by
  obtain ⟨pad, bytes⟩ := received_bytes rest
  have accepted := accepted_form valid
  rw [fields_written, basic_made accepted.shortest]
  exact congrArg _ (extended_bytes_form accepted bytes whole).symm

/-- Every header that is written is read back field by field and accepted, for every size the
    machine can hold; and every header that is accepted is, byte by byte, the one that is
    written for its fields. -/
theorem header_round_trip (m : Machine) :
    (∀ f : Fields, f.size < 2 ^ (8 * m.sizeT) →
      ∃ rest, f.written m = [f.basic.b0, f.basic.b1] ++ rest ∧
        2 + rest.length = getHeaderLen f.basic ∧
        Fields.read m f.basic (receivedExtended rest) = f.keyed ∧
        validateIncomingExtendedHeader m f.basic (receivedExtended rest) = none) ∧
      ∀ (h : BasicHeader) (rest : List Byte), 2 + rest.length = getHeaderLen h →
        validateIncomingExtendedHeader m h (receivedExtended rest) = none →
        (Fields.read m h (receivedExtended rest)).written m = [h.b0, h.b1] ++ rest := by
  constructor
  · intro f bound
    obtain ⟨pad, bytes⟩ := received_bytes (sizeBytes f.size ++ maskBytes m f.masked f.key)
    obtain ⟨read, valid⟩ := fields_read bound bytes
    exact ⟨_, fields_written m f, fields_length m f, read, valid⟩
  · intro h rest
    exact accepted_written

end HeaderChecks

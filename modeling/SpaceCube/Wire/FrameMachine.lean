import SpaceCube.Wire.ReadPieces

/- The processor seen from above: whole frames come in and messages go out. The bytes of the
   frames, cut into reads in any way, take the processor through the same messages. -/
namespace FrameMachine
open MachineWord Masking FrameHeader HeaderChecks Utf8Validator Hybi13 ReadPieces

/-- A frame as it is meant, its payload not masked. -/
structure WireFrame where
  op : Opcode
  fin : Bool
  rsv1 : Bool
  rsv2 : Bool
  rsv3 : Bool
  masked : Bool
  key : MaskingKey
  payload : List Byte

def WireFrame.fields (f : WireFrame) : Fields where
  op := f.op
  fin := f.fin
  rsv1 := f.rsv1
  rsv2 := f.rsv2
  rsv3 := f.rsv3
  masked := f.masked
  size := f.payload.length
  key := f.key

variable {m : Machine}

def maskedPayload (m : Machine) (f : WireFrame) : List Byte :=
  if f.masked then byteMask m f.key 0 f.payload else f.payload

def WireFrame.bytes (m : Machine) (f : WireFrame) : List Byte :=
  f.fields.written m ++ maskedPayload m f

/-- What a data frame adds to the message it begins or continues. -/
def extend (f : WireFrame) (msg : Message) :
    Except ProcessorError (Option Message × Option Message) :=
  let msg : Message := { msg with payload := msg.payload ++ f.payload }
  let (valid, validator) := Validator.fresh.decode msg.payload
  if msg.opcode = .text ∧ !valid then .error .invalidUtf8
  else if f.fin then
    if f.op = .text ∧ !validator.complete then .error .invalidUtf8 else .ok (none, some msg)
  else .ok (some msg, none)

/-- One frame: the message that stays open after it and the one that it completes. -/
def accept (m : Machine) (s : Settings) (pending : Option Message) (f : WireFrame) :
    Except ProcessorError (Option Message × Option Message) :=
  match validateIncomingBasicHeader f.fields.basic s.isServer pending.isNone with
  | some ec => .error ec
  | none =>
    if f.op.isControl then .ok (pending, some ⟨f.op, f.payload⟩)
    else match pending with
      | none =>
        if s.maxMessageSize < f.payload.length then .error .messageTooBig
        else extend f ⟨f.op, []⟩
      | some msg =>
        if s.maxMessageSize < (msg.payload.length + f.payload.length) % 2 ^ (8 * m.sizeT) then
          .error .messageTooBig
        else extend f msg

/-- A processor between two frames that holds an open message. -/
structure Idle (pending : Option Message) (p : Processor m) : Prop where
  state : p.state = .headerBasic
  needs : p.bytesNeeded = 2
  clear : p.extendedHeader = .zero
  held : p.dataMsg.msgPtr = pending
  valid : ∀ msg, pending = some msg → msg.opcode = .text →
    Validator.fresh.decode msg.payload = (true, p.dataMsg.validator)

variable {s : Settings} {p q : Processor m} {pending : Option Message} {f : WireFrame}

theorem idle_settled (idle : Idle pending p) : Settled p where
  live :=
    ⟨by simp [idle.state], fun _ => Or.inr idle.needs, by simp [idle.state],
      by rw [idle.clear]; rfl, by simp [idle.state], by simp [idle.state]⟩
  unready := by simp [idle.state]
  needs := by rw [idle.needs]; decide

theorem idle_initial : Idle none (Processor.initial m) :=
  ⟨rfl, rfl, rfl, rfl, fun _ none => by contradiction⟩

/-- What follows the first two bytes of a frame up to its payload. -/
def extendedPart (m : Machine) (f : WireFrame) : List Byte :=
  sizeBytes f.payload.length ++ maskBytes m f.masked f.key

theorem frame_bytes (m : Machine) (f : WireFrame) (rest : List Byte) : f.bytes m ++ rest =
    f.fields.basic.b0 :: f.fields.basic.b1 ::
      (extendedPart m f ++ (maskedPayload m f ++ rest)) := by
  rw [WireFrame.bytes, fields_written]
  simp [extendedPart, WireFrame.fields]

theorem extended_part_length (m : Machine) (f : WireFrame) :
    (extendedPart m f).length = getHeaderLen f.fields.basic - basicHeaderLength := by
  have whole := fields_length m f.fields
  simp only [basicHeaderLength, extendedPart, WireFrame.fields] at whole ⊢
  omega

theorem masked_payload_length (m : Machine) (f : WireFrame) :
    (maskedPayload m f).length = f.payload.length := by
  unfold maskedPayload
  split
  · rw [byteMask_masked, masked_length]
  · rfl

theorem unmasked_payload (f : WireFrame) : (unmask f.fields.basic
    (prepareMaskingKey m f.fields.keyed.key) (maskedPayload m f)).1 = f.payload := by
  have bit : getMasked f.fields.basic = f.masked := made_masked ..
  unfold unmask maskedPayload
  rw [bit]
  cases here : f.masked with
  | false => rfl
  | true =>
    have key : f.fields.keyed.key = f.key := by
      simp [Fields.keyed, WireFrame.fields, here]
    rw [if_pos rfl, if_pos rfl, key, byteMask_masked,
      (byteMaskCirc_masked (prepared_stands m f.key) _).1, masked_twice]

/-- The header of the frame has come. -/
def withHeader (m : Machine) (f : WireFrame) (p : Processor m) : Processor m :=
  { p with
    basicHeader := f.fields.basic
    extendedHeader := receivedExtended (extendedPart m f)
    cursor := (extendedPart m f).length
    state := .application
    bytesNeeded := f.payload.length }

/-- The first turn, from the two bytes of the basic header. -/
theorem basic_turn (idle : Idle pending p) (rest : List Byte) :
    turn s p (f.bytes m ++ rest) =
      match validateIncomingBasicHeader f.fields.basic s.isServer pending.isNone with
      | some ec => .error ec
      | none => .ok
        ({ p with
            basicHeader := f.fields.basic
            state := .headerExtended
            cursor := 0
            bytesNeeded := (extendedPart m f).length },
          extendedPart m f ++ (maskedPayload m f ++ rest)) := by
  rw [frame_bytes, basic_both idle.state idle.needs, finishBasicHeader, extended_part_length]
  dsimp only
  rw [idle.held]
  cases validateIncomingBasicHeader f.fields.basic s.isServer pending.isNone <;> rfl

theorem finish_accepted {size : Nat}
    (accepted : validateIncomingExtendedHeader m p.basicHeader p.extendedHeader = none)
    (payload : getPayloadSize m p.basicHeader p.extendedHeader = size)
    (bound : size < 2 ^ (8 * m.sizeT)) : finishExtendedHeader s p =
      beginPayload s { p with state := .application, bytesNeeded := size } := by
  rw [finishExtendedHeader, accepted, payload]
  dsimp only
  rw [Nat.mod_eq_of_lt bound]

/-- The second turn, from the extended header. -/
theorem extended_turn (idle : Idle pending p) (size : f.payload.length < 2 ^ (8 * m.sizeT))
    (rest : List Byte) :
    turn s
        { p with
          basicHeader := f.fields.basic
          state := .headerExtended
          cursor := 0
          bytesNeeded := (extendedPart m f).length }
        (extendedPart m f ++ rest) =
      (beginPayload s (withHeader m f p)).map (·, rest) := by
  obtain ⟨pad, bytes⟩ := received_bytes (extendedPart m f)
  obtain ⟨read, accepted⟩ := fields_read (f := f.fields) size bytes
  have payload : getPayloadSize m f.fields.basic (receivedExtended (extendedPart m f)) =
      f.payload.length := congrArg Fields.size read
  have array : copyAt p.extendedHeader.bytes 0 (extendedPart m f) =
      (receivedExtended (extendedPart m f)).bytes := by
    rw [idle.clear]
    rfl
  rw [extended_enough rfl (by simp)]
  simp only [List.take_left, List.drop_left, partExtended, array, Nat.zero_add]
  rw [finish_accepted accepted payload size]
  rfl

theorem fill_nothing (h : BasicHeader) (metadata : MsgMetadata m) :
    metadata.fill h [] = .ok metadata := by
  have same : unmask h metadata.preparedKey [] = ([], metadata.preparedKey) := by
    unfold unmask
    split
    · rfl
    · rfl
  have whole : (metadata.msgPtr.map fun msg => { msg with payload := msg.payload ++ [] }) =
      metadata.msgPtr := by
    cases metadata.msgPtr with
    | none => rfl
    | some msg => simp
  unfold MsgMetadata.fill
  rw [same]
  simp only [whole, Validator.decode]
  split
  · rfl
  · rfl

/-- Where there is nothing to process, nothing changes. -/
theorem processed_eq (p : Processor m) (xs : List Byte) : processed p xs =
    (p.current.fill p.basicHeader xs).map (filled p · (p.bytesNeeded - xs.length)) := by
  unfold processed
  split
  · rename_i empty
    have same : filled p p.current p.bytesNeeded = p := by
      obtain ⟨basic, extended, needs, cursor, dataMsg, controlMsg, current, state⟩ := p
      cases current with
      | data => rfl
      | control => rfl
    rw [empty, fill_nothing]
    exact congrArg Except.ok same.symm
  · rfl

/-- The third turn, through the payload to the end of the frame. -/
theorem application_turn_frame (here : q.state = .application)
    (needs : q.bytesNeeded = f.payload.length) (rest : List Byte) :
    turn s q (maskedPayload m f ++ rest) =
      (((q.current.fill q.basicHeader (maskedPayload m f)).map (filled q · 0)).bind
        finishFrame).map (·, rest) := by
  have length := masked_payload_length m f
  have enough : q.bytesNeeded ≤ (maskedPayload m f ++ rest).length := by
    rw [List.length_append]
    omega
  have all : q.bytesNeeded = (maskedPayload m f).length := by omega
  rw [application_enough here enough, all, List.take_left, List.drop_left, processed_eq, all,
    Nat.sub_self]

theorem frame_opcode (f : WireFrame) : getOpcode f.fields.basic = f.op := by
  have first := first_byte_read f.op f.fin f.rsv1 f.rsv2 f.rsv3
  show Opcode.cast (firstByte f.op f.fin f.rsv1 f.rsv2 f.rsv3 &&& bhb0Opcode) = f.op
  rw [first.opcode, cast_value]

theorem frame_fin (f : WireFrame) : getFin f.fields.basic = f.fin :=
  (first_byte_read f.op f.fin f.rsv1 f.rsv2 f.rsv3).fin

theorem frame_key (f : WireFrame) :
    getMaskingKey m f.fields.basic (receivedExtended (extendedPart m f)) = f.fields.keyed.key := by
  obtain ⟨pad, bytes⟩ := received_bytes (extendedPart m f)
  exact masking_key_read (made_masked ..) (made_key_offset ..) bytes

theorem control_not_text {op : Opcode} (control : op.isControl = true) : op ≠ .text := by
  rintro rfl
  contradiction

/-- What a turn brings about, the reader brings about. -/
theorem reads_turn {buf rest : List Byte} {outs : List Message} {last : ReadEnd m}
    (reading : p.state ≠ .ready ∧ p.state ≠ .fatalError) (wants : buf ≠ [] ∨ p.bytesNeeded = 0)
    (ran : turn s p buf = .ok (q, rest)) (more : Reads s q rest outs last) :
    Reads s p buf outs last := by
  have going : p.wants buf = true := by simp [Processor.wants, reading, wants]
  have here : readerTurn s p buf = .goes q rest none := by
    rw [readerTurn, if_neg reading.1, if_pos going, ran]
  exact .goes here more

theorem reads_error {buf : List Byte} {ec : ProcessorError}
    (reading : p.state ≠ .ready ∧ p.state ≠ .fatalError) (wants : buf ≠ [] ∨ p.bytesNeeded = 0)
    (ran : turn s p buf = .error ec) : Reads s p buf [] (.error ec) := by
  have going : p.wants buf = true := by simp [Processor.wants, reading, wants]
  refine .fails ?_
  rw [readerTurn, if_neg reading.1, if_pos going, ran]

theorem reads_message {buf : List Byte} {outs : List Message} {last : ReadEnd m}
    (ready : p.state = .ready) (more : Reads s (getMessage p).2 buf outs last) :
    Reads s p buf ((getMessage p).1.toList ++ outs) last := by
  refine .goes ?_ more
  rw [readerTurn, if_pos ready]

theorem enough_wanted {n : Nat} {xs : List Byte} (rest : List Byte) (sized : xs.length = n) :
    xs ++ rest ≠ [] ∨ n = 0 := by
  cases xs with
  | nil => exact Or.inr sized.symm
  | cons x xs => exact Or.inl (List.cons_ne_nil _ _)

/-- What the processor does with the payload of a frame, from its begun metadata on. -/
def atPayload (s : Settings) (p : Processor m) (f : WireFrame) :
    Except ProcessorError (Processor m) :=
  (beginPayload s (withHeader m f p)).bind fun q =>
    ((q.current.fill q.basicHeader (maskedPayload m f)).map (filled q · 0)).bind finishFrame

/-- The turns through a whole frame: it is refused at its header or somewhere up to its end, or
    the processor is there with what comes after it. -/
theorem reads_header (idle : Idle pending p) (size : f.payload.length < 2 ^ (8 * m.sizeT))
    (rest : List Byte) :
    (∀ ec, validateIncomingBasicHeader f.fields.basic s.isServer pending.isNone = some ec →
      Reads s p (f.bytes m ++ rest) [] (.error ec)) ∧
    (validateIncomingBasicHeader f.fields.basic s.isServer pending.isNone = none →
      (∀ ec, atPayload s p f = .error ec → Reads s p (f.bytes m ++ rest) [] (.error ec)) ∧
      ∀ q, atPayload s p f = .ok q → ∀ outs last, Reads s q rest outs last →
        Reads s p (f.bytes m ++ rest) outs last) := by
  have first := basic_turn (s := s) (f := f) idle rest
  have reading : p.state ≠ .ready ∧ p.state ≠ .fatalError := by simp [idle.state]
  have some : f.bytes m ++ rest ≠ [] ∨ p.bytesNeeded = 0 := by
    rw [frame_bytes]
    exact Or.inl (List.cons_ne_nil _ _)
  constructor
  · intro ec refused
    rw [refused] at first
    exact reads_error reading some first
  · intro accepted
    rw [accepted] at first
    have second := extended_turn (s := s) (f := f) idle size (maskedPayload m f ++ rest)
    have wants₂ := enough_wanted (maskedPayload m f ++ rest)
      (rfl : (extendedPart m f).length = (extendedPart m f).length)
    have reading₂ : State.headerExtended ≠ .ready ∧ State.headerExtended ≠ .fatalError := by decide
    unfold atPayload
    cases begun : beginPayload s (withHeader m f p) with
    | error ec =>
      rw [begun] at second
      refine ⟨fun ec' same => ?_, fun q none => by contradiction⟩
      obtain rfl := Except.error.inj same
      exact reads_turn reading some first (reads_error reading₂ wants₂ second)
    | ok q =>
      rw [begun] at second
      have begins := begin_payload begun
      have state : q.state = .application := begins.state
      have needs : q.bytesNeeded = f.payload.length := begins.needs
      have third := application_turn_frame (s := s) (f := f) state needs rest
      have wants₃ := enough_wanted rest ((masked_payload_length m f).trans needs.symm)
      have reading₃ : q.state ≠ .ready ∧ q.state ≠ .fatalError := by simp [state]
      have through : ∀ outs last, Reads s q (maskedPayload m f ++ rest) outs last →
          Reads s p (f.bytes m ++ rest) outs last := fun outs last more =>
        reads_turn reading some first (reads_turn reading₂ wants₂ second more)
      refine ⟨fun ec refused => ?_, fun r done outs last more => ?_⟩
      · have refused : ((q.current.fill q.basicHeader (maskedPayload m f)).map
            (filled q · 0)).bind finishFrame = .error ec := refused
        rw [refused] at third
        exact through _ _ (reads_error reading₃ wants₃ third)
      · have done : ((q.current.fill q.basicHeader (maskedPayload m f)).map
            (filled q · 0)).bind finishFrame = .ok r := done
        rw [done] at third
        exact through _ _ (reads_turn reading₃ wants₃ third more)

/-- What the payload of a frame does to the message that it is for. -/
theorem fill_frame {metadata : MsgMetadata m} {msg : Message}
    (held : metadata.msgPtr = some msg)
    (key : metadata.preparedKey = prepareMaskingKey m f.fields.keyed.key) :
    ∃ preparedKey, metadata.fill f.fields.basic (maskedPayload m f) =
      if msg.opcode = .text ∧ (metadata.validator.decode f.payload).1 = false then
        .error .invalidUtf8
      else .ok ⟨some { msg with payload := msg.payload ++ f.payload }, preparedKey,
        if msg.opcode = .text then (metadata.validator.decode f.payload).2
        else metadata.validator⟩ := by
  have bytes := unmasked_payload (m := m) f
  rw [← key] at bytes
  refine ⟨(unmask f.fields.basic metadata.preparedKey (maskedPayload m f)).2, ?_⟩
  unfold MsgMetadata.fill
  generalize unmask f.fields.basic metadata.preparedKey (maskedPayload m f) = unmasked at bytes ⊢
  obtain ⟨payload, preparedKey⟩ := unmasked
  obtain rfl : payload = f.payload := bytes
  simp only [held, Option.map_some, Option.some.injEq]
  by_cases text : msg.opcode = .text
  · simp only [text, if_pos, true_and]
    cases (metadata.validator.decode f.payload).1 with
    | false => rfl
    | true => rfl
  · simp only [text, ↓reduceIte, false_and]

/-- A message is ready and taking it leaves the processor between two frames. -/
structure Gives (msg : Message) (pending : Option Message) (q : Processor m) : Prop where
  ready : q.state = .ready
  message : (getMessage q).1 = some msg
  idle : Idle pending (getMessage q).2

/-- A message that is complete. -/
def completed (q : Processor m) (metadata : MsgMetadata m) : Processor m :=
  { filled q metadata 0 with state := .ready }

theorem completed_current (q : Processor m) (metadata : MsgMetadata m) :
    (completed q metadata).current = metadata := filled_current q metadata 0

theorem completed_state (q : Processor m) (metadata : MsgMetadata m) :
    (completed q metadata).state = .ready := rfl

theorem gives_data {metadata : MsgMetadata m} {msg : Message} (current : q.currentMsg = .data)
    (held : metadata.msgPtr = some msg) : Gives msg none (completed q metadata) := by
  have same := completed_current q metadata
  refine ⟨rfl, ?_, ?_⟩
  · rw [getMessage, if_pos (completed_state q metadata)]
    dsimp only
    rw [same, held]
  · rw [getMessage, if_pos (completed_state q metadata)]
    refine ⟨rfl, rfl, rfl, ?_, fun _ none => by contradiction⟩
    simp only [resetHeaders, same, held]
    split
    · simp [completed, Processor.setCurrent, filled, current]
    · rfl

theorem gives_control {metadata : MsgMetadata m} {msg : Message}
    (current : q.currentMsg = .control) (held : metadata.msgPtr = some msg)
    (control : msg.opcode.isControl = true) (before : q.dataMsg = p.dataMsg)
    (idle : Idle pending p) : Gives msg pending (completed q metadata) := by
  have same := completed_current q metadata
  have data : (getMessage (completed q metadata)).2.dataMsg = p.dataMsg := by
    rw [getMessage, if_pos (completed_state q metadata)]
    simp only [resetHeaders, same, held]
    simp [control, completed, Processor.setCurrent, filled, current, before]
  have reset : (getMessage (completed q metadata)).2.state = .headerBasic ∧
      (getMessage (completed q metadata)).2.bytesNeeded = 2 ∧
      (getMessage (completed q metadata)).2.extendedHeader = .zero := by
    rw [getMessage, if_pos (completed_state q metadata)]
    exact ⟨rfl, rfl, rfl⟩
  refine ⟨rfl, ?_, reset.1, reset.2.1, reset.2.2, data ▸ idle.held, data ▸ idle.valid⟩
  rw [getMessage, if_pos (completed_state q metadata)]
  dsimp only
  rw [same, held]

/-- The end of a frame that ends its message, by what its metadata says. -/
theorem finish_filled (metadata : MsgMetadata m) (basic : q.basicHeader = f.fields.basic) :
    finishFrame (filled q metadata 0) =
      if f.fin then
        if f.op = .text ∧ metadata.validator.complete = false then .error .invalidUtf8
        else .ok (completed q metadata)
      else .ok (resetHeaders (filled q metadata 0)) := by
  have op : getOpcode (filled q metadata 0).basicHeader = f.op := by
    rw [filled_header, basic, frame_opcode]
  have fin : getFin (filled q metadata 0).basicHeader = f.fin := by
    rw [filled_header, basic, frame_fin]
  rw [finishFrame, finalizeMessage, op, fin, filled_current]
  by_cases text : f.op = .text
  · cases metadata.validator.complete with
    | false => simp [text]
    | true => simp [text, completed]
  · simp [text, completed]

theorem control_frame (idle : Idle pending p) (control : f.op.isControl = true)
    (fin : f.fin = true) :
    ∃ q, atPayload s p f = .ok q ∧ Gives ⟨f.op, f.payload⟩ pending q := by
  have op : getOpcode (withHeader m f p).basicHeader = f.op := frame_opcode f
  have key : getMaskingKey m (withHeader m f p).basicHeader (withHeader m f p).extendedHeader =
      f.fields.keyed.key := frame_key f
  let q : Processor m :=
    { withHeader m f p with
      controlMsg := .make f.op f.fields.keyed.key
      currentMsg := .control }
  have begun : beginPayload s (withHeader m f p) = .ok q := by
    unfold beginPayload
    dsimp only
    rw [op, key, if_pos control]
  have notText := control_not_text control
  let made : MsgMetadata m := .make f.op f.fields.keyed.key
  obtain ⟨preparedKey, filling⟩ := fill_frame (m := m) (f := f) (show made.msgPtr = _ from rfl) rfl
  rw [if_neg (fun both => notText both.1)] at filling
  let done : MsgMetadata m := ⟨some ⟨f.op, f.payload⟩, preparedKey, .fresh⟩
  have ended : finishFrame (filled q done 0) = .ok (completed q done) := by
    rw [finish_filled done rfl, fin, if_pos rfl, if_neg (fun both => notText both.1)]
  have gives : Gives ⟨f.op, f.payload⟩ pending (completed q done) :=
    gives_control rfl rfl control (show q.dataMsg = p.dataMsg from rfl) idle
  refine ⟨completed q done, ?_, gives⟩
  rw [atPayload, begun]
  show ((made.fill f.fields.basic (maskedPayload m f)).map (filled q · 0)).bind finishFrame = _
  rw [filling, ← ended]
  simp [Except.bind, Except.map, made, MsgMetadata.make, notText, done]

/-- The metadata of a message that a data frame is to extend. -/
structure Extending (f : WireFrame) (msg : Message) (q : Processor m) : Prop where
  current : q.currentMsg = .data
  header : q.basicHeader = f.fields.basic
  held : q.dataMsg.msgPtr = some msg
  key : q.dataMsg.preparedKey = prepareMaskingKey m f.fields.keyed.key
  valid : msg.opcode = .text → Validator.fresh.decode msg.payload = (true, q.dataMsg.validator)
  first : f.op = .text → msg.opcode = .text

/-- What the rest of a data frame comes to, against what it should. -/
def Extended (result : Except ProcessorError (Processor m))
    (expected : Except ProcessorError (Option Message × Option Message)) : Prop :=
  match expected with
  | .error ec => result = .error ec
  | .ok (pending, none) => ∃ q, result = .ok q ∧ Idle pending q
  | .ok (pending, some msg) => ∃ q, result = .ok q ∧ Gives msg pending q

/-- The end of a data frame, from the metadata that it leaves. -/
theorem data_end {metadata : MsgMetadata m} {msg : Message} (extending : Extending f msg q)
    (held : metadata.msgPtr = some { msg with payload := msg.payload ++ f.payload })
    (valid : msg.opcode = .text → Validator.fresh.decode (msg.payload ++ f.payload) =
      (true, metadata.validator)) :
    Extended (finishFrame (filled q metadata 0)) (extend f msg) := by
  have ended := finish_filled metadata extending.header
  have completes : f.op = .text → (Validator.fresh.decode (msg.payload ++ f.payload)).2.complete =
      metadata.validator.complete := by
    intro text
    rw [valid (extending.first text)]
  have accepts : ¬(msg.opcode = .text ∧
      (!(Validator.fresh.decode (msg.payload ++ f.payload)).1) = true) := by
    rintro ⟨text, refused⟩
    rw [valid text] at refused
    contradiction
  unfold extend
  dsimp only
  rw [if_neg accepts, ended]
  cases f.fin with
  | true =>
    by_cases refused : f.op = .text ∧ metadata.validator.complete = false
    · rw [if_pos rfl, if_pos refused, if_pos rfl,
        if_pos ⟨refused.1, by rw [completes refused.1, refused.2]; rfl⟩]
      rfl
    · have fine : ¬(f.op = .text ∧
          (!(Validator.fresh.decode (msg.payload ++ f.payload)).2.complete) = true) := by
        rintro ⟨text, short⟩
        rw [completes text] at short
        exact refused ⟨text, by simpa using short⟩
      rw [if_pos rfl, if_neg refused, if_pos rfl, if_neg fine]
      exact ⟨_, rfl, gives_data extending.current held⟩
  | false =>
    rw [if_neg (by decide), if_neg (by decide)]
    have data : (resetHeaders (filled q metadata 0)).dataMsg = metadata := by
      simp [resetHeaders, filled, Processor.setCurrent, extending.current]
    refine ⟨_, rfl, rfl, rfl, rfl, by rw [data]; exact held, ?_⟩
    intro whole same text
    obtain rfl := Option.some.inj same
    rw [data]
    exact valid text

theorem data_payload {msg : Message} (extending : Extending f msg q) :
    Extended (((q.current.fill q.basicHeader (maskedPayload m f)).map (filled q · 0)).bind
      finishFrame) (extend f msg) := by
  have current : q.current = q.dataMsg := by
    rw [Processor.current, extending.current]
  obtain ⟨preparedKey, filling⟩ := fill_frame (f := f) extending.held extending.key
  have decoded : msg.opcode = .text → Validator.fresh.decode (msg.payload ++ f.payload) =
      q.dataMsg.validator.decode f.payload := by
    intro text
    rw [decode_append, extending.valid text, if_pos rfl]
  rw [current, extending.header, filling]
  by_cases refused : msg.opcode = .text ∧ (q.dataMsg.validator.decode f.payload).1 = false
  · have expected : extend f msg = .error .invalidUtf8 := by
      unfold extend
      dsimp only
      rw [if_pos ⟨refused.1, by rw [decoded refused.1, refused.2]; rfl⟩]
    rw [if_pos refused, expected]
    rfl
  · rw [if_neg refused]
    refine data_end extending rfl ?_
    intro text
    have fine : (q.dataMsg.validator.decode f.payload).1 = true := by
      cases here : (q.dataMsg.validator.decode f.payload).1 with
      | true => rfl
      | false => exact (refused ⟨text, here⟩).elim
    rw [decoded text, if_pos text]
    exact Prod.ext fine rfl

/-- A data frame whose message has been begun or found. -/
theorem data_begun {msg : Message} {metadata : MsgMetadata m}
    (begun : beginPayload s (withHeader m f p) =
      .ok { withHeader m f p with dataMsg := metadata, currentMsg := .data })
    (held : metadata.msgPtr = some msg)
    (key : metadata.preparedKey = prepareMaskingKey m f.fields.keyed.key)
    (valid : msg.opcode = .text →
      Validator.fresh.decode msg.payload = (true, metadata.validator))
    (first : f.op = .text → msg.opcode = .text) : Extended (atPayload s p f) (extend f msg) := by
  rw [atPayload, begun]
  exact data_payload ⟨rfl, rfl, held, key, valid, first⟩

theorem begins_first (held : p.dataMsg.msgPtr = none) (data : ¬ f.op.isControl = true) :
    beginPayload s (withHeader m f p) =
      if s.maxMessageSize < f.payload.length then .error .messageTooBig
      else .ok { withHeader m f p with
        dataMsg := .make f.op f.fields.keyed.key
        currentMsg := .data } := by
  have op : getOpcode (withHeader m f p).basicHeader = f.op := frame_opcode f
  have key : getMaskingKey m (withHeader m f p).basicHeader (withHeader m f p).extendedHeader =
      f.fields.keyed.key := frame_key f
  have held : (withHeader m f p).dataMsg.msgPtr = none := held
  unfold beginPayload
  dsimp only
  rw [op, key, if_neg data, held]
  rfl

theorem begins_further {out : Message} (held : p.dataMsg.msgPtr = some out)
    (data : ¬ f.op.isControl = true) : beginPayload s (withHeader m f p) =
      if s.maxMessageSize < (out.payload.length + f.payload.length) % 2 ^ (8 * m.sizeT) then
        .error .messageTooBig
      else .ok { withHeader m f p with
        dataMsg := { p.dataMsg with preparedKey := prepareMaskingKey m f.fields.keyed.key }
        currentMsg := .data } := by
  have op : getOpcode (withHeader m f p).basicHeader = f.op := frame_opcode f
  have key : getMaskingKey m (withHeader m f p).basicHeader (withHeader m f p).extendedHeader =
      f.fields.keyed.key := frame_key f
  have held' : (withHeader m f p).dataMsg.msgPtr = some out := held
  unfold beginPayload
  dsimp only
  rw [op, key, if_neg data, held']
  dsimp only
  rw [← held]
  rfl

theorem frame_payload (idle : Idle pending p)
    (accepted : validateIncomingBasicHeader f.fields.basic s.isServer pending.isNone = none) :
    Extended (atPayload s p f) (accept m s pending f) := by
  have facts := (valid_basic_iff ..).mp accepted
  unfold accept
  rw [accepted]
  dsimp only
  by_cases control : f.op.isControl = true
  · rw [if_pos control]
    have fin : f.fin = true := by
      have whole := facts.controlFin (by rw [frame_opcode, control])
      rwa [frame_fin] at whole
    obtain ⟨q, result, gives⟩ := control_frame (s := s) idle control fin
    exact ⟨q, result, gives⟩
  · rw [if_neg control]
    cases pending with
    | none =>
      have beginning := begins_first (s := s) idle.held control
      dsimp only
      by_cases big : s.maxMessageSize < f.payload.length
      · rw [if_pos big] at beginning
        rw [if_pos big, atPayload, beginning]
        rfl
      · rw [if_neg big] at beginning
        rw [if_neg big]
        exact data_begun beginning rfl rfl (fun _ => rfl) fun text => text
    | some msg =>
      have beginning := begins_further (s := s) idle.held control
      dsimp only
      by_cases big :
          s.maxMessageSize < (msg.payload.length + f.payload.length) % 2 ^ (8 * m.sizeT)
      · rw [if_pos big] at beginning
        rw [if_pos big, atPayload, beginning]
        rfl
      · rw [if_neg big] at beginning
        rw [if_neg big]
        have continues : f.op = .continuation := by
          have continued := facts.continues rfl
          rw [frame_opcode] at continued
          exact continued (by simpa using control)
        refine data_begun beginning idle.held rfl (idle.valid msg rfl) fun text => ?_
        rw [continues] at text
        contradiction

/-- A whole frame that is read. -/
theorem reads_frame (idle : Idle pending p) (size : f.payload.length < 2 ^ (8 * m.sizeT))
    (rest : List Byte) :
    match accept m s pending f with
    | .error ec => Reads s p (f.bytes m ++ rest) [] (.error ec)
    | .ok (pending, out) => ∃ q : Processor m, Idle pending q ∧
        ∀ outs last, Reads s q rest outs last →
          Reads s p (f.bytes m ++ rest) (out.toList ++ outs) last := by
  obtain ⟨refused, through⟩ := reads_header (s := s) idle size rest
  cases checked : validateIncomingBasicHeader f.fields.basic s.isServer pending.isNone with
  | some ec =>
    unfold accept
    rw [checked]
    exact refused ec checked
  | none =>
    obtain ⟨fails, goes⟩ := through checked
    have reached := frame_payload (s := s) idle checked
    generalize accept m s pending f = result at reached ⊢
    match result, reached with
    | .error ec, reached => exact fails ec reached
    | .ok (next, none), reached =>
      obtain ⟨q, done, idle'⟩ := reached
      exact ⟨q, idle', goes q done⟩
    | .ok (next, some msg), reached =>
      obtain ⟨q, done, gives⟩ := reached
      refine ⟨(getMessage q).2, gives.idle, fun outs last more => ?_⟩
      have taking := reads_message gives.ready more
      rw [gives.message] at taking
      exact goes q done _ _ taking

/-- The frames of a connection, one after the other, up to the first error. -/
def acceptAll (m : Machine) (s : Settings) :
    Option Message → List WireFrame → List Message × Except ProcessorError (Option Message)
  | pending, [] => ([], .ok pending)
  | pending, f :: frames =>
    match accept m s pending f with
    | .error ec => ([], .error ec)
    | .ok (pending, out) =>
      let (msgs, last) := acceptAll m s pending frames
      (out.toList ++ msgs, last)

/-- The bytes of whole frames, one after the other. -/
theorem reads_frames (frames : List WireFrame)
    (sizes : ∀ f ∈ frames, f.payload.length < 2 ^ (8 * m.sizeT)) (idle : Idle pending p)
    (rest : List Byte) :
    match acceptAll m s pending frames with
    | (msgs, .error ec) => Reads s p (frames.flatMap (·.bytes m) ++ rest) msgs (.error ec)
    | (msgs, .ok pending) => ∃ q : Processor m, Idle pending q ∧
        ∀ outs last, Reads s q rest outs last →
          Reads s p (frames.flatMap (·.bytes m) ++ rest) (msgs ++ outs) last := by
  induction frames generalizing pending p with
  | nil => exact ⟨p, idle, fun _ _ reads => reads⟩
  | cons f frames ih =>
    have here := reads_frame (s := s) idle (sizes f (by simp))
      (frames.flatMap (·.bytes m) ++ rest)
    rw [List.flatMap_cons, List.append_assoc, acceptAll]
    generalize accept m s pending f = result at here ⊢
    match result, here with
    | .error ec, here => exact here
    | .ok (next, out), here =>
      obtain ⟨q, idle', goes⟩ := here
      have further := ih (fun g mem => sizes g (List.mem_cons_of_mem _ mem)) idle'
      dsimp only
      generalize acceptAll m s next frames = result at further ⊢
      match result, further with
      | (msgs, .error ec), further => exact goes _ _ further
      | (msgs, .ok last), further =>
        obtain ⟨r, idle'', through⟩ := further
        refine ⟨r, idle'', fun outs last more => ?_⟩
        rw [List.append_assoc]
        exact goes _ _ (through _ _ more)

/-- Frames that are all accepted are read to the end of the last one. -/
theorem reads_accepted {frames : List WireFrame} {msgs : List Message} {after : Option Message}
    (sizes : ∀ f ∈ frames, f.payload.length < 2 ^ (8 * m.sizeT)) (idle : Idle pending p)
    (accepted : acceptAll m s pending frames = (msgs, .ok after)) :
    ∃ q : Processor m, Idle after q ∧ Reads s p (frames.flatMap (·.bytes m)) msgs (.ok q) := by
  have reads := reads_frames (s := s) frames sizes idle []
  rw [accepted] at reads
  obtain ⟨q, idle', goes⟩ := reads
  have ended := goes [] _ (.waits (settled_waits (idle_settled idle')))
  rw [List.append_nil, List.append_nil] at ended
  exact ⟨q, idle', ended⟩

/-- The bytes of frames, cut into reads in any way, dispatch the messages that the frames
    complete and come to the same end. -/
theorem frames_read (m : Machine) (s : Settings) (frames : List WireFrame)
    (sizes : ∀ f ∈ frames, f.payload.length < 2 ^ (8 * m.sizeT)) (bufs : List (List Byte))
    (whole : bufs.flatten = frames.flatMap (·.bytes m)) :
    (readAll s (.initial m) bufs).1 = (acceptAll m s none frames).1 ∧
      match (acceptAll m s none frames).2 with
      | .error ec => (readAll s (.initial m) bufs).2 = .error ec
      | .ok pending => ∃ p, (readAll s (.initial m) bufs).2 = .ok p ∧ Idle pending p := by
  have frames_reads := reads_frames (s := s) frames sizes idle_initial []
  have done := handle_reads (s := s) (settled_initial (m := m)) bufs.flatten
  rw [all_at_once settled_initial]
  rw [List.append_nil, ← whole] at frames_reads
  generalize acceptAll m s none frames = result at frames_reads ⊢
  match result, frames_reads with
  | (msgs, .error ec), reads => exact PiecewiseReader.reads_same done reads
  | (msgs, .ok pending), reads =>
    obtain ⟨q, idle, goes⟩ := reads
    have ended := goes [] _ (.waits (settled_waits (idle_settled idle)))
    obtain ⟨same, last⟩ := PiecewiseReader.reads_same done ended
    exact ⟨same.trans (List.append_nil _), q, last, idle⟩

/-- A 64 bit machine with the low byte first. -/
def littleEndian64 : Machine := ⟨.little, 8, Or.inr rfl⟩

/-- A masked text in two frames, with a ping between them. -/
def brokenText : List WireFrame :=
  [⟨.text, false, false, false, false, true, 0x12345678, [0x68, 0xC3]⟩,
    ⟨.ping, true, false, false, false, true, 0x9ABCDEF0, [0x3F]⟩,
    ⟨.continuation, true, false, false, false, true, 0x0F1E2D3C, [0xA9]⟩]

/-- Byte by byte. -/
def brokenTextBytes : List (List Byte) :=
  (brokenText.flatMap (·.bytes littleEndian64)).map ([·])

theorem broken_text_read :
    (readAll ⟨true, 3⟩ (.initial littleEndian64) brokenTextBytes).1 =
        [⟨.ping, [0x3F]⟩, ⟨.text, [0x68, 0xC3, 0xA9]⟩] ∧
      ∃ p, (readAll ⟨true, 3⟩ (.initial littleEndian64) brokenTextBytes).2 = .ok p ∧
        Idle none p := by
  have reads := frames_read littleEndian64 ⟨true, 3⟩ brokenText (by decide) brokenTextBytes
    (by decide +kernel)
  have done : acceptAll littleEndian64 ⟨true, 3⟩ none brokenText =
      ([⟨.ping, [0x3F]⟩, ⟨.text, [0x68, 0xC3, 0xA9]⟩], .ok none) := by decide +kernel
  rwa [done] at reads

end FrameMachine

import SpaceCube.Wire.FrameMachine

/- How hybi13 prepares messages for the wire, and that the processor at the other end reads back
   what was prepared. -/
namespace PreparedFrames
open MachineWord Masking FrameHeader HeaderChecks Utf8Validator Utf8Text Hybi13 ReadPieces
  FrameMachine

/-- A message buffer on its way out. -/
structure OutMessage where
  opcode : Opcode
  fin : Bool
  payload : List Byte
  header : List Byte
  prepared : Bool
  terminal : Bool
  deriving DecidableEq

/-- get_message and append_payload. -/
def OutMessage.make (op : Opcode) (payload : List Byte) : OutMessage :=
  ⟨op, true, payload, [], false, false⟩

/-- What goes out on the wire. -/
def OutMessage.bytes (msg : OutMessage) : List Byte := msg.header ++ msg.payload

variable (m : Machine) (isServer : Bool) (rng : MaskingKey)

/-- rng is what the generator returns, which only a client asks. -/
def prepareDataFrame (input out : OutMessage) : Except ProcessorError OutMessage :=
  let op := input.opcode
  if op.isControl then .error .invalidOpcode
  else if op = .text ∧ !validate input.payload then .error .invalidPayload
  else
    let masked := !isServer
    let key : MaskingKey := if masked then rng else 0
    let o := if masked then byteMask m key 0 input.payload else input.payload
    let h := BasicHeader.make op o.length input.fin masked
    let e := if masked then ExtendedHeader.ofSizeKey m o.length key else .ofSize m o.length
    .ok { out with payload := o, header := prepareHeader h e, prepared := true, opcode := op }

def prepareControl (op : Opcode) (payload : List Byte) (out : OutMessage) :
    Except ProcessorError OutMessage :=
  if !op.isControl then .error .invalidOpcode
  else if payloadSizeBasic < payload.length then .error .controlTooBig
  else
    let masked := !isServer
    let h := BasicHeader.make op payload.length true masked
    if masked then
      .ok
        { out with
          payload := byteMask m rng 0 payload
          header := prepareHeader h (.ofSizeKey m payload.length rng)
          opcode := op
          prepared := true }
    else
      .ok
        { out with
          payload := payload
          header := prepareHeader h (.ofSize m payload.length)
          opcode := op
          prepared := true }

def preparePing (payload : List Byte) (out : OutMessage) : Except ProcessorError OutMessage :=
  prepareControl m isServer rng .ping payload out

def preparePong (payload : List Byte) (out : OutMessage) : Except ProcessorError OutMessage :=
  prepareControl m isServer rng .pong payload out

abbrev CloseCode := BitVec 16

def noStatus : CloseCode := 1005
def abnormalClose : CloseCode := 1006
def tlsHandshake : CloseCode := 1015
def protocolError : CloseCode := 1002

def reservedCode (code : CloseCode) : Bool :=
  (1016 ≤ code.toNat && code.toNat ≤ 2999) || code = 1004

def invalidCode (code : CloseCode) : Bool :=
  code.toNat ≤ 999 || 5000 ≤ code.toNat || code = noStatus || code = abnormalClose ||
    code = tlsHandshake

/-- The payload of a close frame. -/
def closePayload (code : CloseCode) (reason : List Byte) : List Byte :=
  if code = noStatus then []
  else toBytes m.order 2 (toNetwork m.order 2 code) ++ reason

def prepareClose (code : CloseCode) (reason : List Byte) (out : OutMessage) :
    Except ProcessorError OutMessage :=
  if reservedCode code then .error .reservedCloseCode
  else if invalidCode code ∧ code ≠ noStatus then .error .invalidCloseCode
  else if code = noStatus ∧ 0 < reason.length then .error .reasonRequiresCode
  else if payloadSizeBasic - 2 < reason.length then .error .controlTooBig
  else prepareControl m isServer rng .close (closePayload m code reason) out

/-- The errors of a close payload. -/
inductive CloseError where
  | badCloseCode
  | invalidCloseCode
  | reservedCloseCode
  | invalidUtf8
  deriving DecidableEq

def extractCode (payload : List Byte) : CloseCode × Option CloseError :=
  match payload with
  | [] => (noStatus, none)
  | [_] => (protocolError, some .badCloseCode)
  | x :: y :: _ =>
    let code := toNetwork m.order 2 (ofBytes m.order 16 [x, y])
    (code,
      if reservedCode code then some .reservedCloseCode
      else if invalidCode code then some .invalidCloseCode
      else none)

def extractReason (payload : List Byte) : List Byte × Option CloseError :=
  let reason := if 2 < payload.length then payload.drop 2 else []
  (reason, if validate reason then none else some .invalidUtf8)

/-- The frame that a prepared message is. -/
structure Prepared (out : OutMessage) (f : WireFrame) : Prop where
  bytes : out.bytes = f.bytes m
  size : out.payload.length = f.payload.length
  op : out.opcode = f.op
  rsv : f.rsv1 = false ∧ f.rsv2 = false ∧ f.rsv3 = false
  masked : f.masked = !isServer
  control : f.op.isControl = true → f.fin = true ∧ f.payload.length ≤ payloadSizeBasic
  text : f.op = .text → validate f.payload = true

variable {m isServer rng}

theorem prepared_frame {op : Opcode} {payload : List Byte} {fin : Bool} {key : MaskingKey}
    {out : OutMessage}
    (header : out.header = prepareHeader (.make op payload.length fin !isServer)
      (.make m payload.length (!isServer) key))
    (body : out.payload = if !isServer then byteMask m key 0 payload else payload)
    (opcode : out.opcode = op)
    (control : op.isControl = true → fin = true ∧ payload.length ≤ payloadSizeBasic)
    (text : op = .text → validate payload = true) :
    Prepared m isServer out ⟨op, fin, false, false, false, !isServer, key, payload⟩ where
  bytes := by
    rw [OutMessage.bytes, header, body]
    rfl
  size := by
    rw [body]
    split
    · rw [byteMask_masked, masked_length]
    · rfl
  op := opcode
  rsv := ⟨rfl, rfl, rfl⟩
  masked := rfl
  control := control
  text := text

/-- The frame of a data message. -/
def dataFrame (isServer : Bool) (rng : MaskingKey) (input : OutMessage) : WireFrame :=
  ⟨input.opcode, input.fin, false, false, false, !isServer, if !isServer then rng else 0,
    input.payload⟩

def controlFrame (isServer : Bool) (rng : MaskingKey) (op : Opcode) (payload : List Byte) :
    WireFrame := ⟨op, true, false, false, false, !isServer, rng, payload⟩

theorem data_prepared {input out done : OutMessage}
    (prepared : prepareDataFrame m isServer rng input out = .ok done) :
    Prepared m isServer done (dataFrame isServer rng input) ∧ done.terminal = out.terminal := by
  unfold prepareDataFrame at prepared
  dsimp only at prepared
  split at prepared
  · contradiction
  · rename_i data
    split at prepared
    · contradiction
    · rename_i valid
      obtain rfl := Except.ok.inj prepared
      refine ⟨prepared_frame ?_ rfl rfl (fun control => absurd control data) ?_, rfl⟩
      · cases isServer with
        | false => simp [ExtendedHeader.make, byteMask_masked, masked_length]
        | true => simp [ExtendedHeader.make]
      · intro text
        cases here : validate input.payload with
        | true => rfl
        | false => exact (valid ⟨text, by rw [here]; rfl⟩).elim

theorem control_prepared {op : Opcode} {payload : List Byte} {out done : OutMessage}
    (prepared : prepareControl m isServer rng op payload out = .ok done) :
    Prepared m isServer done (controlFrame isServer rng op payload) ∧
      done.terminal = out.terminal := by
  unfold prepareControl at prepared
  dsimp only at prepared
  split at prepared
  · contradiction
  · rename_i control
    have control : op.isControl = true := by simpa using control
    split at prepared
    · contradiction
    · rename_i small
      have small := Nat.not_lt.mp small
      have notText : op = .text → validate payload = true := fun text =>
        absurd text (control_not_text control)
      cases isServer with
      | false =>
        obtain rfl := Except.ok.inj prepared
        exact ⟨prepared_frame rfl rfl rfl (fun _ => ⟨rfl, small⟩) notText, rfl⟩
      | true =>
        obtain rfl := Except.ok.inj prepared
        exact ⟨prepared_frame rfl rfl rfl (fun _ => ⟨rfl, small⟩) notText, rfl⟩

theorem close_payload_small {code : CloseCode} {reason : List Byte}
    (small : reason.length ≤ payloadSizeBasic - 2) :
    (closePayload m code reason).length ≤ payloadSizeBasic := by
  unfold closePayload
  split
  · exact Nat.zero_le _
  · rw [List.length_append, toBytes_length]
    simp only [payloadSizeBasic] at small ⊢
    omega

/-- What a frame means to say when it is a message of its own. -/
def frameMessage (f : WireFrame) : Message := ⟨f.op, f.payload⟩

/-- A message that is whole in one frame and not longer than the other end allows. -/
inductive Whole (s : Settings) (f : WireFrame) : Prop where
  | control (named : f.op = .ping ∨ f.op = .pong ∨ f.op = .close)
  | data (named : f.op = .text ∨ f.op = .binary) (fin : f.fin = true)
    (small : f.payload.length ≤ s.maxMessageSize)

variable {s : Settings} {out : OutMessage} {f : WireFrame}

theorem frame_rsv (f : WireFrame) : getRsv1 f.fields.basic = f.rsv1 ∧
    getRsv2 f.fields.basic = f.rsv2 ∧ getRsv3 f.fields.basic = f.rsv3 := by
  have first := first_byte_read f.op f.fin f.rsv1 f.rsv2 f.rsv3
  exact ⟨first.rsv1, first.rsv2, first.rsv3⟩

theorem frame_masked (f : WireFrame) : getMasked f.fields.basic = f.masked := made_masked ..

theorem frame_basic_size (f : WireFrame) (small : f.payload.length ≤ payloadSizeBasic) :
    (getBasicSize f.fields.basic).toNat ≤ payloadSizeBasic := by
  have basic : getBasicSize f.fields.basic = basicValue f.payload.length := made_basic_size ..
  rw [basic]
  cases size_form f.payload.length with
  | basic fits value none =>
    rw [value]
    exact fits
  | extended large fits code two => exact absurd small (Nat.not_le.mpr large)
  | jumbo large code eight =>
    have bigger : payloadSizeBasic < 0xFFFF := by decide
    omega

theorem whole_valid (role : s.isServer = !isServer) (prepared : Prepared m isServer out f)
    (whole : Whole s f) : validateIncomingBasicHeader f.fields.basic s.isServer true = none := by
  have named : f.op.reserved = false ∧ f.op ≠ .continuation := by
    cases whole with
    | control named => rcases named with same | same | same <;> rw [same] <;> decide
    | data named fin small => rcases named with same | same <;> rw [same] <;> decide
  obtain ⟨rsv1, rsv2, rsv3⟩ := frame_rsv f
  obtain ⟨clear1, clear2, clear3⟩ := prepared.rsv
  refine (valid_basic_iff ..).mpr ⟨?_, rsv1.trans clear1, rsv2.trans clear2, rsv3.trans clear3,
    ?_, ?_, ?_, fun new => by contradiction, ?_⟩
  · intro control
    rw [frame_opcode] at control
    exact frame_basic_size f (prepared.control control).2
  · rw [frame_opcode]
    exact named.1
  · intro control
    rw [frame_opcode] at control
    rw [frame_fin]
    exact (prepared.control control).1
  · intro _
    rw [frame_opcode]
    exact named.2
  · rw [frame_masked, prepared.masked, role]

theorem validate_parts {bytes : List Byte} (valid : validate bytes = true) :
    (Validator.fresh.decode bytes).1 = true ∧
      (Validator.fresh.decode bytes).2.complete = true := by
  unfold validate at valid
  dsimp only at valid
  cases here : (Validator.fresh.decode bytes).1 with
  | true => exact ⟨rfl, by simpa [here] using valid⟩
  | false => simp [here] at valid

/-- The other end takes a whole message in at once. -/
theorem accept_whole (role : s.isServer = !isServer) (prepared : Prepared m isServer out f)
    (whole : Whole s f) : accept m s none f = .ok (none, some (frameMessage f)) := by
  have valid := whole_valid role prepared whole
  unfold accept
  rw [show (none : Option Message).isNone = true from rfl, valid]
  dsimp only
  cases whole with
  | control named =>
    have control : f.op.isControl = true := by
      rcases named with same | same | same <;> rw [same] <;> decide
    rw [if_pos control]
    rfl
  | data named fin small =>
    have data : ¬ f.op.isControl = true := by
      rcases named with same | same <;> rw [same] <;> decide
    have valid := fun text => validate_parts (prepared.text text)
    rw [if_neg data, if_neg (Nat.not_lt.mpr small)]
    unfold extend
    dsimp only
    rw [List.nil_append]
    have accepts : ¬(f.op = .text ∧ (!(Validator.fresh.decode f.payload).1) = true) := by
      rintro ⟨text, refused⟩
      rw [(valid text).1] at refused
      contradiction
    have ends : ¬(f.op = .text ∧
        (!(Validator.fresh.decode f.payload).2.complete) = true) := by
      rintro ⟨text, short⟩
      rw [(valid text).2] at short
      contradiction
    rw [if_neg accepts, if_pos fin, if_neg ends]
    rfl

theorem accept_all_whole (role : s.isServer = !isServer) (frames : List WireFrame)
    (prepared : ∀ f ∈ frames, (∃ out, Prepared m isServer out f) ∧ Whole s f) :
    acceptAll m s none frames = (frames.map frameMessage, .ok none) := by
  induction frames with
  | nil => rfl
  | cons f frames ih =>
    obtain ⟨⟨out, first⟩, whole⟩ := prepared f (by simp)
    have rest := ih fun g mem => prepared g (List.mem_cons_of_mem _ mem)
    rw [acceptAll, accept_whole role first whole]
    dsimp only
    rw [rest]
    rfl

/-- What an endpoint may be asked to send. -/
inductive Request where
  | data (input : OutMessage)
  | ping (payload : List Byte)
  | pong (payload : List Byte)
  | close (code : CloseCode) (reason : List Byte)

variable (m isServer rng) in
/-- The message that goes to the send queue, prepared in a new buffer. -/
def Request.prepare (out : OutMessage) : Request → Except ProcessorError OutMessage
  | .data input => prepareDataFrame m isServer rng input out
  | .ping payload => preparePing m isServer rng payload out
  | .pong payload => preparePong m isServer rng payload out
  | .close code reason => prepareClose m isServer rng code reason out

variable (m isServer rng) in
def Request.frame : Request → WireFrame
  | .data input => dataFrame isServer rng input
  | .ping payload => controlFrame isServer rng .ping payload
  | .pong payload => controlFrame isServer rng .pong payload
  | .close code reason => controlFrame isServer rng .close (closePayload m code reason)

variable (m) in
/-- What the other end is to be told. -/
def Request.message : Request → Message
  | .data input => ⟨input.opcode, input.payload⟩
  | .ping payload => ⟨.ping, payload⟩
  | .pong payload => ⟨.pong, payload⟩
  | .close code reason => ⟨.close, closePayload m code reason⟩

/-- A data message that is not a fragment and that the other end has room for. -/
def Request.Whole (s : Settings) : Request → Prop
  | .data input => (input.opcode = .text ∨ input.opcode = .binary) ∧ input.fin = true ∧
      input.payload.length ≤ s.maxMessageSize
  | _ => True

/-- The closes that prepareClose has a frame for. -/
def Sendable (code : CloseCode) (reason : List Byte) : Prop :=
  reservedCode code = false ∧ (invalidCode code = false ∨ code = noStatus ∧ reason = []) ∧
    reason.length ≤ payloadSizeBasic - 2

theorem close_prepared {code : CloseCode} {reason : List Byte} {out done : OutMessage}
    (prepared : prepareClose m isServer rng code reason out = .ok done) :
    Sendable code reason ∧
      prepareControl m isServer rng .close (closePayload m code reason) out = .ok done := by
  unfold prepareClose at prepared
  split at prepared
  · contradiction
  · rename_i defined
    split at prepared
    · contradiction
    · rename_i valid
      split at prepared
      · contradiction
      · rename_i bare
        split at prepared
        · contradiction
        · rename_i small
          refine ⟨⟨by simpa using defined, ?_, Nat.not_lt.mp small⟩, prepared⟩
          by_cases none : code = noStatus
          · have empty : reason.length = 0 := by
              by_contra some
              exact bare ⟨none, Nat.pos_of_ne_zero some⟩
            exact Or.inr ⟨none, List.eq_nil_of_length_eq_zero empty⟩
          · left
            by_contra invalid
            exact valid ⟨by simpa using invalid, none⟩

theorem request_prepared {request : Request} {out done : OutMessage}
    (prepared : request.prepare m isServer rng out = .ok done) :
    Prepared m isServer done (request.frame m isServer rng) ∧ done.terminal = out.terminal := by
  cases request with
  | data input => exact data_prepared prepared
  | ping payload => exact control_prepared prepared
  | pong payload => exact control_prepared prepared
  | close code reason => exact control_prepared (close_prepared prepared).2

theorem request_whole {request : Request} (whole : request.Whole s) :
    PreparedFrames.Whole s (request.frame m isServer rng) := by
  cases request with
  | data input => exact .data whole.1 whole.2.1 whole.2.2
  | ping payload => exact .control (Or.inl rfl)
  | pong payload => exact .control (Or.inr (Or.inl rfl))
  | close code reason => exact .control (Or.inr (Or.inr rfl))

theorem request_message (request : Request) :
    frameMessage (request.frame m isServer rng) = request.message m := by
  cases request with
  | data input => rfl
  | ping payload => rfl
  | pong payload => rfl
  | close code reason => rfl

/-- The sizes of what is prepared are ones that the machine can hold. -/
theorem whole_fits (held : s.maxMessageSize < 2 ^ (8 * m.sizeT))
    (prepared : Prepared m isServer out f) (whole : PreparedFrames.Whole s f) :
    f.payload.length < 2 ^ (8 * m.sizeT) := by
  cases whole with
  | control named =>
    have control : f.op.isControl = true := by
      rcases named with same | same | same <;> rw [same] <;> decide
    have small := (prepared.control control).2
    have wide : payloadSizeBasic < 2 ^ (8 * m.sizeT) := by
      rcases m.supported with four | eight
      · rw [four]
        decide
      · rw [eight]
        decide
    omega
  | data named fin small => omega

/-- A request, the key it is masked with and the buffer it is prepared in. -/
structure Asked where
  request : Request
  rng : MaskingKey
  out : OutMessage

variable (m isServer) in
def Asked.prepare (asked : Asked) : Except ProcessorError OutMessage :=
  asked.request.prepare m isServer asked.rng asked.out

/-- A prepared message that tells the other end this. -/
def Sends (m : Machine) (s : Settings) (isServer : Bool) (out : OutMessage) (msg : Message) :
    Prop :=
  ∃ f, Prepared m isServer out f ∧ PreparedFrames.Whole s f ∧ frameMessage f = msg

theorem request_sends (request : Request) {out done : OutMessage}
    (prepared : request.prepare m isServer rng out = .ok done) (whole : request.Whole s) :
    Sends m s isServer done (request.message m) :=
  ⟨_, (request_prepared prepared).1, request_whole whole, request_message request⟩

theorem sends_frames {outs : List OutMessage} {msgs : List Message}
    (sends : List.Forall₂ (Sends m s isServer) outs msgs) :
    ∃ frames : List WireFrame, outs.flatMap OutMessage.bytes = frames.flatMap (·.bytes m) ∧
      (∀ f ∈ frames, (∃ out, Prepared m isServer out f) ∧ PreparedFrames.Whole s f) ∧
      frames.map frameMessage = msgs := by
  induction sends with
  | nil => exact ⟨[], rfl, by simp, rfl⟩
  | cons first more ih =>
    obtain ⟨f, prepared, whole, rfl⟩ := first
    obtain ⟨frames, bytes, all, rfl⟩ := ih
    refine ⟨f :: frames, ?_, ?_, rfl⟩
    · rw [List.flatMap_cons, List.flatMap_cons, bytes, prepared.bytes]
    · intro g mem
      rcases List.mem_cons.mp mem with rfl | mem
      · exact ⟨⟨_, prepared⟩, whole⟩
      · exact all g mem

/-- The other end reads what prepared messages tell it. -/
theorem sends_read (role : s.isServer = !isServer)
    (held : s.maxMessageSize < 2 ^ (8 * m.sizeT)) {outs : List OutMessage} {msgs : List Message}
    (sends : List.Forall₂ (Sends m s isServer) outs msgs) :
    ∃ q : Processor m, Idle none q ∧
      Reads s (.initial m) (outs.flatMap OutMessage.bytes) msgs (.ok q) := by
  obtain ⟨frames, bytes, all, rfl⟩ := sends_frames sends
  have sizes : ∀ f ∈ frames, f.payload.length < 2 ^ (8 * m.sizeT) := by
    intro f mem
    obtain ⟨⟨out, prepared⟩, whole⟩ := all f mem
    exact whole_fits held prepared whole
  rw [bytes]
  exact reads_accepted sizes idle_initial (accept_all_whole role frames all)

theorem asked_sends {asked : List Asked} {outs : List OutMessage}
    (prepared : List.Forall₂ (fun a out => a.prepare m isServer = .ok out) asked outs)
    (whole : ∀ a ∈ asked, a.request.Whole s) :
    List.Forall₂ (Sends m s isServer) outs (asked.map (·.request.message m)) := by
  induction prepared with
  | nil => exact .nil
  | cons first more ih =>
    exact .cons (request_sends _ first (whole _ (by simp)))
      (ih fun a mem => whole a (List.mem_cons_of_mem _ mem))

/-- The messages that one end prepares, one after the other on the wire and cut into reads in any
    way, are dispatched at the other end, each once and in order. -/
theorem prepared_delivered (m : Machine) (isServer : Bool) (s : Settings)
    (role : s.isServer = !isServer) (held : s.maxMessageSize < 2 ^ (8 * m.sizeT))
    (asked : List Asked) (whole : ∀ a ∈ asked, a.request.Whole s) (outs : List OutMessage)
    (prepared : List.Forall₂ (fun a out => a.prepare m isServer = .ok out) asked outs)
    (bufs : List (List Byte)) (cut : bufs.flatten = outs.flatMap OutMessage.bytes) :
    (readAll s (.initial m) bufs).1 = asked.map (·.request.message m) ∧
      ∃ p, (readAll s (.initial m) bufs).2 = .ok p ∧ Idle none p := by
  obtain ⟨p, idle, reads⟩ := sends_read role held (asked_sends prepared whole)
  have done := handle_reads (s := s) (settled_initial (m := m)) bufs.flatten
  rw [← cut] at reads
  obtain ⟨same, last⟩ := PiecewiseReader.reads_same done reads
  rw [all_at_once settled_initial]
  exact ⟨same, p, last, idle⟩

/-- A text and the close that ends it, from a client. -/
def farewell : List Asked :=
  [⟨.data (.make .text [0x68, 0x69]), 0x12345678, .make .continuation []⟩,
    ⟨.close 1000 [0x6F, 0x6B], 0x9ABCDEF0, .make .continuation []⟩]

def farewellOuts : List OutMessage :=
  [⟨.text, true, [0x10, 0x3F], [0x81, 0x82, 0x78, 0x56, 0x34, 0x12], true, false⟩,
    ⟨.close, true, [0xF3, 0x36, 0xD3, 0xF1], [0x88, 0x84, 0xF0, 0xDE, 0xBC, 0x9A], true, false⟩]

theorem farewell_delivered :
    (readAll ⟨true, 100⟩ (.initial littleEndian64)
        [farewellOuts.flatMap OutMessage.bytes]).1 =
      [⟨.text, [0x68, 0x69]⟩, ⟨.close, [0x03, 0xE8, 0x6F, 0x6B]⟩] := by
  have whole : ∀ a ∈ farewell, a.request.Whole ⟨true, 100⟩ := by
    simp [farewell, Request.Whole, OutMessage.make]
  have prepared : List.Forall₂ (fun a out => a.prepare littleEndian64 false = .ok out)
      farewell farewellOuts := by
    refine .cons (by decide +kernel) (.cons (by decide +kernel) .nil)
  have delivered := prepared_delivered littleEndian64 false ⟨true, 100⟩ rfl (by decide) farewell
    whole farewellOuts prepared [farewellOuts.flatMap OutMessage.bytes]
    (by rw [List.flatten_cons, List.flatten_nil, List.append_nil])
  exact delivered.1.trans (by decide +kernel)

theorem sendable_prepared {code : CloseCode} {reason : List Byte}
    (sendable : Sendable code reason) (out : OutMessage) :
    prepareClose m isServer rng code reason out =
      prepareControl m isServer rng .close (closePayload m code reason) out := by
  obtain ⟨defined, valid, small⟩ := sendable
  have known : ¬(invalidCode code = true ∧ code ≠ noStatus) := by
    rintro ⟨invalid, some⟩
    rcases valid with valid | ⟨none, _⟩
    · exact Bool.false_ne_true (valid.symm.trans invalid)
    · exact some none
  have bare : ¬(code = noStatus ∧ 0 < reason.length) := by
    rintro ⟨none, some⟩
    rcases valid with valid | ⟨_, empty⟩
    · rw [none] at valid
      exact absurd valid (by decide)
    · rw [empty] at some
      exact Nat.lt_irrefl 0 some
  unfold prepareClose
  rw [if_neg (by rw [defined]; decide), if_neg known, if_neg bare,
    if_neg (Nat.not_lt.mpr small)]

theorem control_succeeds {op : Opcode} {payload : List Byte} (control : op.isControl = true)
    (small : payload.length ≤ payloadSizeBasic) (out : OutMessage) :
    ∃ done, prepareControl m isServer rng op payload out = .ok done := by
  unfold prepareControl
  dsimp only
  rw [if_neg (by rw [control]; decide), if_neg (Nat.not_lt.mpr small)]
  split
  · exact ⟨_, rfl⟩
  · exact ⟨_, rfl⟩

theorem extract_code_written {code : CloseCode} {reason : List Byte}
    (sendable : Sendable code reason) :
    extractCode m (closePayload m code reason) = (code, none) := by
  obtain ⟨defined, valid, _⟩ := sendable
  unfold closePayload
  by_cases none : code = noStatus
  · rw [if_pos none, none]
    rfl
  · have known : invalidCode code = false := by
      rcases valid with valid | ⟨same, _⟩
      · exact valid
      · exact absurd same none
    have two : (toBytes m.order 2 (toNetwork m.order 2 code)).length = 2 := toBytes_length ..
    have read : toNetwork m.order 2
        (ofBytes m.order 16 (toBytes m.order 2 (toNetwork m.order 2 code))) = code := by
      rw [toNetwork_ofBytes m.order (n := 2) two rfl, toNetwork_toBytes m.order (n := 2) rfl]
      exact ofBytes_toBytes .big (n := 2) rfl code
    rw [if_neg none]
    match bytes : toBytes m.order 2 (toNetwork m.order 2 code), two with
    | [x, y], _ =>
      rw [bytes] at read
      unfold extractCode
      simp only [List.cons_append, read, defined, known]
      rfl

theorem extract_reason_written {code : CloseCode} {reason : List Byte}
    (sendable : Sendable code reason) : extractReason (closePayload m code reason) =
      (reason, if validate reason then none else some .invalidUtf8) := by
  have kept : (if 2 < (closePayload m code reason).length then
      (closePayload m code reason).drop 2 else []) = reason := by
    unfold closePayload
    by_cases none : code = noStatus
    · have empty : reason = [] := by
        rcases sendable.2.1 with valid | ⟨_, empty⟩
        · rw [none] at valid
          exact absurd valid (by decide)
        · exact empty
      rw [if_pos none, empty]
      rfl
    · have two : (toBytes m.order 2 (toNetwork m.order 2 code)).length = 2 := toBytes_length ..
      rw [if_neg none, List.drop_left' two, List.length_append, two]
      cases reason with
      | nil => rfl
      | cons x reason => exact if_pos (by simp)
  unfold extractReason
  dsimp only
  rw [kept]

/-- A close either has a frame, or its code or reason is one that none may have; and the other
    end extracts the code and the reason that went into the frame. Nothing checks the reason
    before it goes out: the other end does, and refuses it if it is no text. -/
theorem close_round_trip (m : Machine) (isServer : Bool) (rng : MaskingKey) (out : OutMessage)
    (code : CloseCode) (reason : List Byte) :
    match prepareClose m isServer rng code reason out with
    | .error _ => ¬ Sendable code reason
    | .ok done => Sendable code reason ∧ ∃ f, Prepared m isServer done f ∧
        frameMessage f = ⟨.close, closePayload m code reason⟩ ∧
        extractCode m f.payload = (code, none) ∧
        extractReason f.payload =
          (reason, if validate reason then none else some .invalidUtf8) := by
  by_cases sendable : Sendable code reason
  · have small : (closePayload m code reason).length ≤ payloadSizeBasic :=
      close_payload_small sendable.2.2
    obtain ⟨done, prepared⟩ : ∃ done,
        prepareControl m isServer rng .close (closePayload m code reason) out = .ok done :=
      control_succeeds rfl small out
    rw [sendable_prepared sendable, prepared]
    exact ⟨sendable, _, (control_prepared prepared).1, rfl, extract_code_written sendable,
      extract_reason_written sendable⟩
  · cases result : prepareClose m isServer rng code reason out with
    | error ec => exact sendable
    | ok done => exact (sendable (close_prepared result).1).elim

end PreparedFrames

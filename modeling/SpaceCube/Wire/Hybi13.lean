import SpaceCube.Wire.HeaderChecks
import SpaceCube.Wire.Utf8Validator

/- The hybi13 processor: the fields it reads one after the other, as the loop of consume goes
   through them with whatever bytes it is given. -/
namespace Hybi13
open MachineWord Masking FrameHeader HeaderChecks Utf8Validator

structure Message where
  opcode : Opcode
  payload : List Byte
  deriving DecidableEq

/-- A message being read. msgPtr is none when no buffer is held. -/
structure MsgMetadata (m : Machine) where
  msgPtr : Option Message
  preparedKey : m.Word
  validator : Validator

inductive State where
  | headerBasic
  | headerExtended
  | extension
  | application
  | ready
  | fatalError
  deriving DecidableEq

inductive Current where
  | data
  | control
  deriving DecidableEq

structure Settings where
  isServer : Bool
  maxMessageSize : Nat

/-- currentMsg is the pointer to the metadata of the frame being read; nothing reads it before
    the first header has set it. -/
structure Processor (m : Machine) where
  basicHeader : BasicHeader
  extendedHeader : ExtendedHeader
  bytesNeeded : Nat
  cursor : Nat
  dataMsg : MsgMetadata m
  controlMsg : MsgMetadata m
  currentMsg : Current
  state : State

variable {m : Machine}

def MsgMetadata.make (op : Opcode) (key : MaskingKey) : MsgMetadata m where
  msgPtr := some ⟨op, []⟩
  preparedKey := prepareMaskingKey m key
  validator := .fresh

def Processor.current (p : Processor m) : MsgMetadata m :=
  match p.currentMsg with
  | .data => p.dataMsg
  | .control => p.controlMsg

def Processor.setCurrent (p : Processor m) (metadata : MsgMetadata m) : Processor m :=
  match p.currentMsg with
  | .data => { p with dataMsg := metadata }
  | .control => { p with controlMsg := metadata }

def resetHeaders (p : Processor m) : Processor m :=
  { p with
    state := .headerBasic
    bytesNeeded := basicHeaderLength
    basicHeader := ⟨0x00, 0x00⟩
    extendedHeader := .zero }

/-- A new processor. -/
def Processor.initial (m : Machine) : Processor m :=
  resetHeaders
    { basicHeader := ⟨0x00, 0x00⟩
      extendedHeader := .zero
      bytesNeeded := 0
      cursor := 0
      dataMsg := ⟨none, 0, .fresh⟩
      controlMsg := ⟨none, 0, .fresh⟩
      currentMsg := .data
      state := .headerBasic }

/-- With the number of bytes read. -/
def copyBasicHeaderBytes (p : Processor m) (buf : List Byte) : Processor m × Nat :=
  if p.bytesNeeded = 0 then (p, 0)
  else match buf with
    | [] => (p, 0)
    | [x] =>
      if p.bytesNeeded = 2 then
        ({ p with basicHeader := ⟨x, p.basicHeader.b1⟩, bytesNeeded := p.bytesNeeded - 1 }, 1)
      else ({ p with basicHeader := ⟨p.basicHeader.b0, x⟩, bytesNeeded := p.bytesNeeded - 1 }, 1)
    | x :: y :: _ =>
      if p.bytesNeeded = 2 then
        ({ p with basicHeader := ⟨x, y⟩, bytesNeeded := p.bytesNeeded - 2 }, 2)
      else ({ p with basicHeader := ⟨p.basicHeader.b0, x⟩, bytesNeeded := p.bytesNeeded - 1 }, 1)

def copyExtendedHeaderBytes (p : Processor m) (buf : List Byte) : Processor m × Nat :=
  let bytesToRead := min p.bytesNeeded buf.length
  ({ p with
      extendedHeader := ⟨copyAt p.extendedHeader.bytes p.cursor (buf.take bytesToRead)⟩
      cursor := p.cursor + bytesToRead
      bytesNeeded := p.bytesNeeded - bytesToRead }, bytesToRead)

/-- The metadata of the frame whose header has been read. The size of a continued message is
    a sum of machine words. -/
def beginPayload (s : Settings) (p : Processor m) : Except ProcessorError (Processor m) :=
  let op := getOpcode p.basicHeader
  let key := getMaskingKey m p.basicHeader p.extendedHeader
  if op.isControl then
    .ok { p with controlMsg := .make op key, currentMsg := .control }
  else match p.dataMsg.msgPtr with
    | none =>
      if s.maxMessageSize < p.bytesNeeded then .error .messageTooBig
      else .ok { p with dataMsg := .make op key, currentMsg := .data }
    | some out =>
      if s.maxMessageSize < (out.payload.length + p.bytesNeeded) % 2 ^ (8 * m.sizeT) then
        .error .messageTooBig
      else .ok
        { p with
          dataMsg := { p.dataMsg with preparedKey := prepareMaskingKey m key }
          currentMsg := .data }

def unmask (h : BasicHeader) (preparedKey : m.Word) (buf : List Byte) : List Byte × m.Word :=
  if getMasked h then byteMaskCirc m preparedKey buf else (buf, preparedKey)

/-- The bytes unmasked, appended to the message and, in a text, validated. -/
def MsgMetadata.fill (h : BasicHeader) (metadata : MsgMetadata m) (buf : List Byte) :
    Except ProcessorError (MsgMetadata m) :=
  let (bytes, preparedKey) := unmask h metadata.preparedKey buf
  let msgPtr := metadata.msgPtr.map fun msg => { msg with payload := msg.payload ++ bytes }
  if metadata.msgPtr.map Message.opcode = some .text then
    let (valid, validator) := metadata.validator.decode bytes
    if valid then .ok ⟨msgPtr, preparedKey, validator⟩ else .error .invalidUtf8
  else .ok ⟨msgPtr, preparedKey, metadata.validator⟩

def processPayloadBytes (p : Processor m) (buf : List Byte) :
    Except ProcessorError (Processor m) :=
  (p.current.fill p.basicHeader buf).map fun metadata =>
    { p.setCurrent metadata with bytesNeeded := p.bytesNeeded - buf.length }

/-- The end of a text is checked where the opcode of the last frame is text. -/
def finalizeMessage (p : Processor m) : Except ProcessorError (Processor m) :=
  if getOpcode p.basicHeader = .text then
    if p.current.validator.complete then .ok { p with state := .ready } else .error .invalidUtf8
  else .ok { p with state := .ready }

def finishBasicHeader (s : Settings) (p : Processor m) : Except ProcessorError (Processor m) :=
  match validateIncomingBasicHeader p.basicHeader s.isServer p.dataMsg.msgPtr.isNone with
  | some ec => .error ec
  | none => .ok
    { p with
      state := .headerExtended
      cursor := 0
      bytesNeeded := getHeaderLen p.basicHeader - basicHeaderLength }

def finishExtendedHeader (s : Settings) (p : Processor m) :
    Except ProcessorError (Processor m) :=
  match validateIncomingExtendedHeader m p.basicHeader p.extendedHeader with
  | some ec => .error ec
  | none =>
    let payloadSize := getPayloadSize m p.basicHeader p.extendedHeader
    beginPayload s
      { p with state := .application, bytesNeeded := payloadSize % 2 ^ (8 * m.sizeT) }

def finishFrame (p : Processor m) : Except ProcessorError (Processor m) :=
  if getFin p.basicHeader then finalizeMessage p else .ok (resetHeaders p)

/-- One turn of the loop of consume, with the bytes it leaves. -/
def turn (s : Settings) (p : Processor m) (buf : List Byte) :
    Except ProcessorError (Processor m × List Byte) :=
  match p.state with
  | .headerBasic =>
    let (p, n) := copyBasicHeaderBytes p buf
    let buf := buf.drop n
    if 0 < p.bytesNeeded then .ok (p, buf) else (finishBasicHeader s p).map (·, buf)
  | .headerExtended =>
    let (p, n) := copyExtendedHeaderBytes p buf
    let buf := buf.drop n
    if 0 < p.bytesNeeded then .ok (p, buf) else (finishExtendedHeader s p).map (·, buf)
  | .extension => .ok ({ p with state := .application }, buf)
  | .application =>
    let n := min p.bytesNeeded buf.length
    match if 0 < n then processPayloadBytes p (buf.take n) else .ok p with
    | .error ec => .error ec
    | .ok p =>
      let buf := buf.drop n
      if 0 < p.bytesNeeded then .ok (p, buf) else (finishFrame p).map (·, buf)
  | .ready => .error .general
  | .fatalError => .error .general

/-- Whether the loop of consume goes on. -/
def Processor.wants (p : Processor m) (buf : List Byte) : Bool :=
  p.state ≠ .ready && p.state ≠ .fatalError && (!buf.isEmpty || p.bytesNeeded = 0)

def consumeLoop (s : Settings) : Nat → Processor m → List Byte →
    Except ProcessorError (Processor m × List Byte)
  | 0, p, buf => .ok (p, buf)
  | fuel + 1, p, buf =>
    if p.wants buf then
      match turn s p buf with
      | .error ec => .error ec
      | .ok (p, buf) => consumeLoop s fuel p buf
    else .ok (p, buf)

/-- A turn takes a byte or goes on to another field, so that these turns are enough. -/
def consume (s : Settings) (p : Processor m) (buf : List Byte) :
    Except ProcessorError (Processor m × List Byte) :=
  consumeLoop s (7 * buf.length + 7) p buf

/-- The message that is ready, and the processor without it. -/
def getMessage (p : Processor m) : Option Message × Processor m :=
  if p.state = .ready then
    let ret := p.current.msgPtr
    let p := p.setCurrent { p.current with msgPtr := none }
    let p : Processor m :=
      if (ret.map (·.opcode.isControl)).getD false then
        { p with controlMsg := { p.controlMsg with msgPtr := none } }
      else { p with dataMsg := { p.dataMsg with msgPtr := none } }
    (ret, resetHeaders p)
  else (none, p)

/-- What the loop of handle_read_frame comes to: an error of the processor, or the processor
    after the last byte. -/
abbrev ReadEnd (m : Machine) := Except ProcessorError (Processor m)

/-- The loop of handle_read_frame, with the messages it dispatches. -/
def readLoop (s : Settings) : Nat → Processor m → List Byte → List Message × ReadEnd m
  | 0, p, _ => ([], .ok p)
  | fuel + 1, p, buf =>
    if buf.isEmpty then ([], .ok p)
    else match consume s p buf with
      | .error ec => ([], .error ec)
      | .ok (p, buf) =>
        if p.state = .ready then
          let (msg, p) := getMessage p
          let (msgs, last) := readLoop s fuel p buf
          (msg.toList ++ msgs, last)
        else readLoop s fuel p buf

def handleReadFrame (s : Settings) (p : Processor m) (buf : List Byte) :
    List Message × ReadEnd m := readLoop s (buf.length + 1) p buf

/-- The reads of a connection, one after the other: after an error no read is issued. -/
def readAll (s : Settings) : Processor m → List (List Byte) → List Message × ReadEnd m
  | p, [] => ([], .ok p)
  | p, buf :: bufs =>
    match handleReadFrame s p buf with
    | (msgs, .error ec) => (msgs, .error ec)
    | (msgs, .ok p) =>
      let (more, last) := readAll s p bufs
      (msgs ++ more, last)

end Hybi13

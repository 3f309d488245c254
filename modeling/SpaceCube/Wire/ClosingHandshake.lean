import SpaceCube.Library.Runs
import SpaceCube.Wire.PreparedFrames
import SpaceCube.Wire.SendQueue

/- The closing handshake between a server and a client of websocketpp. Of the frames only what
   the other end reads of them is kept, which is what was prepared. The handlers of a connection
   run one at a time in its strand, so each is one event. A call of send, ping or pong tests the
   state under one lock and pushes under another, so it is two events with anything between
   them; close holds the state lock until it has pushed and is one. The answer to a close tests
   and sets the state without that lock: a call of close at the same time, which would write the
   local code and reason together with it, is left out. -/
namespace ClosingHandshake
open MachineWord Masking HeaderChecks Utf8Validator FrameHeader PreparedFrames Runs
open SendQueue (SessionState)

inductive Side where
  | server
  | client
  deriving DecidableEq

def Side.other : Side → Side
  | .server => .client
  | .client => .server

@[simp] theorem other_other (side : Side) : side.other.other = side := by cases side <;> rfl

@[simp] theorem other_ne (side : Side) : side.other ≠ side := by cases side <;> decide

theorem same_or_other (side t : Side) : t = side ∨ t = side.other := by
  cases side <;> cases t <;> simp [Side.other]

/-- Pongs and data are plain. -/
inductive Message where
  | plain (payload : List Byte)
  | ping (payload : List Byte)
  | close (payload : List Byte) (terminal : Bool)
  deriving DecidableEq

def Message.terminal : Message → Bool
  | .plain _ | .ping _ => false
  | .close _ terminal => terminal

/-- What a handler is given of it. -/
def Message.data : Message → Option (List Byte)
  | .plain payload | .ping payload => some payload
  | .close _ _ => none

def Message.isClose : Message → Bool
  | .plain _ | .ping _ => false
  | .close _ _ => true

def asciiBytes (s : String) : List Byte := s.toList.map fun c => BitVec.ofNat 8 c.toNat

/-- to_ws. -/
def closeCode : ProcessorError → CloseCode
  | .controlTooBig | .invalidOpcode | .invalidRsvBit | .fragmentedControl
  | .invalidContinuation | .maskingRequired | .maskingForbidden | .reservedCloseCode
  | .invalidCloseCode => protocolError
  | .invalidPayload | .invalidUtf8 => 1007
  | .messageTooBig => 1009
  | .general | .reasonRequiresCode | .nonMinimalEncoding | .requires64bit => 1011

def processorText : ProcessorError → String
  | .general => "Generic processor error"
  | .messageTooBig => "A message was too large"
  | .invalidPayload => "A payload contained invalid data"
  | .invalidOpcode => "invalid opcode"
  | .controlTooBig => "Control messages are limited to fewer than 125 characters"
  | .invalidRsvBit => "Invalid use of reserved bits"
  | .fragmentedControl => "Control messages cannot be fragmented"
  | .invalidContinuation => "Invalid message continuation"
  | .maskingRequired => "Clients may not send unmasked frames"
  | .maskingForbidden => "Servers may not send masked frames"
  | .reservedCloseCode => "Reserved close code used"
  | .invalidCloseCode => "Invalid close code used"
  | .reasonRequiresCode => "Using a close reason requires a valid close code"
  | .invalidUtf8 => "Invalid UTF8 encoding"
  | .nonMinimalEncoding => "Payload length was not minimally encoded"
  | .requires64bit => "64 bit frames are not supported on 32 bit systems"

def closeText : CloseError → String
  | .badCloseCode => "Unable to extract close code"
  | .invalidCloseCode => "Extracted close code is in an invalid range"
  | .reservedCloseCode => "Extracted close code is in a reserved range"
  | .invalidUtf8 => "Invalid UTF-8"

/-- timeout tells whether the close handshake has one. -/
structure Config where
  silentClose : Bool
  dropOnProtocolError : Bool
  timeout : Bool

/-- One connection object with its transport. sending has the calls of send that have passed the
    test of the state, outbox what waits to be written, wire what is written and not yet read;
    deaf tells that no read is started any more. The last five fields only record: the messages
    sent, the messages read, the payloads that went to the handlers, whether the close sent was
    an answer, and the calls of send that it went ahead of. -/
structure End where
  state : SessionState
  localCode : CloseCode
  localReason : List Byte
  remoteCode : CloseCode
  remoteReason : List Byte
  wasClean : Bool
  timer : Bool
  deaf : Bool
  sending : List Message
  outbox : List Message
  wire : List Message
  shut : Bool
  pushed : List Message
  heard : List Message
  handled : List (List Byte)
  answered : Bool
  overtaken : List Message
  deriving DecidableEq

def End.opened : End where
  state := .opened
  localCode := abnormalClose
  localReason := []
  remoteCode := abnormalClose
  remoteReason := []
  wasClean := false
  timer := false
  deaf := false
  sending := []
  outbox := []
  wire := []
  shut := false
  pushed := []
  heard := []
  handled := []
  answered := false
  overtaken := []

abbrev World := Side → End

def blank : CloseCode := 0
def normal : CloseCode := 1000

def terminalCode (code : CloseCode) : Bool :=
  code = protocolError || code = 1007 || code = 1008 || code = 1009 || code = 1011

def closeReasonSize : Nat := 123

/-- terminate, with the message of the error if there is one. -/
def terminate (e : End) (error : Option (List Byte)) : End :=
  let e := { e with timer := false }
  let e : End := match error with
    | some message => { e with localCode := abnormalClose, localReason := message }
    | none => e
  if e.state = .closed then e else { e with state := .closed, shut := true }

/-- What send_close_frame closes with. -/
def closeWith (cfg : Config) (e : End) (code : CloseCode) (reason : List Byte) (ack : Bool) :
    CloseCode × List Byte :=
  if cfg.silentClose then (noStatus, [])
  else if code ≠ blank then (code, reason)
  else if !ack then (noStatus, [])
  else if e.remoteCode = noStatus then (normal, [])
  else (e.remoteCode, e.remoteReason)

def End.push (e : End) (msg : Message) : End :=
  { e with outbox := e.outbox ++ [msg], pushed := e.pushed ++ [msg] }

/-- The error is none where the code returns none. The payload is that of an unmasked frame. -/
def sendCloseFrame (m : Machine) (cfg : Config) (e : End) (code : CloseCode)
    (reason : List Byte) (ack terminal : Bool) : End × Option ProcessorError :=
  let pair := closeWith cfg e code reason ack
  let e := { e with localCode := pair.1, localReason := pair.2 }
  match prepareClose m true 0 pair.1 pair.2 (.make .continuation []) with
  | .error ec => (e, some ec)
  | .ok out =>
    let e : End := { e with
      state := .closing
      wasClean := e.wasClean || ack
      answered := e.answered || ack
      overtaken := e.sending
      timer := e.timer || cfg.timeout }
    (e.push (.close out.payload terminal), none)

def sendCloseAck (m : Machine) (cfg : Config) (side : Side) (e : End) (code : CloseCode)
    (reason : List Byte) : End × Option ProcessorError :=
  sendCloseFrame m cfg e code reason true (side = .server)

/-- connection::close, with the text of its error. -/
def close (m : Machine) (cfg : Config) (e : End) (code : CloseCode) (reason : List Byte) :
    End × Option String :=
  if e.state = .opened then
    let (e, ec) :=
      sendCloseFrame m cfg e code (reason.take closeReasonSize) false (terminalCode code)
    (e, ec.map processorText)
  else (e, some "invalid state")

/-- process_control_frame on a close. -/
def processClose (m : Machine) (cfg : Config) (side : Side) (e : End) (payload : List Byte) :
    End :=
  if e.state = .closed then e
  else
    let (code, codeError) := extractCode m payload
    let e := { e with remoteCode := code }
    match codeError with
    | some ec =>
        if cfg.dropOnProtocolError then terminate e (some (asciiBytes (closeText ec)))
        else (sendCloseAck m cfg side e protocolError (asciiBytes "Invalid close code")).1
    | none =>
      let (reason, reasonError) := extractReason payload
      let e := { e with remoteReason := reason }
      match reasonError with
      | some ec =>
          if cfg.dropOnProtocolError then terminate e (some (asciiBytes (closeText ec)))
          else (sendCloseAck m cfg side e protocolError (asciiBytes "Invalid close reason")).1
      | none =>
          if e.state = .opened then (sendCloseAck m cfg side e blank []).1
          else if e.wasClean then e
          else
            let e := { e with wasClean := true }
            if side = .server then terminate e none else e

def End.hear (e : End) (msg : Message) : End := { e with heard := e.heard ++ [msg] }

/-- The dispatch of a message that has been read. Only an open connection takes plain ones and
    pings. reply tells whether a ping is answered: the pong is a call like any other. -/
def process (m : Machine) (cfg : Config) (side : Side) (e : End) (reply : Bool) : Message → End
  | .plain payload =>
      let e := e.hear (.plain payload)
      if e.state = .opened then { e with handled := e.handled ++ [payload] } else e
  | .ping payload =>
      let e := e.hear (.ping payload)
      if e.state = .opened then
        { e with
          handled := e.handled ++ [payload]
          sending := if reply then e.sending ++ [.plain payload] else e.sending }
      else e
  | .close payload terminal => processClose m cfg side (e.hear (.close payload terminal)) payload

/-- What handle_read_frame does when consume fails: the connection closes and reads no more. -/
def readFails (m : Machine) (cfg : Config) (e : End) (ec : ProcessorError) : End :=
  let e := { e with deaf := true }
  let text := asciiBytes (processorText ec)
  if cfg.dropOnProtocolError then terminate e (some text)
  else match close m cfg e (closeCode ec) text with
    | (e, none) => e
    | (e, some error) => terminate e (some (asciiBytes error))

inductive Event where
  | close (side : Side) (code : CloseCode) (reason : List Byte)
  | send (side : Side) (msg : Message)
  | pushes (side : Side) (call : Nat)
  | write (side : Side)
  | receive (side : Side) (reply : Bool)
  | rejects (side : Side) (ec : ProcessorError)
  | eof (side : Side) (message : List Byte)
  | fails (side : Side) (message : List Byte)
  | timesOut (side : Side) (message : List Byte)
  deriving DecidableEq

/-- msg is written and rest waits. -/
def End.written (e : End) (msg : Message) (rest : List Message) : End :=
  { e with outbox := rest, wire := e.wire ++ [msg] }

/-- A call of send that has passed the test of the state comes to its push. -/
def End.arrives (e : End) (call : Nat) (msg : Message) : End :=
  ({ e with sending := e.sending.eraseIdx call } : End).push msg

/-- The other end has read all but rest. -/
def End.taken (e : End) (rest : List Message) : End := { e with wire := rest }

/-- The two ends may be configured apart. send, ping and pong are one event, with what they come
    to push. A reader may reject any message but a close, such as one that is larger than it
    allows. -/
def step (m : Machine) (cfg : Side → Config) (w : World) : Event → Option World
  | .close side code reason =>
      some (Function.update w side (close m (cfg side) (w side) code reason).1)
  | .send side msg =>
      if (w side).state = .opened ∧ msg.isClose = false then
        some (Function.update w side { w side with sending := (w side).sending ++ [msg] })
      else none
  | .pushes side call => match (w side).sending[call]? with
    | none => none
    | some msg => some (Function.update w side ((w side).arrives call msg))
  | .write side => match (w side).outbox with
    | [] => none
    | msg :: rest =>
        if (w side).shut then none
        else
          let e := (w side).written msg rest
          -- handle_write_frame drops the connection after a terminal message
          some (Function.update w side (if msg.terminal then terminate e none else e))
  | .receive side reply => match (w side.other).wire with
    | [] => none
    | msg :: rest =>
        if (w side).deaf then none
        else some (Function.update (Function.update w side.other ((w side.other).taken rest))
          side (process m (cfg side) side (w side) reply msg))
  | .rejects side ec => match (w side.other).wire with
    | [] => none
    | msg :: rest =>
        if (w side).deaf ∨ msg.isClose then none
        else some (Function.update (Function.update w side.other ((w side.other).taken rest))
          side (readFails m (cfg side) ((w side).hear msg) ec))
  | .eof side message =>
      if (w side.other).shut ∧ (w side.other).wire = [] ∧ (w side).state ≠ .closed ∧
          (w side).deaf = false then
        -- a client that is closing expects it
        some (Function.update w side (terminate (w side)
          (if (w side).state = .closing ∧ side = .client then none else some message)))
      else none
  | .fails side message =>
      if (w side).shut then none
      else some (Function.update w side (terminate (w side) (some message)))
  | .timesOut side message =>
      if (w side).timer then some (Function.update w side (terminate (w side) (some message)))
      else none

/-- A close whose reason is no text makes the other end send another one, a ping a pong. -/
def Message.load : Message → Nat
  | .plain _ => 1
  | .ping _ => 4
  | .close payload _ => if validate (extractReason payload).1 then 1 else 3

def stateLoad : SessionState → Nat
  | .opened => 3
  | .closing => 1
  | .closed => 0

/-- The most that what waits at an end can still lead to. -/
def End.load (e : End) : Nat :=
  (e.sending.map fun msg => msg.load + 2).sum + (e.outbox.map fun msg => msg.load + 1).sum +
    (e.wire.map Message.load).sum + stateLoad e.state

def load (w : World) : Nat := (w .server).load + (w .client).load

def start : World := fun _ => .opened

/-- Nothing is on its way: no call is under way, no message waits to be written or read, and no
    end of a stream. -/
structure Still (w : World) (side : Side) : Prop where
  sending : (w side).sending = []
  outbox : (w side).shut = true ∨ (w side).outbox = []
  wire : (w side.other).deaf = true ∨ (w side).wire = []
  noticed : ¬ ((w side.other).shut = true ∧ (w side.other).wire = [] ∧
    (w side).state ≠ .closed ∧ (w side).deaf = false)

def Quiet (w : World) : Prop := ∀ side, Still w side

section Ends
variable {m : Machine} {cfg : Config} {event : Event} {side : Side} {e e' : End}

@[simp] theorem terminate_state (e : End) (error : Option (List Byte)) :
    (terminate e error).state = .closed := by
  unfold terminate
  cases error <;> dsimp only <;> split <;> simp_all

theorem terminate_shut (e : End) (error : Option (List Byte)) :
    (terminate e error).shut = (e.shut || !decide (e.state = .closed)) := by
  unfold terminate
  cases error <;> dsimp only <;> split <;> simp_all

/-- What terminate leaves. -/
@[simp] theorem terminate_kept (e : End) (error : Option (List Byte)) :
    (terminate e error).outbox = e.outbox ∧ (terminate e error).wire = e.wire ∧
      (terminate e error).pushed = e.pushed ∧ (terminate e error).heard = e.heard ∧
      (terminate e error).wasClean = e.wasClean ∧
      (terminate e error).remoteCode = e.remoteCode ∧
      (terminate e error).remoteReason = e.remoteReason ∧
      (terminate e error).handled = e.handled ∧ (terminate e error).answered = e.answered ∧
      (terminate e error).sending = e.sending ∧ (terminate e error).deaf = e.deaf ∧
      (terminate e error).overtaken = e.overtaken := by
  unfold terminate
  cases error <;> dsimp only <;> split <;> simp

theorem terminate_local (e : End) (error : Option (List Byte)) :
    (terminate e error).localCode = e.localCode ∧
        (terminate e error).localReason = e.localReason ∨
      (terminate e error).localCode = abnormalClose := by
  unfold terminate
  cases error <;> dsimp only <;> split <;> simp

theorem prepared_payload {code : CloseCode} {reason : List Byte} {out : OutMessage}
    (prepared : prepareClose m true 0 code reason (.make .continuation []) = .ok out) :
    Sendable code reason ∧ out.payload = closePayload m code reason := by
  obtain ⟨sendable, control⟩ := close_prepared prepared
  refine ⟨sendable, ?_⟩
  unfold prepareControl at control
  split at control
  · contradiction
  · split at control
    · contradiction
    · simp only [Bool.not_true, Bool.false_eq_true, ↓reduceIte, Except.ok.injEq] at control
      rw [← control]

/-- An end that has put its close on its way. -/
def closing (m : Machine) (cfg : Config) (e : End) (pair : CloseCode × List Byte)
    (ack terminal : Bool) : End :=
  let e' : End := { e with
    localCode := pair.1
    localReason := pair.2
    state := .closing
    wasClean := e.wasClean || ack
    answered := e.answered || ack
    overtaken := e.sending
    timer := e.timer || cfg.timeout }
  e'.push (.close (closePayload m pair.1 pair.2) terminal)

theorem send_close_cases (m : Machine) (cfg : Config) (e : End) (code : CloseCode)
    (reason : List Byte) (ack terminal : Bool) :
    let pair := closeWith cfg e code reason ack
    let sent := sendCloseFrame m cfg e code reason ack terminal
    (¬ Sendable pair.1 pair.2 ∧ sent.1 = { e with localCode := pair.1, localReason := pair.2 }) ∨
      (Sendable pair.1 pair.2 ∧ sent = (closing m cfg e pair ack terminal, none)) := by
  intro pair sent
  cases prepared : prepareClose m true 0 pair.1 pair.2 (.make .continuation []) with
  | ok out =>
    obtain ⟨sendable, payload⟩ := prepared_payload prepared
    refine Or.inr ⟨sendable, ?_⟩
    simp only [sent, sendCloseFrame, pair, prepared, payload, closing]
  | error ec =>
    refine Or.inl ⟨fun sendable => ?_, by simp only [sent, sendCloseFrame, pair, prepared]⟩
    obtain ⟨done, control⟩ : ∃ done, prepareControl m true 0 .close
        (closePayload m pair.1 pair.2) (.make .continuation []) = .ok done :=
      control_succeeds rfl (close_payload_small sendable.2.2) _
    rw [sendable_prepared sendable, control] at prepared
    contradiction

/-- What an end does by itself. -/
inductive Local (m : Machine) (cfg : Config) (event : Event) (e : End) : End → Prop where
  | kept (code : CloseCode) (reason : List Byte)
      (same : e.state ≠ .opened → code = e.localCode ∧ reason = e.localReason) :
      Local m cfg event e { e with localCode := code, localReason := reason }
  | closed (side : Side) (code : CloseCode) (reason : List Byte)
      (asked : event = .close side code reason) (opened : e.state = .opened)
      (sendable : Sendable (closeWith cfg e code (reason.take closeReasonSize) false).1
        (closeWith cfg e code (reason.take closeReasonSize) false).2) (terminal : Bool) :
      Local m cfg event e
        (closing m cfg e (closeWith cfg e code (reason.take closeReasonSize) false) false terminal)
  | called (msg : Message) (opened : e.state = .opened) (plain : msg.isClose = false) :
      Local m cfg event e { e with sending := e.sending ++ [msg] }
  | pushed {call : Nat} {msg : Message} (here : e.sending[call]? = some msg) :
      Local m cfg event e (e.arrives call msg)
  | wrote {msg : Message} {rest : List Message} (here : e.outbox = msg :: rest)
      (plain : msg.terminal = false) :
      Local m cfg event e (e.written msg rest)
  | last {msg : Message} {rest : List Message} (here : e.outbox = msg :: rest) :
      Local m cfg event e (terminate (e.written msg rest) none)
  | terminated (error : Option (List Byte)) : Local m cfg event e (terminate e error)

theorem close_local (m : Machine) (cfg : Config) (side : Side) (e : End) (code : CloseCode)
    (reason : List Byte) :
    Local m cfg (.close side code reason) e (close m cfg e code reason).1 := by
  unfold close
  by_cases opened : e.state = .opened
  · rw [if_pos opened]
    rcases send_close_cases m cfg e code (reason.take closeReasonSize) false
      (terminalCode code) with ⟨_, sent⟩ | ⟨sendable, sent⟩
    · rw [sent]
      exact .kept _ _ fun other => absurd opened other
    · rw [sent]
      exact .closed side code reason rfl opened sendable _
  · rw [if_neg opened]
    exact .kept e.localCode e.localReason fun _ => ⟨rfl, rfl⟩

/-- What reading a close makes of a connection that is not closed. -/
inductive Answered (m : Machine) (cfg : Config) (side : Side) (e : End) (code : CloseCode)
    (reason : List Byte) : End → Prop where
  | refused (bad : validate reason = false) (error : List Byte) : Answered m cfg side e code reason
      (terminate { e with remoteCode := code, remoteReason := reason } (some error))
  | acked (pair : CloseCode × List Byte) (sendable : Sendable pair.1 pair.2)
      (text : validate pair.2 = true) (echo : validate reason = true → e.state = .opened ∧ pair =
        closeWith cfg { e with remoteCode := code, remoteReason := reason } blank [] true) :
      Answered m cfg side e code reason
        (closing m cfg { e with remoteCode := code, remoteReason := reason } pair true
          (side = .server))
  | ended (first : e.wasClean = false) (valid : validate reason = true) (server : side = .server)
      (closing : e.state ≠ .opened) : Answered m cfg side e code reason
      (terminate { e with remoteCode := code, remoteReason := reason, wasClean := true } none)
  | finished (first : e.wasClean = false) (valid : validate reason = true)
      (client : side = .client) (closing : e.state ≠ .opened) : Answered m cfg side e code reason
      { e with remoteCode := code, remoteReason := reason, wasClean := true }
  | spurious (again : e.wasClean = true) (closing : e.state ≠ .opened) :
      Answered m cfg side e code reason { e with remoteCode := code, remoteReason := reason }

theorem bare_sendable : Sendable noStatus [] := by
  unfold Sendable
  decide +kernel

theorem plain_sendable : Sendable normal [] := by
  unfold Sendable
  decide +kernel

theorem refusal_sendable : Sendable protocolError (asciiBytes "Invalid close reason") := by
  unfold Sendable
  decide +kernel

/-- A close that may go out can be echoed. -/
theorem echo_sendable (cfg : Config) {code : CloseCode} {reason : List Byte}
    (sendable : Sendable code reason) (valid : validate reason = true) (e : End) :
    let pair := closeWith cfg { e with remoteCode := code, remoteReason := reason } blank [] true
    Sendable pair.1 pair.2 ∧ validate pair.2 = true := by
  intro pair
  simp only [pair, closeWith]
  split
  · exact ⟨bare_sendable, by decide⟩
  · rw [if_neg (not_not_intro rfl), if_neg (by decide)]
    split
    · exact ⟨plain_sendable, by decide⟩
    · exact ⟨sendable, valid⟩

theorem refuse_sendable (cfg : Config) (e : End) :
    let pair := closeWith cfg e protocolError (asciiBytes "Invalid close reason") true
    Sendable pair.1 pair.2 ∧ validate pair.2 = true := by
  intro pair
  simp only [pair, closeWith]
  split
  · exact ⟨bare_sendable, by decide⟩
  · rw [if_pos (by decide)]
    exact ⟨refusal_sendable, by decide +kernel⟩

theorem process_answered (m : Machine) (cfg : Config) (side : Side) {e : End}
    (live : e.state ≠ .closed) {code : CloseCode} {reason : List Byte}
    (sendable : Sendable code reason) :
    Answered m cfg side e code reason
      (processClose m cfg side e (closePayload m code reason)) := by
  unfold processClose
  rw [if_neg live, extract_code_written sendable, extract_reason_written sendable]
  dsimp only
  by_cases valid : validate reason = true
  · rw [if_pos valid]
    dsimp only
    by_cases opened : e.state = .opened
    · rw [if_pos opened]
      obtain ⟨sends, text⟩ := echo_sendable cfg sendable valid e
      rcases send_close_cases m cfg { e with remoteCode := code, remoteReason := reason } blank []
        true (side = .server) with ⟨unsent, _⟩ | ⟨_, sent⟩
      · exact absurd sends unsent
      · rw [sendCloseAck, sent]
        exact .acked _ sends text fun _ => ⟨opened, rfl⟩
    · rw [if_neg opened]
      by_cases again : e.wasClean = true
      · rw [if_pos again]
        exact .spurious again opened
      · rw [if_neg again]
        have first := Bool.eq_false_of_not_eq_true again
        cases side with
        | server => exact .ended first valid rfl opened
        | client => exact .finished first valid rfl opened
  · rw [if_neg valid]
    dsimp only
    have bad := Bool.eq_false_of_not_eq_true valid
    split
    · exact .refused bad _
    · obtain ⟨sends, text⟩ :=
        refuse_sendable cfg { e with remoteCode := code, remoteReason := reason }
      rcases send_close_cases m cfg { e with remoteCode := code, remoteReason := reason }
        protocolError (asciiBytes "Invalid close reason") true (side = .server) with
        ⟨unsent, _⟩ | ⟨_, sent⟩
      · exact absurd sends unsent
      · rw [sendCloseAck, sent]
        exact .acked _ sends text fun good => absurd good valid

/-- What becomes of a message that has been read. -/
inductive Processed (m : Machine) (cfg : Config) (side : Side) (e : End) :
    Message → End → Prop where
  | ignored {msg : Message} (why : e.state = .closed ∨ e.state ≠ .opened ∧ msg.isClose = false) :
      Processed m cfg side e msg (e.hear msg)
  | taken {msg : Message} {payload : List Byte} (opened : e.state = .opened)
      (data : msg.data = some payload) (plain : msg.isClose = false) (replies : List Message)
      (pongs : ∀ pong ∈ replies, pong.isClose = false)
      (cheap : (replies.map fun pong => pong.load + 2).sum + 1 ≤ msg.load) :
      Processed m cfg side e msg
        { e.hear msg with
          handled := e.handled ++ [payload]
          sending := e.sending ++ replies }
  | answered {code : CloseCode} {reason : List Byte} {terminal : Bool} {e' : End}
      (live : e.state ≠ .closed) (sendable : Sendable code reason)
      (answer : Answered m cfg side (e.hear (.close (closePayload m code reason) terminal))
        code reason e') :
      Processed m cfg side e (.close (closePayload m code reason) terminal) e'
  | dropped {msg : Message} (plain : msg.isClose = false) (error : List Byte) :
      Processed m cfg side e msg (terminate { e.hear msg with deaf := true } (some error))
  | reported {msg : Message} (plain : msg.isClose = false) (opened : e.state = .opened)
      (pair : CloseCode × List Byte) (sendable : Sendable pair.1 pair.2)
      (text : validate pair.2 = true) :
      Processed m cfg side e msg (closing m cfg { e.hear msg with deaf := true } pair false true)

theorem process_cases (m : Machine) (cfg : Config) (side : Side) (e : End) (reply : Bool)
    {msg : Message} (sendable : ∀ payload terminal, msg = .close payload terminal →
      ∃ code reason, Sendable code reason ∧ payload = closePayload m code reason) :
    Processed m cfg side e msg (process m cfg side e reply msg) := by
  cases msg with
  | plain payload =>
    by_cases opened : e.state = .opened
    · have taken : process m cfg side e reply (.plain payload) =
          { e.hear (.plain payload) with
            handled := e.handled ++ [payload]
            sending := e.sending ++ [] } := by
        rw [List.append_nil]
        exact if_pos opened
      rw [taken]
      exact .taken opened rfl rfl [] (by simp) (by simp [Message.load])
    · have ignored : process m cfg side e reply (.plain payload) = e.hear (.plain payload) :=
        if_neg opened
      rw [ignored]
      exact .ignored (Or.inr ⟨opened, rfl⟩)
  | ping payload =>
    by_cases opened : e.state = .opened
    · have taken : process m cfg side e reply (.ping payload) =
          { e.hear (.ping payload) with
            handled := e.handled ++ [payload]
            sending := e.sending ++ if reply then [.plain payload] else [] } := by
        refine (if_pos opened).trans ?_
        cases reply
        · simp [End.hear]
        · rfl
      rw [taken]
      refine .taken opened rfl rfl _ ?_ ?_
      · cases reply <;> simp [Message.isClose]
      · cases reply <;> simp [Message.load]
    · have ignored : process m cfg side e reply (.ping payload) = e.hear (.ping payload) :=
        if_neg opened
      rw [ignored]
      exact .ignored (Or.inr ⟨opened, rfl⟩)
  | close payload terminal =>
    obtain ⟨code, reason, good, rfl⟩ := sendable payload terminal rfl
    by_cases closed : e.state = .closed
    · have ignored : process m cfg side e reply (.close (closePayload m code reason) terminal) =
          e.hear (.close (closePayload m code reason) terminal) := if_pos closed
      rw [ignored]
      exact .ignored (Or.inl closed)
    · have live : (e.hear (.close (closePayload m code reason) terminal)).state ≠ .closed := closed
      exact .answered closed good (process_answered m cfg side live good)

/-- A failure to read is reported in a terminal message. -/
theorem report_terminal (ec : ProcessorError) : terminalCode (closeCode ec) = true := by
  cases ec <;> decide

theorem report_sendable (cfg : Config) (e : End) (ec : ProcessorError) :
    let pair := closeWith cfg e (closeCode ec)
      ((asciiBytes (processorText ec)).take closeReasonSize) false
    Sendable pair.1 pair.2 ∧ validate pair.2 = true := by
  intro pair
  simp only [pair, closeWith]
  split
  · exact ⟨bare_sendable, by decide⟩
  · have code : closeCode ec ≠ blank := by cases ec <;> decide
    rw [if_pos code]
    unfold Sendable
    cases ec <;> decide +kernel

theorem rejected_cases (m : Machine) (cfg : Config) (side : Side) (e : End) {msg : Message}
    (plain : msg.isClose = false) (ec : ProcessorError) :
    Processed m cfg side e msg (readFails m cfg (e.hear msg) ec) := by
  unfold readFails
  dsimp only
  split
  · exact .dropped plain _
  · by_cases opened : e.state = .opened
    · have asked : ({ e.hear msg with deaf := true } : End).state = .opened := opened
      obtain ⟨sends, text⟩ := report_sendable cfg { e.hear msg with deaf := true } ec
      rcases send_close_cases m cfg { e.hear msg with deaf := true } (closeCode ec)
        ((asciiBytes (processorText ec)).take closeReasonSize) false
        (terminalCode (closeCode ec)) with ⟨unsent, _⟩ | ⟨_, sent⟩
      · exact absurd sends unsent
      · have done : close m cfg { e.hear msg with deaf := true } (closeCode ec)
            (asciiBytes (processorText ec)) =
              (closing m cfg { e.hear msg with deaf := true }
                (closeWith cfg { e.hear msg with deaf := true } (closeCode ec)
                  ((asciiBytes (processorText ec)).take closeReasonSize) false) false true,
                none) := by
          rw [close, if_pos asked, sent, report_terminal]
          rfl
        rw [done]
        exact .reported plain opened _ sends text
    · have error : close m cfg { e.hear msg with deaf := true } (closeCode ec)
          (asciiBytes (processorText ec)) =
            ({ e.hear msg with deaf := true }, some "invalid state") := if_neg opened
      rw [error]
      exact .dropped plain _

/-- What a reader may make of a message. -/
def Reads (m : Machine) (cfg : Config) (side : Side) (e : End) (msg : Message) (e' : End) : Prop :=
  (∃ reply, e' = process m cfg side e reply msg) ∨
    msg.isClose = false ∧ ∃ ec, e' = readFails m cfg (e.hear msg) ec

/-- A step changes one end, or one end reads what the other has written. -/
inductive StepCase (m : Machine) (cfg : Side → Config) (event : Event) (w : World) :
    World → Prop where
  | own (side : Side) {e : End} (moved : Local m (cfg side) event (w side) e) :
      StepCase m cfg event w (Function.update w side e)
  | received (side : Side) {msg : Message} {rest : List Message} {e : End}
      (here : (w side.other).wire = msg :: rest) (reads : Reads m (cfg side) side (w side) msg e) :
      StepCase m cfg event w (Function.update
        (Function.update w side.other ((w side.other).taken rest)) side e)

theorem step_cases {cfg : Side → Config} {w w' : World} (fires : step m cfg w event = some w') :
    StepCase m cfg event w w' := by
  cases event with
  | close side code reason =>
    obtain rfl := Option.some.inj fires
    exact .own side (close_local m (cfg side) side _ code reason)
  | send side msg =>
    simp only [step, Option.ite_none_right_eq_some, Option.some.injEq] at fires
    obtain ⟨⟨opened, plain⟩, rfl⟩ := fires
    exact .own side (.called msg opened plain)
  | pushes side call =>
    simp only [step] at fires
    cases here : (w side).sending[call]? with
    | none => simp [here] at fires
    | some msg =>
      simp only [here, Option.some.injEq] at fires
      exact fires ▸ .own side (.pushed here)
  | write side =>
    simp only [step] at fires
    cases here : (w side).outbox with
    | nil => simp [here] at fires
    | cons msg rest =>
      simp only [here, Option.ite_none_left_eq_some, Option.some.injEq] at fires
      obtain ⟨_, rfl⟩ := fires
      cases terminal : msg.terminal with
      | true => exact .own side (.last here)
      | false => exact .own side (.wrote here terminal)
  | receive side reply =>
    simp only [step] at fires
    cases here : (w side.other).wire with
    | nil => simp [here] at fires
    | cons msg rest =>
      simp only [here, Option.ite_none_left_eq_some, Option.some.injEq] at fires
      obtain ⟨_, rfl⟩ := fires
      exact .received side here (Or.inl ⟨reply, rfl⟩)
  | rejects side ec =>
    simp only [step] at fires
    cases here : (w side.other).wire with
    | nil => simp [here] at fires
    | cons msg rest =>
      simp only [here, Option.ite_none_left_eq_some, Option.some.injEq, not_or,
        Bool.not_eq_true] at fires
      obtain ⟨⟨_, plain⟩, rfl⟩ := fires
      exact .received side here (Or.inr ⟨plain, ec, rfl⟩)
  | eof side message =>
    simp only [step, Option.ite_none_right_eq_some, Option.some.injEq] at fires
    obtain ⟨_, rfl⟩ := fires
    exact .own side (.terminated _)
  | fails side message =>
    simp only [step, Option.ite_none_left_eq_some, Option.some.injEq] at fires
    obtain ⟨_, rfl⟩ := fires
    exact .own side (.terminated _)
  | timesOut side message =>
    simp only [step, Option.ite_none_right_eq_some, Option.some.injEq] at fires
    obtain ⟨_, rfl⟩ := fires
    exact .own side (.terminated _)

end Ends

end ClosingHandshake

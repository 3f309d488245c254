import SpaceCube.Library.Runs
import SpaceCube.Wire.PreparedFrames

/- The writing side of a connection. Any thread may send messages: a call tests the state under
   one lock and pushes under the write lock, with anything between the two. write_frame, run by
   the transport, takes all that are queued and holds the write flag until they are written. The
   parts under a lock are one event each. -/
namespace SendQueue
open MachineWord Masking FrameHeader HeaderChecks Hybi13 FrameMachine PreparedFrames

/-- A connection that writes frames is past connecting. -/
inductive SessionState where
  | opened
  | closing
  | closed
  deriving DecidableEq

structure Connection (m : Machine) where
  isServer : Bool
  state : SessionState
  sendQueue : List OutMessage
  sendBufferSize : m.Word
  sendBuffer : List (List Byte)
  currentMsgs : List OutMessage
  writeFlag : Bool

variable {m : Machine}

def Connection.initial (m : Machine) (isServer : Bool) : Connection m :=
  ⟨isServer, .opened, [], 0, [], [], false⟩

def sizeOf (m : Machine) (msg : OutMessage) : m.Word := BitVec.ofNat _ msg.payload.length

def writePush (c : Connection m) (msg : OutMessage) : Connection m :=
  { c with
    sendBufferSize := c.sendBufferSize + sizeOf m msg
    sendQueue := c.sendQueue ++ [msg] }

def writePop (c : Connection m) : Option OutMessage × Connection m :=
  match c.sendQueue with
  | [] => (none, c)
  | msg :: rest =>
    (some msg, { c with sendBufferSize := c.sendBufferSize - sizeOf m msg, sendQueue := rest })

def needsWriting (c : Connection m) : Bool := !c.writeFlag && !c.sendQueue.isEmpty

/-- The loop of write_frame, which stops after a message marked terminal. -/
def pull : Nat → Connection m → Connection m
  | 0, c => c
  | fuel + 1, c =>
    match writePop c with
    | (none, c) => c
    | (some msg, c) =>
      let c := { c with currentMsgs := c.currentMsgs ++ [msg] }
      if msg.terminal then c else pull fuel c

/-- With the bytes that async_write is given. -/
def writeFrame (c : Connection m) : Connection m × Option (List Byte) :=
  if c.writeFlag then (c, none)
  else
    let c := pull c.sendQueue.length c
    if c.currentMsgs.isEmpty then (c, none)
    else
      let buffers := c.currentMsgs.flatMap fun msg => [msg.header, msg.payload]
      let c := { c with writeFlag := true, sendBuffer := c.sendBuffer ++ buffers }
      (c, some c.sendBuffer.flatten)

def terminate (c : Connection m) : Connection m := { c with state := .closed }

/-- With whether another write_frame is dispatched. -/
def handleWriteFrame (c : Connection m) (failed : Bool) : Connection m × Bool :=
  let terminal := (c.currentMsgs.getLast?.map (·.terminal)).getD false
  let c := { c with sendBuffer := [], currentMsgs := [] }
  if failed then (terminate c, false)
  else if terminal then (terminate c, false)
  else
    let c := { c with writeFlag := false }
    (c, !c.sendQueue.isEmpty)

/-- A call that has found the connection open. -/
inductive Call where
  | send (msg : OutMessage) (rng : MaskingKey)
  | ping (payload : List Byte) (rng : MaskingKey)
  | pong (payload : List Byte) (rng : MaskingKey)

/-- A connection with its transport. calls are still to push, dispatched counts the calls of
    write_frame still to run; writing has what is still to go out of each outstanding write, wire
    what has gone out. pushed, popped and failed only record the past. -/
structure World (m : Machine) where
  con : Connection m
  calls : List Call
  dispatched : Nat
  writing : List (List Byte)
  wire : List Byte
  pushed : List OutMessage
  popped : List OutMessage
  failed : Bool

def World.initial (m : Machine) (isServer : Bool) : World m :=
  ⟨.initial m isServer, [], 0, [], [], [], [], false⟩

/-- The end of send, ping, pong and send_close_frame. -/
def World.push (w : World m) (msg : OutMessage) : World m :=
  let c := writePush w.con msg
  { w with
    con := c
    dispatched := if needsWriting c then w.dispatched + 1 else w.dispatched
    pushed := w.pushed ++ [msg] }

/-- The beginning of send, ping and pong. -/
def World.call (w : World m) (call : Call) : World m :=
  if w.con.state ≠ .opened then w else { w with calls := w.calls ++ [call] }

/-- send behind the test of the state, with the message buffer that get_message returns. -/
def World.send (w : World m) (msg : OutMessage) (rng : MaskingKey) : World m :=
  if msg.prepared then w.push msg
  else match prepareDataFrame m w.con.isServer rng msg (.make .continuation []) with
    | .error _ => w
    | .ok out => w.push out

def World.ping (w : World m) (payload : List Byte) (rng : MaskingKey) : World m :=
  match preparePing m w.con.isServer rng payload (.make .continuation []) with
  | .error _ => w
  | .ok out => w.push out

def World.pong (w : World m) (payload : List Byte) (rng : MaskingKey) : World m :=
  match preparePong m w.con.isServer rng payload (.make .continuation []) with
  | .error _ => w
  | .ok out => w.push out

def World.goesOn (w : World m) : Call → World m
  | .send msg rng => w.send msg rng
  | .ping payload rng => w.ping payload rng
  | .pong payload rng => w.pong payload rng

/-- Once it has settled on a code and a reason. -/
def World.sendCloseFrame (w : World m) (code : CloseCode) (reason : List Byte) (terminal : Bool)
    (rng : MaskingKey) : World m :=
  match prepareClose m w.con.isServer rng code reason (.make .continuation []) with
  | .error _ => w
  | .ok out =>
    let out := if terminal then { out with terminal := true } else out
    World.push { w with con := { w.con with state := .closing } } out

/-- A call of write_frame that was dispatched. -/
def World.writeFrame (w : World m) : World m :=
  let (c, started) := SendQueue.writeFrame w.con
  { w with
    con := c
    dispatched := w.dispatched - 1
    writing := w.writing ++ started.toList
    popped := w.popped ++ w.con.sendQueue.take (w.con.sendQueue.length - c.sendQueue.length) }

/-- The completion of a write. -/
def World.writeEnds (w : World m) (index : Nat) (failed : Bool) : World m :=
  let (c, again) := handleWriteFrame w.con failed
  { w with
    con := c
    dispatched := if again then w.dispatched + 1 else w.dispatched
    writing := w.writing.eraseIdx index
    failed := w.failed || failed }

inductive Event where
  | call (call : Call)
  | goesOn (index : Nat)
  | sendCloseFrame (code : CloseCode) (reason : List Byte) (terminal : Bool) (rng : MaskingKey)
  | writeFrame
  | transmit (index n : Nat)
  | writeEnds (index : Nat) (failed : Bool)
  | terminate

/-- A write that has gone out whole may end well, and any write may fail. -/
def step (w : World m) : Event → Option (World m)
  | .call call => some (w.call call)
  | .goesOn index =>
    match w.calls[index]? with
    | none => none
    | some call => some (World.goesOn { w with calls := w.calls.eraseIdx index } call)
  | .sendCloseFrame code reason terminal rng =>
    if w.con.state = .closed then none else some (w.sendCloseFrame code reason terminal rng)
  | .writeFrame => if w.dispatched = 0 then none else some w.writeFrame
  | .transmit index n =>
    match w.writing[index]? with
    | none => none
    | some rest =>
      some
        { w with
          writing := w.writing.set index (rest.drop n)
          wire := w.wire ++ rest.take n }
  | .writeEnds index failed =>
    match w.writing[index]? with
    | none => none
    | some rest =>
      if failed = false ∧ rest ≠ [] then none else some (w.writeEnds index failed)
  | .terminate => some { w with con := SendQueue.terminate w.con }

/-- The messages that one write_frame takes from a queue, and the ones it leaves. -/
def ready : List OutMessage → List OutMessage
  | [] => []
  | msg :: rest => if msg.terminal then [msg] else msg :: ready rest

def left : List OutMessage → List OutMessage
  | [] => []
  | msg :: rest => if msg.terminal then rest else left rest

theorem ready_left (queue : List OutMessage) : ready queue ++ left queue = queue := by
  induction queue with
  | nil => rfl
  | cons msg rest ih =>
    unfold ready left
    split
    · rfl
    · rw [List.cons_append, ih]

theorem ready_some {queue : List OutMessage} (some : queue ≠ []) : ready queue ≠ [] := by
  cases queue with
  | nil => contradiction
  | cons msg rest =>
    unfold ready
    split
    · simp
    · simp

/-- Only the last message taken may be terminal. -/
theorem ready_last (queue : List OutMessage) :
    ∀ msg ∈ (ready queue).dropLast, msg.terminal = false := by
  induction queue with
  | nil => simp [ready]
  | cons msg rest ih =>
    unfold ready
    split
    · simp
    · rename_i more
      intro other mem
      by_cases empty : ready rest = []
      · simp [empty] at mem
      · rw [List.dropLast_cons_of_ne_nil empty] at mem
        rcases List.mem_cons.mp mem with rfl | mem
        · simpa using more
        · exact ih other mem

/-- The payload bytes of a queue, in a machine word. -/
def total (m : Machine) (queue : List OutMessage) : m.Word :=
  BitVec.ofNat _ (queue.map (·.payload.length)).sum

theorem total_cons (msg : OutMessage) (queue : List OutMessage) :
    total m (msg :: queue) = sizeOf m msg + total m queue := by
  rw [total, List.map_cons, List.sum_cons, BitVec.ofNat_add]
  rfl

theorem total_append (first second : List OutMessage) :
    total m (first ++ second) = total m first + total m second := by
  rw [total, List.map_append, List.sum_append, BitVec.ofNat_add]
  rfl

theorem pull_ready (c : Connection m) {fuel : Nat} (enough : c.sendQueue.length ≤ fuel)
    (sized : c.sendBufferSize = total m c.sendQueue) : pull fuel c =
      { c with
        sendBufferSize := total m (left c.sendQueue)
        sendQueue := left c.sendQueue
        currentMsgs := c.currentMsgs ++ ready c.sendQueue } := by
  induction fuel generalizing c with
  | zero =>
    have empty := List.eq_nil_of_length_eq_zero (Nat.le_zero.mp enough)
    obtain ⟨isServer, state, queue, size, buffer, current, flag⟩ := c
    obtain rfl : queue = [] := empty
    obtain rfl : size = total m [] := sized
    simp [pull, ready, left]
  | succ fuel ih =>
    obtain ⟨isServer, state, queue, size, buffer, current, flag⟩ := c
    obtain rfl : size = total m queue := sized
    cases queue with
    | nil => simp [pull, writePop, ready, left]
    | cons msg rest =>
      have size : total m (msg :: rest) - sizeOf m msg = total m rest := by
        rw [total_cons, BitVec.add_comm, BitVec.add_sub_cancel]
      simp only [pull, writePop, size]
      by_cases terminal : msg.terminal = true
      · rw [if_pos terminal]
        simp [ready, left, terminal]
      · rw [if_neg terminal, ih _ (by simpa using enough) rfl]
        simp [ready, left, terminal]

/-- The bytes of messages, one after the other. -/
def content (msgs : List OutMessage) : List Byte := msgs.flatMap OutMessage.bytes

theorem content_append (first second : List OutMessage) :
    content (first ++ second) = content first ++ content second := List.flatMap_append

theorem buffers_content (msgs : List OutMessage) :
    (msgs.flatMap fun msg => [msg.header, msg.payload]).flatten = content msgs := by
  induction msgs with
  | nil => rfl
  | cons msg msgs ih =>
    rw [List.flatMap_cons, List.flatten_append, ih]
    simp [content, OutMessage.bytes]

/-- What holds of the writing side: no write is out and the flag is free; one write is out; or
    the connection writes no more. -/
inductive Phase (w : World m) : Prop where
  | free (flag : w.con.writeFlag = false) (none : w.writing = []) (owns : w.con.currentMsgs = [])
    (buffer : w.con.sendBuffer = []) (sent : w.wire = content w.popped)
    (plain : ∀ msg ∈ w.popped, msg.terminal = false)
    (scheduled : w.con.sendQueue ≠ [] → 0 < w.dispatched)
  | writing (rest : List Byte) (flag : w.con.writeFlag = true) (one : w.writing = [rest])
    (owns : w.con.currentMsgs ≠ []) (latest : w.con.currentMsgs.getLast? = w.popped.getLast?)
    (sent : w.wire ++ rest = content w.popped)
    (plain : ∀ msg ∈ w.popped.dropLast, msg.terminal = false)
  | stopped (flag : w.con.writeFlag = true) (none : w.writing = [])
    (closed : w.con.state = .closed) (sent : w.wire <+: content w.popped)
    (ended : w.failed = false → w.wire = content w.popped ∧
      ∃ msg, w.popped.getLast? = some msg ∧ msg.terminal = true)
    (plain : ∀ msg ∈ w.popped.dropLast, msg.terminal = false)

structure Sound (w : World m) : Prop where
  conserve : w.pushed = w.popped ++ w.con.sendQueue
  size : w.con.sendBufferSize = total m w.con.sendQueue
  phase : Phase w

theorem sound_initial (m : Machine) (isServer : Bool) : Sound (World.initial m isServer) where
  conserve := rfl
  size := rfl
  phase := .free rfl rfl rfl rfl rfl (by simp [World.initial]) (fun some => absurd rfl some)

variable {w : World m}

theorem sound_push (sound : Sound w) (msg : OutMessage) : Sound (w.push msg) where
  conserve := by
    show w.pushed ++ [msg] = w.popped ++ (w.con.sendQueue ++ [msg])
    rw [sound.conserve, List.append_assoc]
  size := by
    show w.con.sendBufferSize + sizeOf m msg = total m (w.con.sendQueue ++ [msg])
    rw [sound.size, total_append, total_cons]
    simp [total]
  phase := by
    cases sound.phase with
    | free flag none owns buffer sent plain scheduled =>
      refine .free flag none owns buffer sent plain fun _ => ?_
      have needs : needsWriting (writePush w.con msg) = true := by
        simp [needsWriting, writePush, flag]
      show 0 < if needsWriting (writePush w.con msg) then w.dispatched + 1 else w.dispatched
      rw [if_pos needs]
      exact Nat.succ_pos _
    | writing rest flag one owns latest sent plain =>
      exact .writing rest flag one owns latest sent plain
    | stopped flag none closed sent ended plain =>
      exact .stopped flag none closed sent ended plain

/-- The state of the session may change as long as it does not leave closed. -/
theorem sound_state (sound : Sound w) (state : SessionState)
    (kept : w.con.state = .closed → state = .closed) :
    Sound { w with con := { w.con with state := state } } where
  conserve := sound.conserve
  size := sound.size
  phase := by
    cases sound.phase with
    | free flag none owns buffer sent plain scheduled =>
      exact .free flag none owns buffer sent plain scheduled
    | writing rest flag one owns latest sent plain =>
      exact .writing rest flag one owns latest sent plain
    | stopped flag none closed sent ended plain =>
      exact .stopped flag none (kept closed) sent ended plain

theorem sound_calls (sound : Sound w) (calls : List Call) : Sound { w with calls := calls } where
  conserve := sound.conserve
  size := sound.size
  phase := by
    cases sound.phase with
    | free flag none owns buffer sent plain scheduled =>
      exact .free flag none owns buffer sent plain scheduled
    | writing rest flag one owns latest sent plain =>
      exact .writing rest flag one owns latest sent plain
    | stopped flag none closed sent ended plain =>
      exact .stopped flag none closed sent ended plain

theorem sound_call (sound : Sound w) (call : Call) : Sound (w.call call) := by
  unfold World.call
  split
  · exact sound
  · exact sound_calls sound _

theorem sound_goes_on (sound : Sound w) (call : Call) : Sound (w.goesOn call) := by
  cases call with
  | send msg rng =>
    unfold World.goesOn World.send
    dsimp only
    split
    · exact sound_push sound msg
    · split
      · exact sound
      · exact sound_push sound _
  | ping payload rng =>
    unfold World.goesOn World.ping
    dsimp only
    split
    · exact sound
    · exact sound_push sound _
  | pong payload rng =>
    unfold World.goesOn World.pong
    dsimp only
    split
    · exact sound
    · exact sound_push sound _

theorem sound_close (sound : Sound w) (opened : w.con.state ≠ .closed) (code : CloseCode)
    (reason : List Byte) (terminal : Bool) (rng : MaskingKey) :
    Sound (w.sendCloseFrame code reason terminal rng) := by
  unfold World.sendCloseFrame
  split
  · exact sound
  · exact sound_push (sound_state sound .closing fun closed => absurd closed opened) _

/-- What write_frame does when no write is out: nothing where nothing is queued, or it takes the
    messages up to a terminal one and writes them. -/
theorem write_frame_free {c : Connection m} (flag : c.writeFlag = false)
    (owns : c.currentMsgs = []) (buffer : c.sendBuffer = [])
    (sized : c.sendBufferSize = total m c.sendQueue) :
    c.sendQueue = [] ∧ writeFrame c = (c, none) ∨
      c.sendQueue ≠ [] ∧ writeFrame c =
        ({ c with
            sendBufferSize := total m (left c.sendQueue)
            sendQueue := left c.sendQueue
            currentMsgs := ready c.sendQueue
            writeFlag := true
            sendBuffer := (ready c.sendQueue).flatMap fun msg => [msg.header, msg.payload] },
          some (content (ready c.sendQueue))) := by
  have pulled := pull_ready c (Nat.le_refl _) sized
  unfold writeFrame
  rw [if_neg (by rw [flag]; decide), pulled, owns, List.nil_append]
  dsimp only
  by_cases empty : c.sendQueue = []
  · refine Or.inl ⟨empty, ?_⟩
    obtain ⟨isServer, state, queue, size, sendBuffer, current, writeFlag⟩ := c
    obtain rfl : queue = [] := empty
    obtain rfl : current = [] := owns
    obtain rfl : size = total m [] := sized
    simp [ready, left]
  · have some : (ready c.sendQueue).isEmpty = false := by
      simpa using ready_some empty
    refine Or.inr ⟨empty, ?_⟩
    rw [if_neg (by rw [some]; decide), buffer, List.nil_append, buffers_content]

theorem taken_ready (queue : List OutMessage) :
    queue.take (queue.length - (left queue).length) = ready queue := by
  have whole := ready_left queue
  have length : queue.length - (left queue).length = (ready queue).length := by
    have sum := congrArg List.length whole
    rw [List.length_append] at sum
    omega
  have taken : (ready queue ++ left queue).take (ready queue).length = ready queue :=
    List.take_left
  rw [length]
  rwa [whole] at taken

/-- write_frame finds nothing that it may write. -/
theorem write_nothing (kept : SendQueue.writeFrame w.con = (w.con, none)) :
    w.writeFrame = { w with dispatched := w.dispatched - 1 } := by
  unfold World.writeFrame
  rw [kept]
  simp

theorem sound_write_frame (sound : Sound w) : Sound w.writeFrame := by
  by_cases flag : w.con.writeFlag = true
  · have kept : SendQueue.writeFrame w.con = (w.con, none) := by
      rw [SendQueue.writeFrame, if_pos flag]
    rw [write_nothing kept]
    refine ⟨sound.conserve, sound.size, ?_⟩
    cases sound.phase with
    | free free none owns buffer sent plain scheduled =>
      exact absurd (free.symm.trans flag) Bool.false_ne_true
    | writing rest flag one owns latest sent plain =>
      exact .writing rest flag one owns latest sent plain
    | stopped flag none closed sent ended plain =>
      exact .stopped flag none closed sent ended plain
  · cases sound.phase with
    | writing rest set one owns latest sent plain => exact absurd set flag
    | stopped set none closed sent ended plain => exact absurd set flag
    | free free none owns buffer sent plain scheduled =>
      rcases write_frame_free free owns buffer sound.size with ⟨empty, kept⟩ | ⟨some, taken⟩
      · rw [write_nothing kept]
        refine ⟨sound.conserve, sound.size, ?_⟩
        exact .free free none owns buffer sent plain fun some => absurd empty some
      · have latest := List.getLast?_append_of_ne_nil w.popped (ready_some some)
        have early : (w.popped ++ ready w.con.sendQueue).dropLast =
            w.popped ++ (ready w.con.sendQueue).dropLast :=
          List.dropLast_append_of_ne_nil (ready_some some)
        unfold World.writeFrame
        rw [taken]
        simp only [Option.toList_some, none, List.nil_append, taken_ready]
        refine ⟨?_, rfl, ?_⟩
        · show w.pushed = w.popped ++ ready w.con.sendQueue ++ left w.con.sendQueue
          rw [List.append_assoc, ready_left, sound.conserve]
        · refine .writing (content (ready w.con.sendQueue)) rfl rfl (ready_some some)
            latest.symm ?_ ?_
          · show w.wire ++ content (ready w.con.sendQueue) = _
            rw [content_append, sent]
          · show ∀ msg ∈ (w.popped ++ ready w.con.sendQueue).dropLast, msg.terminal = false
            rw [early]
            intro msg mem
            rcases List.mem_append.mp mem with early | late
            · exact plain msg early
            · exact ready_last _ msg late

theorem sound_transmit (sound : Sound w) {index n : Nat} {rest : List Byte}
    (here : w.writing[index]? = some rest) :
    Sound { w with
      writing := w.writing.set index (rest.drop n)
      wire := w.wire ++ rest.take n } where
  conserve := sound.conserve
  size := sound.size
  phase := by
    cases sound.phase with
    | free flag none owns buffer sent plain scheduled => simp [none] at here
    | stopped flag none closed sent ended plain => simp [none] at here
    | writing whole flag one owns latest sent plain =>
      rw [one] at here
      obtain ⟨rfl, rfl⟩ : index = 0 ∧ whole = rest := by
        cases index with
        | zero => exact ⟨rfl, by simpa using here⟩
        | succ index => simp at here
      refine .writing (whole.drop n) flag ?_ owns latest ?_ plain
      · show w.writing.set 0 (whole.drop n) = [whole.drop n]
        rw [one]
        rfl
      · show w.wire ++ whole.take n ++ whole.drop n = _
        rw [List.append_assoc, List.take_append_drop, sent]

/-- A write is over: the flag is released, or the connection is closed for good. -/
theorem sound_write_ends (sound : Sound w) {index : Nat} {failed : Bool} {rest : List Byte}
    (here : w.writing[index]? = some rest) (out : ¬(failed = false ∧ rest ≠ [])) :
    Sound (w.writeEnds index failed) := by
  cases sound.phase with
  | free flag none owns buffer sent plain scheduled => simp [none] at here
  | stopped flag none closed sent ended plain => simp [none] at here
  | writing whole flag one owns latest sent plain =>
    rw [one] at here
    obtain ⟨rfl, rfl⟩ : index = 0 ∧ whole = rest := by
      cases index with
      | zero => exact ⟨rfl, by simpa using here⟩
      | succ index => simp at here
    have gone : w.writing.eraseIdx 0 = [] := by
      rw [one]
      rfl
    obtain ⟨final, ends⟩ : ∃ final, w.con.currentMsgs.getLast? = some final :=
      ⟨_, List.getLast?_eq_some_getLast owns⟩
    have popped : w.popped.getLast? = some final := latest.symm.trans ends
    have sent' : w.wire <+: content w.popped := ⟨whole, sent⟩
    unfold World.writeEnds handleWriteFrame
    rw [ends, gone]
    dsimp only [Option.map_some, Option.getD_some]
    by_cases fail : failed = true
    · rw [if_pos fail]
      refine ⟨sound.conserve, sound.size, .stopped flag rfl rfl sent' ?_ plain⟩
      intro succeeded
      simp [fail] at succeeded
    · have empty : whole = [] := by
        by_contra some
        exact out ⟨by simpa using fail, some⟩
      have done : w.wire = content w.popped := by
        rw [← sent, empty, List.append_nil]
      rw [if_neg fail]
      by_cases terminal : final.terminal = true
      · rw [if_pos terminal]
        exact ⟨sound.conserve, sound.size, .stopped flag rfl rfl sent'
          (fun _ => ⟨done, final, popped, terminal⟩) plain⟩
      · rw [if_neg terminal]
        refine ⟨sound.conserve, sound.size, .free rfl rfl rfl rfl done ?_ ?_⟩
        · intro msg mem
          have last := List.dropLast_append_getLast? final popped
          rw [← last] at mem
          rcases List.mem_append.mp mem with early | late
          · exact plain msg early
          · rw [List.mem_singleton.mp late]
            simpa using terminal
        · intro some
          have again : (!w.con.sendQueue.isEmpty) = true := by simpa using some
          show 0 < if (!w.con.sendQueue.isEmpty) = true then w.dispatched + 1 else w.dispatched
          rw [if_pos again]
          exact Nat.succ_pos _

theorem sound_step (w : World m) (event : Event) (w' : World m) (ran : step w event = some w')
    (sound : Sound w) : Sound w' := by
  unfold step at ran
  cases event with
  | call call => exact Option.some.inj ran ▸ sound_call sound call
  | goesOn index =>
    dsimp only at ran
    split at ran
    · contradiction
    · rename_i call here
      exact Option.some.inj ran ▸ sound_goes_on (sound_calls sound _) call
  | sendCloseFrame code reason terminal rng =>
    dsimp only at ran
    split at ran
    · contradiction
    · rename_i opened
      exact Option.some.inj ran ▸ sound_close sound opened code reason terminal rng
  | writeFrame =>
    dsimp only at ran
    split at ran
    · contradiction
    · exact Option.some.inj ran ▸ sound_write_frame sound
  | transmit index n =>
    dsimp only at ran
    split at ran
    · contradiction
    · rename_i rest here
      exact Option.some.inj ran ▸ sound_transmit sound here
  | writeEnds index failed =>
    dsimp only at ran
    split at ran
    · contradiction
    · rename_i rest here
      split at ran
      · contradiction
      · rename_i out
        exact Option.some.inj ran ▸ sound_write_ends sound here out
  | terminate => exact Option.some.inj ran ▸ sound_state sound .closed fun _ => rfl

theorem sound_run {isServer : Bool} {events : List Event}
    (ran : Runs.run step (World.initial m isServer) events = some w) : Sound w :=
  Runs.run_invariant Sound sound_step (sound_initial m isServer) ran

/-- What has gone out begins what was taken. -/
theorem sound_sent (sound : Sound w) : w.wire <+: content w.popped := by
  cases sound.phase with
  | free flag none owns buffer sent plain scheduled => rw [sent]
  | writing rest flag one owns latest sent plain => exact ⟨rest, sent⟩
  | stopped flag none closed sent ended plain => exact sent

/-- Where nothing is under way and no write has failed, it is all of it. -/
theorem sound_settled (sound : Sound w) (idle : w.dispatched = 0) (none : w.writing = [])
    (fine : w.failed = false) : w.wire = content w.popped ∧ (w.con.sendQueue = [] ∨
      ∃ msg, w.popped.getLast? = some msg ∧ msg.terminal = true) := by
  cases sound.phase with
  | free flag none owns buffer sent plain scheduled =>
    refine ⟨sent, ?_⟩
    by_contra neither
    obtain ⟨some, _⟩ := not_or.mp neither
    have waiting := scheduled some
    omega
  | writing rest flag one owns latest sent plain =>
    rw [one] at none
    contradiction
  | stopped flag none closed sent ended plain =>
    obtain ⟨done, final⟩ := ended fine
    exact ⟨done, Or.inr final⟩

/-- Over every run, whichever threads push and whenever the transport gets on: the messages pushed
    are the ones taken, in order, and then the ones still queued; the buffered amount is the sum
    of the queued payloads; at most one write is out, and what has gone out begins the bytes of
    the messages taken; no message is taken after a terminal one. Where nothing is under way and
    no write has failed, all that was taken has gone out, and the queue is empty unless a
    terminal message has been written. -/
theorem send_queue_conserved (m : Machine) (isServer : Bool) (events : List Event)
    (w : World m) (ran : Runs.run step (World.initial m isServer) events = some w) :
    w.pushed = w.popped ++ w.con.sendQueue ∧
      w.con.sendBufferSize = total m w.con.sendQueue ∧
      w.writing.length ≤ 1 ∧ (w.writing ≠ [] → w.con.currentMsgs ≠ []) ∧
      w.wire <+: content w.popped ∧
      (∀ msg ∈ w.popped.dropLast, msg.terminal = false) ∧
      (w.dispatched = 0 → w.writing = [] → w.failed = false →
        w.wire = content w.popped ∧ (w.con.sendQueue = [] ∨
          ∃ msg, w.popped.getLast? = some msg ∧ msg.terminal = true)) := by
  have sound := sound_run ran
  have rest : w.writing.length ≤ 1 ∧ (w.writing ≠ [] → w.con.currentMsgs ≠ []) ∧
      ∀ msg ∈ w.popped.dropLast, msg.terminal = false := by
    cases sound.phase with
    | free flag none owns buffer sent plain scheduled =>
      exact ⟨by simp [none], fun some => absurd none some,
        fun msg mem => plain msg (List.mem_of_mem_dropLast mem)⟩
    | writing rest flag one owns latest sent plain =>
      exact ⟨by simp [one], fun _ => owns, plain⟩
    | stopped flag none closed sent ended plain =>
      exact ⟨by simp [none], fun some => absurd none some, plain⟩
  exact ⟨sound.conserve, sound.size, rest.1, rest.2.1, sound_sent sound, rest.2.2,
    sound_settled sound⟩

/-- A text is being written when a ping is called, and a terminal close goes ahead of it. -/
def busy : List Event :=
  [.call (.send (.make .text [0x68, 0x69]) 0), .goesOn 0, .writeFrame, .transmit 0 3,
    .call (.ping [0x3F] 0), .sendCloseFrame 1000 [] true 0, .goesOn 0, .transmit 0 9,
    .writeEnds 0 false, .writeFrame, .transmit 0 9, .writeEnds 0 false]

theorem busy_conserved : ∃ w, Runs.run step (World.initial littleEndian64 true) busy = some w ∧
    w.pushed = w.popped ++ w.con.sendQueue ∧ w.wire = content w.popped := by
  obtain ⟨w, ran⟩ :
      ∃ w, Runs.run step (World.initial littleEndian64 true) busy = some w :=
    Option.isSome_iff_exists.mp (by decide +kernel)
  obtain ⟨conserve, _, _, _, _, _, settled⟩ :=
    send_queue_conserved littleEndian64 true busy w ran
  have idle : ((Runs.run step (World.initial littleEndian64 true) busy).map fun w =>
      (w.dispatched, w.writing, w.failed)) = some (0, [], false) := by decide +kernel
  rw [ran] at idle
  obtain ⟨waiting, writing, failed⟩ := by simpa using idle
  exact ⟨w, ran, conserve, (settled waiting writing failed).1⟩

end SendQueue

import SpaceCube.Library.Pipes
import SpaceCube.Wire.SendQueue

/- One direction of a connection from end to end: the calls that send at one end, the writes and
   the bytes under way, and the reads and the processor at the other end. -/
namespace Link
open MachineWord Masking FrameHeader HeaderChecks Hybi13 ReadPieces FrameMachine PreparedFrames
  SendQueue Pipes

/-- read are the bytes that the other end has read, delivered the messages it has dispatched.
    asked only records what the calls that pushed a message were to send. -/
structure State (m : Machine) where
  sender : World m
  asked : List Message
  read : List Byte
  delivered : List Message
  reader : ReadEnd m

variable {m : Machine}

def State.initial (m : Machine) (isServer : Bool) : State m :=
  ⟨.initial m isServer, [], [], [], .ok (.initial m)⟩

inductive Event where
  | sender (event : SendQueue.Event)
  | read (n : Nat)

/-- What a call that sends is to send. -/
def message : Call → Message
  | .send msg _ => ⟨msg.opcode, msg.payload⟩
  | .ping payload _ => ⟨.ping, payload⟩
  | .pong payload _ => ⟨.pong, payload⟩

/-- What an event at the sending end is to push. -/
def told (w : World m) : SendQueue.Event → Option Message
  | .goesOn index => w.calls[index]?.map message
  | .sendCloseFrame code reason _ _ => some ⟨.close, closePayload m code reason⟩
  | _ => none

/-- A read takes at least one byte. None is issued after an error. -/
def step (s : Settings) (l : State m) : Event → Option (State m)
  | .sender event =>
    match SendQueue.step l.sender event with
    | none => none
    | some w =>
      let pushed := l.sender.pushed.length < w.pushed.length
      some
        { l with
          sender := w
          asked := if pushed then l.asked ++ (told l.sender event).toList else l.asked }
  | .read n =>
    let chunk := (l.sender.wire.drop l.read.length).take n
    match l.reader with
    | .error _ => none
    | .ok p =>
      if chunk = [] then none
      else
        let (msgs, last) := handleReadFrame s p chunk
        some
          { l with
            read := l.read ++ chunk
            delivered := l.delivered ++ msgs
            reader := last }

/-- A call of send is fine when its message is not a fragment, the other end has room for it and
    it has yet to be prepared. -/
def FineCall (s : Settings) : Call → Prop
  | .send msg _ => msg.prepared = false ∧ (Request.data msg).Whole s
  | _ => True

def Fine (s : Settings) : Event → Prop
  | .sender (.call call) => FineCall s call
  | _ => True

/-- What an event that is to push a message does to the messages pushed. -/
inductive Pushes (s : Settings) (w w' : World m) (told : Option Message) : Prop where
  | none (same : w'.pushed = w.pushed)
  | one (out : OutMessage) (msg : Message) (pushed : w'.pushed = w.pushed ++ [out])
    (sends : Sends m s w.con.isServer out msg) (message : told = some msg)

variable {s : Settings} {w w' : World m}

theorem sends_terminal {isServer : Bool} {out : OutMessage} {msg : Message}
    (sends : Sends m s isServer out msg) :
    Sends m s isServer { out with terminal := true } msg := by
  obtain ⟨f, prepared, whole, same⟩ := sends
  exact ⟨f, ⟨prepared.bytes, prepared.size, prepared.op, prepared.rsv, prepared.masked,
    prepared.control, prepared.text⟩, whole, same⟩

/-- A request that has been prepared and pushed. -/
theorem request_pushes (request : Request) {rng : MaskingKey} {buffer out : OutMessage}
    (prepared : request.prepare m w.con.isServer rng buffer = .ok out) (whole : request.Whole s) :
    Pushes s w (w.push out) (some (request.message m)) :=
  .one out _ rfl (request_sends request prepared whole) rfl

theorem goes_on_pushes {call : Call} (fine : FineCall s call) :
    Pushes s w (w.goesOn call) (some (message call)) := by
  cases call with
  | send msg rng =>
    unfold World.goesOn World.send
    dsimp only
    rw [if_neg (by rw [fine.1]; decide)]
    split
    · exact .none rfl
    · rename_i out prepared
      exact request_pushes (.data msg) prepared fine.2
  | ping payload rng =>
    unfold World.goesOn World.ping
    dsimp only
    split
    · exact .none rfl
    · rename_i out prepared
      exact request_pushes (.ping payload) prepared trivial
  | pong payload rng =>
    unfold World.goesOn World.pong
    dsimp only
    split
    · exact .none rfl
    · rename_i out prepared
      exact request_pushes (.pong payload) prepared trivial

theorem close_pushes {code : CloseCode} {reason : List Byte} {terminal : Bool}
    {rng : MaskingKey} : Pushes s w (w.sendCloseFrame code reason terminal rng)
      (some ⟨.close, closePayload m code reason⟩) := by
  unfold World.sendCloseFrame
  split
  · exact .none rfl
  · rename_i out prepared
    have sends : Sends m s w.con.isServer out (Request.message m (.close code reason)) :=
      request_sends (.close code reason) prepared trivial
    refine .one (if terminal then { out with terminal := true } else out) _ rfl ?_ rfl
    cases terminal with
    | false => exact sends
    | true => exact sends_terminal sends

theorem call_kept (w : World m) (call : Call) : (w.call call).pushed = w.pushed ∧
    (w.call call).wire = w.wire ∧ (w.call call).con = w.con := by
  unfold World.call
  split <;> exact ⟨rfl, rfl, rfl⟩

theorem step_pushes {event : SendQueue.Event} (fine : ∀ call ∈ w.calls, FineCall s call)
    (ran : SendQueue.step w event = some w') : Pushes s w w' (told w event) := by
  unfold SendQueue.step at ran
  cases event with
  | call call => exact Option.some.inj ran ▸ .none (call_kept w call).1
  | goesOn index =>
    dsimp only at ran
    split at ran
    · contradiction
    · rename_i call here
      obtain rfl := Option.some.inj ran
      rw [told, here, Option.map_some]
      cases goes_on_pushes (w := { w with calls := w.calls.eraseIdx index })
          (fine call (List.mem_of_getElem? here)) with
      | none same => exact .none same
      | one out msg pushed sends message => exact .one out msg pushed sends message
  | sendCloseFrame code reason terminal rng =>
    dsimp only at ran
    split at ran
    · contradiction
    · exact Option.some.inj ran ▸ close_pushes
  | writeFrame =>
    dsimp only at ran
    split at ran
    · contradiction
    · exact Option.some.inj ran ▸ .none rfl
  | transmit index n =>
    dsimp only at ran
    split at ran
    · contradiction
    · exact Option.some.inj ran ▸ .none rfl
  | writeEnds index failed =>
    dsimp only at ran
    split at ran
    · contradiction
    · split at ran
      · contradiction
      · exact Option.some.inj ran ▸ .none rfl
  | terminate => exact Option.some.inj ran ▸ .none rfl

/-- What has gone out stays, an end keeps its role, and only a new call comes to those under
    way. -/
structure Keeps (w w' : World m) (event : SendQueue.Event) : Prop where
  wire : w.wire <+: w'.wire
  role : w'.con.isServer = w.con.isServer
  calls : ∀ call ∈ w'.calls, call ∈ w.calls ∨ event = .call call

theorem keeps_same {event : SendQueue.Event} (wire : w'.wire = w.wire)
    (role : w'.con.isServer = w.con.isServer) (calls : w'.calls = w.calls) : Keeps w w' event where
  wire := wire ▸ List.prefix_rfl
  role := role
  calls _ mem := Or.inl (calls ▸ mem)

theorem call_keeps {call : Call} : Keeps w (w.call call) (.call call) := by
  unfold World.call
  split
  · exact keeps_same rfl rfl rfl
  · refine ⟨List.prefix_rfl, rfl, fun other mem => ?_⟩
    rcases List.mem_append.mp mem with before | last
    · exact Or.inl before
    · exact Or.inr (congrArg SendQueue.Event.call (List.mem_singleton.mp last).symm)

/-- A call that goes on only pushes. -/
structure OnlyPushes (w w' : World m) : Prop where
  wire : w'.wire = w.wire
  role : w'.con.isServer = w.con.isServer
  calls : w'.calls = w.calls
  popped : w'.popped = w.popped

theorem goes_on_keeps (w : World m) (call : Call) : OnlyPushes w (w.goesOn call) := by
  cases call with
  | send msg rng =>
    unfold World.goesOn World.send
    dsimp only
    split
    · exact ⟨rfl, rfl, rfl, rfl⟩
    · split <;> exact ⟨rfl, rfl, rfl, rfl⟩
  | ping payload rng =>
    unfold World.goesOn World.ping
    dsimp only
    split <;> exact ⟨rfl, rfl, rfl, rfl⟩
  | pong payload rng =>
    unfold World.goesOn World.pong
    dsimp only
    split <;> exact ⟨rfl, rfl, rfl, rfl⟩

theorem close_keeps {code : CloseCode} {reason : List Byte} {terminal : Bool}
    {rng : MaskingKey} {event : SendQueue.Event} :
    Keeps w (w.sendCloseFrame code reason terminal rng) event := by
  unfold World.sendCloseFrame
  split
  · exact keeps_same rfl rfl rfl
  · exact keeps_same rfl rfl rfl

theorem pull_role (c : Connection m) (fuel : Nat) : (pull fuel c).isServer = c.isServer := by
  induction fuel generalizing c with
  | zero => rfl
  | succ fuel ih =>
    unfold pull writePop
    cases c.sendQueue with
    | nil => rfl
    | cons msg rest =>
      dsimp only
      split
      · rfl
      · exact ih _

theorem write_frame_role (c : Connection m) :
    (SendQueue.writeFrame c).1.isServer = c.isServer := by
  unfold SendQueue.writeFrame
  split
  · rfl
  · dsimp only
    split
    · exact pull_role c _
    · exact pull_role c _

theorem handle_write_frame_role (c : Connection m) (failed : Bool) :
    (handleWriteFrame c failed).1.isServer = c.isServer := by
  unfold handleWriteFrame
  dsimp only
  split
  · rfl
  · split
    · rfl
    · rfl

theorem step_keeps {event : SendQueue.Event} (ran : SendQueue.step w event = some w') :
    Keeps w w' event := by
  unfold SendQueue.step at ran
  cases event with
  | call call => exact Option.some.inj ran ▸ call_keeps
  | goesOn index =>
    dsimp only at ran
    split at ran
    · contradiction
    · rename_i call here
      obtain rfl := Option.some.inj ran
      have only := goes_on_keeps { w with calls := w.calls.eraseIdx index } call
      refine ⟨?_, only.role, fun other mem => Or.inl ?_⟩
      · rw [only.wire]
      · rw [only.calls] at mem
        exact List.mem_of_mem_eraseIdx mem
  | sendCloseFrame code reason terminal rng =>
    dsimp only at ran
    split at ran
    · contradiction
    · exact Option.some.inj ran ▸ close_keeps
  | writeFrame =>
    dsimp only at ran
    split at ran
    · contradiction
    · exact Option.some.inj ran ▸ keeps_same rfl (write_frame_role w.con) rfl
  | transmit index n =>
    dsimp only at ran
    split at ran
    · contradiction
    · exact Option.some.inj ran ▸ ⟨List.prefix_append _ _, rfl, fun call mem => Or.inl mem⟩
  | writeEnds index failed =>
    dsimp only at ran
    split at ran
    · contradiction
    · split at ran
      · contradiction
      · exact Option.some.inj ran ▸ keeps_same rfl (handle_write_frame_role w.con failed) rfl
  | terminate => exact Option.some.inj ran ▸ keeps_same rfl rfl rfl

/-- What joins the two ends. -/
structure Joined (s : Settings) (isServer : Bool) (l : State m) : Prop where
  role : l.sender.con.isServer = isServer
  sound : Sound l.sender
  fine : ∀ call ∈ l.sender.calls, FineCall s call
  sends : List.Forall₂ (Sends m s isServer) l.sender.pushed l.asked
  read : l.read <+: l.sender.wire
  reads : Reads s (.initial m) l.read l.delivered l.reader

variable {isServer : Bool} {l l' : State m}

theorem joined_initial : Joined s isServer (State.initial m isServer) where
  role := rfl
  sound := sound_initial m isServer
  fine _ mem := absurd mem List.not_mem_nil
  sends := .nil
  read := List.nil_prefix
  reads := .waits (settled_waits settled_initial)

theorem joined_sender (joined : Joined s isServer l) {event : SendQueue.Event}
    (fine : Fine s (.sender event)) (ran : step s l (.sender event) = some l') :
    Joined s isServer l' := by
  rw [step] at ran
  cases result : SendQueue.step l.sender event with
  | none =>
    rw [result] at ran
    contradiction
  | some w =>
    rw [result] at ran
    obtain rfl := Option.some.inj ran
    have keeps := step_keeps result
    refine ⟨keeps.role.trans joined.role, sound_step _ _ _ result joined.sound, ?_, ?_,
      joined.read.trans keeps.wire, joined.reads⟩
    · intro call mem
      rcases keeps.calls call mem with before | rfl
      · exact joined.fine call before
      · exact fine
    · dsimp only
      cases step_pushes joined.fine result with
      | none same =>
        rw [same, if_neg (Nat.lt_irrefl _)]
        exact joined.sends
      | one out msg pushed sends message =>
        rw [joined.role] at sends
        have longer : l.sender.pushed.length < (l.sender.pushed ++ [out]).length := by simp
        rw [pushed, if_pos longer, message]
        exact List.rel_append joined.sends (.cons sends .nil)

theorem joined_read (joined : Joined s isServer l) {n : Nat}
    (ran : step s l (.read n) = some l') : Joined s isServer l' := by
  rw [step] at ran
  cases here : l.reader with
  | error ec =>
    rw [here] at ran
    contradiction
  | ok p =>
    rw [here] at ran
    dsimp only at ran
    split at ran
    · contradiction
    · obtain rfl := Option.some.inj ran
      have reads := joined.reads
      rw [here] at reads
      have settled := settled_after settled_initial reads
      refine ⟨joined.role, joined.sound, joined.fine, joined.sends, ?_, ?_⟩
      · obtain ⟨unread, wire⟩ := joined.read
        show l.read ++ (l.sender.wire.drop l.read.length).take n <+: l.sender.wire
        rw [← wire, List.drop_left]
        exact (List.prefix_append_right_inj _).mpr (List.take_prefix n unread)
      · exact PiecewiseReader.reads_append reader_splits live_initial reads
          (handle_reads settled _)

theorem joined_step (s : Settings) (isServer : Bool) (l : State m) (event : Event)
    (l' : State m) (fine : Fine s event) (ran : step s l event = some l')
    (joined : Joined s isServer l) : Joined s isServer l' := by
  cases event with
  | sender event => exact joined_sender joined fine ran
  | read n => exact joined_read joined ran

theorem goes_on {p : Processor m} {buf more : List Byte} {msgs : List Message}
    (reads : Reads s (.initial m) buf msgs (.ok p)) :
    ∃ msgs' last, Reads s p more msgs' last :=
  ⟨_, _, handle_reads (settled_after settled_initial reads) more⟩

/-- The messages taken from the queue say what the first calls were to send. -/
theorem joined_taken (joined : Joined s isServer l) : List.Forall₂ (Sends m s isServer)
    l.sender.popped (l.asked.take l.sender.popped.length) := by
  have taken : l.sender.pushed.take l.sender.popped.length = l.sender.popped := by
    rw [joined.sound.conserve]
    exact List.take_left
  have sends := List.forall₂_take l.sender.popped.length joined.sends
  rwa [taken] at sends

/-- What the other end has read begins what they come to. -/
theorem joined_early (joined : Joined s isServer l) :
    ∃ unread, content l.sender.popped = l.read ++ unread := by
  obtain ⟨unread, whole⟩ := joined.read.trans (sound_sent joined.sound)
  exact ⟨unread, whole.symm⟩

theorem joined_delivers (role : s.isServer = !isServer)
    (held : s.maxMessageSize < 2 ^ (8 * m.sizeT)) (joined : Joined s isServer l) :
    l.delivered <+: l.asked.take l.sender.popped.length ∧ (∃ p, l.reader = .ok p) ∧
      (l.sender.dispatched = 0 → l.sender.writing = [] → l.sender.failed = false →
        l.read = l.sender.wire →
          l.delivered = l.asked.take l.sender.popped.length ∧
            (l.sender.con.sendQueue = [] → l.delivered = l.asked)) := by
  obtain ⟨q, _, whole⟩ := sends_read role held (joined_taken joined)
  obtain ⟨unread, bytes⟩ := joined_early joined
  have whole : Reads s (.initial m) (l.read ++ unread)
      (l.asked.take l.sender.popped.length) (.ok q) := bytes ▸ whole
  refine ⟨?_, ?_, ?_⟩
  · refine PiecewiseReader.reads_early reader_splits live_initial ?_ joined.reads whole
    exact fun p reads => goes_on reads
  · cases here : l.reader with
    | ok p => exact ⟨p, rfl⟩
    | error ec =>
      have failed := joined.reads
      rw [here] at failed
      have still := PiecewiseReader.reads_fails reader_splits live_initial failed unread
      have same := (PiecewiseReader.reads_same still whole).2
      contradiction
  · intro idle none succeeded all
    have sent := (sound_settled joined.sound idle none succeeded).1
    have reads := joined.reads
    rw [all, sent, bytes] at reads
    have delivered := (PiecewiseReader.reads_same reads whole).1
    refine ⟨delivered, fun empty => ?_⟩
    have conserve := joined.sound.conserve
    rw [empty, List.append_nil] at conserve
    have length := joined.sends.length_eq
    rw [delivered, ← conserve, length, List.take_length]

theorem step_popped {event : SendQueue.Event} (ran : SendQueue.step w event = some w') :
    w.popped <+: w'.popped := by
  unfold SendQueue.step at ran
  cases event with
  | call call =>
    obtain rfl := Option.some.inj ran
    unfold World.call
    split <;> exact List.prefix_rfl
  | goesOn index =>
    dsimp only at ran
    split at ran
    · contradiction
    · rename_i call here
      obtain rfl := Option.some.inj ran
      rw [(goes_on_keeps _ call).popped]
  | sendCloseFrame code reason terminal rng =>
    dsimp only at ran
    split at ran
    · contradiction
    · obtain rfl := Option.some.inj ran
      unfold World.sendCloseFrame
      split <;> exact List.prefix_rfl
  | writeFrame =>
    dsimp only at ran
    split at ran
    · contradiction
    · exact Option.some.inj ran ▸ List.prefix_append _ _
  | transmit index n =>
    dsimp only at ran
    split at ran
    · contradiction
    · exact Option.some.inj ran ▸ List.prefix_rfl
  | writeEnds index failed =>
    dsimp only at ran
    split at ran
    · contradiction
    · split at ran
      · contradiction
      · exact Option.some.inj ran ▸ List.prefix_rfl
  | terminate => exact Option.some.inj ran ▸ List.prefix_rfl

theorem step_grows {event : Event} (ran : step s l event = some l') :
    l.asked <+: l'.asked ∧ l.sender.popped <+: l'.sender.popped ∧
      l.delivered <+: l'.delivered := by
  rw [step.eq_def] at ran
  cases event with
  | sender event =>
    dsimp only at ran
    split at ran
    · contradiction
    · rename_i w moved
      obtain rfl := Option.some.inj ran
      refine ⟨?_, step_popped moved, List.prefix_rfl⟩
      dsimp only
      split
      · exact List.prefix_append _ _
      · exact List.prefix_rfl
  | read n =>
    dsimp only at ran
    split at ran
    · contradiction
    · split at ran
      · contradiction
      · obtain rfl := Option.some.inj ran
        exact ⟨List.prefix_rfl, List.prefix_rfl, List.prefix_append _ _⟩

/-- What the queue, the writes and the reads make of the messages. -/
def pipe (l : State m) : Pipe Message := cut l.asked l.sender.popped.length l.delivered

/-- A link moves its messages as a pipe, however it cuts their bytes. -/
theorem link_moves (role : s.isServer = !isServer) (held : s.maxMessageSize < 2 ^ (8 * m.sizeT))
    (joined : Joined s isServer l) {event : Event} (fine : Fine s event)
    (ran : step s l event = some l') : Moves (pipe l) (pipe l') := by
  have joined' := joined_step s isServer l event l' fine ran joined
  obtain ⟨asked, popped, delivered⟩ := step_grows ran
  exact cut_moves (joined_delivers role held joined).1 (joined_delivers role held joined').1
    asked popped.length_le delivered

/-- A direction of a connection delivers in every interleaving of sending threads, writes,
    partial transmissions and reads: what has been delivered begins what was asked to be sent,
    nothing lost, repeated or out of order, and the reading end never runs into an error. Once
    nothing is under way, no write has failed and all that is on the wire has been read, it is
    what the messages taken from the queue say, and all of it when the queue is empty. -/
theorem link_delivers (m : Machine) (s : Settings) (isServer : Bool)
    (role : s.isServer = !isServer) (held : s.maxMessageSize < 2 ^ (8 * m.sizeT))
    (events : List Event) (fine : ∀ event ∈ events, Fine s event) (l : State m)
    (ran : Runs.run (step s) (State.initial m isServer) events = some l) :
    l.delivered <+: l.asked ∧ (∃ p, l.reader = .ok p) ∧
      (l.sender.dispatched = 0 → l.sender.writing = [] → l.sender.failed = false →
        l.read = l.sender.wire →
          l.delivered = l.asked.take l.sender.popped.length ∧
            (l.sender.con.sendQueue = [] → l.delivered = l.asked)) := by
  have joined : Joined s isServer l := Runs.run_invariant_where (Fine s) (Joined s isServer)
    (joined_step s isServer) fine joined_initial ran
  obtain ⟨early, reads⟩ := joined_delivers role held joined
  exact ⟨early.trans (List.take_prefix _ _), reads⟩

/-- A server sends a text and, while it is being written, a ping. -/
def twoSent : List Event :=
  [.sender (.call (.send (.make .text [0x68, 0x69]) 0)), .sender (.goesOn 0),
    .sender .writeFrame, .sender (.transmit 0 3), .read 2, .sender (.call (.ping [0x3F] 0)),
    .sender (.transmit 0 9), .read 1, .sender (.goesOn 0), .sender (.writeEnds 0 false),
    .sender .writeFrame, .sender (.transmit 0 9), .read 9, .sender (.writeEnds 0 false)]

theorem two_delivered : ∃ l,
    Runs.run (step ⟨false, 100⟩) (State.initial littleEndian64 true) twoSent = some l ∧
      l.delivered = l.asked ∧ l.asked = [⟨.text, [0x68, 0x69]⟩, ⟨.ping, [0x3F]⟩] := by
  obtain ⟨l, ran⟩ : ∃ l,
      Runs.run (step ⟨false, 100⟩) (State.initial littleEndian64 true) twoSent = some l :=
    Option.isSome_iff_exists.mp (by decide +kernel)
  have fine : ∀ event ∈ twoSent, Fine ⟨false, 100⟩ event := by
    simp [twoSent, Fine, FineCall, Request.Whole, OutMessage.make]
  obtain ⟨_, _, complete⟩ :=
    link_delivers littleEndian64 ⟨false, 100⟩ true rfl (by decide) twoSent fine l ran
  have ends : (Runs.run (step ⟨false, 100⟩) (State.initial littleEndian64 true) twoSent).map
      (fun l => (l.sender.dispatched, l.sender.writing, l.sender.failed)) =
      some (0, [], false) := by decide +kernel
  have finds : (Runs.run (step ⟨false, 100⟩) (State.initial littleEndian64 true) twoSent).map
      (fun l => (l.sender.con.sendQueue.isEmpty, decide (l.read = l.sender.wire), l.asked)) =
      some (true, true, [⟨.text, [0x68, 0x69]⟩, ⟨.ping, [0x3F]⟩]) := by decide +kernel
  rw [ran] at ends finds
  obtain ⟨idle, none, succeeded⟩ := by simpa using ends
  obtain ⟨empty, all, asked⟩ := by simpa using finds
  exact ⟨l, ran, (complete idle none succeeded all).2 empty, asked⟩

end Link

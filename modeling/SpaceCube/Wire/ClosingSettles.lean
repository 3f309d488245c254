import SpaceCube.Library.Pipes
import SpaceCube.Wire.ClosingHandshake

/- The handshake comes to an end by itself: the transport uses up what is on its way, and what
   is left is two open ends or two closed ones. -/
namespace ClosingHandshake
open MachineWord Masking HeaderChecks Utf8Validator PreparedFrames Runs Pipes
open FrameMachine (littleEndian64)

section Ends
variable {m : Machine} {cfg : Config} {event : Event} {side : Side} {e e' : End}

/-- What an end is whatever the other one does, also between reading a close and answering. -/
structure Sound (m : Machine) (e : End) : Prop where
  shut : e.shut = true ↔ e.state = .closed
  clean : e.wasClean = true → ∃ msg ∈ e.heard, msg.isClose = true
  told : e.state = .closing → ∃ msg ∈ e.pushed, msg.isClose = true
  sendable : ∀ payload terminal, .close payload terminal ∈ e.pushed →
    ∃ code reason, Sendable code reason ∧ payload = closePayload m code reason
  calls : ∀ msg ∈ e.sending, msg.isClose = false

/-- A server that has read a close and an end that reads no more have their last message on its
    way. -/
structure Tidy (m : Machine) (side : Side) (e : End) : Prop extends Sound m e where
  deaf : e.deaf = true → e.state = .closed ∨ ∃ msg ∈ e.outbox, msg.terminal = true
  heard : (∃ msg ∈ e.heard, msg.isClose = true) → e.state ≠ .opened
  ends : side = .server → (∃ msg ∈ e.heard, msg.isClose = true) →
    e.state = .closed ∨ ∃ msg ∈ e.outbox, msg.terminal = true

theorem terminate_tidy (tidy : Sound m e) (error : Option (List Byte)) :
    Tidy m side (terminate e error) where
  shut := by
    rw [terminate_shut, terminate_state]
    by_cases closed : e.state = .closed
    · simp [tidy.shut.mpr closed]
    · simp [closed]
  heard := by simp
  clean := by simpa using tidy.clean
  ends _ _ := Or.inl (terminate_state e error)
  deaf _ := Or.inl (terminate_state e error)
  told := by simp
  sendable := by simpa using tidy.sendable
  calls := by simpa using tidy.calls

theorem closing_tidy (tidy : Sound m e) (live : e.state ≠ .closed)
    {pair : CloseCode × List Byte} (sendable : Sendable pair.1 pair.2) {ack terminal : Bool}
    (clean : ack = true → ∃ msg ∈ e.heard, msg.isClose = true)
    (deaf : e.deaf = true → terminal = true ∨ ∃ msg ∈ e.outbox, msg.terminal = true)
    (ends : side = .server → (∃ msg ∈ e.heard, msg.isClose = true) → terminal = true) :
    Tidy m side (closing m cfg e pair ack terminal) where
  shut := by
    have open_ : e.shut = false := by simpa [live] using tidy.shut
    simp [closing, End.push, open_]
  heard := by simp [closing, End.push]
  clean both := by
    simp only [closing, End.push, Bool.or_eq_true] at both ⊢
    exact both.elim tidy.clean clean
  ends server has := by
    refine Or.inr ⟨.close (closePayload m pair.1 pair.2) terminal, by simp [closing, End.push], ?_⟩
    exact ends server has
  deaf reads := by
    rcases deaf reads with last | ⟨msg, mem, last⟩
    · exact Or.inr ⟨.close (closePayload m pair.1 pair.2) terminal, by simp [closing, End.push],
        last⟩
    · exact Or.inr ⟨msg, by simp [closing, End.push, mem], last⟩
  calls := tidy.calls
  told _ := ⟨.close (closePayload m pair.1 pair.2) terminal, by simp [closing, End.push], rfl⟩
  sendable := by
    intro payload last mem
    simp only [closing, End.push, List.mem_append, List.mem_singleton, Message.close.injEq] at mem
    rcases mem with before | ⟨rfl, _⟩
    · exact tidy.sendable payload last before
    · exact ⟨pair.1, pair.2, sendable, rfl⟩

theorem still_last (tidy : Tidy m side e) (live : e.state ≠ .closed) (deaf : e.deaf = true) :
    ∃ msg ∈ e.outbox, msg.terminal = true :=
  (tidy.deaf deaf).resolve_left live

theorem push_tidy (tidy : Tidy m side e) {call : Nat} {msg : Message}
    (here : e.sending[call]? = some msg) :
    Tidy m side (e.arrives call msg) := by
  have plain : msg.isClose = false := tidy.calls msg (List.mem_of_getElem? here)
  have kept : (∃ last ∈ e.outbox, last.terminal = true) →
      ∃ last ∈ e.outbox ++ [msg], last.terminal = true := by
    rintro ⟨last, mem, terminal⟩
    exact ⟨last, List.mem_append_left _ mem, terminal⟩
  refine ⟨⟨tidy.shut, tidy.clean, ?_, ?_, ?_⟩, ?_, tidy.heard, ?_⟩
  · intro state
    obtain ⟨close, mem, isClose⟩ := tidy.told state
    exact ⟨close, List.mem_append_left _ mem, isClose⟩
  · intro payload terminal mem
    rcases List.mem_append.mp mem with before | last
    · exact tidy.sendable payload terminal before
    · rw [← List.mem_singleton.mp last] at plain
      contradiction
  · intro other mem
    exact tidy.calls other (List.mem_of_mem_eraseIdx mem)
  · intro deaf
    exact (tidy.deaf deaf).imp id kept
  · intro server has
    exact (tidy.ends server has).imp id kept

theorem local_tidy (tidy : Tidy m side e) (moved : Local m cfg event e e') : Tidy m side e' := by
  cases moved with
  | kept code reason =>
    exact ⟨⟨tidy.shut, tidy.clean, tidy.told, tidy.sendable, tidy.calls⟩, tidy.deaf, tidy.heard,
      tidy.ends⟩
  | closed t code reason asked opened sendable terminal =>
    have live : e.state ≠ .closed := by rw [opened]; decide
    refine closing_tidy tidy.toSound live sendable (by simp) ?_ ?_
    · exact fun deaf => Or.inr (still_last tidy live deaf)
    · intro _ has
      exact absurd opened (tidy.heard has)
  | called msg opened plain =>
    refine ⟨⟨tidy.shut, tidy.clean, tidy.told, tidy.sendable, ?_⟩, tidy.deaf, tidy.heard,
      tidy.ends⟩
    intro call mem
    rcases List.mem_append.mp mem with before | last
    · exact tidy.calls call before
    · rw [List.mem_singleton.mp last]
      exact plain
  | pushed here => exact push_tidy tidy here
  | @wrote msg rest here plain =>
    have kept : (∃ last ∈ e.outbox, last.terminal = true) →
        ∃ last ∈ rest, last.terminal = true := by
      rintro ⟨last, mem, terminal⟩
      rw [here, List.mem_cons] at mem
      rcases mem with rfl | mem
      · rw [plain] at terminal
        contradiction
      · exact ⟨last, mem, terminal⟩
    refine ⟨⟨tidy.shut, tidy.clean, tidy.told, tidy.sendable, tidy.calls⟩, ?_, tidy.heard, ?_⟩
    · exact fun deaf => (tidy.deaf deaf).imp id kept
    · exact fun server has => (tidy.ends server has).imp id kept
  | last here =>
    refine terminate_tidy ?_ none
    exact ⟨tidy.shut, tidy.clean, tidy.told, tidy.sendable, tidy.calls⟩
  | terminated error => exact terminate_tidy tidy.toSound error

theorem hear_sound (sound : Sound m e) (msg : Message) : Sound m (e.hear msg) := by
  refine ⟨sound.shut, ?_, sound.told, sound.sendable, sound.calls⟩
  intro clean
  obtain ⟨close, mem, isClose⟩ := sound.clean clean
  exact ⟨close, List.mem_append_left _ mem, isClose⟩

theorem heard_before {msg : Message} (plain : msg.isClose = false)
    (has : ∃ close ∈ (e.hear msg).heard, close.isClose = true) :
    ∃ close ∈ e.heard, close.isClose = true := by
  obtain ⟨close, mem, isClose⟩ := has
  rcases List.mem_append.mp mem with before | last
  · exact ⟨close, before, isClose⟩
  · rw [List.mem_singleton.mp last, plain] at isClose
    contradiction

theorem answered_tidy {code : CloseCode} {reason : List Byte} {payload : List Byte}
    {terminal : Bool} (tidy : Tidy m side e) (live : e.state ≠ .closed)
    (answered : Answered m cfg side (e.hear (.close payload terminal)) code reason e') :
    Tidy m side e' := by
  have sound := hear_sound tidy.toSound (.close payload terminal)
  have now : ∃ msg ∈ (e.hear (.close payload terminal)).heard, msg.isClose = true :=
    ⟨.close payload terminal, by simp [End.hear], rfl⟩
  have noted : Sound m { e.hear (.close payload terminal) with
      remoteCode := code, remoteReason := reason } :=
    ⟨sound.shut, sound.clean, sound.told, sound.sendable, sound.calls⟩
  have last : e.deaf = true → ∃ msg ∈ e.outbox, msg.terminal = true := still_last tidy live
  cases answered with
  | refused bad error => exact terminate_tidy noted _
  | acked pair sendable text echo =>
    exact closing_tidy noted live sendable (fun _ => now) (fun deaf => Or.inr (last deaf))
      fun server _ => decide_eq_true server
  | ended first valid server closing =>
    refine terminate_tidy ?_ none
    exact ⟨noted.shut, fun _ => now, noted.told, noted.sendable, noted.calls⟩
  | finished first valid client closing =>
    refine ⟨⟨noted.shut, fun _ => now, noted.told, noted.sendable, noted.calls⟩, tidy.deaf,
      fun _ => closing, ?_⟩
    intro server
    rw [client] at server
    contradiction
  | spurious again closing =>
    refine ⟨noted, tidy.deaf, fun _ => closing, ?_⟩
    intro server _
    -- it has answered already, so its last message is on its way
    exact tidy.ends server (tidy.clean again)

theorem processed_tidy (tidy : Tidy m side e) {msg : Message}
    (processed : Processed m cfg side e msg e') : Tidy m side e' := by
  have sound := hear_sound tidy.toSound msg
  cases processed with
  | ignored why =>
    rcases why with closed | ⟨idle, plain⟩
    · refine ⟨sound, fun _ => Or.inl closed, fun _ opened => ?_, fun _ _ => Or.inl closed⟩
      exact absurd (closed.symm.trans opened) (by decide)
    · refine ⟨sound, tidy.deaf, fun _ => idle, fun server has => tidy.ends server ?_⟩
      exact heard_before plain has
  | taken opened data plain replies pongs cheap =>
    refine ⟨⟨sound.shut, sound.clean, sound.told, sound.sendable, ?_⟩, tidy.deaf, fun has => ?_,
      fun server has => ?_⟩
    · intro call mem
      rcases List.mem_append.mp mem with before | pong
      · exact tidy.calls call before
      · exact pongs call pong
    · exact tidy.heard (heard_before plain has)
    · exact tidy.ends server (heard_before plain has)
  | answered live sendable answer => exact answered_tidy tidy live answer
  | dropped plain error =>
    refine terminate_tidy ?_ (some error)
    exact ⟨sound.shut, sound.clean, sound.told, sound.sendable, sound.calls⟩
  | reported plain opened pair sendable text =>
    have rejecting : Sound m { e.hear msg with deaf := true } :=
      ⟨sound.shut, sound.clean, sound.told, sound.sendable, sound.calls⟩
    have live : e.state ≠ .closed := by rw [opened]; decide
    exact closing_tidy rejecting live sendable (by simp) (fun _ => Or.inl rfl) fun _ _ => rfl

/-- What is on its way to the other end. -/
def End.flight (e : End) : List Message := e.wire ++ e.outbox

/-- What is sent is put on its way, behind what is there, and what is written goes on its way. -/
structure Sends (e e' : End) (new : List Message) : Prop where
  pushed : e'.pushed = e.pushed ++ new
  flight : e'.flight = e.flight ++ new
  conveys : ∀ read, Moves ⟨e.outbox, e.wire, read⟩ ⟨e'.outbox, e'.wire, read⟩

theorem sends_nothing (pushed : e'.pushed = e.pushed) (outbox : e'.outbox = e.outbox)
    (wire : e'.wire = e.wire) : Sends e e' [] := by
  refine ⟨by simp [pushed], by simp [End.flight, outbox, wire], fun read => ?_⟩
  rw [outbox, wire]

theorem sends_one {msg : Message} (pushed : e'.pushed = e.pushed ++ [msg])
    (outbox : e'.outbox = e.outbox ++ [msg]) (wire : e'.wire = e.wire) : Sends e e' [msg] := by
  refine ⟨pushed, by simp [End.flight, outbox, wire], fun read => ?_⟩
  rw [outbox, wire]
  exact .single (.push _ _ _ msg)

theorem sends_writes {msg : Message} {rest : List Message} (here : e.outbox = msg :: rest)
    (pushed : e'.pushed = e.pushed) (outbox : e'.outbox = rest)
    (wire : e'.wire = e.wire ++ [msg]) : Sends e e' [] := by
  refine ⟨by simp [pushed], by simp [End.flight, here, outbox, wire], fun read => ?_⟩
  rw [here, outbox, wire]
  exact .single (.write msg rest _ _)

theorem local_sends (moved : Local m cfg event e e') :
    ∃ new, Sends e e' new ∧ e'.heard = e.heard := by
  cases moved with
  | kept code reason => exact ⟨[], sends_nothing rfl rfl rfl, rfl⟩
  | closed t code reason asked opened sendable terminal => exact ⟨_, sends_one rfl rfl rfl, rfl⟩
  | called msg opened plain => exact ⟨[], sends_nothing rfl rfl rfl, rfl⟩
  | pushed here => exact ⟨_, sends_one rfl rfl rfl, rfl⟩
  | wrote here plain => exact ⟨[], sends_writes here rfl rfl rfl, rfl⟩
  | last here =>
    refine ⟨[], sends_writes here ?_ ?_ ?_, ?_⟩ <;> simp [End.written]
  | terminated error =>
    refine ⟨[], sends_nothing ?_ ?_ ?_, ?_⟩ <;> simp

theorem answered_sends {code : CloseCode} {reason : List Byte}
    (answered : Answered m cfg side e code reason e') :
    ∃ new, Sends e e' new ∧ e'.heard = e.heard := by
  cases answered with
  | refused bad error =>
    refine ⟨[], sends_nothing ?_ ?_ ?_, ?_⟩ <;> simp
  | acked pair sendable text echo => exact ⟨_, sends_one rfl rfl rfl, rfl⟩
  | ended first valid server closing =>
    refine ⟨[], sends_nothing ?_ ?_ ?_, ?_⟩ <;> simp
  | finished first valid client closing => exact ⟨[], sends_nothing rfl rfl rfl, rfl⟩
  | spurious again closing => exact ⟨[], sends_nothing rfl rfl rfl, rfl⟩

theorem processed_sends {msg : Message} (processed : Processed m cfg side e msg e') :
    ∃ new, Sends e e' new ∧ e'.heard = e.heard ++ [msg] := by
  cases processed with
  | ignored why => exact ⟨[], sends_nothing rfl rfl rfl, rfl⟩
  | taken opened data plain replies pongs cheap => exact ⟨[], sends_nothing rfl rfl rfl, rfl⟩
  | answered live sendable answer =>
    obtain ⟨new, sends, heard⟩ := answered_sends answer
    exact ⟨new, ⟨sends.pushed, sends.flight, sends.conveys⟩, heard⟩
  | dropped plain error =>
    refine ⟨[], sends_nothing ?_ ?_ ?_, ?_⟩ <;> simp [End.hear]
  | reported plain opened pair sendable text => exact ⟨_, sends_one rfl rfl rfl, rfl⟩

end Ends

section Worlds
variable {m : Machine} {cfg : Side → Config} {w w' : World} {event : Event} {events : List Event}

/-- Nothing is lost or reordered on the way. -/
structure Linked (m : Machine) (w : World) : Prop where
  tidy : ∀ side, Tidy m side (w side)
  fifo : ∀ side, (w side).pushed = (w side.other).heard ++ (w side).flight

theorem linked_own (linked : Linked m w) {side : Side} {e : End}
    (moved : Local m (cfg side) event (w side) e) : Linked m (Function.update w side e) := by
  obtain ⟨new, ⟨pushed, flight, _⟩, heard⟩ := local_sends moved
  refine ⟨fun t => ?_, fun t => ?_⟩
  · rcases same_or_other side t with rfl | rfl
    · simpa using local_tidy (linked.tidy t) moved
    · simpa using linked.tidy side.other
  · rcases same_or_other side t with rfl | rfl
    · simp [pushed, flight, linked.fifo]
    · simpa [heard] using linked.fifo side.other

theorem on_the_wire (linked : Linked m w) {side : Side} {msg : Message} {rest : List Message}
    (here : (w side.other).wire = msg :: rest) :
    (w side.other).pushed = (w side).heard ++ msg :: (rest ++ (w side.other).outbox) := by
  rw [linked.fifo side.other, other_other, End.flight, here]
  rfl

theorem read_processed (linked : Linked m w) {side : Side} {msg : Message} {rest : List Message}
    (here : (w side.other).wire = msg :: rest) {e : End}
    (reads : Reads m (cfg side) side (w side) msg e) :
    Processed m (cfg side) side (w side) msg e := by
  rcases reads with ⟨reply, rfl⟩ | ⟨plain, ec, rfl⟩
  · apply process_cases
    intro payload terminal is_close
    apply (linked.tidy side.other).sendable payload terminal
    rw [on_the_wire linked here, is_close]
    simp
  · exact rejected_cases m (cfg side) side (w side) plain ec

theorem linked_received (linked : Linked m w) {side : Side} {msg : Message}
    {rest : List Message} (here : (w side.other).wire = msg :: rest) {e : End}
    (processed : Processed m (cfg side) side (w side) msg e) :
    Linked m (Function.update
      (Function.update w side.other ((w side.other).taken rest)) side e) := by
  obtain ⟨new, ⟨pushed, flight, _⟩, heard⟩ := processed_sends processed
  have there := linked.tidy side.other
  refine ⟨fun t => ?_, fun t => ?_⟩
  · rcases same_or_other side t with rfl | rfl
    · simpa using processed_tidy (linked.tidy t) processed
    · rw [Function.update_of_ne (other_ne side), Function.update_self]
      exact ⟨⟨there.shut, there.clean, there.told, there.sendable, there.calls⟩, there.deaf,
        there.heard, there.ends⟩
  · rcases same_or_other side t with rfl | rfl
    · simp [pushed, flight, linked.fifo, End.taken]
    · simp [heard, End.flight, End.taken, on_the_wire linked here]

theorem linked_step (linked : Linked m w)
    (fires : step m cfg w event = some w') : Linked m w' := by
  cases step_cases fires with
  | own side moved => exact linked_own linked moved
  | received side here reads =>
    exact linked_received linked here (read_processed linked here reads)

/-- What is under way from an end, and what the other one has read. -/
def pipe (w : World) (side : Side) : Pipe Message :=
  ⟨(w side).outbox, (w side).wire, (w side.other).heard⟩

/-- Each direction of the handshake is such a pipe as a link is. -/
theorem handshake_moves (linked : Linked m w) (fires : step m cfg w event = some w')
    (t : Side) : Moves (pipe w t) (pipe w' t) := by
  cases step_cases fires with
  | own side moved =>
    obtain ⟨_, sends, heard⟩ := local_sends moved
    rcases same_or_other side t with rfl | rfl
    · simpa [pipe] using sends.conveys (w t.other).heard
    · simpa [pipe, heard] using .refl
  | @received side msg rest e here reads =>
    have processed := read_processed linked here reads
    obtain ⟨_, sends, heard⟩ := processed_sends processed
    rcases same_or_other side t with rfl | rfl
    · simpa [pipe, End.taken] using sends.conveys (w t.other).heard
    · have taken : Move ⟨(w side.other).outbox, (w side.other).wire, (w side).heard⟩
          ⟨(w side.other).outbox, rest, e.heard⟩ := by
        rw [here, heard]
        exact .take msg _ _ _
      simpa [pipe, End.taken] using .single taken

theorem linked_start (m : Machine) : Linked m start := by
  refine ⟨fun side => ⟨⟨?_, ?_, ?_, ?_, ?_⟩, ?_, ?_, ?_⟩, fun side => rfl⟩ <;>
    simp [start, End.opened]

def usual : Side → Config := fun _ =>
  { silentClose := false
    dropOnProtocolError := false
    timeout := true }

/-- The server closes while two calls of the client are under way. -/
def goodbye : List Event :=
  [.send .client (.plain [72, 105]), .send .client (.ping []),
    .close .server normal (asciiBytes "bye")]

/-- One of the calls comes to push only behind the answer to the close. -/
def goodbyeMoves : List Event :=
  [.pushes .client 1, .write .server, .write .client, .receive .client false, .pushes .client 0,
    .receive .server true, .write .client, .receive .server false, .write .client,
    .eof .client []]

end Worlds
end ClosingHandshake

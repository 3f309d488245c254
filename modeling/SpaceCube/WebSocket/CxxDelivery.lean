import SpaceCube.WebSocket.SendFrame
import SpaceCube.Wire.Link

/- The program of main.cpp with the connections of its clients. A send of sendFrame looks at the
   session of a connection and then, in a step of its own, pushes the dumped message to its
   queue. The server thread, the writes and the reads go on in between. -/
namespace CxxDelivery
open MachineWord Masking Hybi13 FrameMachine PreparedFrames Utf8Validator
open SendFrame (Session Call Main OrderedSet connectionSend endpointSend)
open SendQueue (SessionState World)

section Calls
variable {C : Type} [LinearOrder C]

/-- The call that goes on, by its number and whom it has sent to. -/
def current : Main C → List (Nat × List C)
  | .building call | .sending call _ => [(call.t, call.sent)]
  | _ => []

def calls (st : SendFrame.State C) : List (Nat × List C) :=
  st.ended.map (fun call => (call.1.t, call.1.sent)) ++ current st.main

/-- The numbers of the frames sent to a client, in the order of the calls. -/
def sentTo (hdl : C) (st : SendFrame.State C) : List Nat :=
  ((calls st).filter fun call => call.2.contains hdl).map Prod.fst

/-- The calls are numbered in their order, and the one that goes on by the counter. -/
structure Numbered (st : SendFrame.State C) : Prop where
  order : ((calls st).map Prod.fst).Pairwise (· < ·)
  below : st.main = .loopHead → ∀ call ∈ calls st, call.1 < st.t
  now : ∀ call ∈ current st.main, call.1 = st.t
  fresh : ∀ call rest, st.main = .sending call rest → (call.sent ++ rest).Nodup
  building : ∀ call, st.main = .building call → call.sent = []

theorem current_left (hdl : C) (main : Main C) : current (main.left hdl) = current main := by
  cases main <;> rfl

theorem numbered_initial : Numbered (SendFrame.State.initial C) := by
  refine ⟨?_, ?_, ?_, ?_, ?_⟩ <;> simp [SendFrame.State.initial, calls, current]

variable {st st' : SendFrame.State C}

/-- Where only the sessions, the set, the server thread or the flag change. -/
theorem numbered_same (numbered : Numbered st) (main : st'.main = st.main) (t : st'.t = st.t)
    (ended : st'.ended = st.ended) : Numbered st' ∧ ∀ hdl, sentTo hdl st' = sentTo hdl st := by
  have same : calls st' = calls st := by rw [calls, calls, main, ended]
  refine ⟨⟨?_, ?_, ?_, ?_, ?_⟩, fun hdl => by rw [sentTo, sentTo, same]⟩
  · rw [same]
    exact numbered.order
  · rw [main, same, t]
    exact numbered.below
  · rw [main, t]
    exact numbered.now
  · rw [main]
    exact numbered.fresh
  · rw [main]
    exact numbered.building

theorem numbered_left (numbered : Numbered st) {hdl : C} (main : st'.main = st.main.left hdl)
    (t : st'.t = st.t) (ended : st'.ended = st.ended) :
    Numbered st' ∧ ∀ hdl, sentTo hdl st' = sentTo hdl st := by
  have same : calls st' = calls st := by rw [calls, calls, main, ended, current_left]
  refine ⟨⟨?_, ?_, ?_, ?_, ?_⟩, fun hdl => by rw [sentTo, sentTo, same]⟩
  · rw [same]
    exact numbered.order
  · intro head
    rw [same, t]
    apply numbered.below
    rw [main] at head
    cases here : st.main <;> simp_all [Main.left]
  · rw [main, t, current_left]
    exact numbered.now
  · intro call rest here
    rw [main] at here
    cases before : st.main with
    | sending first later =>
      rw [before] at here
      obtain ⟨rfl, rfl⟩ := by simpa [Main.left] using here
      exact numbered.fresh first later before
    | building first => simp [before, Main.left] at here
    | loopHead | uncaught | finished => simp [before, Main.left] at here
  · intro call here
    rw [main] at here
    cases before : st.main with
    | building first =>
      rw [before] at here
      obtain rfl := by simpa [Main.left] using here
      exact numbered.building first before
    | sending first later => simp [before, Main.left] at here
    | loopHead | uncaught | finished => simp [before, Main.left] at here

theorem calls_loop (head : st.main = .loopHead) :
    calls st = st.ended.map (fun call => (call.1.t, call.1.sent)) := by
  rw [calls, head]
  exact List.append_nil _

/-- A call begins with the number of the counter, which is new. -/
theorem numbered_begins (numbered : Numbered st) (head : st.main = .loopHead) (opened : C → Bool) :
    let st' := { st with main := .building ⟨st.t, opened, [], []⟩ }
    Numbered st' ∧ ∀ hdl, sentTo hdl st' = sentTo hdl st := by
  intro st'
  have more : calls st' = calls st ++ [(st.t, [])] := by
    rw [calls_loop head]
    rfl
  refine ⟨⟨?_, by simp [st'], by simp [st', current], by simp [st'], by simp [st']⟩, fun hdl => ?_⟩
  · rw [more, List.map_append, List.pairwise_append]
    refine ⟨numbered.order, by simp, ?_⟩
    intro t earlier t' last
    obtain ⟨call, mem, rfl⟩ := List.mem_map.mp earlier
    obtain rfl := by simpa using last
    exact numbered.below head call mem
  · simp [sentTo, more]

/-- The set is read at the lock. -/
theorem numbered_lock (numbered : Numbered st) {call : Call C} (here : st.main = .building call) :
    let listed := st.connectedClients.elements
    let st' := { st with main := .sending { call with listed := listed } listed }
    Numbered st' ∧ ∀ hdl, sentTo hdl st' = sentTo hdl st := by
  intro listed st'
  have same : calls st' = calls st := by
    rw [calls, calls, here]
    rfl
  refine ⟨⟨?_, by simp [st'], ?_, ?_, by simp [st']⟩, fun hdl => by rw [sentTo, sentTo, same]⟩
  · rw [same]
    exact numbered.order
  · have now := numbered.now
    rw [here] at now
    exact now
  · intro first rest sending
    obtain ⟨rfl, rfl⟩ := by simpa [st'] using sending
    rw [numbered.building call here, List.nil_append]
    exact st.connectedClients.distinct

/-- The end of a call leaves its entry, and the counter moves past it if it returns. -/
theorem numbered_ends (numbered : Numbered st) {call : Call C} {rest : List C}
    (here : st.main = .sending call rest) {thrown : Bool}
    (ended : st'.ended = st.ended ++ [(call, thrown)])
    (next : st'.main = .uncaught ∨ st'.main = .loopHead ∧ st'.t = st.t + 1) :
    Numbered st' ∧ ∀ hdl, sentTo hdl st' = sentTo hdl st := by
  have idle : current st'.main = [] := by
    rcases next with main | ⟨main, _⟩ <;> rw [main] <;> rfl
  have same : calls st' = calls st := by
    rw [calls, calls, idle, ended, here]
    simp [current]
  refine ⟨⟨?_, ?_, by simp [idle], ?_, ?_⟩, fun hdl => by rw [sentTo, sentTo, same]⟩
  · rw [same]
    exact numbered.order
  · intro head entry mem
    have moved : st'.t = st.t + 1 := by
      rcases next with main | ⟨_, moved⟩
      · rw [main] at head
        contradiction
      · exact moved
    have now : call.t = st.t := numbered.now (call.t, call.sent) (by rw [here]; simp [current])
    have order := numbered.order
    rw [same] at mem
    rw [calls, here, current, List.map_append, List.pairwise_append] at order
    rw [calls, here, current] at mem
    rcases List.mem_append.mp mem with earlier | last
    · have less := order.2.2 entry.1 (List.mem_map_of_mem earlier) call.t (by simp)
      omega
    · rw [List.mem_singleton.mp last]
      show call.t < st'.t
      omega
  · intro first later sending
    rcases next with main | ⟨main, _⟩ <;> simp [main] at sending
  · intro first building
    rcases next with main | ⟨main, _⟩ <;> simp [main] at building

theorem numbered_step {event : SendFrame.Event C} (numbered : Numbered st)
    (other : event ≠ .send) (ran : SendFrame.step st event = some st') :
    Numbered st' ∧ ∀ hdl, sentTo hdl st' = sentTo hdl st := by
  cases event with
  | opens hdl | terminates hdl =>
    simp only [SendFrame.step] at ran
    split at ran
    · obtain rfl := Option.some.inj ran
      exact numbered_same numbered rfl rfl rfl
    · contradiction
  | inserted | erased =>
    simp only [SendFrame.step] at ran
    split at ran
    · split at ran
      · contradiction
      · obtain rfl := Option.some.inj ran
        exact numbered_same numbered rfl rfl rfl
    · contradiction
  | leaves hdl =>
    simp only [SendFrame.step] at ran
    split at ran
    · obtain rfl := Option.some.inj ran
      exact numbered_left numbered rfl rfl rfl
    · contradiction
  | signal =>
    obtain rfl := Option.some.inj ran
    exact numbered_same numbered rfl rfl rfl
  | stepSimulation copied =>
    simp only [SendFrame.step] at ran
    split at ran
    · rename_i head
      split at ran
      · split at ran
        · obtain rfl := Option.some.inj ran
          exact numbered_begins numbered head _
        · obtain rfl := Option.some.inj ran
          refine ⟨⟨numbered.order, ?_, ?_, numbered.fresh, numbered.building⟩, fun hdl => rfl⟩
          · intro _ call mem
            exact Nat.lt_succ_of_lt (numbered.below head call mem)
          · simp [head, current]
      · obtain rfl := Option.some.inj ran
        have same : calls { st with main := .finished } = calls st := by
          rw [calls_loop head]
          exact List.append_nil _
        refine ⟨⟨?_, by simp, by simp [current], by simp, by simp⟩, fun hdl => ?_⟩
        · rw [same]
          exact numbered.order
        · rw [sentTo, sentTo, same]
    · contradiction
  | lock =>
    simp only [SendFrame.step] at ran
    split at ran
    · rename_i call here
      obtain rfl := Option.some.inj ran
      exact numbered_lock numbered here
    · contradiction
  | send => contradiction
  | unlock =>
    simp only [SendFrame.step] at ran
    split at ran
    · rename_i call here
      obtain rfl := Option.some.inj ran
      exact numbered_ends numbered here rfl (Or.inr ⟨rfl, rfl⟩)
    · contradiction

/-- A send to an open connection adds the call to what that client was sent. -/
theorem numbered_sent (numbered : Numbered st) {call : Call C} {hdl : C} {rest : List C}
    (here : st.main = .sending call (hdl :: rest)) :
    let st' := { st with main := .sending { call with sent := call.sent ++ [hdl] } rest }
    Numbered st' ∧ sentTo hdl st' = sentTo hdl st ++ [call.t] ∧
      ∀ other, other ≠ hdl → sentTo other st' = sentTo other st := by
  intro st'
  have before : calls st =
      st.ended.map (fun call => (call.1.t, call.1.sent)) ++ [(call.t, call.sent)] := by
    rw [calls, here]
    rfl
  have after : calls st' =
      st.ended.map (fun call => (call.1.t, call.1.sent)) ++ [(call.t, call.sent ++ [hdl])] := rfl
  have fresh := numbered.fresh call (hdl :: rest) here
  have new : hdl ∉ call.sent := by
    intro already
    exact (List.nodup_append.mp fresh).2.2 hdl already hdl (by simp) rfl
  refine ⟨⟨?_, by simp [st'], ?_, ?_, by simp [st']⟩, ?_, ?_⟩
  · have order := numbered.order
    rw [before, List.map_append] at order
    rw [after, List.map_append]
    exact order
  · have now := numbered.now
    rw [here] at now
    simpa [st', current] using now
  · intro first later sending
    obtain ⟨rfl, rfl⟩ := by simpa [st'] using sending
    rwa [List.append_assoc, List.singleton_append]
  · simp [sentTo, before, after, new]
  · intro other different
    by_cases member : other ∈ call.sent <;>
      simp [sentTo, before, after, different, member]

end Calls
variable (C : Type) [LinearOrder C] (m : Machine) in
/-- The connection of a client with its other end. pushing is the client to which the main
    thread has begun a send and has still to push. -/
structure System where
  program : SendFrame.State C
  links : C → Link.State m
  pushing : Option C

def System.initial (C : Type) [LinearOrder C] (m : Machine) : System C m :=
  ⟨.initial C, fun _ => .initial m true, none⟩

/-- rng is the masking key that the send would take if it masked. -/
inductive Event (C : Type) where
  | program (event : SendFrame.Event C)
  | sends (rng : MaskingKey)
  | pushes
  | link (hdl : C) (event : Link.Event)

section Systems
variable {C : Type} [LinearOrder C] {m : Machine}

/-- What the program does by itself. Sessions end with their connections. -/
def ownEvent : SendFrame.Event C → Bool
  | .send | .leaves _ | .terminates _ => false
  | _ => true

/-- What the main thread does besides its sends. -/
def mainEvent : SendFrame.Event C → Bool
  | .stepSimulation _ | .lock | .unlock => true
  | _ => false

def isSend : SendQueue.Call → Bool
  | .send _ _ => true
  | _ => false

/-- All but the sends, which only sendFrame makes. -/
def linkEvent (l : Link.State m) : Link.Event → Bool
  | .sender (.call call) => !isSend call
  | .sender (.goesOn index) => !(l.sender.calls[index]?.any isSend)
  | _ => true

/-- What a change of the state of a connection is to the program. No other change happens. -/
def follow (hdl : C) (st : SendFrame.State C) (before after : SessionState) :
    Option (SendFrame.State C) :=
  match before, after with
  | .opened, .closing => SendFrame.step st (.leaves hdl)
  | .closing, .closed => SendFrame.step st (.terminates hdl)
  | .opened, .closed =>
    (SendFrame.step st (.leaves hdl)).bind fun st => SendFrame.step st (.terminates hdl)
  | before, after => if before = after then some st else none

/-- dump is what msg.dump() returns in the call of a number. -/
def step (s : Settings) (dump : Nat → List Byte) (sys : System C m) :
    Event C → Option (System C m)
  | .program event =>
    if ownEvent event ∧ (mainEvent event → sys.pushing = none) then
      (SendFrame.step sys.program event).map fun program => { sys with program := program }
    else none
  | .sends rng =>
    match sys.program.main, sys.pushing with
    | .sending call (hdl :: _), none =>
      (SendFrame.step sys.program .send).bind fun program =>
        -- connection::send looks at the state before anything else
        if sys.program.sessions hdl = .opened then
          (Link.step s (sys.links hdl)
            (.sender (.call (.send (.make .text (dump call.t)) rng)))).map
              fun l => ⟨program, Function.update sys.links hdl l, some hdl⟩
        else some { sys with program := program }
    | _, _ => none
  | .pushes =>
    match sys.pushing with
    | none => none
    | some hdl =>
      let own := (sys.links hdl).sender.calls.findIdx isSend
      (Link.step s (sys.links hdl) (.sender (.goesOn own))).map fun l =>
        { sys with links := Function.update sys.links hdl l, pushing := none }
  | .link hdl event =>
    if linkEvent (sys.links hdl) event ∧ sys.program.sessions hdl ≠ .connecting then
      (Link.step s (sys.links hdl) event).bind fun l =>
        (follow hdl sys.program (sys.links hdl).sender.con.state l.sender.con.state).map
          fun program => { sys with program := program, links := Function.update sys.links hdl l }
    else none

/-- The state of the connection that a session has. -/
def stateOf : Session → SessionState
  | .connecting | .opened => .opened
  | .closing => .closing
  | .closed => .closed

def texts (msgs : List Message) : List (List Byte) :=
  msgs.filterMap fun msg => if msg.opcode = .text then some msg.payload else none

variable {s : Settings} {dump : Nat → List Byte} {l l' : Link.State m}

theorem texts_append (first second : List Message) :
    texts (first ++ second) = texts first ++ texts second := List.filterMap_append

/-- The texts of the sends that are still to push. -/
def waiting (calls : List SendQueue.Call) : List (List Byte) :=
  texts ((calls.filter isSend).map Link.message)

theorem erase_parts {calls : List SendQueue.Call} {index : Nat} {call : SendQueue.Call}
    (here : calls[index]? = some call) : calls.filter isSend =
      (calls.take index).filter isSend ++ [call].filter isSend ++
        (calls.drop (index + 1)).filter isSend ∧
      (calls.eraseIdx index).filter isSend =
        (calls.take index).filter isSend ++ (calls.drop (index + 1)).filter isSend := by
  obtain ⟨below, found⟩ := List.getElem?_eq_some_iff.mp here
  constructor
  · conv_lhs => rw [← List.take_append_drop index calls, List.drop_eq_getElem_cons below, found]
    rw [← List.singleton_append, List.filter_append, List.filter_append, List.append_assoc]
  · rw [List.eraseIdx_eq_take_drop_succ, List.filter_append]

/-- Other calls leave the sends as they are. -/
theorem erase_other {calls : List SendQueue.Call} {index : Nat} {call : SendQueue.Call}
    (here : calls[index]? = some call) (other : isSend call = false) :
    (calls.eraseIdx index).filter isSend = calls.filter isSend := by
  obtain ⟨whole, rest⟩ := erase_parts here
  rw [whole, rest]
  simp [other]

theorem link_texts {event : Link.Event} (other : linkEvent l event = true)
    (ran : Link.step s l event = some l') : texts l'.asked = texts l.asked := by
  cases event with
  | sender event =>
    have silent : texts (Link.told l.sender event).toList = [] := by
      cases event with
      | goesOn index =>
        rw [Link.told]
        cases here : l.sender.calls[index]? with
        | none => rfl
        | some call =>
          cases call with
          | send msg rng => simp [linkEvent, here, isSend] at other
          | ping payload rng | pong payload rng => rfl
      | call call => rfl
      | sendCloseFrame code reason terminal rng => rfl
      | writeFrame | transmit index n | writeEnds index failed | terminate => rfl
    rw [Link.step] at ran
    split at ran
    · contradiction
    · obtain rfl := Option.some.inj ran
      dsimp only
      split
      · rw [texts_append, silent, List.append_nil]
      · rfl
  | read n =>
    rw [Link.step] at ran
    dsimp only at ran
    split at ran
    · contradiction
    · split at ran
      · contradiction
      · obtain rfl := Option.some.inj ran
        rfl

/-- The sends of sendFrame are not touched by what goes on beside it. -/
theorem link_sends {event : Link.Event} (other : linkEvent l event = true)
    (ran : Link.step s l event = some l') :
    l'.sender.calls.filter isSend = l.sender.calls.filter isSend := by
  cases event with
  | read n =>
    rw [Link.step] at ran
    dsimp only at ran
    split at ran
    · contradiction
    · split at ran
      · contradiction
      · obtain rfl := Option.some.inj ran
        rfl
  | sender event =>
    rw [Link.step] at ran
    split at ran
    · contradiction
    · rename_i w moved
      obtain rfl := Option.some.inj ran
      unfold SendQueue.step at moved
      cases event with
      | call call =>
        obtain rfl := Option.some.inj moved
        unfold SendQueue.World.call
        split
        · rfl
        · simpa [linkEvent] using other
      | goesOn index =>
        dsimp only at moved
        split at moved
        · contradiction
        · rename_i call here
          obtain rfl := Option.some.inj moved
          have kept := (Link.goes_on_keeps
            { l.sender with calls := l.sender.calls.eraseIdx index } call).calls
          dsimp only
          rw [kept]
          exact erase_other here (by simpa [linkEvent, here] using other)
      | sendCloseFrame code reason terminal rng =>
        dsimp only at moved
        split at moved
        · contradiction
        · obtain rfl := Option.some.inj moved
          unfold SendQueue.World.sendCloseFrame
          split <;> rfl
      | writeFrame | transmit index n | terminate =>
        dsimp only at moved
        first
        | (obtain rfl := Option.some.inj moved; rfl)
        | (split at moved
           · contradiction
           · obtain rfl := Option.some.inj moved
             rfl)
      | writeEnds index failed =>
        dsimp only at moved
        split at moved
        · contradiction
        · split at moved
          · contradiction
          · obtain rfl := Option.some.inj moved
            rfl

theorem text_prepared {text : List Byte} (valid : validate text = true) (isServer : Bool)
    (rng : MaskingKey) : ∃ out, prepareDataFrame m isServer rng (.make .text text)
      (.make .continuation []) = .ok out := by
  have data : ¬ (OutMessage.make .text text).opcode.isControl = true :=
    (by decide : ¬ FrameHeader.Opcode.text.isControl = true)
  have good : ¬ ((OutMessage.make .text text).opcode = .text ∧
      (!validate (OutMessage.make .text text).payload) = true) := by
    simp [OutMessage.make, valid]
  unfold prepareDataFrame
  rw [if_neg data, if_neg good]
  exact ⟨_, rfl⟩

/-- A send to an open connection begins. -/
theorem link_begins {call : SendQueue.Call} (opened : l.sender.con.state = .opened)
    (ran : Link.step s l (.sender (.call call)) = some l') :
    l' = { l with sender := { l.sender with calls := l.sender.calls ++ [call] } } := by
  have begun : l.sender.call call = { l.sender with calls := l.sender.calls ++ [call] } := by
    rw [SendQueue.World.call, if_neg (not_not_intro opened)]
  simp only [Link.step, SendQueue.step, begun, Nat.lt_irrefl, if_false, Option.some.injEq] at ran
  exact ran.symm

/-- The send that is still to push does so. -/
theorem link_pushes {text : List Byte} {rng : MaskingKey} (valid : validate text = true)
    (own : l.sender.calls.filter isSend = [.send (.make .text text) rng])
    (ran : Link.step s l (.sender (.goesOn (l.sender.calls.findIdx isSend))) = some l') :
    texts l'.asked = texts l.asked ++ [text] ∧ l'.sender.calls.filter isSend = [] ∧
      l'.sender.con.state = l.sender.con.state := by
  have exists_send : ∃ call ∈ l.sender.calls, isSend call = true := by
    have mem : SendQueue.Call.send (.make .text text) rng ∈ l.sender.calls.filter isSend := by
      rw [own]
      simp
    exact ⟨_, List.mem_of_mem_filter mem, rfl⟩
  have below := List.findIdx_lt_length_of_exists exists_send
  have found : isSend (l.sender.calls[l.sender.calls.findIdx isSend]) = true :=
    List.findIdx_getElem
  have here := List.getElem?_eq_getElem below
  generalize l.sender.calls[l.sender.calls.findIdx isSend] = call at found here
  obtain ⟨whole, rest⟩ := erase_parts here
  have alone : [call].filter isSend = [call] := by simp [found]
  rw [own, alone] at whole
  obtain ⟨before, last⟩ : (l.sender.calls.take (l.sender.calls.findIdx isSend)).filter isSend = [] ∧
      (l.sender.calls.drop (l.sender.calls.findIdx isSend + 1)).filter isSend = [] := by
    have lengths := congrArg List.length whole
    simp only [List.length_append, List.length_singleton] at lengths
    exact ⟨List.eq_nil_of_length_eq_zero (by omega), List.eq_nil_of_length_eq_zero (by omega)⟩
  rw [before, last] at whole rest
  obtain rfl := List.singleton_inj.mp whole
  obtain ⟨out, prepared⟩ := text_prepared (m := m) valid l.sender.con.isServer rng
  let w : World m :=
    { l.sender with calls := l.sender.calls.eraseIdx (l.sender.calls.findIdx isSend) }
  have goes : w.goesOn (.send (.make .text text) rng) = w.push out := by
    unfold World.goesOn World.send
    dsimp only
    rw [if_neg (by simp [OutMessage.make]), prepared]
  have message : Link.told l.sender (.goesOn (l.sender.calls.findIdx isSend)) =
      some ⟨.text, text⟩ := by
    rw [Link.told, here]
    rfl
  have longer : l.sender.pushed.length < (w.push out).pushed.length := by simp [w, World.push]
  simp only [Link.step, SendQueue.step, here, message] at ran
  rw [show World.goesOn _ _ = w.push out from goes, if_pos longer] at ran
  obtain rfl := Option.some.inj ran
  refine ⟨?_, rest, rfl⟩
  rw [texts_append]
  rfl

variable {program program' : SendFrame.State C} {hdl : C}

theorem own_sessions {event : SendFrame.Event C} (own : ownEvent event = true)
    (ran : SendFrame.step program event = some program') (c : C) :
    stateOf (program'.sessions c) = stateOf (program.sessions c) := by
  cases event with
  | opens hdl =>
    simp only [SendFrame.step] at ran
    split at ran
    · rename_i polling connecting
      obtain rfl := Option.some.inj ran
      by_cases same : c = hdl
      · subst same
        simp [connecting, stateOf]
      · simp [same]
    · contradiction
  | inserted | erased | stepSimulation copied | lock | unlock =>
    simp only [SendFrame.step] at ran
    repeat' split at ran
    all_goals first | contradiction | (obtain rfl := Option.some.inj ran; rfl)
  | signal =>
    obtain rfl := Option.some.inj ran
    rfl
  | leaves hdl | terminates hdl | send => contradiction

theorem leaves_sessions (ran : SendFrame.step program (.leaves hdl) = some program') :
    program'.sessions = Function.update program.sessions hdl .closing := by
  simp only [SendFrame.step] at ran
  split at ran
  · obtain rfl := Option.some.inj ran
    rfl
  · contradiction

theorem terminates_sessions (ran : SendFrame.step program (.terminates hdl) = some program') :
    program'.sessions = Function.update program.sessions hdl .closed := by
  simp only [SendFrame.step] at ran
  split at ran
  · obtain rfl := Option.some.inj ran
    rfl
  · contradiction

/-- The program keeps up with the connection. -/
theorem follow_matches {before after : SessionState}
    (ran : follow hdl program before after = some program')
    (here : stateOf (program.sessions hdl) = before) (numbered : Numbered program) :
    stateOf (program'.sessions hdl) = after ∧
      (∀ c, c ≠ hdl → program'.sessions c = program.sessions c) ∧
      Numbered program' ∧ ∀ c, sentTo c program' = sentTo c program := by
  unfold follow at ran
  split at ran
  · rw [leaves_sessions ran]
    exact ⟨by simp [stateOf], fun c other => Function.update_of_ne other _ _,
      numbered_step numbered (by simp) ran⟩
  · rw [terminates_sessions ran]
    exact ⟨by simp [stateOf], fun c other => Function.update_of_ne other _ _,
      numbered_step numbered (by simp) ran⟩
  · obtain ⟨between, left, ended⟩ := Option.bind_eq_some_iff.mp ran
    obtain ⟨halfway, same⟩ := numbered_step numbered (by simp) left
    obtain ⟨done, same'⟩ := numbered_step halfway (by simp) ended
    rw [terminates_sessions ended, leaves_sessions left]
    refine ⟨by simp [stateOf], fun c other => ?_, done, fun c => (same' c).trans (same c)⟩
    rw [Function.update_of_ne other, Function.update_of_ne other]
  · split at ran
    · rename_i same
      obtain rfl := Option.some.inj ran
      exact ⟨here.trans same, fun c _ => rfl, numbered, fun c => rfl⟩
    · contradiction

/-- The sends to a client that are still to push: the one of the main thread, if it is that
    client's. -/
structure Pending (pushing : Option C) (hdl : C) (calls : List SendQueue.Call) : Prop where
  alone : pushing ≠ some hdl → calls.filter isSend = []
  begun : pushing = some hdl → ∃ text rng, validate text = true ∧
    calls.filter isSend = [.send (.make .text text) rng]

/-- What joins sendFrame with the connections. -/
structure Served (s : Settings) (dump : Nat → List Byte) (sys : System C m) : Prop where
  numbered : Numbered sys.program
  matched : ∀ hdl, stateOf (sys.program.sessions hdl) = (sys.links hdl).sender.con.state
  joined : ∀ hdl, Link.Joined s true (sys.links hdl)
  pending : ∀ hdl, Pending sys.pushing hdl (sys.links hdl).sender.calls
  asked : ∀ hdl, texts (sys.links hdl).asked ++ waiting (sys.links hdl).sender.calls =
    (sentTo hdl sys.program).map dump

theorem served_initial (s : Settings) (dump : Nat → List Byte) :
    Served s dump (System.initial C m) where
  numbered := numbered_initial
  matched _ := rfl
  joined _ := Link.joined_initial
  pending _ := ⟨fun _ => rfl, fun here => by simp [System.initial] at here⟩
  asked _ := rfl

omit [LinearOrder C] in
theorem pending_same {pushing : Option C} {calls calls' : List SendQueue.Call}
    (same : calls'.filter isSend = calls.filter isSend) (pending : Pending pushing hdl calls) :
    Pending pushing hdl calls' :=
  ⟨fun other => same.trans (pending.alone other), fun here => same ▸ pending.begun here⟩

theorem waiting_same {calls calls' : List SendQueue.Call}
    (same : calls'.filter isSend = calls.filter isSend) : waiting calls' = waiting calls := by
  rw [waiting, waiting, same]

variable {sys sys' : System C m}

theorem served_link (served : Served s dump sys) {event : Link.Event}
    (ran : step s dump sys (.link hdl event) = some sys') : Served s dump sys' := by
  simp only [step, Option.ite_none_right_eq_some, Option.bind_eq_some_iff,
    Option.map_eq_some_iff] at ran
  obtain ⟨⟨other, _⟩, l, linked, program, followed, rfl⟩ := ran
  obtain ⟨state, others, numbered, same⟩ :=
    follow_matches followed (served.matched hdl) served.numbered
  have sends := link_sends other linked
  have fine : Link.Fine s event := by
    cases event with
    | read n => trivial
    | sender event =>
      cases event with
      | call call =>
        cases call with
        | send msg rng => contradiction
        | ping payload rng | pong payload rng => trivial
      | goesOn | sendCloseFrame | writeFrame | transmit | writeEnds | terminate => trivial
  refine ⟨numbered, fun c => ?_, fun c => ?_, fun c => ?_, fun c => ?_⟩ <;> dsimp only <;>
    by_cases here : c = hdl
  · subst here
    rwa [Function.update_self]
  · rw [Function.update_of_ne here, others c here]
    exact served.matched c
  · subst here
    rw [Function.update_self]
    exact Link.joined_step s true _ _ _ fine linked (served.joined c)
  · rw [Function.update_of_ne here]
    exact served.joined c
  · subst here
    rw [Function.update_self]
    exact pending_same sends (served.pending c)
  · rw [Function.update_of_ne here]
    exact served.pending c
  · subst here
    rw [Function.update_self, link_texts other linked, waiting_same sends, same]
    exact served.asked c
  · rw [Function.update_of_ne here, same]
    exact served.asked c

/-- The messages are texts that the other end has room for. -/
structure Dumps (s : Settings) (dump : Nat → List Byte) : Prop where
  valid : ∀ t, validate (dump t) = true
  fits : ∀ t, (dump t).length ≤ s.maxMessageSize

/-- A send to an open connection begins. -/
theorem served_begins (dumps : Dumps s dump) (served : Served s dump sys) {call : Call C}
    {rest : List C} {rng : MaskingKey} (here : sys.program.main = .sending call (hdl :: rest))
    (idle : sys.pushing = none) (opened : sys.program.sessions hdl = .opened)
    {program : SendFrame.State C} (sent : SendFrame.step sys.program .send = some program)
    (linked : Link.step s (sys.links hdl)
      (.sender (.call (.send (.make .text (dump call.t)) rng))) = some l) :
    Served s dump ⟨program, Function.update sys.links hdl l, some hdl⟩ := by
  have matched := served.matched hdl
  rw [opened] at matched
  have fine : Link.Fine s (.sender (.call (.send (.make .text (dump call.t)) rng))) :=
    ⟨rfl, Or.inl rfl, rfl, dumps.fits call.t⟩
  have joined := Link.joined_step s true _ _ _ fine linked (served.joined hdl)
  obtain rfl := link_begins matched.symm linked
  have pushed := (SendFrame.endpoint_send_ok_iff _).mpr opened
  simp only [SendFrame.step, here, pushed, Option.some.injEq] at sent
  subst sent
  obtain ⟨numbered, more, others⟩ := numbered_sent served.numbered here
  have alone : ∀ c, (sys.links c).sender.calls.filter isSend = [] := by
    intro c
    exact (served.pending c).alone (by simp [idle])
  have only : ((sys.links hdl).sender.calls ++
      [SendQueue.Call.send (.make .text (dump call.t)) rng]).filter isSend =
        [.send (.make .text (dump call.t)) rng] := by
    rw [List.filter_append, alone hdl]
    rfl
  refine ⟨numbered, fun c => ?_, fun c => ?_, fun c => ?_, fun c => ?_⟩ <;> dsimp only <;>
    by_cases same : c = hdl
  · subst same
    rw [Function.update_self, opened]
    exact matched
  · rw [Function.update_of_ne same]
    exact served.matched c
  · subst same
    rwa [Function.update_self]
  · rw [Function.update_of_ne same]
    exact served.joined c
  · subst same
    rw [Function.update_self]
    exact ⟨fun other => absurd rfl other, fun _ => ⟨_, rng, dumps.valid call.t, only⟩⟩
  · rw [Function.update_of_ne same]
    exact ⟨fun _ => alone c, fun this => absurd (Option.some.inj this).symm same⟩
  · subst same
    have asked := served.asked c
    rw [waiting, alone c] at asked
    rw [Function.update_self, more, List.map_append, ← asked, waiting, only]
    simp [texts, Link.message, OutMessage.make]
  · rw [Function.update_of_ne same, others c same]
    exact served.asked c

theorem served_sends (dumps : Dumps s dump) (served : Served s dump sys) {rng : MaskingKey}
    (ran : step s dump sys (.sends rng) = some sys') : Served s dump sys' := by
  simp only [step] at ran
  split at ran
  · rename_i call hdl rest here idle
    obtain ⟨program, sent, ran⟩ := Option.bind_eq_some_iff.mp ran
    by_cases opened : sys.program.sessions hdl = .opened
    · rw [if_pos opened] at ran
      obtain ⟨l, linked, rfl⟩ := Option.map_eq_some_iff.mp ran
      exact served_begins dumps served here idle opened sent linked
    · rw [if_neg opened] at ran
      obtain rfl := Option.some.inj ran
      rw [SendFrame.send_throws here opened, Option.some.injEq] at sent
      have ended : program.ended = sys.program.ended ++ [(call, true)] := by rw [← sent]
      obtain ⟨numbered, same⟩ :=
        numbered_ends served.numbered here ended (Or.inl (by rw [← sent]))
      refine ⟨numbered, fun c => ?_, served.joined, served.pending, fun c => ?_⟩
      · rw [← sent]
        exact served.matched c
      · rw [same]
        exact served.asked c
  · contradiction

theorem served_pushes (served : Served s dump sys)
    (ran : step s dump sys .pushes = some sys') : Served s dump sys' := by
  simp only [step] at ran
  split at ran
  · contradiction
  · rename_i hdl own
    obtain ⟨l, linked, rfl⟩ := Option.map_eq_some_iff.mp ran
    obtain ⟨text, rng, valid, only⟩ := (served.pending hdl).begun own
    have joined :=
      Link.joined_step s true _ (.sender (.goesOn _)) _ trivial linked (served.joined hdl)
    obtain ⟨more, none, still⟩ := link_pushes valid only linked
    refine ⟨served.numbered, fun c => ?_, fun c => ?_, fun c => ?_, fun c => ?_⟩ <;> dsimp only <;>
      by_cases same : c = hdl
    · subst same
      rw [Function.update_self, still]
      exact served.matched c
    · rw [Function.update_of_ne same]
      exact served.matched c
    · subst same
      rwa [Function.update_self]
    · rw [Function.update_of_ne same]
      exact served.joined c
    · subst same
      rw [Function.update_self]
      exact ⟨fun _ => none, fun this => by contradiction⟩
    · rw [Function.update_of_ne same]
      refine ⟨fun _ => (served.pending c).alone ?_, fun this => by contradiction⟩
      rw [own]
      exact fun this => same (Option.some.inj this).symm
    · subst same
      rw [Function.update_self, ← served.asked c, more, waiting, waiting, none, only]
      simp [texts, Link.message, OutMessage.make]
    · rw [Function.update_of_ne same]
      exact served.asked c

theorem served_step (dumps : Dumps s dump) (served : Served s dump sys) {event : Event C}
    (ran : step s dump sys event = some sys') : Served s dump sys' := by
  cases event with
  | program event =>
    simp only [step, Option.ite_none_right_eq_some, Option.map_eq_some_iff] at ran
    obtain ⟨⟨own, _⟩, program, moved, rfl⟩ := ran
    have other : event ≠ .send := by
      rintro rfl
      contradiction
    obtain ⟨numbered, same⟩ := numbered_step served.numbered other moved
    refine ⟨numbered, fun c => ?_, served.joined, served.pending, fun c => ?_⟩
    · rw [own_sessions own moved]
      exact served.matched c
    · rw [same]
      exact served.asked c
  | sends rng => exact served_sends dumps served ran
  | pushes => exact served_pushes served ran
  | link hdl event => exact served_link served ran

/-- Whatever the main loop, the server thread, the writes and the reads do in turn: a client has
    been handed the messages of the calls that sent to it, each whole and once, in the order of
    their numbers, and its end never runs into an error. Once nothing is under way to it, and
    nothing has failed, none is missing. -/
theorem frames_shown (m : Machine) (s : Settings) (dump : Nat → List Byte)
    (client : s.isServer = false) (held : s.maxMessageSize < 2 ^ (8 * m.sizeT))
    (dumps : Dumps s dump) {events : List (Event C)} {sys : System C m}
    (ran : Runs.run (step s dump) (.initial C m) events = some sys) (hdl : C) :
    let l := sys.links hdl
    (sentTo hdl sys.program).Pairwise (· < ·) ∧
      texts l.delivered <+: (sentTo hdl sys.program).map dump ∧ (∃ p, l.reader = .ok p) ∧
      (sys.pushing ≠ some hdl → l.sender.dispatched = 0 → l.sender.writing = [] →
        l.sender.failed = false → l.read = l.sender.wire → l.sender.con.sendQueue = [] →
          texts l.delivered = (sentTo hdl sys.program).map dump) := by
  intro l
  have served : Served s dump sys := Runs.run_invariant (Served s dump)
    (fun _ _ _ ran served => served_step dumps served ran) (served_initial s dump) ran
  obtain ⟨early, reader, complete⟩ := Link.joined_delivers client held (served.joined hdl)
  have ordered : (sentTo hdl sys.program).Pairwise (· < ·) := by
    have kept : List.Sublist (sentTo hdl sys.program) ((calls sys.program).map Prod.fst) :=
      List.filter_sublist.map Prod.fst
    exact served.numbered.order.sublist kept
  refine ⟨ordered, ?_, reader, ?_⟩
  · rw [← served.asked hdl]
    exact ((early.trans (List.take_prefix _ _)).filterMap _).trans (List.prefix_append _ _)
  · intro other idle none succeeded all empty
    have asked := served.asked hdl
    rw [waiting, (served.pending hdl).alone other] at asked
    rw [← asked, (complete idle none succeeded all).2 empty]
    exact (List.append_nil _).symm

def digit (t : Nat) : List Byte := if t = 0 then [0x30] else [0x31]

/-- A client is shown two frames, the first of which it reads while the second is sent. -/
def twoFrames : List (Event Nat) :=
  [.program (.opens 0), .program .inserted, .program (.stepSimulation true), .program .lock,
    .sends 0, .pushes, .program .unlock, .link 0 (.sender .writeFrame),
    .link 0 (.sender (.transmit 0 2)), .program (.stepSimulation true), .link 0 (.read 2),
    .program .lock, .sends 0, .link 0 (.sender (.transmit 0 1)), .pushes,
    .link 0 (.sender (.writeEnds 0 false)), .link 0 (.read 1), .link 0 (.sender .writeFrame),
    .program .unlock, .link 0 (.sender (.transmit 0 3)), .link 0 (.read 3),
    .link 0 (.sender (.writeEnds 0 false))]

theorem digit_dumps : Dumps ⟨false, 100⟩ digit := by
  refine ⟨fun t => ?_, fun t => ?_⟩ <;> unfold digit <;> split <;> decide

theorem two_shown : ∃ sys : System Nat littleEndian64,
    Runs.run (step ⟨false, 100⟩ digit) (.initial Nat littleEndian64) twoFrames = some sys ∧
      texts (sys.links 0).delivered <+: (sentTo 0 sys.program).map digit ∧
      (sentTo 0 sys.program).Pairwise (· < ·) := by
  obtain ⟨sys, ran⟩ : ∃ sys,
      Runs.run (step ⟨false, 100⟩ digit) (.initial Nat littleEndian64) twoFrames = some sys :=
    Option.isSome_iff_exists.mp (by decide +kernel)
  obtain ⟨ordered, early, _⟩ :=
    frames_shown littleEndian64 ⟨false, 100⟩ digit rfl (by decide) digit_dumps ran 0
  exact ⟨sys, ran, early, ordered⟩

/-- Both of them have come when that run ends. -/
example : (Runs.run (step ⟨false, 100⟩ digit) (.initial Nat littleEndian64) twoFrames).map
    (fun sys => (texts (sys.links 0).delivered, sentTo 0 sys.program)) =
    some ([[0x30], [0x31]], [0, 1]) := by decide +kernel

end Systems
end CxxDelivery

import Mathlib.Data.List.Sort
import Mathlib.Logic.Function.Basic
import Mathlib.Order.Lattice
import SpaceCube.Library.Runs
import SpaceCube.Library.Traces

/- The loop of main.cpp and the server thread that runs on_open and on_close. They share
   connected_clients under clients_mutex; the state of a connection is not under it. -/
namespace SendFrame
open Runs Traces

section Set
variable (C : Type) [LinearOrder C]

/-- std::set, which a loop goes through in order. -/
structure OrderedSet where
  elements : List C
  sorted : elements.Pairwise (· ≤ ·)
  distinct : elements.Nodup

variable {C}

def OrderedSet.empty : OrderedSet C := ⟨[], .nil, .nil⟩

def OrderedSet.insert (set : OrderedSet C) (c : C) : OrderedSet C :=
  if here : c ∈ set.elements then set
  else
    ⟨set.elements.orderedInsert (· ≤ ·) c, set.sorted.orderedInsert c set.elements,
      (List.perm_orderedInsert (· ≤ ·) c set.elements).nodup_iff.mpr
        (List.nodup_cons.mpr ⟨here, set.distinct⟩)⟩

def OrderedSet.erase (set : OrderedSet C) (c : C) : OrderedSet C :=
  ⟨set.elements.erase c, set.sorted.erase c, set.distinct.erase c⟩

end Set

/-- session::state of websocketpp. -/
inductive Session where
  | connecting
  | opened
  | closing
  | closed
  deriving DecidableEq

inductive SendError where
  | invalidState
  deriving DecidableEq

/-- connection::send, which returns its error code. -/
def connectionSend (session : Session) : Option SendError :=
  if session ≠ .opened then some .invalidState else none

/-- endpoint::send without an error code to fill in: it throws what the connection returns. -/
def endpointSend (session : Session) : Except SendError Unit :=
  match connectionSend session with
  | some ec => .error ec
  | none => .ok ()

/-- A call of sendFrame that has a frame to send. throughout tells which connections have been
    open since it began, listed is the set at the lock. -/
structure Call (C : Type) where
  t : Nat
  throughout : C → Bool
  listed : List C
  sent : List C

inductive Main (C : Type) where
  | loopHead
  | building (call : Call C)
  | sending (call : Call C) (rest : List C)
  | uncaught
  | finished

/-- What the server thread is doing: a handler it has called waits for the mutex. -/
inductive ServerThread (C : Type) where
  | polling
  | onOpen (hdl : C)
  | onClose (hdl : C)

structure State (C : Type) [LinearOrder C] where
  sessions : C → Session
  server : ServerThread C
  connectedClients : OrderedSet C
  running : Bool
  t : Nat
  main : Main C
  /-- The calls that have ended, and whether by exception. -/
  ended : List (Call C × Bool)

def State.initial (C : Type) [LinearOrder C] : State C where
  sessions := fun _ => .connecting
  server := .polling
  connectedClients := .empty
  running := true
  t := 0
  main := .loopHead
  ended := []

inductive Event (C : Type) where
  | opens (hdl : C)
  | inserted
  | leaves (hdl : C)
  | terminates (hdl : C)
  | erased
  | signal
  | stepSimulation (copied : Bool)
  | lock
  | send
  | unlock

/-- sendFrame holds clients_mutex. -/
def Main.holdsMutex {C : Type} : Main C → Bool
  | .sending _ _ => true
  | _ => false

variable {C : Type} [LinearOrder C]

def Main.left (hdl : C) : Main C → Main C
  | .building call =>
    .building { call with throughout := Function.update call.throughout hdl false }
  | .sending call rest =>
    .sending { call with throughout := Function.update call.throughout hdl false } rest
  | main => main

/-- What one thread does up to the next point where the other can come in between. -/
def step (st : State C) : Event C → Option (State C)
  | .opens hdl => match st.server, st.sessions hdl with
    | .polling, .connecting => some
      { st with sessions := Function.update st.sessions hdl .opened, server := .onOpen hdl }
    | _, _ => none
  | .inserted => match st.server with
    | .onOpen hdl =>
      if st.main.holdsMutex then none
      else some { st with server := .polling, connectedClients := st.connectedClients.insert hdl }
    | _ => none
  | .leaves hdl => match st.server, st.sessions hdl with
    | .polling, .opened => some
      { st with
        sessions := Function.update st.sessions hdl .closing
        main := st.main.left hdl }
    | _, _ => none
  | .terminates hdl => match st.server, st.sessions hdl with
    | .polling, .closing => some
      { st with sessions := Function.update st.sessions hdl .closed, server := .onClose hdl }
    | _, _ => none
  | .erased => match st.server with
    | .onClose hdl =>
      if st.main.holdsMutex then none
      else some { st with server := .polling, connectedClients := st.connectedClients.erase hdl }
    | _ => none
  | .signal => some { st with running := false }
  -- without its copy of the particles sendFrame returns at once
  | .stepSimulation copied => match st.main with
    | .loopHead =>
      if st.running then
        if copied then some
          { st with main := .building ⟨st.t, fun hdl => st.sessions hdl = .opened, [], []⟩ }
        else some { st with t := st.t + 1 }
      else some { st with main := .finished }
    | _ => none
  | .lock => match st.main with
    | .building call =>
      let listed := st.connectedClients.elements
      some { st with main := .sending { call with listed := listed } listed }
    | _ => none
  | .send => match st.main with
    | .sending call (hdl :: rest) => match endpointSend (st.sessions hdl) with
      | .ok () => some { st with main := .sending { call with sent := call.sent ++ [hdl] } rest }
      | .error _ => some { st with main := .uncaught, ended := st.ended ++ [(call, true)] }
    | _ => none
  | .unlock => match st.main with
    | .sending call [] => some
      { st with main := .loopHead, t := st.t + 1, ended := st.ended ++ [(call, false)] }
    | _ => none

abbrev Moves (C : Type) [LinearOrder C] (moves : List (Move (State C) (Event C))) (st : State C) :
    Prop :=
  Trace (fun s e s' => step s e = some s') (.initial C) moves st

/-- No call has ended by exception, and each has sent its frame to all clients of the set
    whose connection was open throughout. -/
def Unharmed (st : State C) : Prop :=
  ∀ e ∈ st.ended, e.2 = false ∧ ∀ hdl ∈ e.1.listed, e.1.throughout hdl → hdl ∈ e.1.sent

/-- A client that the loop comes to has an open connection then. -/
def OpenAtTurn (st : State C) (event : Event C) : Prop :=
  event = .send → ∀ call hdl rest, st.main = .sending call (hdl :: rest) →
    st.sessions hdl = .opened

theorem endpoint_send_ok_iff (session : Session) :
    endpointSend session = .ok () ↔ session = .opened := by
  cases session <;> simp [endpointSend, connectionSend]

/-- While sendFrame sends, it has been at all of the set but for the rest. -/
def Trail : Main C → Prop
  | .building call => call.sent = []
  | .sending call rest => call.listed = call.sent ++ rest
  | _ => True

theorem trail_left (hdl : C) {main : Main C} (trail : Trail main) : Trail (main.left hdl) := by
  cases main with
  | building call => exact trail
  | sending call rest => exact trail
  | loopHead | uncaught | finished => trivial

/-- What a step does to the calls of sendFrame. -/
inductive CallCase (st st' : State C) : Event C → Prop where
  | goes {event : Event C} (ended : st'.ended = st.ended)
    (trail : Trail st.main → Trail st'.main) : CallCase st st' event
  | throws {call : Call C} {hdl : C} {rest : List C} (here : st.main = .sending call (hdl :: rest))
    (shut : st.sessions hdl ≠ .opened) (ended : st'.ended = st.ended ++ [(call, true)]) :
    CallCase st st' .send
  | returns {call : Call C} (here : st.main = .sending call [])
    (ended : st'.ended = st.ended ++ [(call, false)]) (main : st'.main = .loopHead) :
    CallCase st st' .unlock

theorem call_cases {st st' : State C} {event : Event C} (ran : step st event = some st') :
    CallCase st st' event := by
  cases event with
  | opens hdl | terminates hdl =>
    simp only [step] at ran
    split at ran
    · obtain rfl := Option.some.inj ran
      exact .goes rfl id
    · contradiction
  | inserted | erased =>
    simp only [step] at ran
    split at ran
    · split at ran
      · contradiction
      · obtain rfl := Option.some.inj ran
        exact .goes rfl id
    · contradiction
  | leaves hdl =>
    simp only [step] at ran
    split at ran
    · obtain rfl := Option.some.inj ran
      exact .goes rfl (trail_left hdl)
    · contradiction
  | signal =>
    obtain rfl := Option.some.inj ran
    exact .goes rfl id
  | stepSimulation copied =>
    simp only [step] at ran
    split at ran
    · split at ran
      · split at ran
        · obtain rfl := Option.some.inj ran
          exact .goes rfl fun _ => rfl
        · obtain rfl := Option.some.inj ran
          exact .goes rfl id
      · obtain rfl := Option.some.inj ran
        exact .goes rfl fun _ => trivial
    · contradiction
  | lock =>
    simp only [step] at ran
    split at ran
    · rename_i call here
      obtain rfl := Option.some.inj ran
      refine .goes rfl fun trail => ?_
      rw [here] at trail
      simp only [Trail] at trail ⊢
      rw [trail, List.nil_append]
    · contradiction
  | send =>
    simp only [step] at ran
    split at ran
    · rename_i call hdl rest here
      split at ran
      · obtain rfl := Option.some.inj ran
        refine .goes rfl fun trail => ?_
        rw [here] at trail
        simpa [Trail] using trail
      · rename_i fails
        obtain rfl := Option.some.inj ran
        refine .throws here (fun opened => ?_) rfl
        rw [(endpoint_send_ok_iff _).mpr opened] at fails
        contradiction
    · contradiction
  | unlock =>
    simp only [step] at ran
    split at ran
    · rename_i call here
      obtain rfl := Option.some.inj ran
      exact .returns here rfl rfl
    · contradiction

theorem unharmed_step {st st' : State C} {event : Event C} (ran : step st event = some st')
    (opened : OpenAtTurn st event) (inv : Trail st.main ∧ Unharmed st) :
    Trail st'.main ∧ Unharmed st' := by
  obtain ⟨trail, unharmed⟩ := inv
  cases call_cases ran with
  | goes ended kept =>
    refine ⟨kept trail, ?_⟩
    rw [Unharmed, ended]
    exact unharmed
  | throws here shut ended => exact absurd (opened rfl _ _ _ here) shut
  | @returns call here ended main =>
    rw [here] at trail
    refine ⟨main ▸ trivial, ?_⟩
    rw [Unharmed, ended]
    refine List.forall_mem_append.mpr ⟨unharmed, fun e last => ?_⟩
    obtain rfl := List.mem_singleton.mp last
    refine ⟨rfl, fun hdl listed _ => ?_⟩
    rwa [trail, List.append_nil] at listed

theorem harm_kept {st st' : State C} {event : Event C} (ran : step st event = some st')
    (harmed : ¬ Unharmed st) : ¬ Unharmed st' := by
  intro unharmed
  apply harmed
  cases call_cases ran with
  | goes ended _ => rwa [Unharmed, ended] at unharmed
  | throws _ _ ended =>
    rw [Unharmed, ended] at unharmed
    exact (List.forall_mem_append.mp unharmed).1
  | returns _ ended _ =>
    rw [Unharmed, ended] at unharmed
    exact (List.forall_mem_append.mp unharmed).1

/-- A send to a connection that is not open ends the call by exception. -/
theorem send_throws {st : State C} {call : Call C} {hdl : C} {rest : List C}
    (here : st.main = .sending call (hdl :: rest)) (shut : st.sessions hdl ≠ .opened) :
    step st .send =
      some { st with main := .uncaught, ended := st.ended ++ [(call, true)] } := by
  have raised : endpointSend (st.sessions hdl) = .error .invalidState := by
    rw [endpointSend, connectionSend, if_pos shut]
  simp only [step, here, raised]

/-- Over every run: no call of sendFrame throws and each reaches all clients that were open
    throughout, exactly when every client that the loop comes to is open then. -/
theorem unharmed_iff {st : State C} {moves : List (Move (State C) (Event C))}
    (ran : Moves C moves st) :
    Unharmed st ↔ ∀ m ∈ moves, OpenAtTurn m.before m.event := by
  constructor
  · intro unharmed m member sends call hdl rest here
    by_contra shut
    obtain ⟨_, _, _, _, moved, later⟩ := trace_at ran member
    rw [sends, send_throws here shut, Option.some.injEq] at moved
    have harmed : ¬ Unharmed m.after := by
      intro fine
      rw [← moved] at fine
      exact absurd (fine (call, true) (by simp)).1 (by simp)
    exact trace_keeps (fun s => ¬ Unharmed s) (fun _ _ _ => harm_kept) harmed later unharmed
  · intro opened
    have start : Trail (State.initial C).main ∧ Unharmed (State.initial C) :=
      ⟨trivial, fun e none_yet => absurd none_yet List.not_mem_nil⟩
    have both := trace_invariant (fun s => Trail s.main ∧ Unharmed s) OpenAtTurn
      (fun _ _ _ => unharmed_step) start ran opened
    exact both.2

section Samples

/-- A client opens its connection and is sent the frame of step 0. -/
def served : List (Event Nat) :=
  [.opens 0, .inserted, .stepSimulation true, .lock, .send, .unlock]

/-- Of two clients in the set the first starts to close while sendFrame builds its message. -/
def closedOn : List (Event Nat) :=
  [.opens 0, .inserted, .opens 1, .inserted, .stepSimulation true, .leaves 0, .lock, .send]

theorem sample_unharmed : ∃ moves st, Moves Nat moves st ∧ moves.map Move.event = served ∧
    st.ended.map (fun e => (e.1.sent, e.2)) = [([0], false)] ∧
    (Unharmed st ↔ ∀ m ∈ moves, OpenAtTurn m.before m.event) := by
  obtain ⟨moves, ran, named⟩ :=
    run_traced (show run step (.initial Nat) served = some _ from rfl)
  exact ⟨moves, _, ran, named, rfl, unharmed_iff ran⟩

/-- The send to the first client ends the program, and the second, whose connection has been
    open throughout, gets nothing. -/
theorem closing_client_throws : ∃ moves st call, Moves Nat moves st ∧
    moves.map Move.event = closedOn ∧ st.main = .uncaught ∧ st.ended = [(call, true)] ∧
    call.listed = [0, 1] ∧ call.throughout 1 = true ∧ call.sent = [] ∧ ¬ Unharmed st := by
  obtain ⟨moves, ran, named⟩ :=
    run_traced (show run step (.initial Nat) closedOn = some _ from rfl)
  refine ⟨moves, _, _, ran, named, rfl, rfl, rfl, rfl, rfl, fun unharmed => ?_⟩
  exact absurd (unharmed _ (List.mem_singleton_self _)).1 (by decide)

end Samples

end SendFrame

import Mathlib.Logic.Function.Basic
import Mathlib.Logic.Relation
import SpaceCube.Library.SetIteration

/- The coroutines of WebSocketServer that share connected_clients: a handler for every
   connection, and any number of broadcasts and shutdowns. Between two awaits a coroutine
   runs alone, so an event is what one of them does up to its next await. -/
namespace WebSocketServer
open SetIteration

inductive Handler where
  | outside
  | waiting
  | ended
  | raisedKeyError
  deriving DecidableEq

/-- What a broadcast holds between its sends. staying records who was in the set when it
    began and has not left the set since. -/
structure Broadcast (C : Type) where
  iter : Iter
  sent : List C
  dead : List C
  staying : List C

inductive BroadcastPhase (C : Type) where
  | sending (client : C) (b : Broadcast C)
  | returned (b : Broadcast C)
  | raised (b : Broadcast C)

inductive Shutdown where
  | closing
  | cleared

structure State (C : Type) where
  clients : Table C
  handlers : C → Handler
  broadcasts : List (BroadcastPhase C)
  shutdowns : List Shutdown

def State.initial (C : Type) : State C := ⟨.empty, fun _ => .outside, [], []⟩

inductive Event (C : Type) where
  | connect (client : C)
  | closed (client : C)
  | broadcast
  | sendEnds (index : Nat) (works : Bool)
  | shutdown
  | closesEnd (index : Nat)

variable {C : Type} [DecidableEq C]

def Broadcast.begun (clients : Table C) : Broadcast C := ⟨clients.iter, [], [], clients.members⟩

/-- Every exception of send counts as a dead client. -/
def Broadcast.afterSend (b : Broadcast C) (client : C) (works : Bool) : Broadcast C :=
  if works then { b with sent := b.sent ++ [client] } else { b with dead := b.dead ++ [client] }

/-- The head of the loop over connected_clients. -/
def Broadcast.loop (clients : Table C) (b : Broadcast C) : BroadcastPhase C :=
  match b.iter.next clients with
  | .changed => .raised b
  | .item client rest => .sending client { b with iter := rest }
  | .stop => .returned b

def BroadcastPhase.watch (clients : Table C) : BroadcastPhase C → BroadcastPhase C
  | .sending client b => .sending client { b with staying := b.staying.filter (· ∈ clients) }
  | ended => ended

def State.withClients (st : State C) (clients : Table C) : State C :=
  { st with clients := clients, broadcasts := st.broadcasts.map (·.watch clients) }

/-- A broadcast that has come to its end removes the dead clients that are still there. -/
def State.proceed (st : State C) (index : Nat) (phase : BroadcastPhase C) : State C :=
  let moved : State C := { st with broadcasts := st.broadcasts.set index phase }
  match phase with
  | .returned b => moved.withClients (st.clients.discardAll b.dead)
  | _ => moved

/-- With no clients broadcast returns at once; else it runs up to its first send. -/
def firstPhase (clients : Table C) : BroadcastPhase C :=
  if clients.size = 0 then .returned (.begun clients) else Broadcast.loop clients (.begun clients)

inductive Step (st : State C) : Event C → State C → Prop where
  | connect {client : C} {clients : Table C} (outside : st.handlers client = .outside)
    (added : Added st.clients client clients) :
    Step st (.connect client)
      { st.withClients clients with handlers := Function.update st.handlers client .waiting }
  | closed {client : C} (waiting : st.handlers client = .waiting) :
    Step st (.closed client)
      { st.withClients (st.clients.discard client) with
        handlers := Function.update st.handlers client
          (if client ∈ st.clients then .ended else .raisedKeyError) }
  | broadcast : Step st .broadcast
      { st with broadcasts := st.broadcasts ++ [firstPhase st.clients] }
  | sendEnds {index : Nat} {client : C} {b : Broadcast C} {works : Bool}
    (here : st.broadcasts[index]? = some (.sending client b)) :
    Step st (.sendEnds index works)
      (st.proceed index (Broadcast.loop st.clients (b.afterSend client works)))
  | shutdown : Step st .shutdown
      { st with
        shutdowns := st.shutdowns ++ [if st.clients.size = 0 then .cleared else .closing] }
  | closesEnd {index : Nat} (here : st.shutdowns[index]? = some .closing) :
    Step st (.closesEnd index)
      { st.withClients .empty with shutdowns := st.shutdowns.set index .cleared }

def Reachable (st : State C) : Prop :=
  Relation.ReflTransGen (fun s s' => ∃ event, Step s event s') (.initial C) st

/-- A broadcast that goes on is then in the phase it has come to. -/
theorem proceed_here {st : State C} {index : Nat} {before : BroadcastPhase C}
    (here : st.broadcasts[index]? = some before) (phase : BroadcastPhase C) :
    (st.proceed index phase).broadcasts[index]? = some phase := by
  obtain ⟨below, _⟩ := List.getElem?_eq_some_iff.mp here
  unfold State.proceed
  cases phase with
  | sending client b => exact List.getElem?_set_self below
  | raised b => exact List.getElem?_set_self below
  | returned b =>
    dsimp only [State.withClients]
    rw [List.getElem?_map, List.getElem?_set_self below]
    rfl

end WebSocketServer

import SpaceCube.WebSocket.WebSocketServer

/- Whom a broadcast reaches. It iterates the live set of clients and is suspended at every
   send, while handlers, shutdowns and other broadcasts change the set. -/
namespace BroadcastDelivery
open SetIteration WebSocketServer
variable {C : Type}

/-- A broadcast that has ended has returned, and all who stayed and whose send worked were
    sent the message. -/
def Delivers : BroadcastPhase C → Prop
  | .sending _ _ => True
  | .returned b => ∀ c ∈ b.staying, c ∉ b.dead → c ∈ b.sent
  | .raised _ => False

/-- A broadcast under way has been at all who stayed and whose slots it has passed. -/
def Fits (clients : Table C) : BroadcastPhase C → Prop
  | .sending client b => Covers clients b.iter (b.sent ++ b.dead ++ [client]) b.staying
  | ended => Delivers ended

theorem fits_delivers {clients : Table C} {phase : BroadcastPhase C} (fits : Fits clients phase) :
    Delivers phase := by
  cases phase with
  | sending client b => trivial
  | returned b => exact fits
  | raised b => exact fits

theorem loop_raises_iff (clients : Table C) (b : Broadcast C) :
    (∃ b', Broadcast.loop clients b = .raised b') ↔ clients.size ≠ b.iter.used := by
  rw [← next_changed_iff, Broadcast.loop]
  cases b.iter.next clients with
  | changed => exact iff_of_true ⟨b, rfl⟩ rfl
  | stop => simp
  | item client rest => simp

theorem loop_fits {clients : Table C} {b : Broadcast C}
    (size : clients.size = b.iter.used)
    (covers : Covers clients b.iter (b.sent ++ b.dead) b.staying) :
    Fits clients (Broadcast.loop clients b) := by
  unfold Broadcast.loop
  cases next : b.iter.next clients with
  | changed => exact absurd size ((next_changed_iff b.iter clients).mp next)
  | item client rest => exact covers_item covers next
  | stop =>
    intro c member alive
    exact (List.mem_append.mp (covers_stop covers next c member)).resolve_right alive

theorem after_send_iter (b : Broadcast C) (client : C) (works : Bool) :
    (b.afterSend client works).iter = b.iter := by
  unfold Broadcast.afterSend
  split
  · rfl
  · rfl

theorem after_send_covers {clients : Table C} {b : Broadcast C} {client : C} (works : Bool)
    (covers : Covers clients b.iter (b.sent ++ b.dead ++ [client]) b.staying) :
    Covers clients (b.afterSend client works).iter
      ((b.afterSend client works).sent ++ (b.afterSend client works).dead)
      (b.afterSend client works).staying := by
  cases works with
  | false =>
    have grouped : b.sent ++ (b.dead ++ [client]) = b.sent ++ b.dead ++ [client] :=
      (List.append_assoc ..).symm
    simp only [Broadcast.afterSend, Bool.false_eq_true, ↓reduceIte, grouped]
    exact covers
  | true =>
    simp only [Broadcast.afterSend, ↓reduceIte]
    refine covers_mono covers fun c member => ?_
    simp only [List.mem_append, List.mem_singleton] at member ⊢
    tauto

theorem first_fits (clients : Table C) : Fits clients (firstPhase clients) := by
  unfold firstPhase
  split
  · rename_i empty
    intro c member
    have none_there : clients.members = [] := List.length_eq_zero_iff.mp empty
    simp [Broadcast.begun, none_there] at member
  · exact loop_fits rfl (covers_start clients)

variable [DecidableEq C]

/-- What happens to the set between two sends: those who stay keep their slots. -/
theorem watch_fits {clients clients' : Table C} {phase : BroadcastPhase C}
    (fits : Fits clients phase)
    (kept : ∀ client b, phase = .sending client b → ∀ c ∈ clients', ∀ i : Nat,
      clients.slots[i]? = some (some c) → clients'.slots[i]? = some (some c)) :
    Fits clients' (phase.watch clients') := by
  cases phase with
  | returned b => exact fits
  | raised b => exact fits
  | sending client b =>
    intro c member
    obtain ⟨stayed, here⟩ := List.mem_filter.mp member
    obtain ⟨i, held, passed⟩ := fits c stayed
    exact ⟨i, kept client b rfl c (of_decide_eq_true here) i held, passed⟩

def AllFit (st : State C) : Prop := ∀ phase ∈ st.broadcasts, Fits st.clients phase

theorem with_clients_fit {st : State C} (fit : AllFit st) (clients : Table C)
    (kept : ∀ client b, .sending client b ∈ st.broadcasts → ∀ c ∈ clients, ∀ i : Nat,
      st.clients.slots[i]? = some (some c) → clients.slots[i]? = some (some c)) :
    AllFit (st.withClients clients) := by
  intro phase member
  obtain ⟨before, listed, rfl⟩ := List.mem_map.mp member
  exact watch_fits (fit before listed) fun client b same => kept client b (same ▸ listed)

theorem proceed_fits {st : State C} (fit : AllFit st) (index : Nat) {phase : BroadcastPhase C}
    (fits : Fits st.clients phase) : AllFit (st.proceed index phase) := by
  have moved : AllFit { st with broadcasts := st.broadcasts.set index phase } := by
    intro other member
    rcases List.mem_or_eq_of_mem_set member with old | rfl
    · exact fit other old
    · exact fits
  unfold State.proceed
  cases phase with
  | sending client b => exact moved
  | raised b => exact moved
  | returned b =>
    refine with_clients_fit moved _ fun _ _ _ c here i held => ?_
    exact discardAll_slot ((mem_discardAll _ _ _).mp here).2 held

/-- The set has its old size whenever a broadcast goes on, and is not rebuilt by a new
    client while one is under way. -/
structure Steady (st : State C) (event : Event C) (st' : State C) : Prop where
  size : ∀ index works client b, event = .sendEnds index works →
    st.broadcasts[index]? = some (.sending client b) → st.clients.size = b.iter.used
  kept : ∀ client, event = .connect client → ∀ other b, .sending other b ∈ st.broadcasts →
    SlotsKept st.clients st'.clients

def SteadyStep (st st' : State C) : Prop := ∃ event, Step st event st' ∧ Steady st event st'

theorem steady_step {st st' : State C} (fit : AllFit st) (moved : SteadyStep st st') :
    AllFit st' := by
  obtain ⟨event, ran, steady⟩ := moved
  cases ran with
  | @connect client clients outside added =>
    refine with_clients_fit fit clients fun other b listed c _ i held => ?_
    exact steady.kept client rfl other b listed i c held
  | @closed client waiting =>
    refine with_clients_fit fit (st.clients.discard client) fun _ _ _ c here i held => ?_
    exact discard_slot ((mem_discard _ _ _).mp here).2 held
  | broadcast =>
    intro phase member
    rcases List.mem_append.mp member with old | new
    · exact fit phase old
    · rw [List.mem_singleton.mp new]
      exact first_fits st.clients
  | @sendEnds index client b works here =>
    have size := steady.size index works client b rfl here
    have covers := after_send_covers works (fit _ (List.mem_of_getElem? here))
    rw [← after_send_iter b client works] at size
    exact proceed_fits fit index (loop_fits size covers)
  | shutdown => exact fit
  | closesEnd here =>
    refine with_clients_fit fit .empty fun _ _ _ c absent => ?_
    exact absurd absent List.not_mem_nil

theorem steady_run {st : State C} (ran : Relation.ReflTransGen SteadyStep (.initial C) st) :
    AllFit st := by
  induction ran with
  | refl => exact fun phase member => absurd member List.not_mem_nil
  | tail _ moved ih => exact steady_step ih moved

theorem proceed_at {st : State C} {index : Nat} {phase before : BroadcastPhase C}
    (here : st.broadcasts[index]? = some before) (b : Broadcast C) :
    (st.proceed index phase).broadcasts[index]? = some (.raised b) ↔ phase = .raised b := by
  rw [proceed_here here, Option.some.injEq]

/-- Along a run in which the set keeps its size and its slots for every broadcast under way,
    no broadcast raises and each reaches all who stay; and going on after a send raises
    exactly when the size has changed. -/
theorem broadcast_delivers :
    (∀ st : State C, Relation.ReflTransGen SteadyStep (.initial C) st →
      ∀ phase ∈ st.broadcasts, Delivers phase) ∧
    ∀ (st st' : State C) (index : Nat) (works : Bool) (client : C) (b : Broadcast C),
      Step st (.sendEnds index works) st' →
      st.broadcasts[index]? = some (.sending client b) →
      ((∃ b', st'.broadcasts[index]? = some (.raised b')) ↔ st.clients.size ≠ b.iter.used) := by
  refine ⟨fun st ran phase member => fits_delivers (steady_run ran phase member), ?_⟩
  intro st st' index works client b ran here
  cases ran with
  | @sendEnds _ client' b' _ here' =>
    obtain ⟨rfl, rfl⟩ := BroadcastPhase.sending.inj (Option.some.inj (here.symm.trans here'))
    rw [← after_send_iter b client works, ← loop_raises_iff]
    exact exists_congr fun b' => proceed_at here b'

section Sample

def tableOf (clients : List Nat) (distinct : clients.Nodup) : Table Nat :=
  ⟨clients.map some, by simpa [List.reduceOption] using distinct⟩

theorem idle_steady {st st' : State Nat} {event : Event Nat} (idle : st.broadcasts = [])
    (ran : Step st event st') : SteadyStep st st' := by
  refine ⟨event, ran, ?_, ?_⟩
  · intro index works client b _ here
    simp [idle] at here
  · intro client _ other b listed
    simp [idle] at listed

theorem send_steady {st st' : State Nat} {client : Nat} {b : Broadcast Nat}
    (only : st.broadcasts = [.sending client b]) (size : st.clients.size = b.iter.used)
    (ran : Step st (.sendEnds 0 true) st') : SteadyStep st st' := by
  refine ⟨_, ran, ?_, fun client same => by contradiction⟩
  intro index works client' b' same here
  obtain ⟨rfl, rfl⟩ := Event.sendEnds.inj same
  rw [only] at here
  obtain ⟨rfl, rfl⟩ := BroadcastPhase.sending.inj (Option.some.inj here)
  exact size

theorem connect_rebuilt (st : State Nat) (client : Nat) (clients : Table Nat)
    (outside : st.handlers client = .outside) (absent : client ∉ st.clients)
    (members : clients.members.Perm (client :: st.clients.members)) :
    Step st (.connect client)
      { st.withClients clients with handlers := Function.update st.handlers client .waiting } :=
  .connect outside (.rebuilt absent members)

theorem send_works {st st' : State Nat} (client : Nat) (b : Broadcast Nat)
    (here : st.broadcasts[0]? = some (.sending client b))
    (reaches : st.proceed 0 (Broadcast.loop st.clients (b.afterSend client true)) = st') :
    Step st (.sendEnds 0 true) st' := reaches ▸ .sendEnds here

def firstComes : Nat → Handler := Function.update (fun _ => .outside) 0 .waiting

def secondComes : Nat → Handler := Function.update firstComes 1 .waiting

/-- Clients 0 and 1 have come, and a broadcast is at its send to 0. -/
def underWay : State Nat :=
  ⟨tableOf [0, 1] (by decide), secondComes, [.sending 0 ⟨⟨2, 1⟩, [], [], [0, 1]⟩], []⟩

theorem under_way_reached : Relation.ReflTransGen SteadyStep (.initial Nat) underWay := by
  have first : Step (.initial Nat) (.connect 0) ⟨tableOf [0] (by decide), firstComes, [], []⟩ :=
    connect_rebuilt (.initial Nat) 0 _ rfl (by decide) (by decide)
  have second : Step ⟨tableOf [0] (by decide), firstComes, [], []⟩ (.connect 1)
      ⟨tableOf [0, 1] (by decide), secondComes, [], []⟩ :=
    connect_rebuilt ⟨tableOf [0] (by decide), firstComes, [], []⟩ 1 _ rfl (by decide) (by decide)
  exact .tail (.tail (.single (idle_steady rfl first)) (idle_steady rfl second))
    (idle_steady rfl .broadcast)

/-- Left alone, the broadcast reaches both. -/
theorem sample_delivers : ∃ st : State Nat,
    st.broadcasts = [.returned ⟨⟨2, 2⟩, [0, 1], [], [0, 1]⟩] ∧
      ∀ phase ∈ st.broadcasts, Delivers phase := by
  let onSecond : State Nat := { underWay with
    broadcasts := [.sending 1 ⟨⟨2, 2⟩, [0], [], [0, 1]⟩] }
  have first : Step underWay (.sendEnds 0 true) onSecond := send_works 0 _ rfl rfl
  have second : Step onSecond (.sendEnds 0 true) _ := send_works 1 _ rfl rfl
  exact ⟨_, rfl, broadcast_delivers.1 _
    ((under_way_reached.tail (send_steady rfl rfl first)).tail (send_steady rfl rfl second))⟩

theorem under_way_reachable : Reachable underWay :=
  Relation.ReflTransGen.mono (fun _ _ ⟨event, ran, _⟩ => ⟨event, ran⟩) _ _ under_way_reached

/-- If client 2 joins between the two sends, the broadcast raises and 1 gets nothing. If 0
    leaves and 2 joins with the table rebuilt, it returns and 1 still gets nothing. -/
theorem joining_client_loses_frame :
    (∃ st : State Nat, Reachable st ∧ ∃ b, st.broadcasts = [.raised b] ∧
      1 ∈ b.staying ∧ 1 ∉ b.dead ∧ 1 ∉ b.sent) ∧
    ∃ st : State Nat, Reachable st ∧ ∃ b, st.broadcasts = [.returned b] ∧
      1 ∈ b.staying ∧ 1 ∉ b.dead ∧ 1 ∉ b.sent := by
  constructor
  · let three : State Nat := { underWay with
      clients := tableOf [0, 1, 2] (by decide)
      handlers := Function.update secondComes 2 .waiting }
    have joins : Step underWay (.connect 2) three :=
      connect_rebuilt underWay 2 (tableOf [0, 1, 2] (by decide)) rfl (by decide) (by decide)
    have ends : Step three (.sendEnds 0 true) _ := send_works 0 _ rfl rfl
    exact ⟨_, .tail (under_way_reachable.tail ⟨_, joins⟩) ⟨_, ends⟩, _, rfl, by decide⟩
  · let one : State Nat := ⟨(tableOf [0, 1] (by decide)).discard 0,
      Function.update secondComes 0 .ended, [.sending 0 ⟨⟨2, 1⟩, [], [], [1]⟩], []⟩
    let swapped : State Nat := { one with
      clients := tableOf [1, 2] (by decide)
      handlers := Function.update one.handlers 2 .waiting }
    let onThird : State Nat := { swapped with
      broadcasts := [.sending 2 ⟨⟨2, 2⟩, [0], [], [1]⟩] }
    have leaves : Step underWay (.closed 0) one := .closed rfl
    have joins : Step one (.connect 2) swapped :=
      connect_rebuilt one 2 (tableOf [1, 2] (by decide)) rfl (by decide) (by decide)
    have ends : Step swapped (.sendEnds 0 true) onThird := send_works 0 _ rfl rfl
    have returns : Step onThird (.sendEnds 0 true) _ := send_works 2 _ rfl rfl
    exact ⟨_, .tail (.tail (.tail (under_way_reachable.tail ⟨_, leaves⟩) ⟨_, joins⟩) ⟨_, ends⟩)
      ⟨_, returns⟩, _, rfl, by decide⟩

end Sample
end BroadcastDelivery

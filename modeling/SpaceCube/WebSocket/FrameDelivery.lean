import SpaceCube.Orchestrator.StepMachine
import SpaceCube.WebSocket.BroadcastDelivery
import SpaceCube.WebSocket.ClientSet

/- The frames as the clients are sent them. ws_data_sender hands one frame at a time to
   broadcast and waits for it, while the simulation goes on and clients come and go. -/
namespace FrameDelivery
open SetIteration WebSocketServer BroadcastDelivery ClientSet
variable {F C : Type}

/-- calls records every call of send with the number of its frame. -/
structure System (F C : Type) where
  sim : RunSimulation.State F
  ws : WebSocketServer.State C
  calls : List (Nat × C)

def System.initial (C : Type) (particles : List (ParticleMessages.ParticleData F)) :
    System F C :=
  ⟨.initial particles, .initial C, []⟩

/-- The client whose send a broadcast waits for. -/
def callee : BroadcastPhase C → List C
  | .sending client _ => [client]
  | _ => []

def callees (ws : WebSocketServer.State C) (index : Nat) : List C :=
  (ws.broadcasts[index]?.map callee).getD []

/-- The call that broadcast number index makes when it gets to its next await. -/
def newCalls (ws : WebSocketServer.State C) (index : Nat) : List (Nat × C) :=
  (callees ws index).map fun client => (index, client)

/-- What does not come from ws_data_sender. -/
inductive FromClients : Event C → Prop where
  | connect (client : C) : FromClients (.connect client)
  | closed (client : C) : FromClients (.closed client)
  | shutdown : FromClients .shutdown
  | closesEnd (index : Nat) : FromClients (.closesEnd index)

section System
variable [Field F] [DecidableEq C]

/-- broadcast takes its first step with the frame just taken off the queue, and returns or
    raises to ws_data_sender. -/
inductive Step (o : RunSimulation.Orchestrator F) (sys : System F C) : System F C → Prop where
  | simulates {event : RunSimulation.Event} {sim : RunSimulation.State F}
    (apart : event ≠ .senderTake ∧ ∀ raises, event ≠ .broadcastEnds raises)
    (ran : RunSimulation.step o sys.sim event = some sim) : Step o sys { sys with sim := sim }
  | takes {sim : RunSimulation.State F} {ws : WebSocketServer.State C}
    (took : RunSimulation.step o sys.sim .senderTake = some sim)
    (began : WebSocketServer.Step sys.ws .broadcast ws) :
    Step o sys ⟨sim, ws, sys.calls ++ newCalls ws sys.ws.broadcasts.length⟩
  | sends {index : Nat} {works : Bool} {ws : WebSocketServer.State C}
    (latest : index + 1 = sys.ws.broadcasts.length)
    (waits : sys.sim.sender = .broadcasting)
    (sent : WebSocketServer.Step sys.ws (.sendEnds index works) ws) :
    Step o sys ⟨sys.sim, ws, sys.calls ++ newCalls ws index⟩
  | returns {sim : RunSimulation.State F} {b : Broadcast C}
    (latest : sys.ws.broadcasts.getLast? = some (.returned b))
    (ran : RunSimulation.step o sys.sim (.broadcastEnds false) = some sim) :
    Step o sys { sys with sim := sim }
  | raises {sim : RunSimulation.State F} {b : Broadcast C}
    (latest : sys.ws.broadcasts.getLast? = some (.raised b))
    (ran : RunSimulation.step o sys.sim (.broadcastEnds true) = some sim) :
    Step o sys { sys with sim := sim }
  | clients {event : Event C} {ws : WebSocketServer.State C} (their : FromClients event)
    (ran : WebSocketServer.Step sys.ws event ws) : Step o sys { sys with ws := ws }

def Reachable (o : RunSimulation.Orchestrator F)
    (particles : List (ParticleMessages.ParticleData F)) (sys : System F C) : Prop :=
  Relation.ReflTransGen (Step o) (.initial C particles) sys

/-- While a broadcast is under way the set keeps its size and is not rebuilt. -/
def SteadyStep (o : RunSimulation.Orchestrator F) (sys sys' : System F C) : Prop :=
  Step o sys sys' ∧ (sys'.ws = sys.ws ∨ BroadcastDelivery.SteadyStep sys.ws sys'.ws)

end System

section Visits

/-- Whom a broadcast has called send for. -/
def visited : BroadcastPhase C → List C
  | .sending client b => b.sent ++ b.dead ++ [client]
  | .returned b => b.sent ++ b.dead
  | .raised b => b.sent ++ b.dead

def visits (ws : WebSocketServer.State C) : List (List C) := ws.broadcasts.map visited

theorem loop_visited (clients : Table C) (b : Broadcast C) :
    visited (Broadcast.loop clients b) = b.sent ++ b.dead ++ callee (Broadcast.loop clients b) := by
  unfold Broadcast.loop
  cases b.iter.next clients with
  | changed => simp [visited, callee]
  | item client rest => simp [visited, callee]
  | stop => simp [visited, callee]

theorem first_visited (clients : Table C) :
    visited (firstPhase clients) = callee (firstPhase clients) := by
  unfold firstPhase
  split
  · rfl
  · rw [loop_visited]
    rfl

theorem after_send_visited (b : Broadcast C) (client : C) (works : Bool) :
    ((b.afterSend client works).sent ++ (b.afterSend client works).dead).Perm
      (visited (.sending client b)) := by
  cases works with
  | false => simp [Broadcast.afterSend, visited]
  | true =>
    simp only [Broadcast.afterSend, ↓reduceIte, visited, List.append_assoc]
    exact List.Perm.append_left _ List.perm_append_comm

variable [DecidableEq C]

theorem watch_visited (clients : Table C) (phase : BroadcastPhase C) :
    visited (phase.watch clients) = visited phase := by
  cases phase <;> rfl

theorem visits_clients (ws : WebSocketServer.State C) (clients : Table C) :
    visits (ws.withClients clients) = visits ws := by
  simp [visits, State.withClients, watch_visited]

theorem visits_proceed (ws : WebSocketServer.State C) (index : Nat) (phase : BroadcastPhase C) :
    visits (ws.proceed index phase) = (visits ws).set index (visited phase) := by
  unfold State.proceed
  cases phase with
  | sending client b => simp [visits]
  | raised b => simp [visits]
  | returned b =>
    rw [visits_clients]
    simp [visits]

theorem clients_visits {ws ws' : WebSocketServer.State C} {event : Event C}
    (their : FromClients event) (ran : WebSocketServer.Step ws event ws') :
    visits ws' = visits ws ∧ ws'.broadcasts.length = ws.broadcasts.length := by
  cases their with
  | connect client =>
    cases ran
    exact ⟨visits_clients _ _, by simp [State.withClients]⟩
  | closed client =>
    cases ran
    exact ⟨visits_clients _ _, by simp [State.withClients]⟩
  | shutdown =>
    cases ran
    exact ⟨rfl, rfl⟩
  | closesEnd index =>
    cases ran
    exact ⟨visits_clients _ _, by simp [State.withClients]⟩

theorem begun_visits {ws ws' : WebSocketServer.State C}
    (ran : WebSocketServer.Step ws .broadcast ws') :
    visits ws' = visits ws ++ [callees ws' ws.broadcasts.length] ∧
      ws'.broadcasts.length = ws.broadcasts.length + 1 := by
  cases ran
  simp [visits, callees, first_visited]

/-- The broadcast that goes on has been at one client more. -/
theorem sent_visits {ws ws' : WebSocketServer.State C} {index : Nat} {works : Bool}
    (ran : WebSocketServer.Step ws (.sendEnds index works) ws') :
    ∃ before after, (visits ws)[index]? = some before ∧ visits ws' = (visits ws).set index after ∧
      after.Perm (before ++ callees ws' index) ∧
      ws'.broadcasts.length = ws.broadcasts.length := by
  cases ran with
  | @sendEnds _ client b _ here =>
    let phase := Broadcast.loop ws.clients (b.afterSend client works)
    have same := visits_proceed ws index phase
    refine ⟨visited (.sending client b), visited phase, ?_, same, ?_, ?_⟩
    · rw [visits, List.getElem?_map, here, Option.map_some]
    · rw [callees, proceed_here here, Option.map_some, Option.getD_some, loop_visited]
      exact (after_send_visited b client works).append_right _
    · have lengths := congrArg List.length same
      rwa [visits, visits, List.length_set, List.length_map, List.length_map] at lengths

end Visits

section Queue
open RunSimulation
variable [Field F] {o : Orchestrator F} {sim sim' : RunSimulation.State F}

theorem attempt_handed (updates : InsertionDict.Dict PyValue.Key
      (List (ParticleMessages.ParticleData F))) :
    (finishAttempt o sim updates).handed = sim.handed := by
  unfold finishAttempt
  split
  · unfold retryOrAbort
    split <;> rfl
  · dsimp only
    split
    · rfl
    · split <;> rfl

/-- Only ws_data_sender hands a frame over, and it hands over the one it takes. -/
theorem handed_kept {event : RunSimulation.Event} (other : event ≠ .senderTake)
    (ran : RunSimulation.step o sim event = some sim') : sim'.handed = sim.handed := by
  cases step_turn ran with
  | distribute failure here =>
    unfold startAttempt
    split
    · split
      · rfl
      · cases failure <;> rfl
    · rfl
  | @poll c polled result here =>
    cases result with
    | error e => rfl
    | ok batch =>
      simp only [pollOnce]
      cases CollectUpdates.processBatch o.codec sim.currentStep c batch with
      | error e => rfl
      | ok c' =>
        dsimp only
        split
        · exact attempt_handed c'.updates
        · rfl
  | timeUp here => exact attempt_handed _
  | shutdown => rfl
  | sender moved =>
    cases event with
    | senderTake => exact absurd rfl other
    | senderCheck =>
      simp only [senderStep] at moved
      split at moved <;> simp at moved
      rw [← moved]
    | broadcastEnds raises =>
      simp only [senderStep] at moved
      split at moved <;> simp at moved
      rw [← moved]
    | senderWakes =>
      simp only [senderStep] at moved
      split at moved <;> simp at moved
      rw [← moved]
    | senderCancelled =>
      simp only [senderStep] at moved
      split at moved <;> simp at moved <;> rw [← moved]
    | distribute failure => simp [senderStep] at moved
    | poll result => simp [senderStep] at moved
    | timeUp => simp [senderStep] at moved
    | shutdown => simp [senderStep] at moved

theorem handed_taken (ran : RunSimulation.step o sim .senderTake = some sim') :
    ∃ frame, sim'.handed = sim.handed ++ [frame] := by
  simp only [RunSimulation.step, senderStep] at ran
  split at ran
  · rename_i frame rest _ _
    obtain rfl := Option.some.inj ran
    exact ⟨frame, rfl⟩
  · contradiction

end Queue

section Order
variable [Field F] [DecidableEq C]

/-- The clients called for frame k. -/
def calledFor (calls : List (Nat × C)) (k : Nat) : List C :=
  (calls.filter fun call => decide (call.1 = k)).map Prod.snd

omit [DecidableEq C] in
theorem called_append (calls : List (Nat × C)) (ws : WebSocketServer.State C) (index k : Nat) :
    calledFor (calls ++ newCalls ws index) k =
      calledFor calls k ++ if k = index then callees ws index else [] := by
  unfold calledFor newCalls
  rw [List.filter_append, List.map_append, List.filter_map, List.map_map]
  by_cases same : k = index
  · simp [same, Function.comp_def]
  · have other : index ≠ k := fun eq => same eq.symm
    simp [same, other, Function.comp_def]

/-- One broadcast for every frame handed over; the calls follow the frames, and those for a
    frame are to the clients that its broadcast has been at. -/
structure Ordered (sys : System F C) : Prop where
  numbers : sys.ws.broadcasts.length = sys.sim.handed.length
  known : ∀ call ∈ sys.calls, call.1 < sys.ws.broadcasts.length
  order : sys.calls.Pairwise fun a b => a.1 ≤ b.1
  record : ∀ k clients, (visits sys.ws)[k]? = some clients →
    (calledFor sys.calls k).Perm clients

omit [Field F] [DecidableEq C] in
theorem initial_ordered (particles : List (ParticleMessages.ParticleData F)) :
    Ordered (System.initial C particles) where
  numbers := rfl
  known call member := absurd member List.not_mem_nil
  order := List.Pairwise.nil
  record k clients here := by simp [visits, System.initial, State.initial] at here

omit [DecidableEq C] in
/-- Calls for the latest frame go behind the others. -/
theorem new_calls_last {calls : List (Nat × C)} {index : Nat}
    (order : calls.Pairwise fun a b => a.1 ≤ b.1) (known : ∀ call ∈ calls, call.1 ≤ index)
    (ws : WebSocketServer.State C) :
    (calls ++ newCalls ws index).Pairwise (fun a b => a.1 ≤ b.1) ∧
      ∀ call ∈ calls ++ newCalls ws index, call.1 ≤ index := by
  have number : ∀ call ∈ newCalls ws index, call.1 = index := by
    intro call member
    obtain ⟨client, _, rfl⟩ := List.mem_map.mp member
    rfl
  constructor
  · refine List.pairwise_append.mpr ⟨order, ?_, ?_⟩
    · exact List.pairwise_map.mpr (List.pairwise_of_forall fun _ _ => le_rfl)
    · intro call member latest new
      rw [number latest new]
      exact known call member
  · intro call member
    rcases List.mem_append.mp member with old | new
    · exact known call old
    · exact (number call new).le

variable {o : RunSimulation.Orchestrator F} {sys sys' : System F C}

omit [Field F] [DecidableEq C] in
/-- What changes neither the broadcasts' visits nor the frames handed over. -/
theorem same_ordered (ordered : Ordered sys) {sim : RunSimulation.State F}
    {ws : WebSocketServer.State C} (handed : sim.handed = sys.sim.handed)
    (same : visits ws = visits sys.ws)
    (lengths : ws.broadcasts.length = sys.ws.broadcasts.length) :
    Ordered ⟨sim, ws, sys.calls⟩ where
  numbers := by rw [lengths, handed, ordered.numbers]
  known call member := by
    rw [lengths]
    exact ordered.known call member
  order := ordered.order
  record k clients here := ordered.record k clients (same ▸ here)

theorem step_ordered (moved : Step o sys sys') (ordered : Ordered sys) : Ordered sys' := by
  cases moved with
  | simulates apart ran => exact same_ordered ordered (handed_kept apart.1 ran) rfl rfl
  | returns latest ran => exact same_ordered ordered (handed_kept (by simp) ran) rfl rfl
  | raises latest ran => exact same_ordered ordered (handed_kept (by simp) ran) rfl rfl
  | clients their ran =>
    obtain ⟨same, lengths⟩ := clients_visits their ran
    exact same_ordered ordered rfl same lengths
  | takes took began =>
    obtain ⟨frame, handed⟩ := handed_taken took
    obtain ⟨next, longer⟩ := begun_visits began
    obtain ⟨order, known⟩ := new_calls_last ordered.order
      (fun call member => (ordered.known call member).le) _
    have count : (visits sys.ws).length = sys.ws.broadcasts.length := List.length_map _
    refine ⟨?_, fun call member => ?_, order, fun k clients here => ?_⟩
    · rw [longer, handed, ordered.numbers, List.length_append, List.length_singleton]
    · rw [longer]
      exact Nat.lt_succ_of_le (known call member)
    · rw [called_append]
      by_cases latest : k = sys.ws.broadcasts.length
      · have fresh : calledFor sys.calls k = [] := by
          rw [calledFor, List.map_eq_nil_iff, List.filter_eq_nil_iff]
          intro call member
          have below := ordered.known call member
          simp only [decide_eq_true_eq]
          omega
        rw [next, latest, ← count, List.getElem?_concat_length, Option.some.injEq, count] at here
        rw [fresh, if_pos latest, List.nil_append, here]
      · rw [if_neg latest, List.append_nil]
        refine ordered.record k clients ?_
        rw [next] at here
        have below : k < (visits sys.ws).length := by
          have bound := (List.getElem?_eq_some_iff.mp here).1
          rw [List.length_append, List.length_singleton] at bound
          omega
        rwa [List.getElem?_append_left below] at here
  | @sends index works ws latest waits sent =>
    obtain ⟨before, after, had, next, grown, lengths⟩ := sent_visits sent
    obtain ⟨order, known⟩ := new_calls_last ordered.order
      (fun call member => by have below := ordered.known call member; omega : ∀ call ∈ sys.calls,
        call.1 ≤ index) ws
    refine ⟨?_, fun call member => ?_, order, fun k clients here => ?_⟩
    · rw [lengths, ordered.numbers]
    · rw [lengths, ← latest]
      exact Nat.lt_succ_of_le (known call member)
    · rw [called_append]
      by_cases own : k = index
      · subst own
        have below := (List.getElem?_eq_some_iff.mp had).1
        rw [next, List.getElem?_set_self below, Option.some.injEq] at here
        rw [if_pos rfl, ← here]
        exact ((ordered.record k before had).append_right _).trans grown.symm
      · rw [next, List.getElem?_set_ne (fun eq => own eq.symm)] at here
        rw [if_neg own, List.append_nil]
        exact ordered.record k clients here

end Order

section Once

/-- A broadcast under way has been at nobody twice, and those still there it has passed. -/
def OnceFits (ws : WebSocketServer.State C) : BroadcastPhase C → Prop
  | .sending client b => (visited (.sending client b)).Nodup ∧
      ∀ c ∈ visited (.sending client b), ws.handlers c ≠ .outside ∧
        (c ∈ ws.clients → ∃ i < b.iter.pos, ws.clients.slots[i]? = some (some c))
  | ended => (visited ended).Nodup

def AllOnce (ws : WebSocketServer.State C) : Prop := ∀ phase ∈ ws.broadcasts, OnceFits ws phase

theorem once_distinct {ws : WebSocketServer.State C} {phase : BroadcastPhase C}
    (fits : OnceFits ws phase) : (visited phase).Nodup := by
  cases phase with
  | sending client b => exact fits.1
  | returned b => exact fits
  | raised b => exact fits

/-- The set may change if those who stay keep their slots and newcomers are new. -/
theorem once_kept {ws ws' : WebSocketServer.State C} {phase : BroadcastPhase C}
    (fits : OnceFits ws phase)
    (met : ∀ c, ws.handlers c ≠ .outside → ws'.handlers c ≠ .outside)
    (stayed : ∀ client b, phase = .sending client b → ∀ c, ws.handlers c ≠ .outside →
      c ∈ ws'.clients → c ∈ ws.clients ∧ ∀ i : Nat, ws.clients.slots[i]? = some (some c) →
        ws'.clients.slots[i]? = some (some c)) : OnceFits ws' phase := by
  cases phase with
  | returned b => exact fits
  | raised b => exact fits
  | sending client b =>
    obtain ⟨distinct, passed⟩ := fits
    refine ⟨distinct, fun c member => ?_⟩
    obtain ⟨came, behind⟩ := passed c member
    refine ⟨met c came, fun here => ?_⟩
    obtain ⟨before, kept⟩ := stayed client b rfl c came here
    obtain ⟨i, below, held⟩ := behind before
    exact ⟨i, below, kept i held⟩

variable [DecidableEq C]

theorem once_watched {ws : WebSocketServer.State C} {phase : BroadcastPhase C}
    (clients : Table C) (fits : OnceFits ws phase) : OnceFits ws (phase.watch clients) := by
  cases phase <;> exact fits

omit [DecidableEq C] in
/-- The loop goes on to somebody it has not been at. -/
theorem once_loop {ws : WebSocketServer.State C} (entered : Entered ws) {b : Broadcast C}
    (distinct : (b.sent ++ b.dead).Nodup)
    (passed : ∀ c ∈ b.sent ++ b.dead, ws.handlers c ≠ .outside ∧
      (c ∈ ws.clients → ∃ i < b.iter.pos, ws.clients.slots[i]? = some (some c))) :
    OnceFits ws (Broadcast.loop ws.clients b) := by
  unfold Broadcast.loop
  cases next : b.iter.next ws.clients with
  | changed => exact distinct
  | stop => exact distinct
  | item client rest =>
    obtain ⟨k, rfl, held, _⟩ := next_item next
    have here : client ∈ ws.clients := item_mem next
    have fresh : client ∉ b.sent ++ b.dead := by
      intro member
      obtain ⟨i, below, first⟩ := (passed client member).2 here
      have same := slots_unique ws.clients.distinct first held
      omega
    refine ⟨?_, fun c member => ?_⟩
    · exact List.Nodup.append distinct (List.nodup_singleton client)
        (List.disjoint_singleton.mpr fresh)
    · rcases List.mem_append.mp member with old | new
      · obtain ⟨came, behind⟩ := passed c old
        refine ⟨came, fun there => ?_⟩
        obtain ⟨i, below, first⟩ := behind there
        exact ⟨i, by dsimp only; omega, first⟩
      · rw [List.mem_singleton.mp new]
        refine ⟨by simp [entered client here], fun _ => ⟨b.iter.pos + k, ?_, held⟩⟩
        dsimp only
        omega

omit [DecidableEq C] in
theorem once_first {ws : WebSocketServer.State C} (entered : Entered ws) :
    OnceFits ws (firstPhase ws.clients) := by
  unfold firstPhase
  split
  · exact List.nodup_nil
  · exact once_loop entered List.nodup_nil fun c member => absurd member List.not_mem_nil

theorem steady_once {ws ws' : WebSocketServer.State C} (entered : Entered ws)
    (once : AllOnce ws) (moved : BroadcastDelivery.SteadyStep ws ws') : AllOnce ws' := by
  obtain ⟨event, ran, steady⟩ := moved
  cases ran with
  | @connect client clients outside added =>
    intro phase member
    obtain ⟨before, listed, rfl⟩ := List.mem_map.mp member
    refine once_watched _ (once_kept (once before listed) (fun c came => ?_)
      fun other b same c came here => ?_)
    · by_cases new : c = client
      · exact absurd (new ▸ outside) came
      · dsimp only
        rwa [Function.update_of_ne new]
    · have old : c ≠ client := fun new => came (new ▸ outside)
      refine ⟨((mem_added added c).mp here).resolve_left old, fun i held => ?_⟩
      exact steady.kept client rfl other b (same ▸ listed) i c held
  | @closed client waiting =>
    intro phase member
    obtain ⟨before, listed, rfl⟩ := List.mem_map.mp member
    refine once_watched _ (once_kept (once before listed) (fun c came => ?_)
      fun _ _ _ c came here => ?_)
    · dsimp only
      by_cases own : c = client
      · rw [own, Function.update_self]
        split <;> simp
      · rwa [Function.update_of_ne own]
    · obtain ⟨there, other⟩ := (mem_discard ws.clients client c).mp here
      exact ⟨there, fun i held => discard_slot other held⟩
  | broadcast =>
    intro phase member
    rcases List.mem_append.mp member with old | new
    · exact once_kept (once phase old) (fun _ came => came) fun _ _ _ _ _ here =>
        ⟨here, fun _ held => held⟩
    · rw [List.mem_singleton.mp new]
      exact once_first entered
  | @sendEnds index client b works here =>
    obtain ⟨distinct, passed⟩ := once _ (List.mem_of_getElem? here)
    have order := after_send_visited b client works
    have next : OnceFits ws (Broadcast.loop ws.clients (b.afterSend client works)) := by
      refine once_loop entered (order.nodup_iff.mpr distinct) fun c member => ?_
      rw [after_send_iter]
      exact passed c (order.mem_iff.mp member)
    generalize Broadcast.loop ws.clients (b.afterSend client works) = phase at next
    have moved : ∀ other ∈ ws.broadcasts.set index phase, OnceFits ws other := by
      intro other member
      rcases List.mem_or_eq_of_mem_set member with old | rfl
      · exact once other old
      · exact next
    unfold State.proceed
    cases phase with
    | sending client b => exact moved
    | raised b => exact moved
    | returned b =>
      intro other member
      obtain ⟨before, listed, rfl⟩ := List.mem_map.mp member
      refine once_watched _ (once_kept (moved before listed) (fun _ came => came)
        fun _ _ _ c _ here => ?_)
      obtain ⟨there, alive⟩ := (mem_discardAll ws.clients b.dead c).mp here
      exact ⟨there, fun i held => discardAll_slot alive held⟩
  | shutdown => exact once
  | closesEnd here =>
    intro phase member
    obtain ⟨before, listed, rfl⟩ := List.mem_map.mp member
    exact once_watched _ (once_kept (once before listed) (fun _ came => came)
      fun _ _ _ _ _ absent => absurd absent List.not_mem_nil)

end Once

section Runs
variable [Field F] [DecidableEq C] {o : RunSimulation.Orchestrator F}
  {particles : List (ParticleMessages.ParticleData F)} {sys sys' : System F C}

theorem step_simulation (moved : Step o sys sys')
    (reached : RunSimulation.Reachable o particles sys.sim) :
    RunSimulation.Reachable o particles sys'.sim := by
  cases moved with
  | simulates apart ran => exact RunSimulation.reachable_step reached ran
  | takes took began => exact RunSimulation.reachable_step reached took
  | sends latest waits sent => exact reached
  | returns latest ran => exact RunSimulation.reachable_step reached ran
  | raises latest ran => exact RunSimulation.reachable_step reached ran
  | clients their ran => exact reached

theorem run_ordered (reached : Reachable o particles sys) :
    RunSimulation.Reachable o particles sys.sim ∧ Ordered sys := by
  induction reached with
  | refl => exact ⟨⟨[], rfl⟩, initial_ordered particles⟩
  | tail _ moved ih => exact ⟨step_simulation moved ih.1, step_ordered moved ih.2⟩

/-- A call is for a frame that was handed over, the one built for the step of its number. -/
theorem call_framed (reached : Reachable o particles sys) {k : Nat} {client : C}
    (called : (k, client) ∈ sys.calls) : ∃ merged frame, sys.sim.merges[k]? = some merged ∧
      sys.sim.handed[k]? = some frame ∧
      MergeAndFrame.buildFrameData o.dt merged k = .ok frame := by
  obtain ⟨simulated, ordered⟩ := run_ordered reached
  have history := StepMachine.history_reachable simulated
  have below : k < sys.sim.handed.length := ordered.numbers ▸ ordered.known _ called
  have produced : k < sys.sim.currentStep := by
    rw [← history.frames, ← history.queue, List.length_append]
    omega
  obtain ⟨merged, frame, merge, shown, _, built⟩ := history.framed k produced
  rw [← history.queue, List.getElem?_append_left below] at shown
  exact ⟨merged, frame, merge, shown, built⟩

omit [Field F] [DecidableEq C] in
theorem calls_distinct {calls : List (Nat × C)} (distinct : ∀ k, (calledFor calls k).Nodup) :
    calls.Nodup := by
  induction calls with
  | nil => exact List.nodup_nil
  | cons call rest ih =>
    have own : calledFor (call :: rest) call.1 = call.2 :: calledFor rest call.1 := by
      simp [calledFor]
    have first := distinct call.1
    rw [own] at first
    refine List.nodup_cons.mpr ⟨fun member => ?_, ih fun k => ?_⟩
    · apply (List.nodup_cons.mp first).1
      exact List.mem_map.mpr ⟨call, List.mem_filter.mpr ⟨member, by simp⟩, rfl⟩
    · have sub : (calledFor rest k).Sublist (calledFor (call :: rest) k) :=
        ((List.sublist_cons_self call rest).filter _).map _
      exact (distinct k).sublist sub

omit [Field F] [DecidableEq C] in
theorem called_mem {calls : List (Nat × C)} {k : Nat} {client : C}
    (member : client ∈ calledFor calls k) : (k, client) ∈ calls := by
  obtain ⟨call, kept, rfl⟩ := List.mem_map.mp member
  obtain ⟨listed, same⟩ := List.mem_filter.mp kept
  rwa [← of_decide_eq_true same]

theorem run_steady (ran : Relation.ReflTransGen (SteadyStep o) (.initial C particles) sys) :
    Reachable o particles sys ∧ Entered sys.ws ∧ AllOnce sys.ws ∧ AllFit sys.ws := by
  induction ran with
  | refl =>
    exact ⟨.refl, entered_initial, fun _ member => absurd member List.not_mem_nil,
      fun _ member => absurd member List.not_mem_nil⟩
  | tail _ moved ih =>
    obtain ⟨reached, entered, once, fit⟩ := ih
    obtain ⟨step, same | steady⟩ := moved
    · rw [same]
      exact ⟨reached.tail step, entered, once, fit⟩
    · obtain ⟨event, ran, _⟩ := id steady
      exact ⟨reached.tail step, entered_step ran entered, steady_once entered once steady,
        steady_step fit steady⟩

/-- Clients are sent frames in the order of the steps, each frame as it was built for its step.
    Along steady runs no frame goes to a client twice, no broadcast raises, and one that
    has returned has called send for all who stayed. -/
theorem frames_delivered (o : RunSimulation.Orchestrator F)
    (particles : List (ParticleMessages.ParticleData F)) (sys : System F C) :
    (Reachable o particles sys →
      sys.calls.Pairwise (fun a b => a.1 ≤ b.1) ∧
      ∀ k client, (k, client) ∈ sys.calls → ∃ merged frame, sys.sim.merges[k]? = some merged ∧
        sys.sim.handed[k]? = some frame ∧
        MergeAndFrame.buildFrameData o.dt merged k = .ok frame) ∧
    (Relation.ReflTransGen (SteadyStep o) (.initial C particles) sys →
      sys.calls.Nodup ∧ (∀ b, .raised b ∉ sys.ws.broadcasts) ∧
      ∀ (k : Nat) b, sys.ws.broadcasts[k]? = some (.returned b) →
        ∀ client ∈ b.staying, (k, client) ∈ sys.calls) := by
  refine ⟨fun reached => ⟨(run_ordered reached).2.order, fun k client called => ?_⟩,
    fun ran => ?_⟩
  · exact call_framed reached called
  · obtain ⟨reached, _, once, fit⟩ := run_steady ran
    have ordered := (run_ordered reached).2
    refine ⟨calls_distinct fun k => ?_, fun b member => fits_delivers (fit _ member), ?_⟩
    · cases here : sys.ws.broadcasts[k]? with
      | some phase =>
        have listed : (visits sys.ws)[k]? = some (visited phase) := by
          rw [visits, List.getElem?_map, here, Option.map_some]
        have distinct := once_distinct (once phase (List.mem_of_getElem? here))
        exact (ordered.record k _ listed).nodup_iff.mpr distinct
      | none =>
        have beyond : calledFor sys.calls k = [] := by
          rw [calledFor, List.map_eq_nil_iff, List.filter_eq_nil_iff]
          intro call member
          have below := ordered.known call member
          have outside := List.getElem?_eq_none_iff.mp here
          simp only [decide_eq_true_eq]
          omega
        rw [beyond]
        exact List.nodup_nil
    · intro k b here client stayed
      have listed : (visits sys.ws)[k]? = some (b.sent ++ b.dead) := by
        rw [visits, List.getElem?_map, here, Option.map_some, visited]
      have delivers : Delivers (.returned b) := fits_delivers (fit _ (List.mem_of_getElem? here))
      apply called_mem
      rw [(ordered.record k _ listed).mem_iff, List.mem_append]
      by_cases alive : client ∈ b.dead
      · exact Or.inr alive
      · exact Or.inl (delivers client stayed alive)

end Runs

section Sample
open AttemptCollection ReassemblyRoundTrip RunSimulation

def firstHere : WebSocketServer.State Nat := ⟨tableOf [0] (by decide), firstComes, [], []⟩

/-- A broadcast to client 0 alone. -/
def sendingFirst : WebSocketServer.State Nat :=
  { firstHere with broadcasts := [.sending 0 ⟨⟨1, 1⟩, [], [], [0]⟩] }

def sentFirst : WebSocketServer.State Nat :=
  { firstHere with broadcasts := [.returned ⟨⟨1, 1⟩, [0], [], [0]⟩] }

theorem quiet_step {sim sim' : RunSimulation.State Rat} {event : RunSimulation.Event}
    (ws : WebSocketServer.State Nat)
    (apart : event ≠ .senderTake ∧ ∀ raises, event ≠ .broadcastEnds raises)
    (ran : RunSimulation.step sampleOrchestrator sim event = some sim') :
    SteadyStep sampleOrchestrator (⟨sim, ws, []⟩ : System Rat Nat) ⟨sim', ws, []⟩ :=
  ⟨.simulates apart ran, Or.inl rfl⟩

/-- Client 0 comes, and the first frame is sent to it. -/
theorem sample_delivered : ∃ sys : System Rat Nat,
    sys.ws = sentFirst ∧ sys.calls = [(0, 0)] ∧ sys.calls.Nodup ∧
    ∃ merged frame, sys.sim.merges[0]? = some merged ∧ sys.sim.handed[0]? = some frame ∧
      MergeAndFrame.buildFrameData sampleOrchestrator.dt merged 0 = .ok frame := by
  obtain ⟨merged, frame, advances⟩ := sample_advances
  have comes : WebSocketServer.Step (.initial Nat) (.connect 0) firstHere :=
    connect_rebuilt (.initial Nat) 0 _ rfl (by decide) (by decide)
  have begins : WebSocketServer.Step firstHere .broadcast sendingFirst := .broadcast
  have ends : WebSocketServer.Step sendingFirst (.sendEnds 0 true) sentFirst :=
    send_works 0 _ rfl rfl
  have distributes : RunSimulation.step sampleOrchestrator (.initial [sampleParticle])
      (.distribute none) = some sampleCollecting := rfl
  have connected : SteadyStep sampleOrchestrator (.initial Nat [sampleParticle])
      ⟨.initial [sampleParticle], firstHere, []⟩ :=
    ⟨.clients (.connect 0) comes, Or.inr (idle_steady rfl comes)⟩
  let made := advance { sampleCollecting with retryCount := 0 } merged frame
  let handing : RunSimulation.State Rat :=
    { made with wsQueue := [], handed := [frame], sender := .broadcasting }
  have checks : RunSimulation.step sampleOrchestrator made .senderCheck =
      some { made with sender := .waiting } := rfl
  have took : RunSimulation.step sampleOrchestrator { made with sender := .waiting } .senderTake =
      some handing := rfl
  have begun : SteadyStep sampleOrchestrator
      (⟨{ made with sender := .waiting }, firstHere, []⟩ : System Rat Nat)
      ⟨handing, sendingFirst, [(0, 0)]⟩ := ⟨.takes took begins, Or.inr (idle_steady rfl begins)⟩
  have goes : Step sampleOrchestrator (⟨handing, sendingFirst, [(0, 0)]⟩ : System Rat Nat)
      ⟨handing, sentFirst, [(0, 0)] ++ newCalls sentFirst 0⟩ := .sends rfl rfl ends
  have ended : SteadyStep sampleOrchestrator
      (⟨handing, sendingFirst, [(0, 0)]⟩ : System Rat Nat) ⟨handing, sentFirst, [(0, 0)]⟩ :=
    ⟨goes, Or.inr (send_steady rfl rfl ends)⟩
  have ran := ((((Relation.ReflTransGen.single connected).tail
    (quiet_step firstHere (by simp) distributes)).tail
    (quiet_step firstHere (by simp) advances)).tail
    (quiet_step firstHere (by simp) checks)).tail begun |>.tail ended
  obtain ⟨framed, steady⟩ := frames_delivered sampleOrchestrator [sampleParticle]
    (⟨handing, sentFirst, [(0, 0)]⟩ : System Rat Nat)
  have shown := (framed (run_steady ran).1).2 0 0 (List.mem_singleton_self _)
  exact ⟨_, rfl, rfl, (steady ran).1, shown⟩

end Sample
end FrameDelivery

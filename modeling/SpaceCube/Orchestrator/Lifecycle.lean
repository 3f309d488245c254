import SpaceCube.Orchestrator.RunSimulation

/- Orchestrator.run around run_simulation, and the task of the socket server beside it. An
   event is what one task does up to its next await; the other tasks go on, and a signal or
   a cancellation is noticed, only while run waits. -/
namespace Lifecycle
open ParticleMessages
variable {F : Type}

inductive Ending where
  | returned
  | raised
  | cancelled
  deriving DecidableEq

/-- Where run is. A cancellation that came before the finally clause is raised again
    after it. -/
inductive Main where
  | purging
  | settling
  | delivering
  | simulating
  | stopping (cancelled : Bool)
  | joining (cancelled : Bool)
  | finished (ending : Ending)
  deriving DecidableEq

/-- The task of run_server; closed is its way out after _stop was set. -/
inductive ServerTask where
  | absent
  | starting
  | serving
  | closing
  | closed
  | failed
  | cancelled
  deriving DecidableEq

/-- stop is _stop of the server that run creates. -/
structure State (F : Type) where
  main : Main
  simulation : Option (RunSimulation.State F)
  server : ServerTask
  stop : Bool
  consumerClosed : Bool
  producerClosed : Bool

def State.initial : State F := ⟨.purging, none, .absent, false, false, false⟩

/-- self.running is False until run_simulation sets it. -/
def State.running (st : State F) : Bool := st.simulation.any RunSimulation.State.running

inductive Event where
  | purged (closeRaises : Bool)
  | settled (raises : Bool)
  | delivered (raises : Bool)
  | simulation (event : RunSimulation.Event)
  | cancelled
  | shutdownEnds (raises : Bool)
  | joined
  | signal
  | serverStarts
  | serverFails
  | serverStops
  | serverCloses
  | serverCancels

/-- _collect_updates sleeps after every poll that leaves it incomplete. -/
def betweenPolls : RunSimulation.Phase F → Bool
  | .collecting _ (_ :: _) => true
  | _ => false

def State.waits (st : State F) : Bool :=
  match st.main with
  | .finished _ => false
  | .simulating => st.simulation.any fun sim => betweenPolls sim.phase
  | _ => true

def ofRun : RunSimulation.Event → Bool
  | .distribute _ | .poll _ | .timeUp => true
  | _ => false

/-- Nothing cancels the sender before run has finished. -/
def ofSender : RunSimulation.Event → Bool
  | .senderCheck | .senderTake | .broadcastEnds _ | .senderWakes => true
  | _ => false

/-- Every way out of its loop ends run_simulation without an exception. -/
def afterTurn : RunSimulation.Phase F → Main
  | .left _ => .stopping false
  | _ => .simulating

/-- A cancellation while the finally clause waits ends run at once, and one during the purge
    finds a server that has never run. -/
def cancelledAt : Main → Main
  | .settling | .delivering | .simulating => .stopping true
  | _ => .finished .cancelled

def serverTurn (st : State F) (ready : Bool) (next : ServerTask) : Option (State F) :=
  if st.waits && ready then some { st with server := next } else none

section Steps
variable [Field F]

def simulate (o : RunSimulation.Orchestrator F) (st : State F) (event : RunSimulation.Event) :
    Option (State F) :=
  match st.simulation with
  | none => none
  | some sim =>
    if ofRun event ∧ st.main = .simulating then
      (RunSimulation.step o sim event).map fun sim' =>
        { st with simulation := some sim', main := afterTurn sim'.phase }
    else if ofSender event ∧ st.waits then
      (RunSimulation.step o sim event).map fun sim' => { st with simulation := some sim' }
    else none

/-- The server that exists during the purge belongs to another event loop, so that a signal
    then sets nothing. -/
def step (o : RunSimulation.Orchestrator F) (particles : List (ParticleData F)) (st : State F) :
    Event → Option (State F)
  | .purged closeRaises => match st.main with
    | .purging =>
      if closeRaises then some { st with main := .finished .returned }
      else some { st with main := .settling, server := .starting }
    | _ => none
  | .settled raises => match st.main with
    | .settling => some { st with main := if raises then .stopping false else .delivering }
    | _ => none
  | .delivered raises => match st.main with
    | .delivering =>
      if raises then some { st with main := .stopping false }
      else some { st with main := .simulating, simulation := some (.initial particles) }
    | _ => none
  | .simulation event => simulate o st event
  | .cancelled => if st.waits then some { st with main := cancelledAt st.main } else none
  | .shutdownEnds raises => match st.main with
    | .stopping cancelled =>
      some { st with main := if raises then .finished .raised else .joining cancelled }
    | _ => none
  -- server_task has been cancelled, unless it was done
  | .joined => match st.main, st.server with
    | .joining cancelled, .closed =>
      some { st with main := .finished (if cancelled then .cancelled else .returned) }
    | .joining _, .failed => some { st with main := .finished .raised }
    | .joining _, .cancelled => some { st with main := .finished .cancelled }
    | _, _ => none
  | .signal =>
    if st.waits then some { st with stop := st.stop || st.server ≠ .absent } else none
  | .serverStarts => serverTurn st (st.server = .starting) .serving
  | .serverFails => serverTurn st (st.server = .starting ∨ st.server = .closing) .failed
  | .serverStops => match st.main with
    | .joining _ => none
    | _ => serverTurn st (st.server = .serving ∧ st.stop) .closing
  | .serverCloses => match st.main with
    | .joining _ => none
    | _ => serverTurn st (st.server = .closing) .closed
  | .serverCancels => match st.main with
    | .joining _ =>
      serverTurn st (st.server = .starting ∨ st.server = .serving ∨ st.server = .closing)
        .cancelled
    | _ => none

def Reachable (o : RunSimulation.Orchestrator F) (particles : List (ParticleData F))
    (st : State F) : Prop :=
  ∃ events, Runs.run (step o particles) .initial events = some st

end Steps

/-- What a server task that has come past _stop goes through. -/
def ServerTask.stopped : ServerTask → Bool
  | .closing | .closed => true
  | _ => false

/-- run has not come to run_simulation yet. -/
def Main.before : Main → Bool
  | .purging | .settling | .delivering => true
  | _ => false

/-- run is in its finally clause or has finished. -/
def Main.past : Main → Bool
  | .stopping _ | .joining _ | .finished _ => true
  | _ => false

theorem before_not_past {main : Main} (before : main.before) : ¬ main.past := by
  cases main <;> simp_all [Main.before, Main.past]

variable [Field F]

/-- What a step does to the simulation. -/
inductive StepCase (o : RunSimulation.Orchestrator F) (particles : List (ParticleData F))
    (st : State F) : State F → Prop where
  | aside (main : Main) (server : ServerTask) (stop : Bool)
    (way : main = st.main ∨ st.main.before ∧ main.before ∨ main.past)
    (set : st.stop → stop) (told : server.stopped → st.server.stopped ∨ st.stop) :
    StepCase o particles st { st with main := main, server := server, stop := stop }
  | enters (here : st.main = .delivering) :
    StepCase o particles st
      { st with main := .simulating, simulation := some (.initial particles) }
  | turns {sim sim' : RunSimulation.State F} {event : RunSimulation.Event}
    (here : st.main = .simulating) (under : st.simulation = some sim) (own : ofRun event)
    (ran : RunSimulation.step o sim event = some sim') :
    StepCase o particles st { st with simulation := some sim', main := afterTurn sim'.phase }
  | sends {sim sim' : RunSimulation.State F} {event : RunSimulation.Event}
    (under : st.simulation = some sim) (other : ofSender event)
    (ran : RunSimulation.step o sim event = some sim') :
    StepCase o particles st { st with simulation := some sim' }

theorem server_cases {o : RunSimulation.Orchestrator F} {particles : List (ParticleData F)}
    {st st' : State F} {ready : Bool} {next : ServerTask}
    (ran : serverTurn st ready next = some st')
    (told : ready → next.stopped → st.server.stopped ∨ st.stop) : StepCase o particles st st' := by
  unfold serverTurn at ran
  split at ran
  · rename_i both
    obtain rfl := Option.some.inj ran
    exact .aside st.main next st.stop (Or.inl rfl) id (told (Bool.and_eq_true_iff.mp both).2)
  · contradiction

theorem simulate_cases {o : RunSimulation.Orchestrator F} {particles : List (ParticleData F)}
    {st st' : State F} {event : RunSimulation.Event} (ran : simulate o st event = some st') :
    StepCase o particles st st' := by
  unfold simulate at ran
  split at ran
  · contradiction
  · rename_i sim under
    split at ran
    · rename_i own
      obtain ⟨sim', moved, rfl⟩ := Option.map_eq_some_iff.mp ran
      exact .turns own.2 under own.1 moved
    · split at ran
      · rename_i other
        obtain ⟨sim', moved, rfl⟩ := Option.map_eq_some_iff.mp ran
        exact .sends under other.1 moved
      · contradiction

theorem step_cases {o : RunSimulation.Orchestrator F} {particles : List (ParticleData F)}
    {st st' : State F} {event : Event} (ran : step o particles st event = some st') :
    StepCase o particles st st' := by
  cases event with
  | purged closeRaises =>
    simp only [step] at ran
    split at ran
    · rename_i here
      split at ran
      · obtain rfl := Option.some.inj ran
        exact .aside _ _ _ (Or.inr (Or.inr rfl)) id Or.inl
      · obtain rfl := Option.some.inj ran
        exact .aside _ _ _ (Or.inr (Or.inl ⟨by rw [here]; rfl, rfl⟩)) id fun starting =>
          absurd starting (by decide)
    · contradiction
  | settled raises =>
    simp only [step] at ran
    split at ran
    · rename_i here
      obtain rfl := Option.some.inj ran
      cases raises with
      | true => exact .aside _ _ _ (Or.inr (Or.inr rfl)) id Or.inl
      | false => exact .aside _ _ _ (Or.inr (Or.inl ⟨by rw [here]; rfl, rfl⟩)) id Or.inl
    · contradiction
  | delivered raises =>
    simp only [step] at ran
    split at ran
    · rename_i here
      split at ran
      · obtain rfl := Option.some.inj ran
        exact .aside _ _ _ (Or.inr (Or.inr rfl)) id Or.inl
      · obtain rfl := Option.some.inj ran
        exact .enters here
    · contradiction
  | simulation event => exact simulate_cases ran
  | cancelled =>
    simp only [step] at ran
    split at ran
    · obtain rfl := Option.some.inj ran
      refine .aside _ _ _ (Or.inr (Or.inr ?_)) id Or.inl
      unfold cancelledAt
      split <;> rfl
    · contradiction
  | shutdownEnds raises =>
    simp only [step] at ran
    split at ran
    · obtain rfl := Option.some.inj ran
      refine .aside _ _ _ (Or.inr (Or.inr ?_)) id Or.inl
      split <;> rfl
    · contradiction
  | joined =>
    simp only [step] at ran
    split at ran
    · obtain rfl := Option.some.inj ran
      exact .aside _ _ _ (Or.inr (Or.inr rfl)) id Or.inl
    · obtain rfl := Option.some.inj ran
      exact .aside _ _ _ (Or.inr (Or.inr rfl)) id Or.inl
    · obtain rfl := Option.some.inj ran
      exact .aside _ _ _ (Or.inr (Or.inr rfl)) id Or.inl
    · contradiction
  | signal =>
    simp only [step] at ran
    split at ran
    · obtain rfl := Option.some.inj ran
      exact .aside _ _ _ (Or.inl rfl) (fun set => by simp [set]) Or.inl
    · contradiction
  | serverStarts | serverFails =>
    exact server_cases ran fun _ stopped => absurd stopped (by decide)
  | serverStops =>
    simp only [step] at ran
    split at ran
    · contradiction
    · exact server_cases ran fun ready _ => Or.inr (of_decide_eq_true ready).2
  | serverCloses =>
    simp only [step] at ran
    split at ran
    · contradiction
    · exact server_cases ran fun ready _ => Or.inl (by rw [of_decide_eq_true ready]; rfl)
  | serverCancels =>
    simp only [step] at ran
    split at ran
    · exact server_cases ran fun _ stopped => absurd stopped (by decide)
    · contradiction

/-- The loop itself neither clears running nor ends its sender. -/
structure TasksKept (sim sim' : RunSimulation.State F) : Prop where
  running : sim'.running = sim.running
  sender : sim'.sender = sim.sender

section Loop
open RunSimulation

omit [Field F] in
theorem start_kept (sim : RunSimulation.State F) (failure : Option Interruption) :
    TasksKept sim (startAttempt sim failure) := by
  unfold startAttempt
  split
  · split
    · exact ⟨rfl, rfl⟩
    · cases failure <;> exact ⟨rfl, rfl⟩
  · exact ⟨rfl, rfl⟩

theorem finish_kept (o : Orchestrator F) (sim : RunSimulation.State F)
    (updates : InsertionDict.Dict PyValue.Key (List (ParticleData F))) :
    TasksKept sim (finishAttempt o sim updates) := by
  unfold finishAttempt
  split
  · unfold retryOrAbort
    dsimp only
    split <;> exact ⟨rfl, rfl⟩
  · dsimp only
    split
    · exact ⟨rfl, rfl⟩
    · split <;> exact ⟨rfl, rfl⟩

theorem turn_kept {o : Orchestrator F} {sim sim' : RunSimulation.State F}
    {event : RunSimulation.Event} (own : ofRun event)
    (ran : RunSimulation.step o sim event = some sim') : TasksKept sim sim' := by
  cases step_turn ran with
  | distribute failure here => exact start_kept sim failure
  | @poll c polled result here =>
    cases result with
    | error e => exact ⟨rfl, rfl⟩
    | ok batch =>
      simp only [pollOnce]
      split
      · exact ⟨rfl, rfl⟩
      · split
        · exact finish_kept o sim _
        · exact ⟨rfl, rfl⟩
  | timeUp here => exact finish_kept o sim _
  | shutdown => contradiction
  | sender moved => cases event <;> contradiction

omit [Field F] in
/-- While running is set the sender does not end. -/
theorem sender_stays {sim sim' : RunSimulation.State F} {event : RunSimulation.Event}
    (other : ofSender event) (ran : senderStep sim event = some sim')
    (running : sim.running = true) : sim'.sender ≠ .ended := by
  cases event with
  | distribute | poll | timeUp | shutdown | senderCancelled => contradiction
  | senderCheck =>
    simp only [senderStep] at ran
    split at ran
    · obtain rfl := Option.some.inj ran
      simp [running]
    · contradiction
  | broadcastEnds raises =>
    simp only [senderStep] at ran
    split at ran
    · obtain rfl := Option.some.inj ran
      cases raises <;> simp
    · contradiction
  | senderTake | senderWakes =>
    simp only [senderStep] at ran
    split at ran
    · obtain rfl := Option.some.inj ran
      simp
    · contradiction

/-- What ws_data_sender leaves alone. -/
structure LoopKept (sim sim' : RunSimulation.State F) : Prop where
  running : sim'.running = sim.running
  phase : sim'.phase = sim.phase
  retryCount : sim'.retryCount = sim.retryCount
  currentStep : sim'.currentStep = sim.currentStep
  distributed : sim'.distributed = sim.distributed

omit [Field F] in
theorem sends_kept {sim sim' : RunSimulation.State F} {event : RunSimulation.Event}
    (ran : senderStep sim event = some sim') : LoopKept sim sim' := by
  rcases sender_moves ran with ⟨_, rfl⟩ | ⟨_, _, _, rfl⟩
  · exact ⟨rfl, rfl, rfl, rfl, rfl⟩
  · exact ⟨rfl, rfl, rfl, rfl, rfl⟩

theorem sender_turn (o : Orchestrator F) (sim : RunSimulation.State F)
    {event : RunSimulation.Event} (other : ofSender event) :
    RunSimulation.step o sim event = senderStep sim event := by
  cases event with
  | distribute | poll | timeUp | shutdown | senderCancelled => contradiction
  | senderCheck | senderTake | broadcastEnds | senderWakes => rfl

end Loop

/-- What holds throughout: the simulation is one of run_simulation's own runs, nobody has
    cleared running or ended the sender, the Kafka clients are open, and the server has come
    past _stop only after a signal. -/
structure Sound (o : RunSimulation.Orchestrator F) (particles : List (ParticleData F))
    (st : State F) : Prop where
  entered : ∀ sim, st.simulation = some sim → RunSimulation.Reachable o particles sim ∧
    sim.running = true ∧ sim.sender ≠ .ended
  inside : st.main = .simulating →
    ∃ sim, st.simulation = some sim ∧ ∀ exit, sim.phase ≠ .left exit
  absent : st.main.before → st.simulation = none
  consumer : st.consumerClosed = false
  producer : st.producerClosed = false
  signalled : st.server.stopped → st.stop = true

theorem sound_initial (o : RunSimulation.Orchestrator F) (particles : List (ParticleData F)) :
    Sound o particles .initial where
  entered := by simp [State.initial]
  inside := by simp [State.initial]
  absent := fun _ => rfl
  consumer := rfl
  producer := rfl
  signalled := fun stopped => absurd stopped (by simp [State.initial, ServerTask.stopped])

theorem sound_step {o : RunSimulation.Orchestrator F} {particles : List (ParticleData F)}
    {st st' : State F} (ran : StepCase o particles st st') (inv : Sound o particles st) :
    Sound o particles st' := by
  cases ran with
  | aside main server stop way set told =>
    refine ⟨inv.entered, fun inside => ?_, fun before => ?_, inv.consumer, inv.producer,
      fun stopped => set ((told stopped).elim inv.signalled id)⟩
    · obtain rfl : main = .simulating := inside
      rcases way with same | early | past
      · exact inv.inside same.symm
      · exact absurd early.2 (by decide)
      · exact absurd past (by decide)
    · rcases way with same | early | past
      · exact inv.absent (same ▸ before)
      · exact inv.absent early.1
      · exact absurd past (before_not_past before)
  | enters here =>
    refine ⟨?_, fun _ => ⟨_, rfl, by simp [RunSimulation.State.initial]⟩,
      fun before => absurd before (by decide : ¬ Main.before .simulating), inv.consumer,
      inv.producer, inv.signalled⟩
    intro sim under
    obtain rfl := Option.some.inj under
    exact ⟨⟨[], rfl⟩, rfl, by simp [RunSimulation.State.initial]⟩
  | @turns sim sim' event here under own ran =>
    obtain ⟨reached, running, live⟩ := inv.entered sim under
    have kept := turn_kept own ran
    refine ⟨?_, fun inside => ⟨sim', rfl, fun exit left => ?_⟩, fun before => ?_, inv.consumer,
      inv.producer, inv.signalled⟩
    · intro sim'' same
      obtain rfl := Option.some.inj same
      exact ⟨RunSimulation.reachable_step reached ran, kept.running.trans running,
        fun ended => live (kept.sender ▸ ended)⟩
    · simp [left, afterTurn] at inside
    · dsimp only at before
      unfold afterTurn at before
      split at before <;> contradiction
  | @sends sim sim' event under other ran =>
    obtain ⟨reached, running, live⟩ := inv.entered sim under
    have moved := (sender_turn o sim other).symm.trans ran
    have kept := sends_kept moved
    refine ⟨?_, fun inside => ⟨sim', rfl, ?_⟩, fun before => ?_, inv.consumer, inv.producer,
      inv.signalled⟩
    · intro sim'' same
      obtain rfl := Option.some.inj same
      exact ⟨RunSimulation.reachable_step reached ran, kept.running.trans running,
        sender_stays other moved running⟩
    · obtain ⟨old, was, loops⟩ := inv.inside inside
      obtain rfl := Option.some.inj (under.symm.trans was)
      rw [kept.phase]
      exact loops
    · exact absurd (under.symm.trans (inv.absent before)) (by simp)

theorem sound_reachable {o : RunSimulation.Orchestrator F} {particles : List (ParticleData F)}
    {st : State F} (reached : Reachable o particles st) : Sound o particles st := by
  obtain ⟨events, ran⟩ := reached
  exact Runs.run_invariant (Sound o particles)
    (fun _ _ _ moved inv => sound_step (step_cases moved) inv) (sound_initial o particles) ran

end Lifecycle

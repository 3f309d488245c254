import SpaceCube.Library.Runs
import SpaceCube.Orchestrator.CollectUpdates
import SpaceCube.Orchestrator.MergeAndFrame

/- run_simulation and ws_data_sender as one machine. Between two awaits a task runs alone,
   so an event is what one task does up to its next await. What the environment decides
   (polls, the clock, failures, who runs next) is in the event. -/
namespace RunSimulation
open InsertionDict PyValue ParticleMessages CollectUpdates WorkerBounds MergeAndFrame
variable {F : Type}

/-- root is the cube root of num_workers as the code rounds it up. -/
structure Orchestrator (F : Type) [Field F] where
  codec : Codec F
  numWorkers : Nat
  boxSize : F
  root : Nat
  grid : GridManager F
  dt : Rat
  workers : 1 ≤ numWorkers
  rounded : 1 ≤ root
  built : GridManager.init boxSize numWorkers root = .ok grid

def maxRetries : Nat := 10

inductive Exit where
  | stopped
  | retryLimit
  | raised (e : PyErr)

inductive Phase (F : Type) where
  | head
  | collecting (collector : Collector F) (polled : List Batch)
  | left (exit : Exit)

inductive SenderPhase where
  | head
  | waiting
  | broadcasting
  | pausing
  | ended

inductive Outcome where
  | completed
  | incomplete
  | raised
  deriving DecidableEq

/-- A distribution that raises, after some of its sends or at an acknowledgement. -/
structure Interruption where
  sends : Nat
  error : PyErr

/-- The last six fields record what has happened: distributions begun, the sends of one that
    raised, attempts ended with their step, lists merged, frames put on the queue and frames
    handed to broadcast. -/
structure State (F : Type) where
  running : Bool
  particles : List (ParticleData F)
  currentStep : Nat
  retryCount : Nat
  wsQueue : List (Frame F)
  phase : Phase F
  sender : SenderPhase
  distributed : List (Nat × List (ParticleData F))
  interrupted : Option Nat
  attempts : List (Nat × Outcome)
  merges : List (List (ParticleData F))
  produced : List (Frame F)
  handed : List (Frame F)

def State.initial (particles : List (ParticleData F)) : State F where
  running := true
  particles := particles
  currentStep := 0
  retryCount := 0
  wsQueue := []
  phase := .head
  sender := .head
  distributed := []
  interrupted := none
  attempts := []
  merges := []
  produced := []
  handed := []

inductive Event where
  | distribute (failure : Option Interruption)
  | poll (result : Except PyErr Batch)
  | timeUp
  | shutdown
  | senderCheck
  | senderTake
  | broadcastEnds (raises : Bool)
  | senderWakes
  | senderCancelled

def raise (st : State F) (e : PyErr) : State F :=
  { st with phase := .left (.raised e), attempts := st.attempts ++ [(st.currentStep, .raised)] }

/-- The head of the loop: the test of running, the distribution of a non-empty list, and
    the start of the collection. -/
def startAttempt (st : State F) (failure : Option Interruption) : State F :=
  if st.running then
    if st.particles.isEmpty then { st with phase := .collecting .fresh [] }
    else
      let sent : State F :=
        { st with distributed := st.distributed ++ [(st.currentStep, st.particles)] }
      match failure with
      | some cut => raise { sent with interrupted := some cut.sends } cut.error
      | none => { sent with phase := .collecting .fresh [] }
  else { st with phase := .left .stopped }

def retryOrAbort (st : State F) : State F :=
  let ended : State F := { st with attempts := st.attempts ++ [(st.currentStep, .incomplete)] }
  if st.retryCount < maxRetries then
    { ended with retryCount := st.retryCount + 1, phase := .head }
  else { ended with phase := .left .retryLimit }

def advance (st : State F) (merged : List (ParticleData F)) (frame : Frame F) : State F :=
  { st with
    wsQueue := st.wsQueue ++ [frame]
    particles := merged
    currentStep := st.currentStep + 1
    phase := .head
    attempts := st.attempts ++ [(st.currentStep, .completed)]
    merges := st.merges ++ [merged]
    produced := st.produced ++ [frame] }

/-- Taking a frame off the queue and calling broadcast with it is one step: nothing is
    awaited in between. -/
def senderStep (st : State F) : Event → Option (State F)
  | .senderCheck => match st.sender with
    | .head => some { st with sender := if st.running then .waiting else .ended }
    | _ => none
  | .senderTake => match st.sender, st.wsQueue with
    | .waiting, frame :: rest =>
      some { st with wsQueue := rest, handed := st.handed ++ [frame], sender := .broadcasting }
    | _, _ => none
  | .broadcastEnds raises => match st.sender with
    | .broadcasting => some { st with sender := if raises then .head else .pausing }
    | _ => none
  | .senderWakes => match st.sender with
    | .pausing => some { st with sender := .head }
    | _ => none
  | .senderCancelled => match st.sender with
    | .waiting | .broadcasting | .pausing => some { st with sender := .ended }
    | _ => none
  | _ => none

variable [Field F]

/-- From the returned updates to the head of the loop. The queue is unbounded, so putting
    a frame on it does not wait. -/
def finishAttempt (o : Orchestrator F) (st : State F)
    (updates : Dict Key (List (ParticleData F))) : State F :=
  if updates.length < o.numWorkers then retryOrAbort st
  else
    let reset : State F := { st with retryCount := 0 }
    match mergeWithBoundsCheck o.grid updates with
    | .error e => raise reset e
    | .ok merged => match buildFrameData o.dt merged st.currentStep with
      | .error e => raise reset e
      | .ok frame => advance reset merged frame

/-- One turn of the collection loop. -/
def pollOnce (o : Orchestrator F) (st : State F) (c : Collector F) (polled : List Batch) :
    Except PyErr Batch → State F
  | .error e => raise st e
  | .ok batch => match processBatch o.codec st.currentStep c batch with
    | .error e => raise st e
    | .ok c =>
      if o.numWorkers ≤ c.updates.length then finishAttempt o st c.updates
      else { st with phase := .collecting c (polled ++ [batch]) }

/-- none when the task that the event belongs to is not at that point. -/
def step (o : Orchestrator F) (st : State F) (event : Event) : Option (State F) :=
  match event with
  | .distribute failure => match st.phase with
    | .head => some (startAttempt st failure)
    | _ => none
  | .poll result => match st.phase with
    | .collecting c polled => some (pollOnce o st c polled result)
    | _ => none
  | .timeUp => match st.phase with
    | .collecting c _ => some (finishAttempt o st c.updates)
    | _ => none
  | .shutdown => some { st with running := false }
  | event => senderStep st event

/-- Every state of a run from the initial particles. -/
def Reachable (o : Orchestrator F) (initial : List (ParticleData F)) (st : State F) : Prop :=
  ∃ events, Runs.run (step o) (.initial initial) events = some st

theorem reachable_step {o : Orchestrator F} {initial : List (ParticleData F)} {st st' : State F}
    (reached : Reachable o initial st) {event : Event} (ran : step o st event = some st') :
    Reachable o initial st' := by
  obtain ⟨events, start⟩ := reached
  exact ⟨events ++ [event], Runs.run_snoc start ran⟩

/-- Whose turn a step is, and what that task then does. -/
inductive Turn (o : Orchestrator F) (st : State F) : Event → State F → Prop where
  | distribute (failure : Option Interruption) (here : st.phase = .head) :
    Turn o st (.distribute failure) (startAttempt st failure)
  | poll {c : Collector F} {polled : List Batch} (result : Except PyErr Batch)
    (here : st.phase = .collecting c polled) :
    Turn o st (.poll result) (pollOnce o st c polled result)
  | timeUp {c : Collector F} {polled : List Batch} (here : st.phase = .collecting c polled) :
    Turn o st .timeUp (finishAttempt o st c.updates)
  | shutdown : Turn o st .shutdown { st with running := false }
  | sender {event : Event} {st' : State F} (ran : senderStep st event = some st') :
    Turn o st event st'

theorem step_turn {o : Orchestrator F} {st st' : State F} {event : Event}
    (ran : step o st event = some st') : Turn o st event st' := by
  unfold step at ran
  split at ran
  · split at ran
    · rename_i failure _ here
      obtain rfl := Option.some.inj ran
      exact .distribute failure here
    · contradiction
  · split at ran
    · rename_i result _ c polled here
      obtain rfl := Option.some.inj ran
      exact .poll result here
    · contradiction
  · split at ran
    · rename_i _ c polled here
      obtain rfl := Option.some.inj ran
      exact .timeUp here
    · contradiction
  · obtain rfl := Option.some.inj ran
    exact .shutdown
  · exact .sender ran

/-- How the collection of the attempt under way returns, with the batches it polled. -/
inductive Returns (o : Orchestrator F) (st : State F) :
    Event → Dict Key (List (ParticleData F)) → List Batch → Prop where
  | timeUp {c : Collector F} {polled : List Batch} (here : st.phase = .collecting c polled) :
    Returns o st .timeUp c.updates polled
  | enough {c c' : Collector F} {polled : List Batch} {batch : Batch}
    (here : st.phase = .collecting c polled)
    (processed : processBatch o.codec st.currentStep c batch = .ok c')
    (complete : o.numWorkers ≤ c'.updates.length) :
    Returns o st (.poll (.ok batch)) c'.updates (polled ++ [batch])

/-- Everything a step can do. -/
inductive StepCase (o : Orchestrator F) (st : State F) : Event → State F → Prop where
  | stop {event : Event} (here : st.phase = .head) :
    StepCase o st event { st with phase := .left .stopped }
  | start {event : Event} (here : st.phase = .head)
    (distributed : List (Nat × List (ParticleData F)))
    (sent : distributed = st.distributed ∨
      distributed = st.distributed ++ [(st.currentStep, st.particles)]) :
    StepCase o st event { st with distributed := distributed, phase := .collecting .fresh [] }
  | failed {event : Event} (live : ∀ exit, st.phase ≠ .left exit)
    (distributed : List (Nat × List (ParticleData F)))
    (sent : distributed = st.distributed ∨
      distributed = st.distributed ++ [(st.currentStep, st.particles)])
    (interrupted : Option Nat) (retryCount : Nat) (e : PyErr) :
    StepCase o st event
      (raise { st with
        distributed := distributed, interrupted := interrupted, retryCount := retryCount } e)
  | gathered {c c' : Collector F} {polled : List Batch} {batch : Batch}
    (here : st.phase = .collecting c polled)
    (processed : processBatch o.codec st.currentStep c batch = .ok c')
    (short : c'.updates.length < o.numWorkers) :
    StepCase o st (.poll (.ok batch)) { st with phase := .collecting c' (polled ++ [batch]) }
  | retried {event : Event} {updates : Dict Key (List (ParticleData F))} {polled : List Batch}
    (returned : Returns o st event updates polled) (short : updates.length < o.numWorkers) :
    StepCase o st event (retryOrAbort st)
  | completed {event : Event} {updates : Dict Key (List (ParticleData F))} {polled : List Batch}
    {merged : List (ParticleData F)} {frame : Frame F}
    (returned : Returns o st event updates polled) (enough : o.numWorkers ≤ updates.length)
    (merge : mergeWithBoundsCheck o.grid updates = .ok merged)
    (built : buildFrameData o.dt merged st.currentStep = .ok frame) :
    StepCase o st event (advance { st with retryCount := 0 } merged frame)
  | shutdown {event : Event} : StepCase o st event { st with running := false }
  | sender {event : Event} (sender : SenderPhase) :
    StepCase o st event { st with sender := sender }
  | taken {event : Event} {frame : Frame F} {rest : List (Frame F)}
    (queued : st.wsQueue = frame :: rest) :
    StepCase o st event
      { st with wsQueue := rest, handed := st.handed ++ [frame], sender := .broadcasting }

theorem start_cases (o : Orchestrator F) {st : State F} {event : Event}
    (failure : Option Interruption) (here : st.phase = .head) :
    StepCase o st event (startAttempt st failure) := by
  have live : ∀ exit, st.phase ≠ .left exit := by simp [here]
  unfold startAttempt
  split
  · split
    · exact .start here _ (Or.inl rfl)
    · cases failure with
      | some cut => exact .failed live _ (Or.inr rfl) (some cut.sends) st.retryCount cut.error
      | none => exact .start here _ (Or.inr rfl)
  · exact .stop here

theorem finish_cases {o : Orchestrator F} {st : State F} {event : Event}
    {updates : Dict Key (List (ParticleData F))} {polled : List Batch}
    (returned : Returns o st event updates polled) :
    StepCase o st event (finishAttempt o st updates) := by
  have live : ∀ exit, st.phase ≠ .left exit := by
    intro exit left
    cases returned with
    | timeUp here => simp [here] at left
    | enough here => simp [here] at left
  unfold finishAttempt
  split
  · rename_i short
    exact .retried returned short
  · rename_i enough
    dsimp only
    split
    · rename_i e _
      exact .failed live _ (Or.inl rfl) st.interrupted 0 e
    · rename_i merged merge
      split
      · rename_i e _
        exact .failed live _ (Or.inl rfl) st.interrupted 0 e
      · rename_i frame built
        exact .completed returned (by omega) merge built

theorem poll_cases {o : Orchestrator F} {st : State F} {c : Collector F} {polled : List Batch}
    (here : st.phase = .collecting c polled) (result : Except PyErr Batch) :
    StepCase o st (.poll result) (pollOnce o st c polled result) := by
  have live : ∀ exit, st.phase ≠ .left exit := by simp [here]
  cases result with
  | error e => exact .failed live _ (Or.inl rfl) st.interrupted st.retryCount e
  | ok batch =>
    simp only [pollOnce]
    cases processed : processBatch o.codec st.currentStep c batch with
    | error e => exact .failed live _ (Or.inl rfl) st.interrupted st.retryCount e
    | ok c' =>
      dsimp only
      split
      · rename_i complete
        exact finish_cases (.enough here processed complete)
      · rename_i short
        exact .gathered here processed (by omega)

omit [Field F] in
/-- The sender task changes its own phase and takes frames off the queue. -/
theorem sender_moves {st st' : State F} {event : Event} (ran : senderStep st event = some st') :
    (∃ sender, st' = { st with sender := sender }) ∨
      ∃ frame rest, st.wsQueue = frame :: rest ∧
        st' =
          { st with wsQueue := rest, handed := st.handed ++ [frame], sender := .broadcasting } := by
  unfold senderStep at ran
  split at ran
  · split at ran
    · exact Or.inl ⟨_, (Option.some.inj ran).symm⟩
    · contradiction
  · split at ran
    · rename_i frame rest _ queued
      exact Or.inr ⟨frame, rest, queued, (Option.some.inj ran).symm⟩
    · contradiction
  · split at ran
    · exact Or.inl ⟨_, (Option.some.inj ran).symm⟩
    · contradiction
  · split at ran
    · exact Or.inl ⟨_, (Option.some.inj ran).symm⟩
    · contradiction
  · split at ran
    · exact Or.inl ⟨_, (Option.some.inj ran).symm⟩
    · exact Or.inl ⟨_, (Option.some.inj ran).symm⟩
    · exact Or.inl ⟨_, (Option.some.inj ran).symm⟩
    · contradiction
  · contradiction

theorem sender_cases (o : Orchestrator F) {st st' : State F} {event : Event}
    (ran : senderStep st event = some st') : StepCase o st event st' := by
  rcases sender_moves ran with ⟨sender, rfl⟩ | ⟨frame, rest, queued, rfl⟩
  · exact .sender sender
  · exact .taken queued

theorem step_cases {o : Orchestrator F} {st st' : State F} {event : Event}
    (ran : step o st event = some st') : StepCase o st event st' := by
  cases step_turn ran with
  | distribute failure here => exact start_cases o failure here
  | poll result here => exact poll_cases here result
  | timeUp here => exact finish_cases (.timeUp here)
  | shutdown => exact .shutdown
  | sender moved => exact sender_cases o moved

end RunSimulation

import SpaceCube.Orchestrator.AttemptBuffers
import SpaceCube.Orchestrator.Lifecycle
import SpaceCube.Orchestrator.StepMachine

/- What the simulation can still do once a signal has shut the socket server down. The loop
   of run_simulation tests self.running, which nothing clears. -/
namespace StopSignal
open Runs InsertionDict PyValue ParticleMessages CollectUpdates MergeAndFrame Lifecycle
open ReassemblyRoundTrip AttemptCollection
open RunSimulation (Orchestrator maxRetries)
variable {F : Type}

def distributed (st : State F) : List (Nat × List (ParticleData F)) :=
  (st.simulation.map RunSimulation.State.distributed).getD []

def currentStep (st : State F) : Nat :=
  (st.simulation.map RunSimulation.State.currentStep).getD 0

def SameProgress (st st' : State F) : Prop :=
  distributed st' = distributed st ∧ currentStep st' = currentStep st

variable [Field F]

/-- However run goes on, it distributes nothing more and completes no step more. -/
def StartsNothing (o : Orchestrator F) (particles : List (ParticleData F)) (st : State F) :
    Prop :=
  ∀ events st', run (step o particles) st events = some st' → SameProgress st st'

/-- Messages may still come that complete the collection under way. -/
def MayComplete (o : Orchestrator F) (sim : RunSimulation.State F) (c : Collector F) : Prop :=
  ∃ batch c' merged frame, processBatch o.codec sim.currentStep c batch = .ok c' ∧
    o.numWorkers ≤ c'.updates.length ∧ mergeWithBoundsCheck o.grid c'.updates = .ok merged ∧
    buildFrameData o.dt merged sim.currentStep = .ok frame

/-- The attempt under way is the last one at its step, and it can no longer complete. -/
def LastAttempt (o : Orchestrator F) (st : State F) : Prop :=
  st.main = .simulating ∧ ∃ sim c polled, st.simulation = some sim ∧
    sim.phase = .collecting c polled ∧ sim.retryCount = maxRetries ∧ ¬ MayComplete o sim c

variable {o : Orchestrator F} {particles : List (ParticleData F)} {st st' : State F}

omit [Field F] in
/-- A step of the simulation that leaves both alone. -/
theorem same_progress {sim sim' : RunSimulation.State F} (under : st.simulation = some sim)
    (now : st'.simulation = some sim') (sent : sim'.distributed = sim.distributed)
    (current : sim'.currentStep = sim.currentStep) : SameProgress st st' := by
  constructor
  · simp [distributed, under, now, sent]
  · simp [currentStep, under, now, current]

section Quiet

theorem past_step (ran : StepCase o particles st st') (past : st.main.past) :
    SameProgress st st' ∧ st'.main.past := by
  cases ran with
  | aside main server stop way =>
    refine ⟨⟨rfl, rfl⟩, ?_⟩
    rcases way with same | early | later
    · exact same ▸ past
    · exact absurd past (before_not_past early.1)
    · exact later
  | enters here =>
    rw [here] at past
    contradiction
  | turns here =>
    rw [here] at past
    contradiction
  | sends under other ran =>
    have kept := sends_kept ((sender_turn o _ other).symm.trans ran)
    exact ⟨same_progress under rfl kept.distributed kept.currentStep, past⟩

/-- A poll that leaves the collection incomplete cannot make it completable. -/
theorem may_complete_earlier {sim : RunSimulation.State F} {c c' : Collector F} {batch : Batch}
    (processed : processBatch o.codec sim.currentStep c batch = .ok c')
    (later : MayComplete o sim c') : MayComplete o sim c := by
  obtain ⟨more, final, merged, frame, rest, enough⟩ := later
  refine ⟨batch ++ more, final, merged, frame, ?_, enough⟩
  rw [process_batch_flatten] at processed rest ⊢
  rw [List.flatten_append, process_append_ok processed]
  exact rest

/-- A collection that returns in the last attempt ends the loop, unless it was complete and
    could be merged and shown. -/
theorem finish_leaves {sim : RunSimulation.State F} {updates : Dict Key (List (ParticleData F))}
    (last : sim.retryCount = maxRetries)
    (fails : ∀ merged frame, o.numWorkers ≤ updates.length →
      mergeWithBoundsCheck o.grid updates = .ok merged →
      buildFrameData o.dt merged sim.currentStep ≠ .ok frame) :
    (RunSimulation.finishAttempt o sim updates).distributed = sim.distributed ∧
      (RunSimulation.finishAttempt o sim updates).currentStep = sim.currentStep ∧
      ∃ exit, (RunSimulation.finishAttempt o sim updates).phase = .left exit := by
  unfold RunSimulation.finishAttempt
  split
  · unfold RunSimulation.retryOrAbort
    dsimp only
    rw [last, if_neg (lt_irrefl _)]
    exact ⟨rfl, rfl, _, rfl⟩
  · rename_i enough
    dsimp only
    split
    · exact ⟨rfl, rfl, _, rfl⟩
    · rename_i merged merge
      split
      · exact ⟨rfl, rfl, _, rfl⟩
      · rename_i frame built
        exact absurd built (fails merged frame (by omega) merge)

/-- In the last attempt the loop either goes on collecting or is left, with nothing started. -/
theorem last_turn {sim sim' : RunSimulation.State F} {c : Collector F} {polled : List Batch}
    {event : RunSimulation.Event} (here : sim.phase = .collecting c polled)
    (short : c.updates.length < o.numWorkers) (last : sim.retryCount = maxRetries)
    (stuck : ¬ MayComplete o sim c) (own : ofRun event)
    (ran : RunSimulation.step o sim event = some sim') :
    sim'.distributed = sim.distributed ∧ sim'.currentStep = sim.currentStep ∧
      ((∃ exit, sim'.phase = .left exit) ∨ ∃ c' polled', sim'.phase = .collecting c' polled' ∧
        sim'.retryCount = maxRetries ∧ ¬ MayComplete o sim' c') := by
  cases RunSimulation.step_turn ran with
  | distribute failure head => simp [here] at head
  | shutdown => contradiction
  | sender moved => cases event <;> contradiction
  | @timeUp d _ same =>
    obtain ⟨rfl, rfl⟩ := RunSimulation.Phase.collecting.inj (here.symm.trans same)
    obtain ⟨sent, current, left⟩ := finish_leaves (o := o) last fun merged frame enough =>
      absurd short (Nat.not_lt.mpr enough)
    exact ⟨sent, current, Or.inl left⟩
  | @poll d _ result same =>
    obtain ⟨rfl, rfl⟩ := RunSimulation.Phase.collecting.inj (here.symm.trans same)
    cases result with
    | error e => exact ⟨rfl, rfl, Or.inl ⟨_, rfl⟩⟩
    | ok batch =>
      simp only [RunSimulation.pollOnce]
      cases processed : processBatch o.codec sim.currentStep c batch with
      | error e => exact ⟨rfl, rfl, Or.inl ⟨_, rfl⟩⟩
      | ok c' =>
        dsimp only
        split
        · obtain ⟨sent, current, left⟩ := finish_leaves (o := o) last
            fun merged frame enough merge built =>
              stuck ⟨batch, c', merged, frame, processed, enough, merge, built⟩
          exact ⟨sent, current, Or.inl left⟩
        · exact ⟨rfl, rfl, Or.inr ⟨c', _, rfl, last,
            fun later => stuck (may_complete_earlier processed later)⟩⟩

theorem last_step (ran : StepCase o particles st st') (sound : Sound o particles st)
    (attempt : LastAttempt o st) :
    SameProgress st st' ∧ (st'.main.past ∨ LastAttempt o st') := by
  obtain ⟨here, sim, c, polled, under, collecting, last, stuck⟩ := attempt
  cases ran with
  | aside main server stop way =>
    refine ⟨⟨rfl, rfl⟩, ?_⟩
    rcases way with same | early | past
    · exact Or.inr ⟨same.trans here, sim, c, polled, under, collecting, last, stuck⟩
    · exact absurd early.1 (by rw [here]; decide)
    · exact Or.inl past
  | enters other =>
    rw [here] at other
    contradiction
  | @turns sim₁ sim' event _ same own ran =>
    obtain rfl := Option.some.inj (under.symm.trans same)
    obtain ⟨short, _⟩ := collecting_reachable (sound.entered sim under).1 c polled collecting
    obtain ⟨sent, current, next⟩ := last_turn collecting short last stuck own ran
    refine ⟨same_progress under rfl sent current, ?_⟩
    rcases next with ⟨exit, left⟩ | ⟨c', polled', later, retries, never⟩
    · left
      simp only [left, afterTurn]
      rfl
    · right
      refine ⟨by simp only [later, afterTurn], sim', c', polled', rfl, later, retries, never⟩
  | @sends sim₁ sim' event same other ran =>
    obtain rfl := Option.some.inj (under.symm.trans same)
    have kept := sends_kept ((sender_turn o sim other).symm.trans ran)
    refine ⟨same_progress under rfl kept.distributed kept.currentStep,
      Or.inr ⟨here, sim', c, polled, rfl, ?_, ?_, ?_⟩⟩
    · exact kept.phase.trans collecting
    · exact kept.retryCount.trans last
    · rintro ⟨batch, final, merged, frame, rest⟩
      rw [kept.currentStep] at rest
      exact stuck ⟨batch, final, merged, frame, rest⟩

omit [Field F] in
theorem same_trans {st'' : State F} (first : SameProgress st st') (second : SameProgress st' st'') :
    SameProgress st st'' := ⟨second.1.trans first.1, second.2.trans first.2⟩

/-- Once run is past its loop, or in an attempt that cannot lead to another, it starts
    nothing more. -/
theorem quiet (reached : Reachable o particles st) (ends : st.main.past ∨ LastAttempt o st) :
    StartsNothing o particles st := by
  intro events st' ran
  have all := run_invariant (fun s => Sound o particles s ∧ SameProgress st s ∧
      (s.main.past ∨ LastAttempt o s))
    (fun s e t moved inv => by
      obtain ⟨sound, same, now⟩ := inv
      have how := step_cases moved
      refine ⟨sound_step how sound, ?_⟩
      rcases now with past | attempt
      · obtain ⟨progress, later⟩ := past_step how past
        exact ⟨same_trans same progress, Or.inl later⟩
      · obtain ⟨progress, later⟩ := last_step how sound attempt
        exact ⟨same_trans same progress, later⟩)
    ⟨sound_reachable reached, ⟨rfl, rfl⟩, ends⟩ ran
  exact all.2.1

end Quiet

section Goes

/-- Some way on distributes particles or completes a step. -/
def MayStart (o : Orchestrator F) (particles : List (ParticleData F)) (st : State F) : Prop :=
  ∃ events st', run (step o particles) st events = some st' ∧ ¬ SameProgress st st'

theorem starts_now {event : Event} (ran : step o particles st event = some st')
    (progress : ¬ SameProgress st st') : MayStart o particles st :=
  ⟨[event], st', by rw [run_cons, ran]; rfl, progress⟩

theorem starts_later {event : Event} (ran : step o particles st event = some st')
    (same : SameProgress st st') (later : MayStart o particles st') : MayStart o particles st := by
  obtain ⟨events, st'', rest, progress⟩ := later
  refine ⟨event :: events, st'', by rw [run_cons, ran]; exact rest, fun all => progress ?_⟩
  exact ⟨all.1.trans same.1.symm, all.2.trans same.2.symm⟩

/-- run's own turns in the simulation are its turns here. -/
theorem turn_ran {sim sim' : RunSimulation.State F} {event : RunSimulation.Event}
    (here : st.main = .simulating) (under : st.simulation = some sim) (own : ofRun event)
    (ran : RunSimulation.step o sim event = some sim') :
    step o particles st (.simulation event) =
      some { st with simulation := some sim', main := afterTurn sim'.phase } := by
  simp only [step, simulate, under, own, here, and_self, ↓reduceIte, ran, Option.map_some]

/-- All workers answering without particles complete an attempt that has just begun. -/
theorem empty_replies_advance (restores : Restores o.codec []) {sim : RunSimulation.State F}
    (collecting : Collecting o sim) (here : sim.phase = .collecting .fresh []) :
    ∃ batch merged frame, RunSimulation.step o sim (.poll (.ok batch)) =
      some (RunSimulation.advance { sim with retryCount := 0 } merged frame) := by
  let answer (w : Nat) : Delivery :=
    ⟨updateMessage o.codec w sim.currentStep 0 1 [], none⟩
  let batch : Batch := [(List.range o.numWorkers).map answer]
  have whole : deliveries ([] ++ [batch]) = (List.range o.numWorkers).map answer := by
    simp [deliveries, batch]
  have chunk (w : Nat) : IsChunk o.codec sim.currentStep w 0 1 [] (answer w).value :=
    update_message_chunk o.codec w sim.currentStep 0 1 restores
  have commits : Committed (deliveries ([] ++ [batch])) := by
    rw [whole]
    intro d member
    obtain ⟨w, _, rfl⟩ := List.mem_map.mp member
    rfl
  have stream : Stream o.codec o.numWorkers sim.currentStep (fun _ => 1) (fun _ _ => [])
      (deliveries ([] ++ [batch])) := by
    rw [whole]
    intro d member _
    obtain ⟨w, below, rfl⟩ := List.mem_map.mp member
    exact ⟨w, 0, List.mem_range.mp below, Nat.one_pos, chunk w⟩
  have outcome := poll_stream collecting here (fun _ _ => Nat.le_refl 1) commits stream
    (fun _ _ p _ _ member => absurd member List.not_mem_nil)
  rcases outcome with ⟨_, merged, frame, ran⟩ | ⟨missing, _⟩
  · refine ⟨batch, merged, frame, ?_⟩
    simp only [RunSimulation.step, here, ran]
  · refine absurd (fun w below i first => ?_) missing
    obtain rfl : i = 0 := by omega
    rw [whole]
    exact ⟨answer w, List.mem_map_of_mem (List.mem_range.mpr below), chunk w⟩

/-- A turn of run that completes a step is progress. -/
theorem advance_starts {sim : RunSimulation.State F} {event : RunSimulation.Event}
    {merged : List (ParticleData F)} {frame : Frame F} (here : st.main = .simulating)
    (under : st.simulation = some sim) (own : ofRun event)
    (ran : RunSimulation.step o sim event =
      some (RunSimulation.advance { sim with retryCount := 0 } merged frame)) :
    MayStart o particles st := by
  refine starts_now (turn_ran here under own ran) fun same => ?_
  have current := same.2
  simp [currentStep, under, RunSimulation.advance] at current

/-- The head of the loop begins an attempt, whatever has become of the server. -/
theorem head_starts (restores : Restores o.codec []) (sound : Sound o particles st)
    {sim : RunSimulation.State F} (here : st.main = .simulating) (under : st.simulation = some sim)
    (head : sim.phase = .head) : MayStart o particles st := by
  obtain ⟨reached, running, _⟩ := sound.entered sim under
  have ran : RunSimulation.step o sim (.distribute none) =
      some (RunSimulation.startAttempt sim none) := by simp only [RunSimulation.step, head]
  by_cases empty : sim.particles = []
  · let next : RunSimulation.State F := { sim with phase := .collecting .fresh [] }
    have begun : RunSimulation.startAttempt sim none = next := by
      simp [RunSimulation.startAttempt, running, empty, next]
    rw [begun] at ran
    obtain ⟨batch, merged, frame, answered⟩ := empty_replies_advance restores
      (collecting_reachable (RunSimulation.reachable_step reached ran)) rfl
    exact starts_later (turn_ran here under rfl ran) (same_progress under rfl rfl rfl)
      (advance_starts rfl rfl rfl answered)
  · refine starts_now (turn_ran here under rfl ran) fun same => ?_
    have sent := same.1
    simp [distributed, under, RunSimulation.startAttempt, running, empty] at sent

/-- An attempt before the last one is followed by another when its time is up. -/
theorem retry_starts (restores : Restores o.codec []) (sound : Sound o particles st)
    {sim : RunSimulation.State F} {c : Collector F} {polled : List Batch}
    (here : st.main = .simulating) (under : st.simulation = some sim)
    (collecting : sim.phase = .collecting c polled) (more : sim.retryCount < maxRetries) :
    MayStart o particles st := by
  obtain ⟨reached, _⟩ := sound.entered sim under
  obtain ⟨short, _⟩ := collecting_reachable reached c polled collecting
  let polls : RunSimulation.State F := { sim with phase := .collecting c (polled ++ [[]]) }
  have poll : RunSimulation.step o sim (.poll (.ok [])) = some polls := by
    simp only [RunSimulation.step, collecting, RunSimulation.pollOnce, processBatch,
      List.foldlM_nil, pure, Except.pure, Nat.not_le.mpr short, ↓reduceIte, polls]
  let retried : RunSimulation.State F :=
    { polls with
      attempts := polls.attempts ++ [(polls.currentStep, .incomplete)]
      retryCount := polls.retryCount + 1
      phase := .head }
  have timeUp : RunSimulation.step o polls .timeUp = some retried := by
    simp only [RunSimulation.step, polls, RunSimulation.finishAttempt, short, ↓reduceIte,
      RunSimulation.retryOrAbort, more, retried]
  let polling : State F := { st with simulation := some polls, main := afterTurn polls.phase }
  have first : step o particles st (.simulation (.poll (.ok []))) = some polling :=
    turn_ran here under rfl poll
  have soundPolls := sound_step (step_cases first) sound
  have second : step o particles polling (.simulation .timeUp) =
      some { polling with simulation := some retried, main := afterTurn retried.phase } :=
    turn_ran rfl rfl rfl timeUp
  have soundRetried := sound_step (step_cases second) soundPolls
  exact starts_later first (same_progress under rfl rfl rfl)
    (starts_later second ⟨rfl, rfl⟩ (head_starts restores soundRetried rfl rfl rfl))

theorem delivering_starts (restores : Restores o.codec []) (sound : Sound o particles st)
    (here : st.main = .delivering) : MayStart o particles st := by
  have absent := sound.absent (by rw [here]; rfl)
  have ran : step o particles st (.delivered false) =
      some { st with main := .simulating, simulation := some (.initial particles) } := by
    simp only [step, here]
    rfl
  refine starts_later ran ⟨?_, ?_⟩
    (head_starts restores (sound_step (step_cases ran) sound) rfl rfl rfl)
  · simp [distributed, absent, RunSimulation.State.initial]
  · simp [currentStep, absent, RunSimulation.State.initial]

theorem settling_starts (restores : Restores o.codec []) (sound : Sound o particles st)
    (here : st.main = .settling) : MayStart o particles st := by
  have ran : step o particles st (.settled false) = some { st with main := .delivering } := by
    simp only [step, here]
    rfl
  exact starts_later ran ⟨rfl, rfl⟩
    (delivering_starts restores (sound_step (step_cases ran) sound) rfl)

/-- Before run_simulation nothing keeps run from coming to its loop. -/
theorem entering_starts (restores : Restores o.codec []) (sound : Sound o particles st)
    (before : st.main.before) : MayStart o particles st := by
  cases here : st.main with
  | simulating | stopping | joining | finished =>
    rw [here] at before
    contradiction
  | delivering => exact delivering_starts restores sound here
  | settling => exact settling_starts restores sound here
  | purging =>
    have ran : step o particles st (.purged false) =
        some { st with main := .settling, server := .starting } := by
      simp only [step, here]
      rfl
    exact starts_later ran ⟨rfl, rfl⟩
      (settling_starts restores (sound_step (step_cases ran) sound) rfl)

/-- In the loop only the last attempt, and only when it cannot complete, starts nothing. -/
theorem simulating_starts (restores : Restores o.codec []) (sound : Sound o particles st)
    (here : st.main = .simulating) (other : ¬ LastAttempt o st) : MayStart o particles st := by
  obtain ⟨sim, under, loops⟩ := sound.inside here
  obtain ⟨reached, _⟩ := sound.entered sim under
  obtain ⟨limit, _⟩ := (StepMachine.retries_reachable reached).live loops
  cases phase : sim.phase with
  | left exit => exact absurd phase (loops exit)
  | head => exact head_starts restores sound here under phase
  | collecting c polled =>
    rcases Nat.lt_or_eq_of_le limit with more | last
    · exact retry_starts restores sound here under phase more
    · by_cases may : MayComplete o sim c
      · obtain ⟨batch, c', merged, frame, processed, enough, merge, built⟩ := may
        have ran : RunSimulation.step o sim (.poll (.ok batch)) =
            some (RunSimulation.advance { sim with retryCount := 0 } merged frame) := by
          simp only [RunSimulation.step, phase, RunSimulation.pollOnce, processed, enough,
            ↓reduceIte, RunSimulation.finishAttempt, Nat.not_lt.mpr enough, merge, built]
        exact advance_starts here under rfl ran
      · exact absurd ⟨here, sim, c, polled, under, phase, last, may⟩ other

end Goes

/-- After a signal has shut the server down, however run goes on: nothing is started any
    more exactly when run has already left its loop, or is in the last attempt that its
    step is allowed and no messages can complete it. -/
theorem starts_nothing_iff (o : Orchestrator F) (particles : List (ParticleData F))
    (restores : Restores o.codec []) : ∀ st, Reachable o particles st → st.server = .closed →
    (StartsNothing o particles st ↔ st.main.past ∨ LastAttempt o st) := by
  intro st reached _
  have sound := sound_reachable reached
  refine ⟨fun nothing => ?_, quiet reached⟩
  by_contra other
  rw [not_or] at other
  have may : MayStart o particles st := by
    cases here : st.main with
    | simulating => exact simulating_starts restores sound here other.2
    | purging | settling | delivering =>
      exact entering_starts restores sound (by rw [here]; rfl)
    | stopping | joining | finished => exact absurd (by rw [here]; rfl) other.1
  obtain ⟨events, st', ran, progress⟩ := may
  exact progress (nothing events st' ran)

section Samples
open AttemptBuffers

/-- The first distribution raises, and the signal comes while run is in its finally clause. -/
def lateSignal : List Event :=
  [.purged false, .serverStarts, .settled false, .delivered false,
    .simulation (.distribute (some ⟨0, .valueError⟩)), .signal, .serverStops, .serverCloses]

theorem sample_quiet : ∃ st, Reachable twoWorkers [sampleParticle] st ∧ st.server = .closed ∧
    st.main = .stopping false ∧
    (StartsNothing twoWorkers [sampleParticle] st ↔
      st.main.past ∨ LastAttempt twoWorkers st) := by
  have reached : Reachable twoWorkers [sampleParticle] _ := ⟨lateSignal, rfl⟩
  exact ⟨_, reached, rfl, rfl,
    starts_nothing_iff twoWorkers [sampleParticle] empty_restores _ reached rfl⟩

/-- The signal comes while the orchestrator waits for replies. -/
def earlySignal : List Event :=
  [.purged false, .serverStarts, .settled false, .delivered false,
    .simulation (.distribute none), .simulation (.poll (.ok [])), .signal, .serverStops,
    .serverCloses]

def shutDown : State Rat where
  main := .simulating
  simulation := some { RunSimulation.State.initial [sampleParticle] with
    distributed := [(0, [sampleParticle])]
    phase := .collecting .fresh [[]] }
  server := .closed
  stop := true
  consumerClosed := false
  producerClosed := false

/-- With the server shut down, the next attempt begins when the time of this one is up. -/
theorem goes_on_after_signal :
    run (step sampleOrchestrator [sampleParticle]) .initial earlySignal = some shutDown ∧
    (∃ st, run (step sampleOrchestrator [sampleParticle]) shutDown
      [.simulation .timeUp, .simulation (.distribute none)] = some st ∧
      distributed st = [(0, [sampleParticle]), (0, [sampleParticle])]) ∧
    ¬ StartsNothing sampleOrchestrator [sampleParticle] shutDown := by
  have next : ∃ st, run (step sampleOrchestrator [sampleParticle]) shutDown
      [.simulation .timeUp, .simulation (.distribute none)] = some st ∧
      distributed st = [(0, [sampleParticle]), (0, [sampleParticle])] := ⟨_, rfl, rfl⟩
  refine ⟨rfl, next, fun nothing => ?_⟩
  obtain ⟨st, ran, twice⟩ := next
  have same := (nothing _ st ran).1
  rw [twice] at same
  exact absurd same (by simp [distributed, shutDown])

end Samples
end StopSignal

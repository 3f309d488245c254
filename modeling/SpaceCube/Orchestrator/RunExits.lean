import SpaceCube.Orchestrator.AttemptCollection
import SpaceCube.Orchestrator.Lifecycle

/- What run has released when it is finished. Orchestrator.shutdown would release all but
   the sender, and no way out of run passes through it. -/
namespace RunExits
open Runs ParticleMessages Lifecycle AttemptCollection ReassemblyRoundTrip
variable {F : Type}

inductive ShutdownCall where
  | consumerClose
  | producerFlush
  | producerClose
  deriving DecidableEq

/-- Orchestrator.shutdown, up to the call that raises, if one does. -/
def shutdown (raises : Option ShutdownCall) (st : State F) : State F :=
  { st with
    simulation := st.simulation.map fun sim => { sim with running := false }
    consumerClosed := st.consumerClosed || raises ≠ some .consumerClose
    producerClosed := st.producerClosed || raises = none }

structure Released (st : State F) : Prop where
  stopped : st.running = false
  sender : ∀ sim, st.simulation = some sim → sim.sender = .ended
  consumer : st.consumerClosed = true
  producer : st.producerClosed = true

/-- When nothing in it raises, shutdown leaves only the sender task. -/
theorem shutdown_releases_iff (st : State F) :
    Released (shutdown none st) ↔ ∀ sim, st.simulation = some sim → sim.sender = .ended := by
  constructor
  · intro released sim under
    have ended := released.sender { sim with running := false }
    exact ended (by rw [shutdown, under]; rfl)
  · intro ended
    refine ⟨?_, ?_, ?_, ?_⟩
    · cases under : st.simulation <;> simp [shutdown, State.running, under]
    · intro sim under
      obtain ⟨old, was, rfl⟩ := Option.map_eq_some_iff.mp under
      exact ended old was
    · simp [shutdown]
    · simp [shutdown]

variable [Field F] {o : RunSimulation.Orchestrator F} {particles : List (ParticleData F)}

omit [Field F] in
theorem cancelled_stops {main : Main} (goes : cancelledAt main ≠ .finished .cancelled) :
    cancelledAt main = .stopping true := by
  cases main with
  | settling | delivering | simulating => rfl
  | purging | stopping | joining | finished => exact absurd rfl goes

/-- Wherever run waits, a cancellation ends it, or a second one in its finally clause. -/
theorem can_finish {st : State F} (waits : st.waits) : ∃ events st',
    run (step o particles) st events = some st' ∧ st'.main = .finished .cancelled := by
  have first : step o particles st .cancelled = some { st with main := cancelledAt st.main } := by
    simp only [step, waits, ↓reduceIte]
  by_cases once : cancelledAt st.main = .finished .cancelled
  · exact ⟨[.cancelled], _, by rw [run_cons, first]; rfl, once⟩
  · refine ⟨[.cancelled, .cancelled], { st with main := .finished .cancelled }, ?_, rfl⟩
    rw [run_cons, first, cancelled_stops once]
    rfl

/-- However run has finished: the consumer and the producer are open, and if it came to
    run_simulation running is still set and the sender task has not ended. -/
theorem never_released {st : State F} (reached : Reachable o particles st) :
    ∀ ending, st.main = .finished ending → ¬ Released st ∧ st.consumerClosed = false ∧
      st.producerClosed = false ∧ st.running = st.simulation.isSome ∧
      ∀ sim, st.simulation = some sim → sim.sender ≠ .ended := by
  intro ending _
  have sound := sound_reachable reached
  refine ⟨fun released => ?_, sound.consumer, sound.producer, ?_, ?_⟩
  · exact absurd (sound.consumer.symm.trans released.consumer) (by decide)
  · unfold State.running
    cases under : st.simulation with
    | none => rfl
    | some sim => exact (sound.entered sim under).2.1
  · exact fun sim under => (sound.entered sim under).2.2

/-- The kernel file is missing. -/
def noKernel : List Event :=
  [.purged false, .serverStarts, .settled true, .shutdownEnds false, .serverCancels, .joined]

theorem sample_finish : ∃ st, Reachable sampleOrchestrator [sampleParticle] st ∧
    st.main = .finished .cancelled ∧ ¬ Released st ∧ st.running = false := by
  have reached : Reachable sampleOrchestrator [sampleParticle] _ := ⟨noKernel, rfl⟩
  exact ⟨_, reached, rfl, (never_released reached .cancelled rfl).1, rfl⟩

/-- The first distribution raises. -/
def noBroker : List Event :=
  [.purged false, .serverStarts, .settled false, .delivered false,
    .simulation (.distribute (some ⟨0, .valueError⟩)), .shutdownEnds false, .serverCancels, .joined]

theorem nothing_released : ∃ st sim,
    run (step sampleOrchestrator [sampleParticle]) .initial noBroker = some st ∧
    st.main = .finished .cancelled ∧ st.running = true ∧ st.simulation = some sim ∧
    sim.sender = .head ∧ st.consumerClosed = false ∧ st.producerClosed = false ∧
    ¬ Released st := by
  refine ⟨_, _, rfl, rfl, rfl, rfl, rfl, rfl, rfl, fun released => ?_⟩
  exact absurd released.stopped (by decide)

end RunExits

import SpaceCube.Orchestrator.AttemptBuffers
import SpaceCube.Orchestrator.StepMachine

/- What the orchestrator sends over a whole run: the kernel, the start commands, and the
   particles of every attempt. -/
namespace Distribution
open InsertionDict BoxGrid PyValue ParticleMessages CollectUpdates WorkerBounds MergeAndFrame
open RunSimulation AttemptCollection AttemptBuffers StepMachine
variable {F : Type}

/-- One message for the broker. -/
structure Posted where
  topic : String
  key : Option String
  partition : Option Nat
  value : Json

def posted (send : KafkaSend) : Posted :=
  ⟨send.topic, some send.key, some send.partition, send.value⟩

variable [Field F]

/-- The list that the attempts at a step share out. -/
def listAt (initial : List (ParticleData F)) (st : State F) (k : Nat) : List (ParticleData F) :=
  ((initial :: st.merges)[k]?).getD []

/-- How often the list of the current step may have been shared out. -/
def allowance (st : State F) : Nat :=
  match st.phase with
  | .head => st.retryCount
  | .collecting _ _ => st.retryCount + 1
  | .left _ => maxRetries + 1

/-- The distribution that raised. -/
def cutOff (st : State F) : List (Nat × List (ParticleData F)) :=
  if st.interrupted.isSome then [(st.currentStep, st.particles)] else []

/-- counts tells how often each list has been shared out to the end. -/
structure Shared (initial : List (ParticleData F)) (st : State F) (counts : Nat → Nat) : Prop where
  all : st.distributed = ((List.range (st.currentStep + 1)).flatMap fun k =>
    List.replicate (counts k) (k, listAt initial st k)) ++ cutOff st
  past : ∀ k, k < st.currentStep → counts k ≤ maxRetries + 1 ∧
    (listAt initial st k ≠ [] → 1 ≤ counts k)
  now : counts st.currentStep + (cutOff st).length ≤ allowance st
  begun : ∀ c polled, st.phase = .collecting c polled → st.particles ≠ [] →
    1 ≤ counts st.currentStep
  broken : st.interrupted.isSome → ∃ e, st.phase = .left (.raised e)

variable {o : Orchestrator F} {initial : List (ParticleData F)} {st st' : State F}

omit [Field F] in
/-- Only a run that is over has a distribution that raised. -/
theorem Shared.uncut {counts : Nat → Nat} (shared : Shared initial st counts)
    (live : ∀ exit, st.phase ≠ .left exit) : st.interrupted = none := by
  rw [← Option.not_isSome_iff_eq_none]
  intro some
  obtain ⟨e, left⟩ := shared.broken some
  exact live _ left

end Distribution

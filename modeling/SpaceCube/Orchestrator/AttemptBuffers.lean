import SpaceCube.Orchestrator.AttemptCollection

/- What an attempt may rely on. The chunk buffers die with the attempt that filled them,
   while the offsets of their messages stay committed. -/
namespace AttemptBuffers
open PyValue ParticleMessages CollectUpdates ReassemblyRoundTrip
open WorkerBounds MergeAndFrame RunSimulation AttemptCollection

section Attempts
variable {F : Type} [Field F]

/-- The clock never completes an attempt. -/
theorem time_up_incomplete {o : Orchestrator F} {st st' : State F} (inv : Collecting o st)
    (ran : step o st .timeUp = some st') : st'.currentStep = st.currentStep := by
  simp only [step] at ran
  split at ran
  · rename_i c polled here
    obtain ⟨short, _⟩ := inv c polled here
    simp only [finishAttempt, short, ↓reduceIte, Option.some.injEq] at ran
    subst ran
    unfold retryOrAbort
    dsimp only
    split <;> rfl
  · contradiction

/-- An attempt completes its step with the poll after which its own batches contain every
    chunk of every worker's reply, and in no other way: what earlier attempts at the step
    consumed and committed does not count. -/
theorem attempt_completes_iff (o : Orchestrator F) (initial : List (ParticleData F))
    (st : State F) (c : Collector F) (polled : List Batch) (batch : Batch) (T : Nat → Nat)
    (payload : Nat → Nat → List (ParticleData F)) (reached : Reachable o initial st)
    (here : st.phase = .collecting c polled) (positive : ∀ w, w < o.numWorkers → 1 ≤ T w)
    (commits : Committed (deliveries (polled ++ [batch])))
    (stream : Stream o.codec o.numWorkers st.currentStep T payload
      (deliveries (polled ++ [batch])))
    (shown : ∀ w i p, w < o.numWorkers → i < T w → p ∈ payload w i → Frameable p) :
    (∃ st', step o st (.poll (.ok batch)) = some st' ∧
      (st'.currentStep = st.currentStep + 1 ↔ ∀ w, w < o.numWorkers → ∀ i, i < T w →
        Occurs o.codec st.currentStep T payload w i (deliveries (polled ++ [batch])))) ∧
    ∀ st', step o st .timeUp = some st' → st'.currentStep = st.currentStep := by
  have inv := collecting_reachable reached
  refine ⟨⟨pollOnce o st c polled (.ok batch), by simp only [step, here], ?_⟩,
    fun st' ran => time_up_incomplete inv ran⟩
  rcases poll_stream inv here positive commits stream shown with
    ⟨all, merged, frame, ran⟩ | ⟨missing, c', ran⟩
  · rw [ran]
    exact iff_of_true rfl all
  · rw [ran]
    exact iff_of_false (by simp) missing

end Attempts

theorem sample_attempt_completes : ∃ st',
    step sampleOrchestrator sampleCollecting (.poll (.ok sampleBatch)) = some st' ∧
      (st'.currentStep = 1 ↔ ∀ w, w < 1 → ∀ i, i < 1 → Occurs sampleCodec 0 (fun _ => 1)
        (fun _ _ => [sampleParticle]) w i (deliveries sampleBatches)) :=
  (attempt_completes_iff sampleOrchestrator [sampleParticle] sampleCollecting .fresh []
    sampleBatch (fun _ => 1) (fun _ _ => [sampleParticle]) sample_collecting_reachable rfl
    (fun _ _ => Nat.le_refl 1) sample_committed sample_stream (fun _ _ p _ _ member => by
      rw [List.mem_singleton.mp member]
      exact sample_frameable)).1

/-- The text of an empty list. -/
def emptyCodec : Codec Rat := oneTextCodec [91, 93] []

theorem empty_restores : Restores emptyCodec [] := one_text_restores [91, 93] [] (by decide)

def twoWorkers : Orchestrator Rat where
  codec := emptyCodec
  numWorkers := 2
  boxSize := 1
  root := 2
  grid := gridOf 1 2 2
  dt := 1 / 100
  workers := by decide
  rounded := by decide
  built := init_ok 1 2 (by decide)

/-- The whole reply of a worker without particles of its own: one chunk, empty. -/
def emptyReply (w : Nat) : Json := updateMessage emptyCodec w 0 0 1 []

def emptyReplyBatch (w : Nat) : Batch := [[⟨emptyReply w, none⟩]]

theorem empty_reply_chunk (w : Nat) : IsChunk emptyCodec 0 w 0 1 [] (emptyReply w) :=
  update_message_chunk _ w 0 0 1 empty_restores

/-- Worker 0 answers in the first attempt and worker 1 in the second. -/
def splitReplies : List Event :=
  [.distribute none, .poll (.ok (emptyReplyBatch 0)), .timeUp,
    .distribute none, .poll (.ok (emptyReplyBatch 1)), .timeUp]

/-- Both whole replies are consumed and committed at step 0, and both attempts end
    incomplete. -/
theorem split_replies_incomplete :
    (∀ w, w < 2 → .poll (.ok (emptyReplyBatch w)) ∈ splitReplies ∧
      IsChunk emptyCodec 0 w 0 1 [] (emptyReply w)) ∧
    (Runs.run (step twoWorkers) (.initial [sampleParticle]) splitReplies).map
      (fun st => (st.currentStep, st.attempts)) =
        some (0, [(0, .incomplete), (0, .incomplete)]) := by
  refine ⟨?_, rfl⟩
  intro w below
  refine ⟨?_, empty_reply_chunk w⟩
  obtain rfl | rfl : w = 0 ∨ w = 1 := by omega
  · simp [splitReplies]
  · simp [splitReplies]

end AttemptBuffers

import SpaceCube.Orchestrator.RunSimulation
import SpaceCube.Orchestrator.ReassemblyRoundTrip

/- The collection of one attempt. Its buffers are local to the attempt, so what it returns
   depends on the batches it polled itself and on nothing polled before. -/
namespace AttemptCollection
open InsertionDict ChunkAssembly PyValue ParticleMessages CollectUpdates
open ReassemblyRoundTrip WorkerBounds MergeAndFrame RunSimulation
variable {F : Type} [Field F]

/-- A collection under way is a call of _collect_updates after the polls made so far. -/
def Collecting (o : Orchestrator F) (st : State F) : Prop :=
  ∀ c polled, st.phase = .collecting c polled → c.updates.length < o.numWorkers ∧
    processAll o.codec st.currentStep .fresh (deliveries polled) = .ok c ∧
    ∀ rest, collectUpdates o.codec o.numWorkers st.currentStep (polled.map Except.ok ++ rest) =
      collectLoop o.codec o.numWorkers st.currentStep c polled rest

theorem collecting_same {o : Orchestrator F} {st st' : State F} (inv : Collecting o st)
    (phase : st'.phase = st.phase) (current : st'.currentStep = st.currentStep) :
    Collecting o st' := by
  intro c polled here
  rw [phase] at here
  rw [current]
  exact inv c polled here

theorem collecting_elsewhere {o : Orchestrator F} {st : State F}
    (elsewhere : ∀ c polled, st.phase ≠ .collecting c polled) : Collecting o st :=
  fun c polled here => absurd here (elsewhere c polled)

theorem collecting_gathered {o : Orchestrator F} {st : State F} (inv : Collecting o st)
    {c c' : Collector F} {polled : List Batch} {batch : Batch}
    (here : st.phase = .collecting c polled)
    (processed : processBatch o.codec st.currentStep c batch = .ok c')
    (short : c'.updates.length < o.numWorkers) :
    Collecting o { st with phase := .collecting c' (polled ++ [batch]) } := by
  intro d polled' same
  obtain ⟨rfl, rfl⟩ := Phase.collecting.inj same
  obtain ⟨_, sofar, call⟩ := inv c polled here
  refine ⟨short, ?_, ?_⟩
  · rw [deliveries_append, process_append_ok sofar, deliveries_singleton, ← process_batch_flatten]
    exact processed
  · intro rest
    rw [List.map_append, List.append_assoc]
    have next := call (.ok batch :: rest)
    simp only [collectLoop, processed, Nat.not_le.mpr short, ↓reduceIte] at next
    exact next

omit [Field F] in
theorem retry_phase (st : State F) (c : Collector F) (polled : List Batch) :
    (retryOrAbort st).phase ≠ .collecting c polled := by
  unfold retryOrAbort
  dsimp only
  split <;> simp

theorem collecting_step {o : Orchestrator F} {st st' : State F} {event : Event}
    (ran : step o st event = some st') (inv : Collecting o st) : Collecting o st' := by
  cases step_cases ran with
  | stop here => exact collecting_elsewhere (by simp)
  | start here distributed sent =>
    intro c polled same
    obtain ⟨rfl, rfl⟩ := Phase.collecting.inj same
    exact ⟨o.workers, rfl, fun rest => rfl⟩
  | failed live distributed sent interrupted retryCount e =>
    exact collecting_elsewhere (by simp [raise])
  | gathered here processed short => exact collecting_gathered inv here processed short
  | retried returned short => exact collecting_elsewhere (retry_phase st)
  | completed returned enough merge built => exact collecting_elsewhere (by simp [advance])
  | shutdown => exact collecting_same inv rfl rfl
  | sender phase => exact collecting_same inv rfl rfl
  | taken queued => exact collecting_same inv rfl rfl

theorem collecting_reachable {o : Orchestrator F} {initial : List (ParticleData F)}
    {st : State F} (reached : Reachable o initial st) : Collecting o st := by
  obtain ⟨events, ran⟩ := reached
  refine Runs.run_invariant (Collecting o) (fun _ _ _ => collecting_step) ?_ ran
  exact collecting_elsewhere (by simp [State.initial])

/-- The returned updates are what the call returns on the batches polled. -/
theorem returns_collected {o : Orchestrator F} {st : State F} {event : Event}
    (inv : Collecting o st) {updates : Dict Key (List (ParticleData F))} {polled : List Batch}
    (returned : Returns o st event updates polled) :
    collectUpdates o.codec o.numWorkers st.currentStep (polled.map Except.ok) =
        .ok ⟨updates, polled⟩ ∧
      ∃ c, processAll o.codec st.currentStep .fresh (deliveries polled) = .ok c ∧
        updates = c.updates := by
  cases returned with
  | timeUp here =>
    obtain ⟨_, sofar, call⟩ := inv _ _ here
    have whole := call []
    rw [List.append_nil] at whole
    exact ⟨whole, _, sofar, rfl⟩
  | enough here processed complete =>
    rename_i c c' polled batch
    obtain ⟨_, sofar, call⟩ := inv c polled here
    constructor
    · rw [List.map_append]
      have last := call [.ok batch]
      simp only [collectLoop, processed, complete, ↓reduceIte] at last
      exact last
    · refine ⟨c', ?_, rfl⟩
      rw [deliveries_append, process_append_ok sofar, deliveries_singleton, ← process_batch_flatten]
      exact processed

theorem grid_keys (o : Orchestrator F) :
    o.grid.workerBounds.keys = (List.range o.numWorkers).map Key.ofNat := by
  have built := (init_ok o.boxSize o.numWorkers o.rounded).symm.trans o.built
  obtain ⟨_, _, _, _, _, _, _, _, keys, _⟩ :=
    grid_spec o.boxSize o.numWorkers o.rounded
  rwa [Except.ok.inj built] at keys

/-- The merge knows only the workers' keys, so enough of them are all of them. -/
theorem merged_keys {o : Orchestrator F} {updates : Dict Key (List (ParticleData F))}
    {merged : List (ParticleData F)} (merge : mergeWithBoundsCheck o.grid updates = .ok merged)
    (enough : o.numWorkers ≤ updates.length) :
    updates.keys.Perm ((List.range o.numWorkers).map Key.ofNat) := by
  obtain ⟨known, _⟩ := (merge_ok_iff _ _ _).mp merge
  apply keys_perm_of_full
  · intro k member
    have bounded := known k member
    rwa [mem_iff_keys, grid_keys] at bounded
  · simpa using enough

section Streams
variable {o : Orchestrator F} {st : State F} {c : Collector F} {polled : List Batch}
  {batch : Batch} {T : Nat → Nat} {payload : Nat → Nat → List (ParticleData F)}

/-- With consistent messages, enough entries are entries of all workers. -/
theorem enough_iff {ds : List Delivery} (positive : ∀ w, w < o.numWorkers → 1 ≤ T w)
    (stream : Stream o.codec o.numWorkers st.currentStep T payload ds)
    (run : processAll o.codec st.currentStep .fresh ds = .ok c) :
    o.numWorkers ≤ c.updates.length ↔ ∀ w, w < o.numWorkers → ∀ i, i < T w →
      Occurs o.codec st.currentStep T payload w i ds := by
  have every : (∀ w, w < o.numWorkers → ∀ i, i < T w →
      Occurs o.codec st.currentStep T payload w i ds) ↔
      ∀ w, w < o.numWorkers → Key.ofNat w ∈ c.updates :=
    forall₂_congr fun w below => (stream_done_iff positive stream run below).symm
  rw [every]
  constructor
  · intro enough w below
    refine full_of_length ?_ enough w below
    intro k member
    obtain ⟨v, hv, same⟩ := stream_keys stream run k member
    exact ⟨v, hv, same⟩
  · exact fun all => length_ge_of_full key_ofNat_injective all

/-- A poll that completes consistent messages of showable particles advances the step, and
    one that does not goes on collecting. -/
theorem poll_stream (inv : Collecting o st) (here : st.phase = .collecting c polled)
    (positive : ∀ w, w < o.numWorkers → 1 ≤ T w)
    (commits : Committed (deliveries (polled ++ [batch])))
    (stream : Stream o.codec o.numWorkers st.currentStep T payload
      (deliveries (polled ++ [batch])))
    (shown : ∀ w i p, w < o.numWorkers → i < T w → p ∈ payload w i → Frameable p) :
    ((∀ w, w < o.numWorkers → ∀ i, i < T w →
        Occurs o.codec st.currentStep T payload w i (deliveries (polled ++ [batch]))) ∧
      ∃ merged frame, pollOnce o st c polled (.ok batch) =
        advance { st with retryCount := 0 } merged frame) ∨
    (¬(∀ w, w < o.numWorkers → ∀ i, i < T w →
        Occurs o.codec st.currentStep T payload w i (deliveries (polled ++ [batch]))) ∧
      ∃ c', pollOnce o st c polled (.ok batch) =
        { st with phase := .collecting c' (polled ++ [batch]) }) := by
  obtain ⟨_, sofar, _⟩ := inv c polled here
  obtain ⟨c', all⟩ := stream_processed positive commits stream
  have processed : processBatch o.codec st.currentStep c batch = .ok c' := by
    rw [deliveries_append, process_append_ok sofar, deliveries_singleton,
      ← process_batch_flatten] at all
    exact all
  simp only [pollOnce, processed]
  rw [← enough_iff positive stream all]
  by_cases enough : o.numWorkers ≤ c'.updates.length
  · left
    refine ⟨enough, ?_⟩
    have known : ∀ k, k ∈ c'.updates → k ∈ o.grid.workerBounds := by
      intro k member
      obtain ⟨w, below, rfl⟩ := stream_keys stream all k member
      rw [mem_iff_keys, grid_keys]
      exact List.mem_map_of_mem (List.mem_range.mpr below)
    obtain ⟨merged, merge⟩ : ∃ merged, mergeWithBoundsCheck o.grid c'.updates = .ok merged :=
      ⟨_, (merge_ok_iff _ _ _).mpr ⟨known, rfl⟩⟩
    have showable : ∀ p ∈ merged, Frameable p := by
      intro p member
      obtain ⟨k, us, entry, inside⟩ := mem_merged merge member
      obtain ⟨w, below, rfl⟩ := stream_keys stream all k ((mem_iff_get? _ _).mpr ⟨us, entry⟩)
      rw [stream_joined positive stream all below ((mem_iff_get? _ _).mpr ⟨us, entry⟩),
        Option.some.injEq] at entry
      subst entry
      obtain ⟨i, hi, sent⟩ := List.mem_flatMap.mp inside
      exact shown w i p below (List.mem_range.mp hi) sent
    obtain ⟨frame, built⟩ := (build_frame_ok_iff o.dt merged st.currentStep).mpr showable
    refine ⟨merged, frame, ?_⟩
    simp only [enough, ↓reduceIte, finishAttempt, Nat.not_lt.mpr enough, merge, built]
  · exact Or.inr ⟨enough, c', by simp only [enough, ↓reduceIte]⟩

end Streams

/-- One worker and the sample particle. -/
def sampleOrchestrator : Orchestrator Rat where
  codec := sampleCodec
  numWorkers := 1
  boxSize := 1
  root := 1
  grid := gridOf 1 1 1
  dt := 1 / 100
  workers := Nat.le_refl 1
  rounded := Nat.le_refl 1
  built := init_ok 1 1 (Nat.le_refl 1)

/-- The first attempt has distributed the sample particle and polled nothing. -/
def sampleCollecting : State Rat :=
  startAttempt (.initial [sampleParticle]) none

theorem sample_collecting_reachable :
    Reachable sampleOrchestrator [sampleParticle] sampleCollecting :=
  ⟨[.distribute none], rfl⟩

theorem sample_frameable : Frameable sampleParticle where
  position := by decide
  velocity := by decide
  acceleration := by decide

theorem sample_advances : ∃ merged frame,
    step sampleOrchestrator sampleCollecting (.poll (.ok sampleBatch)) =
      some (advance { sampleCollecting with retryCount := 0 } merged frame) := by
  have occurs : ∀ w, w < 1 → ∀ i, i < 1 → Occurs sampleCodec 0 (fun _ => 1)
      (fun _ _ => [sampleParticle]) w i (deliveries sampleBatches) := by
    intro w hw i hi
    obtain rfl : w = 0 := by omega
    obtain rfl : i = 0 := by omega
    exact ⟨_, List.mem_cons_self, update_message_chunk sampleCodec 0 0 0 1
      (one_text_restores sampleText [sampleParticle] (Nat.le_refl 1))⟩
  have outcome := poll_stream (collecting_reachable sample_collecting_reachable) rfl
    (fun _ _ => Nat.le_refl 1) (sample_committed : Committed (deliveries ([] ++ [sampleBatch])))
    sample_stream (fun _ _ p _ _ member => by
      rw [List.mem_singleton.mp member]
      exact sample_frameable)
  rcases outcome with ⟨_, merged, frame, ran⟩ | ⟨missing, _⟩
  · exact ⟨merged, frame, congrArg some ran⟩
  · exact absurd occurs missing

end AttemptCollection

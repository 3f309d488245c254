import SpaceCube.Orchestrator.AttemptCollection

/- A step advances only when every worker has answered it completely within one attempt,
   whatever else is on the topic. -/
namespace CompleteData
open InsertionDict ChunkAssembly PyValue ParticleMessages CollectUpdates WorkerSlots
open ReassemblyRoundTrip MergeAndFrame RunSimulation AttemptCollection
variable {F : Type} [Field F]

/-- Whatever advances the step is a return with enough keys, merged into the particles. -/
theorem advance_returns {o : Orchestrator F} {st st' : State F} {event : Event}
    (ran : step o st event = some st') (advanced : st'.currentStep = st.currentStep + 1) :
    ∃ updates polled, Returns o st event updates polled ∧ o.numWorkers ≤ updates.length ∧
      mergeWithBoundsCheck o.grid updates = .ok st'.particles := by
  cases step_cases ran with
  | completed returned enough merge built => exact ⟨_, _, returned, enough, merge⟩
  | retried returned short =>
    exfalso
    unfold retryOrAbort at advanced
    dsimp only at advanced
    split at advanced <;> simp at advanced
  | _ => simp [raise] at advanced

/-- A validated message of a worker for a step, as it is read. -/
def ReadsFrom (targetStep w : Nat) (d : Delivery) (u : Update) : Prop :=
  validateUpdate d.value targetStep = true ∧ readUpdate d.value = .ok u ∧
    u.worker = Key.ofNat w

/-- All chunks 0..T-1 of a worker are among the messages, with a total T that one of them
    announces, and the list is their payloads in index order. -/
def AssembledFrom (codec : Codec F) (targetStep w : Nat) (ds : List Delivery)
    (particles : List (ParticleData F)) : Prop :=
  ∃ T, 1 ≤ T ∧ (∃ d ∈ ds, ∃ u, ReadsFrom targetStep w d u ∧ u.total.count? = some T) ∧
    ∃ payload : Nat → List (ParticleData F),
      (∀ i, i < T → ∃ d ∈ ds, ∃ u, ReadsFrom targetStep w d u ∧ u.index = Key.ofNat i ∧
        deserializeParticles codec u.data = .ok (payload i)) ∧
      particles = (List.range T).flatMap payload

omit [Field F] in
/-- Any entry of updates is assembled from messages of its worker. -/
theorem entry_assembled {codec : Codec F} {targetStep : Nat} {ds : List Delivery}
    {c : Collector F} (run : processAll codec targetStep .fresh ds = .ok c) {w : Nat}
    {particles : List (ParticleData F)}
    (entry : c.updates.get? (Key.ofNat w) = some particles) :
    AssembledFrom codec targetStep w ds particles := by
  have backed := backed_run (process_projects run (Key.ofNat w))
  obtain ⟨T, positive, ⟨chunk, member, total⟩, payload, all, eq⟩ := backed.finished particles entry
  have reads : ∀ chunk ∈ chunksFor codec targetStep (Key.ofNat w) ds,
      ∃ d ∈ ds, ∃ u, ReadsFrom targetStep w d u ∧ chunk = chunkOf codec u := by
    intro chunk member
    obtain ⟨d, hd, sent⟩ := List.mem_filterMap.mp member
    obtain ⟨valid, u, read, worker, same⟩ := chunkFor_some sent
    exact ⟨d, hd, u, ⟨valid, read, worker⟩, same⟩
  refine ⟨T, positive, ?_, payload, ?_, eq⟩
  · obtain ⟨d, hd, u, read, rfl⟩ := reads chunk member
    exact ⟨d, hd, u, read, total⟩
  · intro i below
    obtain ⟨piece, sent, index, decoded⟩ := all i below
    obtain ⟨d, hd, u, read, rfl⟩ := reads piece sent
    refine ⟨d, hd, u, read, index, ?_⟩
    cases result : deserializeParticles codec u.data with
    | error e => simp [chunkOf, result] at decoded
    | ok xs =>
      simp only [chunkOf, result, Option.some.injEq] at decoded
      rw [decoded]

/-- A step advances only on complete data: the keys of the updates it merges are exactly
    the workers, and each worker's entry is assembled from messages of that attempt. -/
theorem advance_complete (o : Orchestrator F) (initial : List (ParticleData F))
    (st st' : State F) (event : Event) (reached : Reachable o initial st)
    (ran : step o st event = some st') (advanced : st'.currentStep = st.currentStep + 1) :
    ∃ updates polled, Returns o st event updates polled ∧
      collectUpdates o.codec o.numWorkers st.currentStep (polled.map Except.ok) =
        .ok ⟨updates, polled⟩ ∧
      mergeWithBoundsCheck o.grid updates = .ok st'.particles ∧
      (∀ k, k ∈ updates ↔ ∃ w, w < o.numWorkers ∧ k = Key.ofNat w) ∧
      ∀ w, w < o.numWorkers → ∃ particles, updates.get? (Key.ofNat w) = some particles ∧
        AssembledFrom o.codec st.currentStep w (deliveries polled) particles := by
  obtain ⟨updates, polled, returned, enough, merge⟩ := advance_returns ran advanced
  obtain ⟨call, c, all, rfl⟩ := returns_collected (collecting_reachable reached) returned
  have keys : ∀ k, k ∈ c.updates ↔ ∃ w, w < o.numWorkers ∧ k = Key.ofNat w := by
    intro k
    rw [mem_iff_keys, (merged_keys merge enough).mem_iff]
    simp only [List.mem_map, List.mem_range]
    exact exists_congr fun w => and_congr_right fun _ => eq_comm
  refine ⟨c.updates, polled, returned, call, merge, keys, ?_⟩
  intro w below
  obtain ⟨particles, entry⟩ := (mem_iff_get? _ _).mp ((keys _).mpr ⟨w, below, rfl⟩)
  exact ⟨particles, entry, entry_assembled all entry⟩

theorem sample_advance_complete :
    ∃ st' updates polled particles,
      step sampleOrchestrator sampleCollecting (.poll (.ok sampleBatch)) = some st' ∧
      updates.get? (Key.ofNat 0) = some particles ∧
      AssembledFrom sampleCodec 0 0 (deliveries polled) particles ∧
      Returns sampleOrchestrator sampleCollecting (.poll (.ok sampleBatch)) updates polled := by
  obtain ⟨merged, frame, ran⟩ := sample_advances
  obtain ⟨updates, polled, returned, _, _, _, entries⟩ := advance_complete sampleOrchestrator
    [sampleParticle] sampleCollecting _ _ sample_collecting_reachable ran rfl
  obtain ⟨particles, entry, assembled⟩ := entries 0 Nat.one_pos
  exact ⟨_, updates, polled, particles, ran, entry, assembled, returned⟩

end CompleteData

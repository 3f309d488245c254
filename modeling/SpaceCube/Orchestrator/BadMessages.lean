import SpaceCube.Orchestrator.MergeOwnership
import SpaceCube.Orchestrator.StepMachine

/- Which messages end the simulation. The validation asks for four fields and for nothing
   in them, so the rest of the loop depends on their content, message by message. -/
namespace BadMessages
open InsertionDict PyValue ParticleMessages CollectUpdates WorkerSlots MergeAndFrame
open MergeOwnership ReassemblyRoundTrip RunSimulation AttemptCollection StepMachine

section Message
variable {F : Type}

/-- Both ids can be dictionary keys, and the payload is Base64 text. -/
structure Readable (data : Json) : Prop where
  worker : ∃ k, (data.item "worker_id").bind Json.hashKey = .ok k
  index : ∃ k, (data.item "chunk_index").bind Json.hashKey = .ok k
  updates : ∃ bytes, (data.item "updates").bind b64decode = .ok bytes

def bufferFor (c : Collector F) (u : Update) : ChunkBuffer F :=
  (c.chunksBuffer.get? u.worker).getD (.opened u.total)

/-- A new chunk decodes; and if the chunks are then as many as the total says, the total is
    a count and they are those from 0 on. -/
structure Absorbed (codec : Codec F) (buffer : ChunkBuffer F) (u : Update) : Prop where
  decodes : u.index ∉ buffer.chunks →
    ∃ particles, deserializeParticles codec u.data = .ok particles
  gapless : u.total.equalsNat (buffer.received + if u.index ∈ buffer.chunks then 0 else 1) = true →
    ∃ T, u.total.count? = some T ∧
      ∀ i, i < T → Key.ofNat i = u.index ∨ Key.ofNat i ∈ buffer.chunks

/-- The message is skipped or goes through, in the state the collector is in. -/
def Harmless (codec : Codec F) (targetStep : Nat) (c : Collector F) (d : Delivery) : Prop :=
  validateUpdate d.value targetStep = true → Readable d.value ∧
    ∀ u, readUpdate d.value = .ok u → Absorbed codec (bufferFor c u) u

/-- Each message in the state that those before it have left. -/
def AllHarmless (codec : Codec F) (targetStep : Nat) : Collector F → List Delivery → Prop
  | _, [] => True
  | c, d :: ds => Harmless codec targetStep c d ∧
    ∀ c', processDelivery codec targetStep c d = .ok c' → AllHarmless codec targetStep c' ds

/-- A valid message has the required fields. -/
theorem valid_fields {data : Json} {targetStep : Nat}
    (valid : validateUpdate data targetStep = true) {field : String}
    (required : field ∈ requiredFields) : ∃ v, data.item field = .ok v := by
  unfold validateUpdate at valid
  split at valid
  · rename_i fields
    have all : (requiredFields.all fun field => (lookup fields field).isSome) = true := by
      split at valid
      · split at valid
        · cases item : Json.item (.obj fields) "step" with
          | error e => simp [item] at valid
          | ok j =>
            cases number : j.toInt with
            | error e => simp [item, number] at valid
            | ok n =>
              simp only [item, number, Bool.and_eq_true] at valid
              exact valid.2
        · contradiction
      · contradiction
    have present := List.all_eq_true.mp all field required
    obtain ⟨v, found⟩ := Option.isSome_iff_exists.mp present
    exact ⟨v, by simp only [Json.item, found]⟩
  · contradiction

theorem read_ok_iff {data : Json} {targetStep : Nat}
    (valid : validateUpdate data targetStep = true) :
    (∃ u, readUpdate data = .ok u) ↔ Readable data := by
  obtain ⟨w, worker⟩ := valid_fields valid (by decide : "worker_id" ∈ requiredFields)
  obtain ⟨i, index⟩ := valid_fields valid (by decide : "chunk_index" ∈ requiredFields)
  obtain ⟨t, total⟩ := valid_fields valid (by decide : "total_chunks" ∈ requiredFields)
  obtain ⟨f, updates⟩ := valid_fields valid (by decide : "updates" ∈ requiredFields)
  have parts : Readable data ↔ (∃ k, w.hashKey = .ok k) ∧ (∃ k, i.hashKey = .ok k) ∧
      ∃ bytes, b64decode f = .ok bytes := by
    constructor
    · rintro ⟨first, second, third⟩
      rw [worker] at first
      rw [index] at second
      rw [updates] at third
      exact ⟨first, second, third⟩
    · rintro ⟨first, second, third⟩
      exact ⟨by rw [worker]; exact first, by rw [index]; exact second,
        by rw [updates]; exact third⟩
  rw [parts]
  simp only [readUpdate, worker, index, total, updates, bind, Except.bind]
  cases b64decode f with
  | error e => simp
  | ok bytes =>
    cases w.hashKey with
    | error e => simp
    | ok k => cases i.hashKey <;> simp [pure, Except.pure]

theorem store_ok_iff (codec : Codec F) (buffer : ChunkBuffer F) (u : Update) :
    (∃ stored, storeChunk codec buffer u none = .ok stored) ↔ (u.index ∉ buffer.chunks →
      ∃ particles, deserializeParticles codec u.data = .ok particles) := by
  unfold storeChunk
  split
  · rename_i present
    exact iff_of_true ⟨_, rfl⟩ fun absent => absurd present absent
  · rename_i absent
    cases deserializeParticles codec u.data with
    | error e => simp [absent]
    | ok particles => simp

theorem store_contents {codec : Codec F} {buffer stored : ChunkBuffer F} {u : Update}
    (run : storeChunk codec buffer u none = .ok stored) :
    stored.received = buffer.received + (if u.index ∈ buffer.chunks then 0 else 1) ∧
      ∀ k, k ∈ stored.chunks ↔ k = u.index ∨ k ∈ buffer.chunks := by
  unfold storeChunk at run
  split at run
  · rename_i present
    obtain rfl := Except.ok.inj run
    refine ⟨by rw [if_pos present, Nat.add_zero], fun k => ?_⟩
    constructor
    · exact Or.inr
    · rintro (rfl | member)
      · exact present
      · exact member
  · rename_i absent
    split at run
    · contradiction
    · obtain rfl := Except.ok.inj run
      refine ⟨by rw [if_neg absent]; rfl, fun k => ?_⟩
      exact mem_set buffer.chunks u.index k _

theorem join_ok_iff (chunks : Dict Key (List (ParticleData F))) (n : Nat) :
    (∃ all, joinChunks chunks n = .ok all) ↔ ∀ i, i < n → Key.ofNat i ∈ chunks := by
  induction n with
  | zero => exact iff_of_true ⟨_, rfl⟩ fun i below => absurd below (Nat.not_lt_zero i)
  | succ n ih =>
    rw [Nat.forall_lt_succ_right, ← ih, mem_iff_get?, joinChunks]
    cases joinChunks chunks n with
    | error e => simp
    | ok all => cases chunks.get? (Key.ofNat n) <;> simp

theorem check_ok_iff (c : Collector F) (u : Update) (buffer : ChunkBuffer F) :
    (∃ c', checkComplete c u buffer = .ok c') ↔ (u.total.equalsNat buffer.received = true →
      ∃ T, u.total.count? = some T ∧ ∀ i, i < T → Key.ofNat i ∈ buffer.chunks) := by
  unfold checkComplete
  by_cases full : u.total.equalsNat buffer.received = true
  · rw [if_pos full]
    cases range : u.total.rangeStop with
    | error e =>
      refine iff_of_false (by simp) fun gapless => ?_
      obtain ⟨T, counted, _⟩ := gapless full
      rw [count_range counted] at range
      contradiction
    | ok stop =>
      obtain ⟨_, counted⟩ := equals_range_count full range
      have same := count_range counted
      rw [range, Except.ok.injEq] at same
      subst same
      have joined := join_ok_iff buffer.chunks buffer.received
      constructor
      · rintro ⟨c', run⟩ _
        refine ⟨_, counted, joined.mp ?_⟩
        cases all : joinChunks buffer.chunks buffer.received with
        | error e => simp [all] at run
        | ok xs => exact ⟨xs, rfl⟩
      · intro gapless
        obtain ⟨T, again, chunks⟩ := gapless full
        obtain rfl := Option.some.inj (counted.symm.trans again)
        obtain ⟨xs, all⟩ := joined.mpr chunks
        dsimp only
        rw [all]
        exact ⟨_, rfl⟩
  · rw [if_neg full]
    exact iff_of_true ⟨_, rfl⟩ fun yes => absurd yes full

theorem process_update_ok_iff (codec : Codec F) (c : Collector F) (u : Update) :
    (∃ c', processUpdate codec c u none = .ok c') ↔ Absorbed codec (bufferFor c u) u := by
  have storing := store_ok_iff codec (bufferFor c u) u
  cases store : storeChunk codec (bufferFor c u) u none with
  | error e =>
    have failed : processUpdate codec c u none = .error e := by
      simp only [bufferFor] at store
      simp only [processUpdate, store]
    rw [store] at storing
    rw [failed]
    refine iff_of_false (by simp) fun absorbed => ?_
    obtain ⟨_, wrong⟩ := storing.mpr absorbed.decodes
    contradiction
  | ok stored =>
    have checked : processUpdate codec c u none = checkComplete c u stored := by
      simp only [bufferFor] at store
      simp only [processUpdate, store]
    obtain ⟨received, members⟩ := store_contents store
    rw [store] at storing
    have decodes := storing.mp ⟨_, rfl⟩
    rw [checked, check_ok_iff, received]
    simp only [members]
    exact ⟨fun gapless => ⟨decodes, gapless⟩, Absorbed.gapless⟩

theorem process_ok_iff (codec : Codec F) (targetStep : Nat) (c : Collector F) {d : Delivery}
    (commit : d.commitError = none) :
    (∃ c', processDelivery codec targetStep c d = .ok c') ↔ Harmless codec targetStep c d := by
  unfold processDelivery Harmless
  by_cases valid : validateUpdate d.value targetStep = true
  · rw [if_pos valid, commit]
    have reading := read_ok_iff valid
    cases read : readUpdate d.value with
    | error e =>
      rw [read] at reading
      refine iff_of_false (by simp) fun harmless => ?_
      obtain ⟨u, wrong⟩ := reading.mpr (harmless valid).1
      contradiction
    | ok u =>
      rw [read] at reading
      have readable := reading.mp ⟨u, rfl⟩
      dsimp only
      rw [process_update_ok_iff]
      constructor
      · intro absorbed _
        refine ⟨readable, fun u' same => ?_⟩
        obtain rfl := Except.ok.inj same
        exact absorbed
      · intro harmless
        exact (harmless valid).2 u rfl
  · rw [if_neg valid]
    exact iff_of_true ⟨_, rfl⟩ fun yes => absurd yes valid

theorem all_ok_iff (codec : Codec F) (targetStep : Nat) (c : Collector F) {ds : List Delivery}
    (commits : Committed ds) :
    (∃ c', processAll codec targetStep c ds = .ok c') ↔ AllHarmless codec targetStep c ds := by
  induction ds generalizing c with
  | nil => exact iff_of_true ⟨c, rfl⟩ trivial
  | cons d ds ih =>
    have one := process_ok_iff codec targetStep c (commits d List.mem_cons_self)
    have rest := fun c' => ih c' fun e member => commits e (List.mem_cons_of_mem d member)
    rw [AllHarmless, ← one]
    cases first : processDelivery codec targetStep c d with
    | error e =>
      rw [process_cons_error first]
      exact iff_of_false (by simp) (by simp)
    | ok c' =>
      rw [process_cons_ok first, rest c']
      constructor
      · intro harmless
        refine ⟨⟨c', rfl⟩, fun c'' same => ?_⟩
        obtain rfl := Except.ok.inj same
        exact harmless
      · rintro ⟨_, harmless⟩
        exact harmless c' rfl

/-- The merge keeps exactly the last reports. -/
theorem mem_merged_iff {grid : WorkerBounds.GridManager F}
    {updates : Dict Key (List (ParticleData F))} {merged : List (ParticleData F)}
    (run : mergeWithBoundsCheck grid updates = .ok merged) (p : ParticleData F) :
    p ∈ merged ↔ ∃ id, lastOf id (updates.entries.flatMap Prod.snd) = some p := by
  obtain ⟨_, rfl⟩ := (merge_ok_iff grid updates merged).mp run
  rw [mem_values_iff]
  refine exists_congr fun id => ?_
  rw [get?_setAll, get?_empty, Option.or_none]
  rfl

end Message

section Simulation
variable {F : Type} [Field F]

/-- Every key is a worker, and the last report of every id has three coordinates of each
    kind. -/
structure Mergeable (o : Orchestrator F) (updates : Dict Key (List (ParticleData F))) :
    Prop where
  known : ∀ k, k ∈ updates → ∃ w, w < o.numWorkers ∧ k = Key.ofNat w
  shown : ∀ id p, lastOf id (updates.entries.flatMap Prod.snd) = some p → Frameable p

/-- The batch goes through message by message, and if it completes the collection, so do
    the merge and the frame. -/
structure HarmlessPoll (o : Orchestrator F) (st : State F) (c : Collector F) (batch : Batch) :
    Prop where
  messages : AllHarmless o.codec st.currentStep c batch.flatten
  merge : ∀ c', processBatch o.codec st.currentStep c batch = .ok c' →
    o.numWorkers ≤ c'.updates.length → Mergeable o c'.updates

def NotRaised (st : State F) : Prop := ∀ e, st.phase ≠ .left (.raised e)

theorem known_iff (o : Orchestrator F) (k : Key) :
    k ∈ o.grid.workerBounds ↔ ∃ w, w < o.numWorkers ∧ k = Key.ofNat w := by
  rw [mem_iff_keys, grid_keys, List.mem_map]
  simp only [List.mem_range]
  exact exists_congr fun w => and_congr_right fun _ => eq_comm

theorem finish_raises_iff (o : Orchestrator F) (st : State F)
    {updates : Dict Key (List (ParticleData F))} (enough : o.numWorkers ≤ updates.length) :
    NotRaised (finishAttempt o st updates) ↔ Mergeable o updates := by
  unfold finishAttempt
  rw [if_neg (Nat.not_lt.mpr enough)]
  dsimp only
  cases merge : mergeWithBoundsCheck o.grid updates with
  | error e =>
    refine iff_of_false (fun fine => fine e rfl) fun mergeable => ?_
    have ok := (merge_ok_iff o.grid updates _).mpr
      ⟨fun k member => (known_iff o k).mpr (mergeable.known k member), rfl⟩
    rw [merge] at ok
    contradiction
  | ok merged =>
    have known := ((merge_ok_iff o.grid updates merged).mp merge).1
    have framing := build_frame_ok_iff o.dt merged st.currentStep
    dsimp only
    cases built : buildFrameData o.dt merged st.currentStep with
    | error e =>
      rw [built] at framing
      refine iff_of_false (fun fine => fine e rfl) fun mergeable => ?_
      obtain ⟨_, wrong⟩ := framing.mpr fun p member => by
        obtain ⟨id, last⟩ := (mem_merged_iff merge p).mp member
        exact mergeable.shown id p last
      contradiction
    | ok frame =>
      have shown := framing.mp ⟨frame, built⟩
      refine iff_of_true (fun e => by simp [advance]) ?_
      exact ⟨fun k member => (known_iff o k).mp (known k member),
        fun id p last => shown p ((mem_merged_iff merge p).mpr ⟨id, last⟩)⟩

theorem poll_raises_iff (o : Orchestrator F) (st : State F) (c : Collector F)
    (polled : List Batch) {batch : Batch} (commits : Committed batch.flatten) :
    NotRaised (pollOnce o st c polled (.ok batch)) ↔ HarmlessPoll o st c batch := by
  have through := all_ok_iff o.codec st.currentStep c commits
  rw [← process_batch_flatten] at through
  unfold pollOnce
  dsimp only
  cases processed : processBatch o.codec st.currentStep c batch with
  | error e =>
    rw [processed] at through
    refine iff_of_false (fun fine => fine e rfl) fun harmless => ?_
    obtain ⟨_, wrong⟩ := through.mpr harmless.messages
    contradiction
  | ok c' =>
    have messages := through.mp ⟨c', processed⟩
    have only : HarmlessPoll o st c batch ↔
        (o.numWorkers ≤ c'.updates.length → Mergeable o c'.updates) := by
      constructor
      · intro harmless
        exact harmless.merge c' processed
      · intro merge
        refine ⟨messages, fun c'' same => ?_⟩
        obtain rfl := Except.ok.inj (processed.symm.trans same)
        exact merge
    rw [only]
    dsimp only
    by_cases enough : o.numWorkers ≤ c'.updates.length
    · rw [if_pos enough, finish_raises_iff o st enough]
      exact ⟨fun mergeable _ => mergeable, fun mergeable => mergeable enough⟩
    · rw [if_neg enough]
      exact iff_of_true (fun e => by simp) fun yes => absurd yes enough

/-- Kafka answers every call of the event. -/
def Untroubled : Event → Prop
  | .distribute failure => failure = none
  | .poll (.ok batch) => Committed batch.flatten
  | .poll (.error _) => False
  | _ => True

/-- A step in which Kafka does not fail and any batch polled is harmless. -/
def HarmlessStep (o : Orchestrator F) (st st' : State F) : Prop :=
  ∃ event, step o st event = some st' ∧ Untroubled event ∧
    ∀ c polled batch, st.phase = .collecting c polled → event = .poll (.ok batch) →
      HarmlessPoll o st c batch

omit [Field F] in
theorem start_not_raised (st : State F) :
    NotRaised (startAttempt st none) := by
  intro e
  unfold startAttempt
  split
  · split <;> simp
  · simp

omit [Field F] in
theorem retry_not_raised (st : State F) : NotRaised (retryOrAbort st) := by
  intro e
  unfold retryOrAbort
  dsimp only
  split <;> simp

theorem harmless_step {o : Orchestrator F} {st st' : State F} (collecting : Collecting o st)
    (fine : NotRaised st) (moved : HarmlessStep o st st') : NotRaised st' := by
  obtain ⟨event, ran, untroubled, harmless⟩ := moved
  cases step_turn ran with
  | distribute failure here =>
    rw [show failure = none from untroubled]
    exact start_not_raised st
  | @poll c polled result here =>
    cases result with
    | error e => exact untroubled.elim
    | ok batch =>
      exact (poll_raises_iff o st c polled untroubled).mpr (harmless c polled batch here rfl)
  | @timeUp c polled here =>
    obtain ⟨short, _⟩ := collecting c polled here
    rw [finishAttempt, if_pos short]
    exact retry_not_raised st
  | shutdown => exact fine
  | sender sent =>
    rcases sender_moves sent with ⟨sender, rfl⟩ | ⟨frame, rest, _, rfl⟩
    · exact fine
    · exact fine

theorem harmless_run {o : Orchestrator F} {initial : List (ParticleData F)} {st : State F}
    (ran : Relation.ReflTransGen (HarmlessStep o) (.initial initial) st) :
    Reachable o initial st ∧ NotRaised st := by
  induction ran with
  | refl => exact ⟨⟨[], rfl⟩, fun e => by simp [State.initial]⟩
  | tail _ moved ih =>
    obtain ⟨reached, fine⟩ := ih
    refine ⟨?_, harmless_step (collecting_reachable reached) fine moved⟩
    obtain ⟨event, ran, _⟩ := moved
    exact reachable_step reached ran

/-- No message ends the simulation along a run of harmless polls; and a poll that Kafka
    answers raises, in the collection, the merge or the frame, unless it is harmless. -/
theorem bad_messages (o : Orchestrator F) (initial : List (ParticleData F)) :
    (∀ st, Relation.ReflTransGen (HarmlessStep o) (.initial initial) st → NotRaised st) ∧
    ∀ st st' c polled batch, st.phase = .collecting c polled → Committed batch.flatten →
      step o st (.poll (.ok batch)) = some st' →
      (NotRaised st' ↔ HarmlessPoll o st c batch) := by
  refine ⟨fun st ran => (harmless_run ran).2, ?_⟩
  intro st st' c polled batch here commits ran
  simp only [step, here, Option.some.injEq] at ran
  rw [← ran]
  exact poll_raises_iff o st c polled commits

end Simulation

/-- The sample's reply, delivered twice, is harmless. -/
theorem sample_harmless : ∃ st, st.currentStep = 1 ∧ NotRaised st ∧
    Relation.ReflTransGen (HarmlessStep sampleOrchestrator) (.initial [sampleParticle]) st := by
  obtain ⟨merged, frame, ran⟩ := sample_advances
  have commits : Committed sampleBatch.flatten := by
    have all := sample_committed
    rwa [sampleBatches, deliveries_singleton] at all
  have harmless := ((bad_messages sampleOrchestrator [sampleParticle]).2 _ _ .fresh [] sampleBatch
    rfl commits ran).mp (fun e => by simp [advance])
  have whole : Relation.ReflTransGen (HarmlessStep sampleOrchestrator) (.initial [sampleParticle])
      (advance { sampleCollecting with retryCount := 0 } merged frame) := by
    refine .tail (.single ⟨.distribute none, rfl, rfl, fun c polled batch here => ?_⟩)
      ⟨_, ran, commits, fun c polled batch here same => ?_⟩
    · simp [State.initial] at here
    · obtain ⟨rfl, rfl⟩ := Phase.collecting.inj here
      obtain rfl := Except.ok.inj (Event.poll.inj same)
      exact harmless
  exact ⟨_, rfl, (bad_messages sampleOrchestrator [sampleParticle]).1 _ whole, whole⟩

/-- A single chunk that calls itself the second of one, and a reply of a worker that does
    not exist: both are valid, and both end the simulation. -/
theorem message_ends_simulation :
    (Runs.run (step sampleOrchestrator) (.initial [sampleParticle]) [.distribute none,
      .poll (.ok [[⟨updateMessage sampleCodec 0 0 1 1 [sampleParticle], none⟩]])]).map
        State.phase = some (.left (.raised (.keyError (Key.ofNat 0)))) ∧
    (Runs.run (step sampleOrchestrator) (.initial [sampleParticle]) [.distribute none,
      .poll (.ok [[⟨updateMessage sampleCodec 5 0 0 1 [sampleParticle], none⟩]])]).map
        State.phase = some (.left (.raised (.keyError (Key.ofNat 5)))) := by
  have restores := one_text_restores sampleText [sampleParticle] (Nat.le_refl 1)
  have polled : ∀ batch, (Runs.run (step sampleOrchestrator) (.initial [sampleParticle])
      [.distribute none, .poll (.ok batch)]) =
        some (pollOnce sampleOrchestrator sampleCollecting .fresh [] (.ok batch)) := fun _ => rfl
  constructor
  · have chunk := update_message_chunk sampleCodec 0 0 1 1 restores
    obtain ⟨bytes, read, decoded⟩ := chunk_read chunk
    have failed : processDelivery sampleCodec 0 .fresh
        ⟨updateMessage sampleCodec 0 0 1 1 [sampleParticle], none⟩ =
          .error (.keyError (Key.ofNat 0)) := by
      simp only [processDelivery, chunk.valid, ↓reduceIte, read, processUpdate, storeChunk, decoded]
      rfl
    have all : processBatch sampleOrchestrator.codec sampleCollecting.currentStep .fresh
        [[⟨updateMessage sampleCodec 0 0 1 1 [sampleParticle], none⟩]] = _ :=
      (process_batch_flatten sampleCodec 0 .fresh _).trans (process_cons_error failed)
    rw [polled, pollOnce, all]
    rfl
  · have entered : processDelivery sampleCodec 0 .fresh
        ⟨updateMessage sampleCodec 5 0 0 1 [sampleParticle], none⟩ = _ :=
      whole_reply (update_message_chunk sampleCodec 5 0 0 1 restores) rfl .empty
    have all : processBatch sampleOrchestrator.codec sampleCollecting.currentStep .fresh
        [[⟨updateMessage sampleCodec 5 0 0 1 [sampleParticle], none⟩]] = _ :=
      (process_batch_flatten sampleCodec 0 .fresh _).trans (process_cons_ok entered)
    rw [polled, pollOnce, all]
    rfl

end BadMessages

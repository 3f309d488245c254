import SpaceCube.Orchestrator.StepMachine

/- The orchestrator with its workers and the messages in flight. A message once sent may be
   polled never, once or many times, in any order and in any later attempt or step. -/
namespace WorkerReplies
open InsertionDict ChunkAssembly PyValue ParticleMessages CollectUpdates
open ReassemblyRoundTrip MergeAndFrame RunSimulation AttemptCollection StepMachine
variable {F : Type} [Field F]

structure WorkerReply (F : Type) where
  step : Nat
  worker : Nat
  chunks : List (List (ParticleData F))

/-- The replies given and every message ever put on particle_updates. -/
structure World (F : Type) where
  sim : State F
  replies : List (WorkerReply F)
  sent : List Json

def World.initial (particles : List (ParticleData F)) : World F := ⟨.initial particles, [], []⟩

/-- The replies that a worker may give to a step's particle list. It may answer the attempts
    of one step differently. -/
abbrev Answering (F : Type) :=
  Nat → Nat → List (ParticleData F) → List (List (ParticleData F)) → Prop

/-- A worker's fixed chunking of its answer to a step's particle list. -/
abbrev Replying (F : Type) := Nat → Nat → List (ParticleData F) → List (List (ParticleData F))

def fixed (reply : Replying F) : Answering F := fun targetStep worker particles chunks =>
  chunks = reply targetStep worker particles

/-- The orchestrator moves, polling only messages that were sent; or a worker answers a
    distribution, perhaps one it has answered before. -/
inductive WorldStep (o : Orchestrator F) (answers : Answering F) (w : World F) :
    World F → Prop where
  | orchestrate (event : Event) {sim : State F}
    (polled : ∀ batch, event = .poll (.ok batch) → ∀ d ∈ batch.flatten, d.value ∈ w.sent)
    (ran : step o w.sim event = some sim) : WorldStep o answers w { w with sim := sim }
  | answer {targetStep worker : Nat} {particles : List (ParticleData F)}
    {chunks : List (List (ParticleData F))} {message : Nat → Json}
    (asked : (targetStep, particles) ∈ w.sim.distributed) (below : worker < o.numWorkers)
    (given : answers targetStep worker particles chunks)
    (framed : ∀ i, i < chunks.length →
      IsChunk o.codec targetStep worker i chunks.length (chunks.getD i []) (message i)) :
    WorldStep o answers w
      { w with
        replies := w.replies ++ [⟨targetStep, worker, chunks⟩]
        sent := w.sent ++ (List.range chunks.length).map message }

structure Answered (o : Orchestrator F) (answers : Answering F)
    (initial : List (ParticleData F)) (w : World F) : Prop where
  history : History o initial w.sim
  collecting : Collecting o w.sim
  asked : ∀ e ∈ w.sim.distributed, (initial :: w.sim.merges)[e.1]? = some e.2
  replied : ∀ r ∈ w.replies, r.worker < o.numWorkers ∧ ∃ particles,
    (r.step, particles) ∈ w.sim.distributed ∧ answers r.step r.worker particles r.chunks
  sent : ∀ m ∈ w.sent, ∃ r ∈ w.replies, ∃ i, i < r.chunks.length ∧
    IsChunk o.codec r.step r.worker i r.chunks.length (r.chunks.getD i []) m
  polled : ∀ c polled, w.sim.phase = .collecting c polled →
    ∀ d ∈ deliveries polled, d.value ∈ w.sent

theorem answered_initial (o : Orchestrator F) (answers : Answering F)
    (initial : List (ParticleData F)) : Answered o answers initial (.initial initial) where
  history := history_initial o initial
  collecting := collecting_elsewhere (by simp [World.initial, State.initial])
  asked := by simp [World.initial, State.initial]
  replied := by simp [World.initial]
  sent := by simp [World.initial]
  polled := by simp [World.initial, State.initial]

/-- A step keeps the distributions and adds at most that of the current list. -/
theorem distributed_step {o : Orchestrator F} {st st' : State F} {event : Event}
    (ran : step o st event = some st') :
    st'.distributed = st.distributed ∨
      st'.distributed = st.distributed ++ [(st.currentStep, st.particles)] := by
  cases step_cases ran with
  | start here distributed sent => exact sent
  | failed live distributed sent interrupted retryCount e => exact sent
  | retried returned short =>
    left
    unfold retryOrAbort
    dsimp only
    split <;> rfl
  | _ => exact Or.inl rfl

theorem merges_step {o : Orchestrator F} {st st' : State F} {event : Event}
    (ran : step o st event = some st') : ∃ more, st'.merges = st.merges ++ more := by
  rcases step_untouched ran with same | ⟨_, _, merged, frame, _, _, _, _, rfl⟩
  · exact ⟨[], by rw [same.merges, List.append_nil]⟩
  · exact ⟨[merged], rfl⟩

/-- The batches of a collection under way come from earlier polls and from this one. -/
theorem polled_step {o : Orchestrator F} {st st' : State F} {event : Event}
    (ran : step o st event = some st') {c : Collector F} {polled : List Batch}
    (here : st'.phase = .collecting c polled) {d : Delivery} (hd : d ∈ deliveries polled) :
    (∃ c₀ polled₀, st.phase = .collecting c₀ polled₀ ∧ d ∈ deliveries polled₀) ∨
      ∃ batch, event = .poll (.ok batch) ∧ d ∈ batch.flatten := by
  cases step_cases ran with
  | start _ distributed sent =>
    obtain ⟨_, rfl⟩ := Phase.collecting.inj here
    simp [deliveries] at hd
  | gathered before processed short =>
    obtain ⟨_, rfl⟩ := Phase.collecting.inj here
    rw [deliveries_append, deliveries_singleton] at hd
    rcases List.mem_append.mp hd with old | new
    · exact Or.inl ⟨_, _, before, old⟩
    · exact Or.inr ⟨_, rfl, new⟩
  | retried returned short => exact absurd here (retry_phase st c polled)
  | stop before => exact absurd here (by simp)
  | failed live distributed sent interrupted retryCount e => exact absurd here (by simp [raise])
  | completed returned enough merge built => exact absurd here (by simp [advance])
  | shutdown => exact Or.inl ⟨c, polled, here, hd⟩
  | sender phase => exact Or.inl ⟨c, polled, here, hd⟩
  | taken queued => exact Or.inl ⟨c, polled, here, hd⟩

theorem answered_orchestrate {o : Orchestrator F} {answers : Answering F}
    {initial : List (ParticleData F)} {w : World F} (inv : Answered o answers initial w)
    {event : Event} {sim : State F}
    (polled : ∀ batch, event = .poll (.ok batch) → ∀ d ∈ batch.flatten, d.value ∈ w.sent)
    (ran : step o w.sim event = some sim) :
    Answered o answers initial { w with sim := sim } where
  history := history_step ran inv.collecting inv.history
  collecting := collecting_step ran inv.collecting
  asked := by
    obtain ⟨more, merges⟩ := merges_step ran
    have kept : ∀ e ∈ w.sim.distributed, (initial :: sim.merges)[e.1]? = some e.2 := by
      intro e member
      have before := inv.asked e member
      obtain ⟨below, _⟩ := List.getElem?_eq_some_iff.mp before
      rw [merges, ← List.cons_append, List.getElem?_append_left below]
      exact before
    have current : (initial :: sim.merges)[w.sim.currentStep]? = some w.sim.particles := by
      have before := inv.history.list
      obtain ⟨below, _⟩ := List.getElem?_eq_some_iff.mp before
      rw [merges, ← List.cons_append, List.getElem?_append_left below]
      exact before
    intro e member
    rcases distributed_step ran with same | grown
    · rw [same] at member
      exact kept e member
    · rw [grown] at member
      rcases List.mem_append.mp member with old | new
      · exact kept e old
      · rw [List.mem_singleton.mp new]
        exact current
  replied := by
    intro r member
    obtain ⟨below, particles, asked, eq⟩ := inv.replied r member
    refine ⟨below, particles, ?_, eq⟩
    rcases distributed_step ran with same | grown
    · rw [same]
      exact asked
    · rw [grown]
      exact List.mem_append_left _ asked
  sent := inv.sent
  polled := by
    intro c batches here d hd
    rcases polled_step ran here hd with ⟨c₀, polled₀, before, old⟩ | ⟨batch, asked, new⟩
    · exact inv.polled c₀ polled₀ before d old
    · exact polled batch asked d new

theorem answered_step {o : Orchestrator F} {answers : Answering F}
    {initial : List (ParticleData F)} {w w' : World F} (moved : WorldStep o answers w w')
    (inv : Answered o answers initial w) : Answered o answers initial w' := by
  cases moved with
  | orchestrate event polled ran => exact answered_orchestrate inv polled ran
  | @answer targetStep worker particles chunks message asked below given framed =>
    refine ⟨inv.history, inv.collecting, inv.asked, ?_, ?_, ?_⟩
    · intro r member
      rcases List.mem_append.mp member with old | new
      · exact inv.replied r old
      · rw [List.mem_singleton.mp new]
        exact ⟨below, particles, asked, given⟩
    · intro m member
      rcases List.mem_append.mp member with old | new
      · obtain ⟨r, replied, rest⟩ := inv.sent m old
        exact ⟨r, List.mem_append_left _ replied, rest⟩
      · obtain ⟨i, hi, rfl⟩ := List.mem_map.mp new
        exact ⟨_, List.mem_append_right _ (List.mem_singleton.mpr rfl), i,
          List.mem_range.mp hi, framed i (List.mem_range.mp hi)⟩
    · intro c polled here d hd
      exact List.mem_append_left _ (inv.polled c polled here d hd)

/-- A reply to the current step answers the current particle list. -/
theorem reply_current {o : Orchestrator F} {answers : Answering F}
    {initial : List (ParticleData F)} {w : World F} (inv : Answered o answers initial w)
    {r : WorkerReply F} (replied : r ∈ w.replies) (current : r.step = w.sim.currentStep) :
    answers w.sim.currentStep r.worker w.sim.particles r.chunks := by
  obtain ⟨_, particles, asked, given⟩ := inv.replied r replied
  have found := inv.asked _ asked
  rw [current, inv.history.list] at found
  obtain rfl := Option.some.inj found
  rwa [current] at given

/-- Whatever was sent and is valid for the current step is a chunk of a reply to the current
    particle list: stale messages of other steps are not valid. -/
theorem sent_current {o : Orchestrator F} {answers : Answering F}
    {initial : List (ParticleData F)} {w : World F} (inv : Answered o answers initial w) {m : Json}
    (member : m ∈ w.sent) (valid : validateUpdate m w.sim.currentStep = true) :
    ∃ worker chunks i, worker < o.numWorkers ∧
      answers w.sim.currentStep worker w.sim.particles chunks ∧ i < chunks.length ∧
      IsChunk o.codec w.sim.currentStep worker i chunks.length (chunks.getD i []) m := by
  obtain ⟨r, replied, i, hi, chunk⟩ := inv.sent m member
  have current := validate_step chunk.valid valid
  rw [current] at chunk
  exact ⟨r.worker, r.chunks, i, (inv.replied r replied).1, reply_current inv replied current, hi,
    chunk⟩

/-- Every delivery that is valid for the current step is a chunk of the list of chunks that
    is chosen for its worker. -/
def ChunksOf (o : Orchestrator F) (st : State F) (chosen : Nat → List (List (ParticleData F)))
    (ds : List Delivery) : Prop :=
  ∀ d ∈ ds, validateUpdate d.value st.currentStep = true → ∃ worker i, worker < o.numWorkers ∧
    i < (chosen worker).length ∧ IsChunk o.codec st.currentStep worker i (chosen worker).length
      ((chosen worker).getD i []) d.value

theorem fixed_chunks {o : Orchestrator F} {reply : Replying F} {initial : List (ParticleData F)}
    {w : World F} (inv : Answered o (fixed reply) initial w) {ds : List Delivery}
    (sent : ∀ d ∈ ds, d.value ∈ w.sent) :
    ChunksOf o w.sim (fun worker => reply w.sim.currentStep worker w.sim.particles) ds := by
  intro d hd valid
  obtain ⟨worker, chunks, i, below, given, hi, chunk⟩ := sent_current inv (sent d hd) valid
  obtain rfl : chunks = reply w.sim.currentStep worker w.sim.particles := given
  exact ⟨worker, i, below, hi, chunk⟩

/-- The total that every message of a worker carries. -/
def stepTotal (chosen : Nat → List (List (ParticleData F))) (worker : Nat) : Nat :=
  max 1 (chosen worker).length

omit [Field F] in
theorem total_pos (chosen : Nat → List (List (ParticleData F))) (worker : Nat) :
    1 ≤ stepTotal chosen worker := Nat.le_max_left _ _

theorem chunks_stream {o : Orchestrator F} {st : State F}
    {chosen : Nat → List (List (ParticleData F))} {ds : List Delivery}
    (chunked : ChunksOf o st chosen ds) :
    Stream o.codec o.numWorkers st.currentStep (stepTotal chosen)
      (fun worker i => (chosen worker).getD i []) ds := by
  intro d hd valid
  obtain ⟨worker, i, below, hi, chunk⟩ := chunked d hd valid
  have total : stepTotal chosen worker = (chosen worker).length := by
    unfold stepTotal
    omega
  exact ⟨worker, i, below, by rw [total]; exact hi, by rw [total]; exact chunk⟩

/-- The batches a returning collection has polled are all of sent messages. -/
theorem returns_sent {o : Orchestrator F} {answers : Answering F}
    {initial : List (ParticleData F)} {w : World F} (inv : Answered o answers initial w)
    {event : Event}
    {updates : Dict Key (List (ParticleData F))} {batches : List Batch}
    (returned : Returns o w.sim event updates batches)
    (polled : ∀ batch, event = .poll (.ok batch) → ∀ d ∈ batch.flatten, d.value ∈ w.sent) :
    ∀ d ∈ deliveries batches, d.value ∈ w.sent := by
  intro d hd
  cases returned with
  | timeUp here => exact inv.polled _ _ here d hd
  | enough here processed complete =>
    rw [deliveries_append, deliveries_singleton] at hd
    rcases List.mem_append.mp hd with old | new
    · exact inv.polled _ _ here d old
    · exact polled _ rfl d new

/-- When a collection returns with enough entries and is merged, and what it polled of each
    worker is of one list of chunks, the entries are these lists, whole. -/
theorem completed_chunks {o : Orchestrator F} {st : State F} (collecting : Collecting o st)
    {event : Event} {updates : Dict Key (List (ParticleData F))} {batches : List Batch}
    {merged : List (ParticleData F)} (returned : Returns o st event updates batches)
    {chosen : Nat → List (List (ParticleData F))}
    (chunked : ChunksOf o st chosen (deliveries batches))
    (enough : o.numWorkers ≤ updates.length)
    (merge : mergeWithBoundsCheck o.grid updates = .ok merged) :
    updates.entries.Perm ((List.range o.numWorkers).map fun worker =>
      (Key.ofNat worker, (chosen worker).flatten)) := by
  obtain ⟨_, c, all, rfl⟩ := returns_collected collecting returned
  have stream := chunks_stream chunked
  have positive : ∀ worker, worker < o.numWorkers → 1 ≤ stepTotal chosen worker :=
    fun worker _ => total_pos chosen worker
  have keys := merged_keys merge enough
  apply entries_perm keys
  intro worker member
  have below := List.mem_range.mp member
  have done : Key.ofNat worker ∈ c.updates :=
    keys.mem_iff.mpr (List.mem_map_of_mem member)
  -- chunk 0 was polled, so the list is not empty and its length is the total
  obtain ⟨d, hd, chunk⟩ := (stream_done_iff positive stream all below).mp done 0
    (positive worker below)
  obtain ⟨v, i, _, hi, given⟩ := chunked d hd chunk.valid
  obtain ⟨rfl, rfl, total, _⟩ := chunk_unique chunk given
  rw [stream_joined positive stream all below done, total]
  exact congrArg some (joined_getD _)

/-- With fixed replies the entries are the whole replies to the current particle list. -/
theorem completed_replies {o : Orchestrator F} {reply : Replying F}
    {initial : List (ParticleData F)} {w : World F} (inv : Answered o (fixed reply) initial w)
    {event : Event} {updates : Dict Key (List (ParticleData F))} {batches : List Batch}
    {merged : List (ParticleData F)} (returned : Returns o w.sim event updates batches)
    (polled : ∀ batch, event = .poll (.ok batch) → ∀ d ∈ batch.flatten, d.value ∈ w.sent)
    (enough : o.numWorkers ≤ updates.length)
    (merge : mergeWithBoundsCheck o.grid updates = .ok merged) :
    updates.entries.Perm ((List.range o.numWorkers).map fun worker =>
      (Key.ofNat worker, (reply w.sim.currentStep worker w.sim.particles).flatten)) :=
  completed_chunks inv.collecting returned (fixed_chunks inv (returns_sent inv returned polled))
    enough merge

/-- The sample particle is distributed, answered once and polled twice. -/
def sampleAsked : World Rat := ⟨sampleCollecting, [], []⟩

def sampleAnswered : World Rat :=
  ⟨sampleCollecting, [⟨0, 0, [[sampleParticle]]⟩],
    [updateMessage sampleCodec 0 0 0 1 [sampleParticle]]⟩

section Sample
variable {answers : Answering Rat}

theorem sample_asked : WorldStep sampleOrchestrator answers (.initial [sampleParticle])
    sampleAsked := .orchestrate (.distribute none) (by simp) rfl

theorem sample_answered (echoes : answers 0 0 [sampleParticle] [[sampleParticle]]) :
    WorldStep sampleOrchestrator answers sampleAsked sampleAnswered := by
  let message := fun i => updateMessage sampleCodec 0 0 i 1 [sampleParticle]
  have framed : ∀ i, i < [[sampleParticle]].length → IsChunk sampleOrchestrator.codec 0 0 i
      [[sampleParticle]].length ([[sampleParticle]].getD i []) (message i) := by
    intro i below
    obtain rfl : i = 0 := Nat.lt_one_iff.mp below
    exact update_message_chunk sampleCodec 0 0 0 1
      (one_text_restores sampleText [sampleParticle] (Nat.le_refl 1))
  exact .answer (List.mem_singleton.mpr rfl) Nat.one_pos echoes framed

theorem sample_polled : ∀ batch, Event.poll (.ok sampleBatch) = .poll (.ok batch) →
    ∀ d ∈ batch.flatten, d.value ∈ sampleAnswered.sent := by
  intro batch same d hd
  obtain rfl := Except.ok.inj (Event.poll.inj same)
  rw [sample_delivery (d := d) (by simpa [sampleBatches, deliveries] using hd)]
  exact List.mem_singleton.mpr rfl

end Sample

end WorkerReplies

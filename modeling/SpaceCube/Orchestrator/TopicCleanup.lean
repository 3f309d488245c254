import SpaceCube.Library.FallibleState
import SpaceCube.Library.TracedAssembly
import SpaceCube.Orchestrator.AttemptBuffers
import SpaceCube.Orchestrator.WorkerReplies

/- The clean-up of the topics before a run, and what of earlier runs can still enter the
   updates. Step numbers start at 0 in every run and no message names its run. -/
namespace TopicCleanup
open InsertionDict ChunkAssembly PyValue ParticleMessages CollectUpdates WorkerSlots
open ReassemblyRoundTrip RunSimulation AttemptCollection

section Admin

inductive Topic where
  | kernelUpdates
  | simulationControl
  | particleUpdates
  | particleChunks
  deriving DecidableEq

def topicsConfig : List Topic :=
  [.kernelUpdates, .simulationControl, .particleUpdates, .particleChunks]

inductive AdminErr where
  | unknownTopicOrPartition
  | topicAlreadyExists
  | other

/-- particle_updates: its messages, how many of them the consumer group has committed, and
    its retention.ms. -/
structure Broker where
  messages : List Json
  committed : Nat
  retention : Nat

/-- What a consumer of the group can read: all from the newest commit on. -/
def Broker.readable (b : Broker) : List Json := b.messages.drop b.committed

def lowRetention : Nat := 1000

def standardRetention : Nat := 604800000

def Broker.deleted (b : Broker) (topics : List Topic) : Broker :=
  if .particleUpdates ∈ topics then ⟨[], 0, standardRetention⟩ else b

def Broker.altered (b : Broker) (topic : Topic) (retention : Nat) : Broker :=
  if topic = .particleUpdates then { b with retention := retention } else b

/-- After the wait of 20 seconds, what is past a lowered retention has been deleted. -/
def Broker.waited (b : Broker) : Broker :=
  if b.retention ≤ lowRetention then ⟨[], 0, b.retention⟩ else b

/-- What each admin call raises, if anything. -/
structure Admin where
  delete : Option AdminErr
  create : Option AdminErr
  alter : Topic → Nat → Option AdminErr

abbrev AdminM := ExceptT AdminErr (StateM Broker)

/-- A call that fails leaves the broker as it is. -/
def call (raised : Option AdminErr) (effect : Broker → Broker) : AdminM Unit :=
  match raised with
  | some e => throw e
  | none => modify effect

def recreateKafkaTopics (a : Admin) : AdminM Unit :=
  try
    try
      call a.delete (·.deleted topicsConfig)
      modify Broker.waited
    catch
      | .unknownTopicOrPartition => pure ()
      | e => throw e
    call a.create id
  catch _ => pure ()

def alterRetention (a : Admin) (retention : Nat) : List Topic → AdminM Unit
  | [] => pure ()
  | topic :: rest => do
    call (a.alter topic retention) (·.altered topic retention)
    alterRetention a retention rest

def purgeTopics (a : Admin) : AdminM Unit :=
  try
    alterRetention a lowRetention topicsConfig
    modify Broker.waited
    alterRetention a standardRetention topicsConfig
  catch _ => pure ()

/-- Both clean-ups, the first in the constructor and the second at the head of run. -/
def cleanUp (a : Admin) (b : Broker) : Broker :=
  ((recreateKafkaTopics a *> purgeTopics a).run.run b).2

/-- The topics were deleted, or the retention of all of them was lowered. -/
def Cleaned (a : Admin) : Prop :=
  a.delete = none ∨ ∀ topic ∈ topicsConfig, a.alter topic lowRetention = none

/-- The program ends with this result and leaves the broker so. -/
def Ran (x : AdminM Unit) (b : Broker) (result : Except AdminErr Unit) (b' : Broker) : Prop :=
  x.run.run b = (result, b')

theorem ran_bind_ok {x y : AdminM Unit} {b b' b'' : Broker} {result : Except AdminErr Unit}
    (first : Ran x b (.ok ()) b') (second : Ran y b' result b'') :
    Ran (do x; y) b result b'' := FallibleState.ran_bind_ok first second

theorem ran_bind_error {x y : AdminM Unit} {b b' : Broker} {e : AdminErr}
    (first : Ran x b (.error e) b') : Ran (do x; y) b (.error e) b' :=
  FallibleState.ran_bind_error _ first

theorem ran_catch_ok {x : AdminM Unit} {handler : AdminErr → AdminM Unit} {b b' : Broker}
    (body : Ran x b (.ok ()) b') : Ran (tryCatch x handler) b (.ok ()) b' :=
  FallibleState.ran_catch_ok handler body

theorem ran_catch_error {x : AdminM Unit} {handler : AdminErr → AdminM Unit} {b b' b'' : Broker}
    {e : AdminErr} {result : Except AdminErr Unit} (body : Ran x b (.error e) b')
    (handled : Ran (handler e) b' result b'') : Ran (tryCatch x handler) b result b'' :=
  FallibleState.ran_catch_error body handled

/-- The same messages can be read. -/
structure Kept (b b' : Broker) : Prop where
  messages : b'.messages = b.messages
  committed : b'.committed = b.committed

theorem kept_refl (b : Broker) : Kept b b := ⟨rfl, rfl⟩

theorem kept_trans {b b' b'' : Broker} (first : Kept b b') (second : Kept b' b'') : Kept b b'' :=
  ⟨second.messages.trans first.messages, second.committed.trans first.committed⟩

theorem altered_kept (b : Broker) (topic : Topic) (retention : Nat) :
    Kept b (b.altered topic retention) := by
  unfold Broker.altered
  split
  · exact ⟨rfl, rfl⟩
  · exact kept_refl b

/-- Changes of the retention leave the messages, and go through when none of them fails. -/
theorem alter_spec (a : Admin) (retention : Nat) (topics : List Topic) (b : Broker) :
    ∃ result b', Ran (alterRetention a retention topics) b result b' ∧ Kept b b' ∧
      (result = .ok () ↔ ∀ topic ∈ topics, a.alter topic retention = none) ∧
      (result = .ok () → b.retention = retention ∨ .particleUpdates ∈ topics →
        b'.retention = retention) := by
  induction topics generalizing b with
  | nil => exact ⟨.ok (), b, rfl, kept_refl b, by simp, by simp⟩
  | cons topic rest ih =>
    cases raised : a.alter topic retention with
    | some e =>
      refine ⟨.error e, b, ran_bind_error ?_, kept_refl b, by simp [raised], by simp⟩
      rw [raised]
      rfl
    | none =>
      obtain ⟨result, b', ran, kept, ok, lowered⟩ := ih (b.altered topic retention)
      refine ⟨result, b', ran_bind_ok ?_ ran, kept_trans (altered_kept b topic retention) kept,
        by simp [raised, ok], fun fine lower => lowered fine ?_⟩
      · rw [raised]
        rfl
      · unfold Broker.altered
        split
        · exact Or.inl rfl
        · rename_i other
          exact lower.imp_right fun here => (List.mem_cons.mp here).resolve_left (Ne.symm other)

theorem purge_spec (a : Admin) (b : Broker) : ∃ b', Ran (purgeTopics a) b (.ok ()) b' ∧
    ((∀ topic ∈ topicsConfig, a.alter topic lowRetention = none) → b'.messages = []) ∧
    ((¬ ∀ topic ∈ topicsConfig, a.alter topic lowRetention = none) → Kept b b') := by
  obtain ⟨result, b₁, lowering, kept, ok, low⟩ := alter_spec a lowRetention topicsConfig b
  cases result with
  | error e =>
    have failed : ¬ ∀ topic ∈ topicsConfig, a.alter topic lowRetention = none :=
      fun fine => by cases ok.mpr fine
    exact ⟨b₁, ran_catch_error (ran_bind_error lowering) rfl, fun fine => absurd fine failed,
      fun _ => kept⟩
  | ok =>
    have fine := ok.mp rfl
    have gone : b₁.waited.messages = [] := by
      rw [Broker.waited, low rfl (Or.inr (by decide)), if_pos (Nat.le_refl _)]
    obtain ⟨result, b₂, restoring, same, _, _⟩ :=
      alter_spec a standardRetention topicsConfig b₁.waited
    have whole := ran_bind_ok lowering (ran_bind_ok (x := modify Broker.waited) rfl restoring)
    have empty : b₂.messages = [] := same.messages.trans gone
    cases result with
    | error e =>
      exact ⟨b₂, ran_catch_error whole rfl, fun _ => empty, fun failed => absurd fine failed⟩
    | ok => exact ⟨b₂, ran_catch_ok whole, fun _ => empty, fun failed => absurd fine failed⟩

theorem create_kept (raised : Option AdminErr) (b : Broker) :
    ∃ result, Ran (call raised id) b result b := by
  cases raised with
  | some e => exact ⟨.error e, rfl⟩
  | none => exact ⟨.ok (), rfl⟩

theorem recreate_spec (a : Admin) (b : Broker) : ∃ b', Ran (recreateKafkaTopics a) b (.ok ()) b' ∧
    (a.delete = none → b'.messages = []) ∧ (a.delete ≠ none → Kept b b') := by
  unfold recreateKafkaTopics
  -- what the inner handler lets through goes on to the creation, whose errors are dropped
  have created : ∀ (x : AdminM Unit) (b' : Broker), Ran x b (.ok ()) b' →
      Ran (tryCatch (do x; call a.create id) fun _ => pure ()) b (.ok ()) b' := by
    intro x b' first
    obtain ⟨result, ran⟩ := create_kept a.create b'
    cases result with
    | error e => exact ran_catch_error (ran_bind_ok first ran) rfl
    | ok => exact ran_catch_ok (ran_bind_ok first ran)
  cases raised : a.delete with
  | none =>
    exact ⟨_, created _ _ (ran_catch_ok (ran_bind_ok rfl rfl)), fun _ => rfl,
      fun failed => absurd rfl failed⟩
  | some e =>
    have deletion : Ran (do call (some e) (·.deleted topicsConfig); modify Broker.waited) b
        (.error e) b := ran_bind_error rfl
    cases e with
    | unknownTopicOrPartition =>
      exact ⟨b, created _ _ (ran_catch_error deletion rfl), by simp, fun _ => kept_refl b⟩
    | topicAlreadyExists =>
      exact ⟨b, ran_catch_error (ran_bind_error (ran_catch_error deletion rfl)) rfl, by simp,
        fun _ => kept_refl b⟩
    | other =>
      exact ⟨b, ran_catch_error (ran_bind_error (ran_catch_error deletion rfl)) rfl, by simp,
        fun _ => kept_refl b⟩

/-- The messages of earlier runs stay readable exactly when neither clean-up succeeds. -/
theorem clean_up_spec (a : Admin) (b : Broker) :
    (Cleaned a → (cleanUp a b).readable = []) ∧
      (¬ Cleaned a → (cleanUp a b).readable = b.readable) := by
  obtain ⟨b₁, recreated, deleted, kept⟩ := recreate_spec a b
  obtain ⟨b₂, purged, lowered, same⟩ := purge_spec a b₁
  have both : cleanUp a b = b₂ := congrArg Prod.snd (ran_bind_ok recreated purged)
  rw [both, Broker.readable, Broker.readable]
  constructor
  · intro cleaned
    have empty : b₂.messages = [] := by
      by_cases low : ∀ topic ∈ topicsConfig, a.alter topic lowRetention = none
      · exact lowered low
      · rw [(same low).messages]
        exact deleted (cleaned.resolve_right low)
    rw [empty, List.drop_nil]
  · intro dirty
    obtain ⟨standing, high⟩ := not_or.mp dirty
    have all := kept_trans (kept standing) (same high)
    rw [all.messages, all.committed]

end Admin

section Runs
variable {F : Type} [Field F]

/-- Where a message on particle_updates comes from: an earlier run, or an answer to this
    run's distribution of a step. -/
inductive Origin where
  | leftover
  | answer (step : Nat)

structure Posted where
  value : Json
  origin : Origin

structure Polled where
  posted : Posted
  commitError : Option PyErr

def Polled.delivery (p : Polled) : Delivery := ⟨p.posted.value, p.commitError⟩

/-- The run with its topic, the messages polled in the attempt under way, and every chunk
    that has entered updates, by step and origin. -/
structure Restart (F : Type) where
  sim : State F
  topic : List Posted
  polled : List Polled
  entered : List (Nat × Origin)

def Restart.start (initial : List (ParticleData F)) (b : Broker) : Restart F :=
  ⟨.initial initial, b.readable.map (⟨·, .leftover⟩), [], []⟩

/-- The messages whose chunks the worker's entry was joined from. -/
def chunkSources (codec : Codec F) (targetStep : Nat) (worker : Key) (polled : List Polled) :
    List Polled :=
  TracedAssembly.sources Key.ofNat (fun p : Polled => chunkFor codec targetStep worker p.delivery)
    polled

def enteredBy (codec : Codec F) (targetStep : Nat) (polled : List Polled) (c : Collector F) :
    List (Nat × Origin) :=
  c.updates.keys.flatMap fun worker =>
    (chunkSources codec targetStep worker polled).map fun p => (targetStep, p.posted.origin)

/-- What updates holds after each message of a batch. -/
def enteredDuring (codec : Codec F) (targetStep : Nat) (before : List Polled) (c : Collector F)
    (batch : List Polled) : List (Nat × Origin) :=
  batch.inits.flatMap fun front =>
    match processAll codec targetStep c (front.map Polled.delivery) with
    | .ok c' => enteredBy codec targetStep (before ++ front) c'
    | .error _ => []

/-- A distribution begins a new attempt. -/
def polledAfter (polled : List Polled) : Event → List Polled
  | .distribute _ => []
  | _ => polled

/-- The orchestrator polls messages of the topic or moves otherwise, or a worker answers a
    distribution with a message for its step. -/
inductive RestartStep (o : Orchestrator F) (w : Restart F) : Restart F → Prop where
  | poll {batch : List (List Polled)} {c : Collector F} {batches : List Batch} {sim : State F}
    (posted : ∀ p ∈ batch.flatten, p.posted ∈ w.topic) (here : w.sim.phase = .collecting c batches)
    (ran : step o w.sim (.poll (.ok (batch.map (·.map Polled.delivery)))) = some sim) :
    RestartStep o w
      { w with
        sim := sim
        polled := w.polled ++ batch.flatten
        entered := w.entered ++
          enteredDuring o.codec w.sim.currentStep w.polled c batch.flatten }
  | other {event : Event} {sim : State F} (silent : ∀ batch, event ≠ .poll (.ok batch))
    (ran : step o w.sim event = some sim) :
    RestartStep o w
      { w with
        sim := sim
        polled := polledAfter w.polled event }
  | answer {targetStep : Nat} {particles : List (ParticleData F)} {message : Json}
    (asked : (targetStep, particles) ∈ w.sim.distributed)
    (names : validateUpdate message targetStep = true) :
    RestartStep o w { w with topic := w.topic ++ [⟨message, .answer targetStep⟩] }

/-- Whatever entered updates for a step was sent in answer to this run's distribution of
    that step. -/
def Fresh (w : Restart F) : Prop := ∀ e ∈ w.entered, e.2 = .answer e.1

/-- The recorded messages are those of the attempt under way. -/
def Tracks (w : Restart F) : Prop :=
  ∀ c batches, w.sim.phase = .collecting c batches →
    deliveries batches = w.polled.map Polled.delivery

/-- Every message of the topic answers a distribution of this run. -/
structure OwnAnswers (w : Restart F) : Prop where
  topic : ∀ p ∈ w.topic, ∃ t, p.origin = .answer t ∧ validateUpdate p.value t = true
  polled : ∀ p ∈ w.polled, p.posted ∈ w.topic
  fresh : Fresh w

omit [Field F] in
/-- An entry is what its sources carry, one after another. -/
theorem entry_sources {codec : Codec F} {targetStep : Nat} {polled : List Polled}
    {c : Collector F}
    (run : processAll codec targetStep .fresh (polled.map Polled.delivery) = .ok c)
    {worker : Key} {particles : List (ParticleData F)}
    (entry : c.updates.get? worker = some particles) :
    particles = (chunkSources codec targetStep worker polled).flatMap
      (TracedAssembly.contents fun p : Polled => chunkFor codec targetStep worker p.delivery) := by
  have projected := process_projects run worker
  rw [chunksFor, List.filterMap_map] at projected
  exact TracedAssembly.joined_sources projected entry

omit [Field F] in
/-- A source was polled and is valid for the step. -/
theorem source_valid {codec : Codec F} {targetStep : Nat} {worker : Key} {polled : List Polled}
    {p : Polled} (source : p ∈ chunkSources codec targetStep worker polled) :
    p ∈ polled ∧ validateUpdate p.posted.value targetStep = true := by
  obtain ⟨member, chunk, carried⟩ := TracedAssembly.mem_sources source
  exact ⟨member, (chunkFor_some carried).1⟩

omit [Field F] in
theorem own_start (initial : List (ParticleData F)) {b : Broker} (empty : b.readable = []) :
    OwnAnswers (Restart.start initial b) where
  topic := by simp [Restart.start, empty]
  polled := by simp [Restart.start]
  fresh := by simp [Fresh, Restart.start]

theorem own_step {o : Orchestrator F} {w w' : Restart F} (inv : OwnAnswers w)
    (moved : RestartStep o w w') : OwnAnswers w' := by
  cases moved with
  | @poll batch c batches sim posted here ran =>
    have polled : ∀ p ∈ w.polled ++ batch.flatten, p.posted ∈ w.topic := by
      intro p member
      rcases List.mem_append.mp member with old | new
      · exact inv.polled p old
      · exact posted p new
    refine ⟨inv.topic, polled, fun e member => ?_⟩
    rcases List.mem_append.mp member with old | new
    · exact inv.fresh e old
    · obtain ⟨front, early, added⟩ := List.mem_flatMap.mp new
      split at added
      · obtain ⟨worker, _, sourced⟩ := List.mem_flatMap.mp added
        obtain ⟨p, source, rfl⟩ := List.mem_map.mp sourced
        obtain ⟨member, valid⟩ := source_valid source
        have prefix_of := (List.mem_inits front batch.flatten).mp early
        obtain ⟨t, origin, names⟩ := inv.topic p.posted (polled p
          (((List.prefix_append_right_inj _).mpr prefix_of).subset member))
        rw [origin, validate_step valid names]
      · exact absurd added List.not_mem_nil
  | @other event sim silent ran =>
    refine ⟨inv.topic, ?_, inv.fresh⟩
    cases event with
    | distribute failure => simp [polledAfter]
    | _ => exact inv.polled
  | @answer targetStep particles message asked names =>
    refine ⟨fun p member => ?_, fun p member => List.mem_append_left _ (inv.polled p member),
      inv.fresh⟩
    rcases List.mem_append.mp member with old | new
    · exact inv.topic p old
    · rw [List.mem_singleton.mp new]
      exact ⟨targetStep, rfl, names⟩

theorem own_run {o : Orchestrator F} {w w' : Restart F} (inv : OwnAnswers w)
    (ran : Relation.ReflTransGen (RestartStep o) w w') : OwnAnswers w' := by
  induction ran with
  | refl => exact inv
  | tail _ moved ih => exact own_step ih moved

theorem finish_phase (o : Orchestrator F) (st : State F)
    (updates : Dict Key (List (ParticleData F))) (c : Collector F) (batches : List Batch) :
    (finishAttempt o st updates).phase ≠ .collecting c batches := by
  unfold finishAttempt
  split
  · exact retry_phase st c batches
  · dsimp only
    split
    · simp [raise]
    · split
      · simp [raise]
      · simp [advance]

theorem poll_phase {o : Orchestrator F} {st : State F} {c c' : Collector F}
    {batches batches' : List Batch} {batch : Batch}
    (here : (pollOnce o st c batches (.ok batch)).phase = .collecting c' batches') :
    batches' = batches ++ [batch] := by
  unfold pollOnce at here
  dsimp only at here
  split at here
  · simp [raise] at here
  · split at here
    · exact absurd here (finish_phase _ _ _ _ _)
    · exact (Phase.collecting.inj here).2.symm

omit [Field F] in
/-- A collection that a distribution leaves under way is a new one. -/
theorem start_collecting {st : State F} {failure : Option Interruption} {c : Collector F}
    {batches : List Batch} (there : (startAttempt st failure).phase = .collecting c batches) :
    batches = [] := by
  unfold startAttempt at there
  split at there
  · split at there
    · exact (Phase.collecting.inj there).2.symm
    · split at there
      · simp [raise] at there
      · exact (Phase.collecting.inj there).2.symm
  · simp at there

/-- Besides a batch, only a distribution begins or changes a collection. -/
theorem other_collecting {o : Orchestrator F} {st st' : State F} {event : Event}
    (silent : ∀ batch, event ≠ .poll (.ok batch)) (ran : step o st event = some st')
    {c : Collector F} {batches : List Batch} (there : st'.phase = .collecting c batches) :
    ((∃ failure, event = .distribute failure) ∧ batches = []) ∨
      st.phase = .collecting c batches ∧ ∀ polled, polledAfter polled event = polled := by
  cases step_turn ran with
  | distribute failure here => exact Or.inl ⟨⟨failure, rfl⟩, start_collecting there⟩
  | poll result here =>
    cases result with
    | error e => simp [pollOnce, raise] at there
    | ok batch => exact absurd rfl (silent batch)
  | timeUp here => exact absurd there (finish_phase _ _ _ _ _)
  | shutdown => exact Or.inr ⟨there, fun _ => rfl⟩
  | sender sent =>
    have kept : st'.phase = st.phase := by
      rcases sender_moves sent with ⟨_, rfl⟩ | ⟨_, _, _, rfl⟩
      · rfl
      · rfl
    refine Or.inr ⟨kept ▸ there, fun polled => ?_⟩
    cases event with
    | distribute failure => simp [senderStep] at sent
    | _ => rfl

theorem tracks_step {o : Orchestrator F} {w w' : Restart F} (tracks : Tracks w)
    (moved : RestartStep o w w') : Tracks w' := by
  cases moved with
  | @poll batch c batches sim posted here ran =>
    simp only [step, here, Option.some.injEq] at ran
    subst ran
    intro c' batches' there
    rw [poll_phase there, deliveries_append, deliveries_singleton, tracks c batches here,
      List.map_append, List.map_flatten]
  | @other event sim silent ran =>
    intro c batches there
    rcases other_collecting silent ran there with ⟨⟨failure, rfl⟩, rfl⟩ | ⟨kept, same⟩
    · rfl
    · rw [tracks c batches kept, same]
  | answer asked names => exact tracks

section Restarts
variable {o : Orchestrator F} {initial : List (ParticleData F)}

theorem restart_reachable {b : Broker} {w : Restart F}
    (ran : Relation.ReflTransGen (RestartStep o) (.start initial b) w) :
    Reachable o initial w.sim ∧ Tracks w := by
  induction ran with
  | refl =>
    refine ⟨⟨[], rfl⟩, fun c batches there => ?_⟩
    simp [Restart.start, State.initial] at there
  | tail _ moved ih =>
    refine ⟨?_, tracks_step ih.2 moved⟩
    cases moved with
    | poll posted here ran => exact reachable_step ih.1 ran
    | other silent ran => exact reachable_step ih.1 ran
    | answer asked names => exact ih.1

/-- In every run, an entry of updates is what the recorded sources carry. -/
theorem entry_content {b : Broker} {w : Restart F}
    (ran : Relation.ReflTransGen (RestartStep o) (.start initial b) w) {c : Collector F}
    {batches : List Batch} (here : w.sim.phase = .collecting c batches) {worker : Key}
    {particles : List (ParticleData F)} (entry : c.updates.get? worker = some particles) :
    particles = (chunkSources o.codec w.sim.currentStep worker w.polled).flatMap
      (TracedAssembly.contents fun p : Polled =>
        chunkFor o.codec w.sim.currentStep worker p.delivery) := by
  obtain ⟨reached, tracks⟩ := restart_reachable ran
  obtain ⟨_, sofar, _⟩ := collecting_reachable reached c batches here
  rw [tracks c batches here] at sofar
  exact entry_sources sofar entry

omit [Field F] in
theorem first_attempt (initial : List (ParticleData F)) : ∃ distributed,
    startAttempt (.initial initial) none =
      { State.initial initial with
        distributed := distributed, phase := .collecting .fresh [] } := by
  cases initial with
  | nil => exact ⟨_, rfl⟩
  | cons p rest => exact ⟨_, rfl⟩

omit [Field F] in
/-- One whole chunk is its own entry's source. -/
theorem whole_source {codec : Codec F} {targetStep w : Nat} {particles : List (ParticleData F)}
    {p : Polled} (chunk : IsChunk codec targetStep w 0 1 particles p.posted.value) :
    chunkSources codec targetStep (Key.ofNat w) [p] = [p] := by
  obtain ⟨bytes, read, decoded⟩ := chunk_read chunk
  have carried : chunkFor codec targetStep (Key.ofNat w) p.delivery =
      some ⟨Key.ofNat 0, some 1, some particles⟩ := by
    rw [chunkFor_read chunk.valid read, if_pos rfl]
    simp [chunkOf, decoded, Json.count?]
  simp only [chunkSources, TracedAssembly.sources, TracedAssembly.traced, List.filterMap_cons,
    carried]
  rfl

/-- A whole reply for step 0 that an earlier run left behind enters updates. -/
theorem leftover_enters (initial : List (ParticleData F)) {message : Json}
    {particles : List (ParticleData F)}
    (chunk : IsChunk o.codec 0 0 0 1 particles message) {b : Broker}
    (left : b.readable = [message]) :
    ∃ w, Relation.ReflTransGen (RestartStep o) (.start initial b) w ∧
      (0, Origin.leftover) ∈ w.entered := by
  let stale : Polled := ⟨⟨message, .leftover⟩, none⟩
  obtain ⟨distributed, begins⟩ := first_attempt initial
  let begun : Restart F := ⟨{ State.initial initial with
    distributed := distributed, phase := .collecting .fresh [] }, [stale.posted], [], []⟩
  have first : RestartStep o (.start initial b) begun := by
    have start : Restart.start initial b = ⟨.initial initial, [stale.posted], [], []⟩ := by
      rw [Restart.start, left]
      rfl
    rw [start]
    have silent : ∀ batch, Event.distribute none ≠ .poll (.ok batch) := by simp
    exact .other silent (congrArg some begins)
  have posted : ∀ p ∈ [[stale]].flatten, p.posted ∈ begun.topic := by simp [begun]
  have second : RestartStep o begun _ := .poll posted rfl rfl
  refine ⟨_, .tail (.single first) second, ?_⟩
  have entered : processAll o.codec begun.sim.currentStep .fresh ([stale].map Polled.delivery) =
      .ok ⟨Dict.empty.set (Key.ofNat 0) particles, .empty⟩ :=
    process_cons_ok (whole_reply chunk rfl .empty)
  have own : chunkSources o.codec begun.sim.currentStep (Key.ofNat 0) [stale] = [stale] :=
    whole_source chunk
  have source : stale ∈ chunkSources o.codec begun.sim.currentStep (Key.ofNat 0) [stale] := by
    rw [own]
    exact List.mem_singleton_self stale
  refine List.mem_flatMap.mpr ⟨[stale], (List.mem_inits _ _).mpr (List.prefix_refl _), ?_⟩
  rw [entered]
  exact List.mem_flatMap.mpr ⟨Key.ofNat 0, List.mem_singleton_self _,
    List.mem_map.mpr ⟨stale, source, rfl⟩⟩

/-- A message without particles, which any worker sends that has none. -/
def emptyMessage : Json :=
  .obj [("type", .str "particle_update"), ("worker_id", .int 0), ("step", .int 0),
    ("chunk_index", .int 0), ("total_chunks", .int 1), ("updates", b64encode [91, 93])]

omit [Field F] in
theorem empty_message_chunk {codec : Codec F} (reads : codec.loads [91, 93] = .ok (.arr [])) :
    IsChunk codec 0 0 0 1 [] emptyMessage where
  valid := rfl
  worker := rfl
  index := rfl
  total := rfl
  payload := ⟨_, [91, 93], rfl, b64decode_b64encode _, by
    simp [deserializeParticles, reads, iterItems, bind, Except.bind, pure, Except.pure]⟩

/-- Whatever earlier runs left on the topic, only answers to this run's own distributions
    enter its updates, exactly when one of the clean-ups succeeded. -/
theorem fresh_iff_cleaned (o : Orchestrator F) (initial : List (ParticleData F))
    (reads : o.codec.loads [91, 93] = .ok (.arr [])) (a : Admin) :
    (∀ b w, Relation.ReflTransGen (RestartStep o) (.start initial (cleanUp a b)) w → Fresh w) ↔
      Cleaned a := by
  constructor
  · intro fresh
    by_contra dirty
    have left : (cleanUp a ⟨[emptyMessage], 0, standardRetention⟩).readable = [emptyMessage] :=
      (clean_up_spec a _).2 dirty
    obtain ⟨w, ran, entered⟩ := leftover_enters initial (empty_message_chunk reads) left
    have answered := fresh _ w ran _ entered
    contradiction
  · intro cleaned b w ran
    exact (own_run (own_start initial ((clean_up_spec a b).1 cleaned)) ran).fresh

end Restarts

end Runs

/-- Every admin call succeeds. -/
def allSucceed : Admin := ⟨none, none, fun _ _ => none⟩

theorem sample_fresh : Cleaned allSucceed ∧ ∀ b w,
    Relation.ReflTransGen (RestartStep AttemptBuffers.twoWorkers)
      (.start [sampleParticle] (cleanUp allSucceed b)) w → Fresh w := by
  have cleaned : Cleaned allSucceed := Or.inl rfl
  exact ⟨cleaned,
    (fresh_iff_cleaned AttemptBuffers.twoWorkers [sampleParticle] rfl allSucceed).mpr cleaned⟩

/-- kernel_updates is missing, particle_updates is not and holds a reply of an earlier run. -/
def missingTopic : Admin where
  delete := some .unknownTopicOrPartition
  create := some .topicAlreadyExists
  alter topic _ := if topic = .kernelUpdates then some .unknownTopicOrPartition else none

/-- The earlier run's particles enter this run's updates for step 0. -/
theorem earlier_run_enters : ∃ b w,
    b.messages = [updateMessage sampleCodec 0 0 0 1 [sampleParticle]] ∧
    Relation.ReflTransGen (RestartStep sampleOrchestrator)
      (.start [sampleParticle] (cleanUp missingTopic b)) w ∧ ¬ Fresh w := by
  let message := updateMessage sampleCodec 0 0 0 1 [sampleParticle]
  have dirty : ¬ Cleaned missingTopic := by
    rintro (deleted | lowered)
    · contradiction
    · have kernel := lowered .kernelUpdates (by decide)
      contradiction
  have left : (cleanUp missingTopic ⟨[message], 0, standardRetention⟩).readable = [message] :=
    (clean_up_spec missingTopic _).2 dirty
  obtain ⟨w, ran, entered⟩ := leftover_enters (o := sampleOrchestrator) [sampleParticle]
    (update_message_chunk sampleCodec 0 0 0 1
      (one_text_restores sampleText [sampleParticle] (Nat.le_refl 1))) left
  refine ⟨⟨[message], 0, standardRetention⟩, w, rfl, ran, fun fresh => ?_⟩
  have answered := fresh _ entered
  contradiction

end TopicCleanup

import SpaceCube.Grid.GridCoverage
import SpaceCube.Orchestrator.AttemptBuffers
import SpaceCube.Orchestrator.WorkerReplies

/- Which particles survive a step. The particles are replaced by whatever the workers
   return, so a particle in nobody's bounds is gone after the next step. -/
namespace Conservation
open InsertionDict BoxGrid PyValue ParticleMessages CollectUpdates
open ReassemblyRoundTrip WorkerBounds GridCoverage MergeAndFrame RunSimulation
open AttemptCollection StepMachine AttemptBuffers WorkerReplies

section Conserved
variable {F : Type} [Field F] [LinearOrder F]

def LocalTo (grid : GridManager F) (worker : Nat) (p : ParticleData F) : Prop :=
  ∃ bounds x y z, getWorkerBounds grid (Key.ofNat worker) = .ok bounds ∧
    p.position = [x, y, z] ∧ Contains bounds (x, y, z)

/-- One update for every particle in the worker's bounds, under the particle's id. -/
structure OneUpdateEach (grid : GridManager F) (worker : Nat)
    (particles updates : List (ParticleData F)) : Prop where
  once : (updates.map ParticleData.id).Nodup
  exactly : ∀ id, id ∈ updates.map ParticleData.id ↔
    ∃ p ∈ particles, LocalTo grid worker p ∧ p.id = id

/-- Every particle lies in the bounds of some worker. -/
def Owned (o : Orchestrator F) (particles : List (ParticleData F)) : Prop :=
  ∀ p ∈ particles, ∃ worker, worker < o.numWorkers ∧ LocalTo o.grid worker p

def SameIds (xs ys : List (ParticleData F)) : Prop :=
  ∀ id, id ∈ xs.map ParticleData.id ↔ id ∈ ys.map ParticleData.id

/-- With a cube of workers, every list inside the box is owned. -/
theorem owned_of_cube [IsStrictOrderedRing F] {o : Orchestrator F} {c : Nat}
    (cube : o.numWorkers = c ^ 3) (exact_root : o.root = ceilCbrt o.numWorkers)
    {particles : List (ParticleData F)}
    (inside : ∀ p ∈ particles, ∃ x y z, p.position = [x, y, z] ∧ InBox o.boxSize (x, y, z)) :
    Owned o particles := by
  have cells : 1 ≤ c := by
    have workers := o.workers
    rcases Nat.eq_zero_or_pos c with rfl | some_cells
    · rw [cube] at workers
      simp at workers
    · exact some_cells
  obtain ⟨grid, built, cover⟩ := cube_covers o.boxSize cells
  rw [← cube, ← exact_root] at built
  obtain rfl := Except.ok.inj (o.built.symm.trans built)
  intro p member
  obtain ⟨x, y, z, position, within⟩ := inside p member
  obtain ⟨worker, bounds, below, got, contains⟩ := cover _ within
  exact ⟨worker, by rwa [cube], bounds, x, y, z, got, position, contains⟩

/-- The workers answer a list with one update for each particle in their bounds, every time
    in any order and any chunks. -/
def updatesEach (o : Orchestrator F) : Answering F := fun _ worker particles chunks =>
  OneUpdateEach o.grid worker particles chunks.flatten

/-- The deliveries of the attempt under way, those of the event included. -/
def attemptDeliveries (st : State F) (event : Event) : List Delivery :=
  let before := match st.phase with
    | .collecting _ polled => polled
    | _ => []
  match event with
  | .poll (.ok batch) => deliveries (before ++ [batch])
  | _ => deliveries before

/-- Of each worker, what the attempt polled for the current step is of one of its replies. -/
def OneReplyEach (o : Orchestrator F) (w : World F) (event : Event) : Prop :=
  ∃ chosen : Nat → List (List (ParticleData F)),
    (∀ worker, worker < o.numWorkers →
      ⟨w.sim.currentStep, worker, chosen worker⟩ ∈ w.replies) ∧
    ChunksOf o w.sim chosen (attemptDeliveries w.sim event)

/-- A move of the system that, if it completes a step, had distributed an owned list and
    polled one reply of each worker. -/
inductive OwnedStep (o : Orchestrator F) (w : World F) : World F → Prop where
  | orchestrate (event : Event) {sim : State F}
    (polled : ∀ batch, event = .poll (.ok batch) → ∀ d ∈ batch.flatten, d.value ∈ w.sent)
    (ran : step o w.sim event = some sim)
    (kept : sim.currentStep = w.sim.currentStep + 1 →
      Owned o w.sim.particles ∧ OneReplyEach o w event) : OwnedStep o w { w with sim := sim }
  | answer {w' : World F} (moved : WorldStep o (updatesEach o) w w') (same : w'.sim = w.sim) :
    OwnedStep o w w'

section Steps
variable {o : Orchestrator F} {initial : List (ParticleData F)} {w : World F}

theorem owned_moves {w' : World F} (moved : OwnedStep o w w') :
    WorldStep o (updatesEach o) w w' := by
  cases moved with
  | orchestrate event polled ran kept => exact .orchestrate event polled ran
  | answer moved same => exact moved

omit [LinearOrder F] in
theorem returns_attempt {st : State F} {event : Event}
    {updates : Dict Key (List (ParticleData F))} {batches : List Batch}
    (returned : Returns o st event updates batches) :
    attemptDeliveries st event = deliveries batches := by
  cases returned with
  | timeUp here => simp only [attemptDeliveries, here]
  | enough here processed complete => simp only [attemptDeliveries, here]

/-- The ids after a completed step are those of the particles that were in somebody's
    bounds. -/
theorem merged_owned (inv : Answered o (updatesEach o) initial w) {event : Event}
    {updates : Dict Key (List (ParticleData F))} {batches : List Batch}
    {merged : List (ParticleData F)} (returned : Returns o w.sim event updates batches)
    (one : OneReplyEach o w event) (enough : o.numWorkers ≤ updates.length)
    (merge : mergeWithBoundsCheck o.grid updates = .ok merged) (id : String) :
    id ∈ merged.map ParticleData.id ↔ ∃ p ∈ w.sim.particles,
      (∃ worker, worker < o.numWorkers ∧ LocalTo o.grid worker p) ∧ p.id = id := by
  obtain ⟨chosen, replied, chunked⟩ := one
  rw [returns_attempt returned] at chunked
  have replies := completed_chunks inv.collecting returned chunked enough merge
  have each : ∀ worker, worker < o.numWorkers →
      OneUpdateEach o.grid worker w.sim.particles (chosen worker).flatten :=
    fun worker below => reply_current inv (replied worker below) rfl
  rw [(merged_ids merge).2]
  constructor
  · rintro ⟨e, entry, p, sent, eq⟩
    obtain ⟨worker, member, rfl⟩ := List.mem_map.mp (replies.mem_iff.mp entry)
    have below := List.mem_range.mp member
    obtain ⟨q, listed, here, same⟩ := ((each worker below).exactly id).mp
      (List.mem_map.mpr ⟨p, sent, eq⟩)
    exact ⟨q, listed, ⟨worker, below, here⟩, same⟩
  · rintro ⟨p, listed, ⟨worker, below, here⟩, eq⟩
    obtain ⟨q, sent, same⟩ := List.mem_map.mp
      (((each worker below).exactly id).mpr ⟨p, listed, here, eq⟩)
    exact ⟨_, replies.mem_iff.mpr (List.mem_map_of_mem (List.mem_range.mpr below)), q, sent, same⟩

/-- A step leaves the particles or replaces them by a merged list with distinct ids. -/
theorem advanced_ids (inv : Answered o (updatesEach o) initial w) {event : Event} {sim : State F}
    (ran : step o w.sim event = some sim) :
    (sim.particles = w.sim.particles ∧ sim.currentStep = w.sim.currentStep) ∨
      (sim.currentStep = w.sim.currentStep + 1 ∧ (sim.particles.map ParticleData.id).Nodup ∧
        (OneReplyEach o w event → ∀ id, id ∈ sim.particles.map ParticleData.id ↔
          ∃ p ∈ w.sim.particles,
            (∃ worker, worker < o.numWorkers ∧ LocalTo o.grid worker p) ∧ p.id = id)) := by
  rcases step_untouched ran with same | ⟨updates, batches, merged, frame, returned, enough,
    merge, built, rfl⟩
  · exact Or.inl ⟨same.particles, same.currentStep⟩
  · exact Or.inr ⟨rfl, (merged_ids merge).1,
      fun one id => merged_owned inv returned one enough merge id⟩

/-- A completed step keeps the ids exactly when every particle it distributed was owned. -/
theorem conserved_iff_owned {xs ys : List (ParticleData F)}
    (nodup : (xs.map ParticleData.id).Nodup)
    (ids : ∀ id, id ∈ ys.map ParticleData.id ↔ ∃ p ∈ xs,
      (∃ worker, worker < o.numWorkers ∧ LocalTo o.grid worker p) ∧ p.id = id) :
    SameIds ys xs ↔ Owned o xs := by
  constructor
  · intro conserved p listed
    obtain ⟨q, listed', here, same⟩ := (ids p.id).mp
      ((conserved p.id).mpr (List.mem_map_of_mem listed))
    obtain rfl := List.inj_on_of_nodup_map nodup listed' listed same
    exact here
  · intro owned id
    refine (ids id).trans ?_
    rw [List.mem_map]
    constructor
    · rintro ⟨p, listed, _, eq⟩
      exact ⟨p, listed, eq⟩
    · rintro ⟨p, listed, eq⟩
      exact ⟨p, listed, owned p listed, eq⟩

end Steps

/-- In every run whose completed steps each distributed an owned list and polled one reply of
    each worker, the ids never change; and the next step to complete with one reply of each
    keeps them only if its list is owned too. -/
theorem particles_conserved (o : Orchestrator F) (initial : List (ParticleData F))
    (start : (initial.map ParticleData.id).Nodup) (w : World F)
    (reached : Relation.ReflTransGen (OwnedStep o) (.initial initial) w) :
    SameIds w.sim.particles initial ∧
    ∀ event sim, step o w.sim event = some sim → sim.currentStep = w.sim.currentStep + 1 →
      OneReplyEach o w event → (SameIds sim.particles initial ↔ Owned o w.sim.particles) := by
  have kept : Answered o (updatesEach o) initial w ∧ (w.sim.particles.map ParticleData.id).Nodup ∧
      SameIds w.sim.particles initial := by
    induction reached with
    | refl => exact ⟨answered_initial o (updatesEach o) initial, start, fun id => Iff.rfl⟩
    | tail _ moved ih =>
      obtain ⟨inv, nodup, same⟩ := ih
      refine ⟨answered_step (owned_moves moved) inv, ?_⟩
      cases moved with
      | answer moved unchanged =>
        rw [unchanged]
        exact ⟨nodup, same⟩
      | orchestrate event polled ran kept =>
        rcases advanced_ids inv ran with ⟨unchanged, _⟩ | ⟨advanced, nodup', ids⟩
        · dsimp only
          rw [unchanged]
          exact ⟨nodup, same⟩
        · obtain ⟨owned, one⟩ := kept advanced
          have before := (conserved_iff_owned nodup (ids one)).mpr owned
          exact ⟨nodup', fun id => (before id).trans (same id)⟩
  obtain ⟨inv, nodup, same⟩ := kept
  refine ⟨same, fun event sim ran advanced one => ?_⟩
  rcases advanced_ids inv ran with ⟨_, unchanged⟩ | ⟨_, _, ids⟩
  · omega
  · rw [← conserved_iff_owned nodup (ids one)]
    exact ⟨fun h id => (h id).trans (same id).symm, fun h id => (h id).trans (same id)⟩

end Conserved

theorem sample_local : LocalTo sampleOrchestrator.grid 0 sampleParticle := by
  refine ⟨⟨(0, 1), (0, 1), (0, 1)⟩, 1 / 2, 1 / 2, 1 / 2, rfl, rfl, ?_⟩
  have half : Holds (0, 1) (1 / 2 : Rat) := by constructor <;> norm_num
  exact ⟨half, half, half⟩

theorem sample_echo : updatesEach sampleOrchestrator 0 0 [sampleParticle] [[sampleParticle]] where
  once := by simp
  exactly := by simp [sample_local, eq_comm]

theorem sample_owned : Owned sampleOrchestrator [sampleParticle] := by
  intro p listed
  rw [List.mem_singleton.mp listed]
  exact ⟨0, Nat.one_pos, sample_local⟩

theorem sample_one_reply :
    OneReplyEach sampleOrchestrator sampleAnswered (.poll (.ok sampleBatch)) := by
  refine ⟨fun _ => [[sampleParticle]], ?_, ?_⟩
  · intro worker below
    obtain rfl : worker = 0 := Nat.lt_one_iff.mp below
    exact List.mem_singleton.mpr rfl
  · intro d hd _
    rw [sample_delivery (d := d) hd]
    exact ⟨0, 0, Nat.one_pos, Nat.one_pos, update_message_chunk sampleCodec 0 0 0 1
      (one_text_restores sampleText [sampleParticle] (Nat.le_refl 1))⟩

theorem sample_conserved : ∃ w : World Rat, w.sim.currentStep = 1 ∧
    SameIds w.sim.particles [sampleParticle] := by
  obtain ⟨merged, frame, ran⟩ := sample_advances
  have asked : OwnedStep sampleOrchestrator (.initial [sampleParticle]) sampleAsked :=
    .orchestrate (.distribute none) (by simp) rfl fun advanced =>
      absurd advanced (Nat.succ_ne_self 0).symm
  have answered : OwnedStep sampleOrchestrator sampleAsked sampleAnswered :=
    .answer (sample_answered sample_echo) rfl
  have advanced : OwnedStep sampleOrchestrator sampleAnswered _ :=
    .orchestrate _ sample_polled ran fun _ => ⟨sample_owned, sample_one_reply⟩
  have reached := ((Relation.ReflTransGen.single asked).tail answered).tail advanced
  exact ⟨_, rfl, (particles_conserved sampleOrchestrator [sampleParticle] (by simp) _ reached).1⟩

/-- A particle in the cell (1, 1, 1), which is none of the two cells handed out. -/
def lostParticle : ParticleData Rat :=
  { sampleParticle with mass := 7 / 10, radius := 8879 / 10000 }

theorem lost_particle_unowned {worker : Nat} (below : worker < 2) :
    ¬ LocalTo twoWorkers.grid worker lostParticle := by
  rintro ⟨bounds, x, y, z, got, position, contains⟩
  obtain ⟨nx, ny, nz, dims, _, _, _, _, _, entries⟩ :=
    grid_spec (1 : Rat) 2 (show 1 ≤ 2 by decide)
  have two : optimizeGridDimensions 2 2 = (2, 2, 2) := exact_dimensions 2
  rw [two, Prod.mk.injEq, Prod.mk.injEq] at dims
  obtain ⟨rfl, rfl, rfl⟩ := dims
  have found := (bounds_ok_iff _ _ _).mp got
  rw [show twoWorkers.grid = gridOf 1 2 2 from rfl, entries worker below,
    Option.some.injEq] at found
  subst found
  have half : x = 1 / 2 := (List.cons.inj position).1.symm
  have first : (digits 2 2 worker).1 = 0 := Nat.div_eq_of_lt (by omega)
  have high := contains.1.2
  simp only [cellBounds, first, half] at high
  norm_num at high

/-- A worker that has no particle in its bounds answers with an empty chunk. -/
theorem lost_reply {worker : Nat} (below : worker < 2) :
    updatesEach twoWorkers 0 worker [lostParticle] [[]] where
  once := by simp
  exactly := by simp [lost_particle_unowned below]

def lostAsked : World Rat := ⟨startAttempt (.initial [lostParticle]) none, [], []⟩

def bothReplies : Batch := [[⟨emptyReply 0, none⟩, ⟨emptyReply 1, none⟩]]

theorem mem_both_replies {d : Delivery} (hd : d ∈ deliveries [bothReplies]) :
    ∃ worker, worker < 2 ∧ d = ⟨emptyReply worker, none⟩ := by
  simp only [deliveries, bothReplies, List.flatten_cons, List.flatten_nil, List.append_nil,
    List.mem_cons, List.not_mem_nil, or_false] at hd
  rcases hd with rfl | rfl
  · exact ⟨0, by decide, rfl⟩
  · exact ⟨1, by decide, rfl⟩

theorem both_replies_complete : ∃ merged frame,
    step twoWorkers lostAsked.sim (.poll (.ok bothReplies)) =
      some (advance { lostAsked.sim with retryCount := 0 } merged frame) := by
  have reached : Reachable twoWorkers [lostParticle] lostAsked.sim := ⟨[.distribute none], rfl⟩
  have commits : Committed (deliveries [bothReplies]) := by
    intro d hd
    obtain ⟨worker, _, rfl⟩ := mem_both_replies hd
    rfl
  have stream : Stream emptyCodec 2 0 (fun _ => 1) (fun _ _ => []) (deliveries [bothReplies]) := by
    intro d hd _
    obtain ⟨worker, below, rfl⟩ := mem_both_replies hd
    exact ⟨worker, 0, below, Nat.one_pos, empty_reply_chunk worker⟩
  have occurs : ∀ worker, worker < 2 → ∀ i, i < 1 → Occurs emptyCodec 0 (fun _ => 1)
      (fun _ _ => []) worker i (deliveries [bothReplies]) := by
    intro worker below i hi
    obtain rfl : i = 0 := by omega
    refine ⟨⟨emptyReply worker, none⟩, ?_, empty_reply_chunk worker⟩
    obtain rfl | rfl : worker = 0 ∨ worker = 1 := by omega
    · exact List.mem_cons_self
    · exact List.mem_cons_of_mem _ List.mem_cons_self
  have outcome := poll_stream (collecting_reachable reached) rfl (fun _ _ => Nat.le_refl 1)
    (commits : Committed (deliveries ([] ++ [bothReplies]))) stream
    (fun _ _ p _ _ member => absurd member List.not_mem_nil)
  rcases outcome with ⟨_, merged, frame, ran⟩ | ⟨missing, _⟩
  · exact ⟨merged, frame, congrArg some ran⟩
  · exact absurd occurs missing

theorem lost_answer (v : World Rat) (worker : Nat) (below : worker < 2)
    (same : v.sim = lostAsked.sim) :
    WorldStep twoWorkers (updatesEach twoWorkers) v
      ⟨v.sim, v.replies ++ [⟨0, worker, [[]]⟩], v.sent ++ [emptyReply worker]⟩ := by
  have asks : (0, [lostParticle]) ∈ v.sim.distributed := by
    rw [same]
    exact List.mem_singleton.mpr rfl
  let message : Nat → Json := fun _ => emptyReply worker
  have framed : ∀ i, i < [([] : List (ParticleData Rat))].length →
      IsChunk twoWorkers.codec 0 worker i [([] : List (ParticleData Rat))].length
        ([[]].getD i []) (message i) := by
    intro i hi
    obtain rfl : i = 0 := Nat.lt_one_iff.mp hi
    exact empty_reply_chunk worker
  exact .answer asks below (lost_reply below) framed

def lostAnswered : World Rat :=
  ⟨lostAsked.sim, [⟨0, 0, [[]]⟩, ⟨0, 1, [[]]⟩], [emptyReply 0, emptyReply 1]⟩

theorem lost_polled : ∀ batch, Event.poll (.ok bothReplies) = .poll (.ok batch) →
    ∀ d ∈ batch.flatten, d.value ∈ lostAnswered.sent := by
  intro batch same d hd
  obtain rfl := Except.ok.inj (Event.poll.inj same)
  obtain ⟨worker, below, rfl⟩ := mem_both_replies (d := d) (by simpa [deliveries] using hd)
  obtain rfl | rfl : worker = 0 ∨ worker = 1 := by omega
  · exact List.mem_cons_self
  · exact List.mem_cons_of_mem _ List.mem_cons_self

theorem lost_one_reply : OneReplyEach twoWorkers lostAnswered (.poll (.ok bothReplies)) := by
  refine ⟨fun _ => [[]], ?_, ?_⟩
  · intro worker below
    have two : worker < 2 := below
    obtain rfl | rfl : worker = 0 ∨ worker = 1 := by omega
    · exact List.mem_cons_self
    · exact List.mem_cons_of_mem _ List.mem_cons_self
  · intro d hd _
    obtain ⟨worker, below, rfl⟩ := mem_both_replies (d := d) hd
    exact ⟨worker, 0, below, Nat.one_pos, empty_reply_chunk worker⟩

/-- Two workers, one particle in neither's bounds: both answer once, that they have none, the
    step completes and the particle is gone. -/
theorem particle_lost : ∃ w : World Rat,
    Relation.ReflTransGen (WorldStep twoWorkers (updatesEach twoWorkers))
      (.initial [lostParticle]) w ∧
    w.replies = [⟨0, 0, [[]]⟩, ⟨0, 1, [[]]⟩] ∧ w.sim.currentStep = 1 ∧
    lostParticle.id ∉ w.sim.particles.map ParticleData.id := by
  have start : WorldStep twoWorkers (updatesEach twoWorkers) (.initial [lostParticle])
      lostAsked := .orchestrate (.distribute none) (by simp) rfl
  have first := lost_answer lostAsked 0 (by decide) rfl
  have second : WorldStep twoWorkers (updatesEach twoWorkers) _ lostAnswered :=
    lost_answer ⟨lostAsked.sim, [⟨0, 0, [[]]⟩], [emptyReply 0]⟩ 1 (by decide) rfl
  obtain ⟨merged, frame, ran⟩ := both_replies_complete
  have third : WorldStep twoWorkers (updatesEach twoWorkers) lostAnswered _ :=
    .orchestrate _ lost_polled ran
  have before := ((Relation.ReflTransGen.single start).tail first).tail second
  have inv : Answered twoWorkers (updatesEach twoWorkers) [lostParticle] lostAnswered :=
    answered_step second (answered_step first (answered_step start
      (answered_initial twoWorkers _ [lostParticle])))
  refine ⟨_, before.tail third, rfl, rfl, ?_⟩
  rcases advanced_ids inv ran with ⟨_, unchanged⟩ | ⟨_, _, ids⟩
  · exact absurd unchanged (Nat.succ_ne_self 0)
  · intro survived
    obtain ⟨p, listed, ⟨worker, below, here⟩, _⟩ := (ids lost_one_reply _).mp survived
    obtain rfl : p = lostParticle := List.mem_singleton.mp listed
    exact lost_particle_unowned below here

end Conservation

import SpaceCube.Orchestrator.WorkerReplies

/- The asynchronous run against the synchronous simulation, in which all workers answer the
   same list at once and their answers are concatenated. -/
namespace SynchronousRefinement
open InsertionDict PyValue ParticleMessages CollectUpdates ReassemblyRoundTrip
open MergeAndFrame RunSimulation AttemptCollection StepMachine WorkerReplies

section Refinement
variable {F : Type}

/-- One step of the synchronous simulation. -/
def synchronousStep (numWorkers : Nat) (G : Nat → List (ParticleData F) → List (ParticleData F))
    (particles : List (ParticleData F)) : List (ParticleData F) :=
  (List.range numWorkers).flatMap fun worker => G worker particles

variable [Field F]

/-- Each worker's chunks join to its answer, whose order may follow that of the particles
    but whose content does not, and the workers' answers never repeat an id. -/
structure Workers (numWorkers : Nat) (reply : Replying F)
    (G : Nat → List (ParticleData F) → List (ParticleData F)) : Prop where
  chunked : ∀ targetStep worker particles, worker < numWorkers →
    (reply targetStep worker particles).flatten = G worker particles
  permuted : ∀ worker xs ys, worker < numWorkers → xs.Perm ys → (G worker xs).Perm (G worker ys)
  distinct : ∀ particles, (particles.map ParticleData.id).Nodup →
    ((synchronousStep numWorkers G particles).map ParticleData.id).Nodup

omit [Field F] in
theorem synchronous_permuted {numWorkers : Nat} {reply : Replying F}
    {G : Nat → List (ParticleData F) → List (ParticleData F)} (workers : Workers numWorkers reply G)
    {xs ys : List (ParticleData F)} (same : xs.Perm ys) :
    (synchronousStep numWorkers G xs).Perm (synchronousStep numWorkers G ys) := by
  apply List.Perm.flatMap_left
  intro worker member
  exact workers.permuted worker xs ys (List.mem_range.mp member) same

omit [Field F] in
theorem synchronous_distinct {numWorkers : Nat} {reply : Replying F}
    {G : Nat → List (ParticleData F) → List (ParticleData F)} (workers : Workers numWorkers reply G)
    {initial : List (ParticleData F)} (start : (initial.map ParticleData.id).Nodup) (k : Nat) :
    (((synchronousStep numWorkers G)^[k] initial).map ParticleData.id).Nodup := by
  induction k with
  | zero => exact start
  | succ k ih =>
    rw [Function.iterate_succ_apply']
    exact workers.distinct _ ih

/-- The k-th list of the run is the k-th list of the synchronous simulation, reordered. -/
def Synced (o : Orchestrator F) (G : Nat → List (ParticleData F) → List (ParticleData F))
    (initial : List (ParticleData F)) (st : State F) : Prop :=
  ∀ (k : Nat) (particles : List (ParticleData F)), (initial :: st.merges)[k]? = some particles →
    particles.Perm ((synchronousStep o.numWorkers G)^[k] initial)

/-- What completes a step is the synchronous step of the list it distributed. -/
theorem merged_synchronous {o : Orchestrator F} {reply : Replying F}
    {G : Nat → List (ParticleData F) → List (ParticleData F)} {initial : List (ParticleData F)}
    {w : World F} (workers : Workers o.numWorkers reply G)
    (inv : Answered o (fixed reply) initial w)
    (nodup : (w.sim.particles.map ParticleData.id).Nodup) {event : Event}
    {updates : Dict Key (List (ParticleData F))} {batches : List Batch}
    {merged : List (ParticleData F)} (returned : Returns o w.sim event updates batches)
    (polled : ∀ batch, event = .poll (.ok batch) → ∀ d ∈ batch.flatten, d.value ∈ w.sent)
    (enough : o.numWorkers ≤ updates.length)
    (merge : mergeWithBoundsCheck o.grid updates = .ok merged) :
    merged.Perm (synchronousStep o.numWorkers G w.sim.particles) := by
  have replies := (completed_replies inv returned polled enough merge).flatMap_right Prod.snd
  rw [List.flatMap_map] at replies
  have answers : ((List.range o.numWorkers).flatMap fun worker =>
      (reply w.sim.currentStep worker w.sim.particles).flatten) =
        synchronousStep o.numWorkers G w.sim.particles := by
    simp only [synchronousStep, List.flatMap]
    congr 1
    apply List.map_congr_left
    intro worker member
    exact workers.chunked _ _ _ (List.mem_range.mp member)
  rw [answers] at replies
  have ids := (replies.map ParticleData.id).nodup_iff.mpr (workers.distinct _ nodup)
  rw [merged_concat merge ids]
  exact replies

theorem synced_step {o : Orchestrator F} {reply : Replying F}
    {G : Nat → List (ParticleData F) → List (ParticleData F)} {initial : List (ParticleData F)}
    {w w' : World F} (workers : Workers o.numWorkers reply G)
    (start : (initial.map ParticleData.id).Nodup) (moved : WorldStep o (fixed reply) w w')
    (inv : Answered o (fixed reply) initial w) (synced : Synced o G initial w.sim) :
    Synced o G initial w'.sim := by
  cases moved with
  | answer asked below given framed => exact synced
  | orchestrate event polled ran =>
    rcases step_untouched ran with same | ⟨updates, batches, merged, frame, returned, enough,
      merge, built, rfl⟩
    · intro k particles listed
      dsimp only at listed
      rw [same.merges] at listed
      exact synced k particles listed
    · have current := synced _ _ inv.history.list
      have nodup := (current.map ParticleData.id).nodup_iff.mpr
        (synchronous_distinct workers start w.sim.currentStep)
      have next := (merged_synchronous workers inv nodup returned polled enough merge).trans
        (synchronous_permuted workers current)
      rw [← Function.iterate_succ_apply' (synchronousStep o.numWorkers G)] at next
      intro k particles listed
      simp only [advance, ← List.cons_append] at listed
      have count := inv.history.count
      rcases Nat.lt_or_ge k (initial :: w.sim.merges).length with old | new
      · rw [List.getElem?_append_left old] at listed
        exact synced k particles listed
      · rw [List.getElem?_append_right new] at listed
        obtain ⟨last, eq⟩ := List.getElem?_eq_some_iff.mp listed
        simp only [List.length_cons, List.length_nil] at last new
        obtain rfl : k = w.sim.currentStep + 1 := by omega
        rw [List.getElem_singleton] at eq
        rwa [← eq]

theorem synced_reachable {o : Orchestrator F} {reply : Replying F}
    {G : Nat → List (ParticleData F) → List (ParticleData F)} {initial : List (ParticleData F)}
    {w : World F} (workers : Workers o.numWorkers reply G)
    (start : (initial.map ParticleData.id).Nodup)
    (reached : Relation.ReflTransGen (WorldStep o (fixed reply)) (.initial initial) w) :
    Answered o (fixed reply) initial w ∧ Synced o G initial w.sim := by
  induction reached with
  | refl =>
    refine ⟨answered_initial o (fixed reply) initial, ?_⟩
    intro k particles listed
    obtain ⟨below, eq⟩ := List.getElem?_eq_some_iff.mp listed
    simp only [World.initial, State.initial, List.length_singleton] at below
    obtain rfl : k = 0 := by omega
    rw [← eq]
    exact List.Perm.refl _
  | tail _ moved ih =>
    exact ⟨answered_step moved ih.1, synced_step workers start moved ih.1 ih.2⟩

/-- Whatever is lost, delayed, duplicated or reordered and however often a step is retried,
    the particles at step s are those of s synchronous steps, and the frame of step s has the
    time of that step and an item for each particle of s + 1 synchronous steps. -/
theorem asynchronous_refines (o : Orchestrator F) (reply : Replying F)
    (G : Nat → List (ParticleData F) → List (ParticleData F)) (initial : List (ParticleData F))
    (workers : Workers o.numWorkers reply G) (start : (initial.map ParticleData.id).Nodup)
    (w : World F)
    (reached : Relation.ReflTransGen (WorldStep o (fixed reply)) (.initial initial) w) :
    w.sim.particles.Perm ((synchronousStep o.numWorkers G)^[w.sim.currentStep] initial) ∧
    ∀ (s : Nat) frame, w.sim.produced[s]? = some frame → frame.t = roundFour (s * o.dt) ∧ ∃ merged,
      merged.Perm ((synchronousStep o.numWorkers G)^[s + 1] initial) ∧
      List.Forall₂ Shows merged frame.particles := by
  obtain ⟨inv, synced⟩ := synced_reachable workers start reached
  refine ⟨synced _ _ inv.history.list, ?_⟩
  intro s frame shown
  obtain ⟨below, _⟩ := List.getElem?_eq_some_iff.mp shown
  rw [inv.history.frames] at below
  obtain ⟨merged, frame', listed, shown', _, built⟩ := inv.history.framed s below
  obtain rfl : frame' = frame := Option.some.inj (shown'.symm.trans shown)
  obtain ⟨time, shows⟩ := (build_frame_iff o.dt merged s frame').mp built
  exact ⟨time, merged, synced (s + 1) merged (by rwa [List.getElem?_cons_succ]), shows⟩

end Refinement

/-- A single worker that returns its list in one chunk. -/
theorem echo_workers : Workers 1 (fun _ _ particles => [particles])
    (fun _ (particles : List (ParticleData Rat)) => particles) where
  chunked := by simp
  permuted := fun _ _ _ _ same => same
  distinct := by simp [synchronousStep]

theorem sample_refines : ∃ w : World Rat, w.sim.currentStep = 1 ∧
    w.sim.particles.Perm [sampleParticle] ∧
    ∃ frame, w.sim.produced = [frame] ∧ frame.particles.length = 1 := by
  obtain ⟨merged, frame, ran⟩ := sample_advances
  let reply : Replying Rat := fun _ _ particles => [particles]
  have answered : WorldStep sampleOrchestrator (fixed reply) sampleAsked sampleAnswered :=
    sample_answered rfl
  have reached := ((Relation.ReflTransGen.single sample_asked).tail answered).tail
    (WorldStep.orchestrate _ sample_polled ran)
  obtain ⟨list, frames⟩ := asynchronous_refines sampleOrchestrator reply _ [sampleParticle]
    echo_workers (by simp) _ reached
  obtain ⟨_, merged', synced, shows⟩ := frames 0 frame rfl
  refine ⟨_, rfl, list, frame, rfl, ?_⟩
  rw [← shows.length_eq, synced.length_eq]
  rfl

end SynchronousRefinement

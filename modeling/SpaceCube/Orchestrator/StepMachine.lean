import SpaceCube.Orchestrator.AttemptCollection

/- The step counter, the particles, the frames and the retry counter over whole runs. -/
namespace StepMachine
open InsertionDict PyValue ParticleMessages CollectUpdates MergeAndFrame
open ReassemblyRoundTrip RunSimulation AttemptCollection
variable {F : Type}

/-- What a step leaves alone unless it completes an attempt. -/
structure Untouched (st st' : State F) : Prop where
  particles : st'.particles = st.particles
  currentStep : st'.currentStep = st.currentStep
  merges : st'.merges = st.merges
  produced : st'.produced = st.produced
  queue : st'.handed ++ st'.wsQueue = st.handed ++ st.wsQueue

theorem retry_untouched (st : State F) : Untouched st (retryOrAbort st) := by
  unfold retryOrAbort
  dsimp only
  split <;> exact ⟨rfl, rfl, rfl, rfl, rfl⟩

/-- While the loop runs, the retry counter is the length of the run of incomplete attempts
    at the current step, and no step has had more than the limit. -/
structure Retries (st : State F) : Prop where
  steps : ∀ e ∈ st.attempts, e.1 ≤ st.currentStep
  live : (∀ exit, st.phase ≠ .left exit) → st.retryCount ≤ maxRetries ∧
    ∃ front, st.attempts = front ++ List.replicate st.retryCount (st.currentStep, .incomplete) ∧
      (st.currentStep, Outcome.incomplete) ∉ front
  bounded : st.phase ≠ .left .retryLimit →
    ∀ s, st.attempts.count (s, .incomplete) ≤ maxRetries
  aborted : st.phase = .left .retryLimit → ∃ front, st.attempts =
    front ++ List.replicate (maxRetries + 1) (st.currentStep, .incomplete)

theorem attempt_bounded {st : State F} (inv : Retries st) (outcome : Outcome) :
    ∀ e ∈ st.attempts ++ [(st.currentStep, outcome)], e.1 ≤ st.currentStep := by
  intro e member
  rcases List.mem_append.mp member with old | new
  · exact inv.steps e old
  · rw [List.mem_singleton.mp new]

theorem retries_initial (initial : List (ParticleData F)) : Retries (State.initial initial) where
  steps := by simp [State.initial]
  live := fun _ => ⟨Nat.zero_le _, [], rfl, List.not_mem_nil⟩
  bounded := by simp [State.initial]
  aborted := by simp [State.initial]

/-- Moves that end no attempt and leave the loop, if at all, for another reason. -/
theorem retries_same {st st' : State F} (inv : Retries st)
    (attempts : st'.attempts = st.attempts) (current : st'.currentStep = st.currentStep)
    (count : st'.retryCount = st.retryCount)
    (live : (∀ exit, st'.phase ≠ .left exit) → ∀ exit, st.phase ≠ .left exit)
    (limit : st'.phase = .left .retryLimit ↔ st.phase = .left .retryLimit) : Retries st' where
  steps := by
    rw [attempts, current]
    exact inv.steps
  live := by
    rw [attempts, current, count]
    exact fun running => inv.live (live running)
  bounded := by
    rw [attempts]
    exact fun other => inv.bounded fun same => other (limit.mpr same)
  aborted := by
    rw [attempts, current]
    exact fun left => inv.aborted (limit.mp left)

theorem retries_failed {st : State F} (inv : Retries st) (live : ∀ exit, st.phase ≠ .left exit)
    (distributed : List (Nat × List (ParticleData F))) (interrupted : Option Nat)
    (retryCount : Nat) (e : PyErr) :
    Retries (raise { st with
      distributed := distributed, interrupted := interrupted, retryCount := retryCount } e) where
  steps := attempt_bounded inv .raised
  live := fun running => absurd rfl (running _)
  bounded := by
    intro _ s
    simp only [raise, List.count_append]
    have before := inv.bounded (live _) s
    simpa using before
  aborted := by simp [raise]

theorem retries_retried {st : State F} (inv : Retries st)
    (live : ∀ exit, st.phase ≠ .left exit) : Retries (retryOrAbort st) := by
  obtain ⟨limit, front, attempts, absent⟩ := inv.live live
  have grown : st.attempts ++ [(st.currentStep, Outcome.incomplete)] =
      front ++ List.replicate (st.retryCount + 1) (st.currentStep, .incomplete) := by
    rw [attempts, List.append_assoc, ← List.replicate_succ']
  have steps := attempt_bounded inv .incomplete
  unfold retryOrAbort
  dsimp only
  split
  · rename_i below
    refine ⟨steps, fun _ => ⟨below, front, grown, absent⟩, ?_, by simp⟩
    intro _ s
    by_cases same : s = st.currentStep
    · subst same
      dsimp only
      rw [grown, List.count_append, List.count_eq_zero_of_not_mem absent, List.count_replicate_self]
      omega
    · have before := inv.bounded (live _) s
      simpa [List.count_append, Ne.symm same] using before
  · rename_i reached
    have full : st.retryCount = maxRetries := by omega
    refine ⟨steps, fun running => absurd rfl (running _), fun other => absurd rfl other, ?_⟩
    intro _
    exact ⟨front, by rw [← full]; exact grown⟩

theorem retries_advance {st : State F} (inv : Retries st) (live : ∀ exit, st.phase ≠ .left exit)
    (merged : List (ParticleData F)) (frame : Frame F) :
    Retries (advance { st with retryCount := 0 } merged frame) where
  steps := by
    intro e member
    have before := attempt_bounded inv .completed e member
    exact before.trans (Nat.le_succ _)
  live := by
    intro _
    refine ⟨Nat.zero_le _, st.attempts ++ [(st.currentStep, .completed)], by simp [advance], ?_⟩
    intro member
    rcases List.mem_append.mp member with old | new
    · have before := inv.steps _ old
      simp only [advance] at before
      omega
    · simp at new
  bounded := by
    intro _ s
    simp only [advance, List.count_append]
    have before := inv.bounded (live _) s
    simpa using before
  aborted := by simp [advance]

/-- The loop has been left through the retry limit exactly when the attempts contain one
    more than the limit in a row that were incomplete at one step. -/
theorem retry_limit_iff {st : State F} (inv : Retries st) :
    st.phase = .left .retryLimit ↔ ∃ front back s, st.attempts =
      front ++ List.replicate (maxRetries + 1) (s, .incomplete) ++ back := by
  constructor
  · intro left
    obtain ⟨front, attempts⟩ := inv.aborted left
    exact ⟨front, [], st.currentStep, by rw [attempts, List.append_nil]⟩
  · rintro ⟨front, back, s, attempts⟩
    by_contra other
    have bound := inv.bounded other s
    rw [attempts, List.count_append, List.count_append, List.count_replicate_self] at bound
    omega

variable [Field F]

/-- The list is the merge of a complete collection for the step. -/
def MergedAt (o : Orchestrator F) (step : Nat) (merged : List (ParticleData F)) : Prop :=
  ∃ updates polled, collectUpdates o.codec o.numWorkers step (polled.map Except.ok) =
      .ok ⟨updates, polled⟩ ∧
    o.numWorkers ≤ updates.length ∧ mergeWithBoundsCheck o.grid updates = .ok merged

/-- One merged list and one frame for every step made, the particles the last of the lists,
    and the frames split between those handed over and those queued. -/
structure History (o : Orchestrator F) (initial : List (ParticleData F)) (st : State F) :
    Prop where
  count : st.merges.length = st.currentStep
  list : (initial :: st.merges)[st.currentStep]? = some st.particles
  frames : st.produced.length = st.currentStep
  framed : ∀ k, k < st.currentStep → ∃ merged frame, st.merges[k]? = some merged ∧
    st.produced[k]? = some frame ∧ MergedAt o k merged ∧
    buildFrameData o.dt merged k = .ok frame
  queue : st.handed ++ st.wsQueue = st.produced

theorem history_initial (o : Orchestrator F) (initial : List (ParticleData F)) :
    History o initial (.initial initial) where
  count := rfl
  list := rfl
  frames := rfl
  framed := fun k below => absurd below (Nat.not_lt_zero k)
  queue := rfl

theorem history_untouched {o : Orchestrator F} {initial : List (ParticleData F)}
    {st st' : State F} (same : Untouched st st') (inv : History o initial st) :
    History o initial st' where
  count := by rw [same.merges, same.currentStep, inv.count]
  list := by rw [same.merges, same.currentStep, same.particles, inv.list]
  frames := by rw [same.produced, same.currentStep, inv.frames]
  framed := by
    rw [same.merges, same.currentStep, same.produced]
    exact inv.framed
  queue := by rw [same.queue, same.produced, inv.queue]

theorem history_advance {o : Orchestrator F} {initial : List (ParticleData F)} {st : State F}
    (inv : History o initial st) {merged : List (ParticleData F)} {frame : Frame F}
    (merge : MergedAt o st.currentStep merged)
    (built : buildFrameData o.dt merged st.currentStep = .ok frame) :
    History o initial (advance { st with retryCount := 0 } merged frame) where
  count := by simp [advance, inv.count]
  list := by
    have last := inv.count
    simp [advance, ← last]
  frames := by simp [advance, inv.frames]
  framed := by
    intro k below
    simp only [advance] at below ⊢
    have merges := inv.count
    have frames := inv.frames
    by_cases new : k = st.currentStep
    · subst new
      refine ⟨merged, frame, ?_, ?_, merge, built⟩
      · simp [← merges]
      · simp [← frames]
    · obtain ⟨old, shown, hold, hshown, rest⟩ := inv.framed k (by omega)
      refine ⟨old, shown, ?_, ?_, rest⟩
      · rw [List.getElem?_append_left (by omega), hold]
      · rw [List.getElem?_append_left (by omega), hshown]
  queue := by
    simp only [advance, ← List.append_assoc]
    rw [inv.queue]

/-- A step either completes the attempt or leaves the simulation's data alone. -/
theorem step_untouched {o : Orchestrator F} {st st' : State F} {event : Event}
    (ran : step o st event = some st') :
    Untouched st st' ∨ ∃ updates polled merged frame, Returns o st event updates polled ∧
      o.numWorkers ≤ updates.length ∧ mergeWithBoundsCheck o.grid updates = .ok merged ∧
      buildFrameData o.dt merged st.currentStep = .ok frame ∧
      st' = advance { st with retryCount := 0 } merged frame := by
  cases step_cases ran with
  | completed returned enough merge built =>
    exact Or.inr ⟨_, _, _, _, returned, enough, merge, built, rfl⟩
  | retried returned short => exact Or.inl (retry_untouched st)
  | taken queued =>
    left
    exact ⟨rfl, rfl, rfl, rfl, by rw [queued, List.append_assoc, List.singleton_append]⟩
  | _ => exact Or.inl ⟨rfl, rfl, rfl, rfl, rfl⟩

theorem history_step {o : Orchestrator F} {initial : List (ParticleData F)} {st st' : State F}
    {event : Event} (ran : step o st event = some st') (collecting : Collecting o st)
    (inv : History o initial st) : History o initial st' := by
  rcases step_untouched ran with same | ⟨updates, polled, merged, frame, returned, enough, merge,
    built, rfl⟩
  · exact history_untouched same inv
  · obtain ⟨call, _⟩ := returns_collected collecting returned
    exact history_advance inv ⟨updates, polled, call, enough, merge⟩ built

theorem history_reachable {o : Orchestrator F} {initial : List (ParticleData F)} {st : State F}
    (reached : Reachable o initial st) : History o initial st := by
  obtain ⟨events, ran⟩ := reached
  have both := Runs.run_invariant (fun s => Collecting o s ∧ History o initial s)
    (fun s e t moved inv => ⟨collecting_step moved inv.1, history_step moved inv.1 inv.2⟩)
    ⟨collecting_elsewhere (by simp [State.initial]), history_initial o initial⟩ ran
  exact both.2

theorem returns_live {o : Orchestrator F} {st : State F} {event : Event}
    {updates : Dict Key (List (ParticleData F))} {polled : List Batch}
    (returned : Returns o st event updates polled) : ∀ exit, st.phase ≠ .left exit := by
  cases returned with
  | timeUp here => simp [here]
  | enough here => simp [here]

theorem retries_step {o : Orchestrator F} {st st' : State F} {event : Event}
    (ran : step o st event = some st') (inv : Retries st) : Retries st' := by
  cases step_cases ran with
  | stop here => exact retries_same inv rfl rfl rfl (by simp [here]) (by simp [here])
  | start here distributed sent =>
    exact retries_same inv rfl rfl rfl (by simp [here]) (by simp [here])
  | failed live distributed sent interrupted retryCount e =>
    exact retries_failed inv live distributed interrupted retryCount e
  | gathered here processed short =>
    exact retries_same inv rfl rfl rfl (by simp [here]) (by simp [here])
  | retried returned short => exact retries_retried inv (returns_live returned)
  | completed returned enough merge built =>
    exact retries_advance inv (returns_live returned) _ _
  | shutdown => exact retries_same inv rfl rfl rfl id Iff.rfl
  | sender phase => exact retries_same inv rfl rfl rfl id Iff.rfl
  | taken queued => exact retries_same inv rfl rfl rfl id Iff.rfl

theorem retries_reachable {o : Orchestrator F} {initial : List (ParticleData F)} {st : State F}
    (reached : Reachable o initial st) : Retries st := by
  obtain ⟨events, ran⟩ := reached
  exact Runs.run_invariant Retries (fun _ _ _ => retries_step) (retries_initial initial) ran

/-- The step machine and the frame queue, in every reachable state: one frame for each step
    made, in order; those handed to broadcast and those queued are that sequence; the
    particles are the last merged list, changed only by a completed attempt; and the retry
    limit ends the loop exactly after one attempt more than it at one step. -/
theorem step_machine (o : Orchestrator F) (initial : List (ParticleData F)) (st : State F)
    (reached : Reachable o initial st) :
    (st.produced.length = st.currentStep ∧ st.merges.length = st.currentStep ∧
      ∀ k, k < st.currentStep → ∃ merged frame, st.merges[k]? = some merged ∧
        st.produced[k]? = some frame ∧ MergedAt o k merged ∧
        buildFrameData o.dt merged k = .ok frame ∧ frame.t = roundFour (k * o.dt) ∧
        List.Forall₂ Shows merged frame.particles) ∧
    st.handed ++ st.wsQueue = st.produced ∧
    (initial :: st.merges)[st.currentStep]? = some st.particles ∧
    (∀ event st', step o st event = some st' →
      st'.attempts = st.attempts ++ [(st.currentStep, .completed)] ∨
      (st'.particles = st.particles ∧ st'.currentStep = st.currentStep ∧
        st'.produced = st.produced)) ∧
    (st.phase = .left .retryLimit ↔ ∃ front back s, st.attempts =
      front ++ List.replicate (maxRetries + 1) (s, .incomplete) ++ back) := by
  have history := history_reachable reached
  refine ⟨⟨history.frames, history.count, ?_⟩, history.queue, history.list, ?_,
    retry_limit_iff (retries_reachable reached)⟩
  · intro k below
    obtain ⟨merged, frame, listed, shown, mergedAt, built⟩ := history.framed k below
    exact ⟨merged, frame, listed, shown, mergedAt, built,
      (build_frame_iff o.dt merged k frame).mp built⟩
  · intro event st' ran
    rcases step_untouched ran with same | ⟨_, _, merged, frame, _, _, _, _, rfl⟩
    · exact Or.inr ⟨same.particles, same.currentStep, same.produced⟩
    · exact Or.inl rfl

/-- After the sample's first step: one frame, for step 0. -/
theorem sample_step_machine :
    ∃ st, Reachable sampleOrchestrator [sampleParticle] st ∧ st.currentStep = 1 ∧
      st.produced.length = 1 ∧ st.handed ++ st.wsQueue = st.produced ∧
      ∃ merged, [sampleParticle] :: st.merges = [[sampleParticle], merged] ∧
        st.particles = merged := by
  obtain ⟨merged, frame, ran⟩ := sample_advances
  have reached : Reachable sampleOrchestrator [sampleParticle]
      (advance { sampleCollecting with retryCount := 0 } merged frame) :=
    reachable_step sample_collecting_reachable ran
  obtain ⟨⟨frames, _, _⟩, queue, _⟩ := step_machine sampleOrchestrator [sampleParticle] _ reached
  exact ⟨_, reached, rfl, frames, queue, merged, rfl, rfl⟩

end StepMachine

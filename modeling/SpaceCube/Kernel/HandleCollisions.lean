import SpaceCube.Library.Runs
import SpaceCube.Kernel.CxxStep

/- handleCollisions of ci/kernel.cu. The threads of a block load its particles into shared
   slots, wait for each other, resolve their slot with every other one and store it back. -/
namespace HandleCollisions
open UpdateParticles CxxStep Runs
variable {F : Type*}

inductive Stage where
  | loading
  | arrived
  | pairing (i : Nat)
  | finished
  deriving DecidableEq

/-- A slot of a block is none until a thread has stored to it. -/
structure Launch (F : Type*) where
  particles : Nat → Particle F
  sharedParticles : Nat → Nat → Option (Particle F)
  stages : Nat → Nat → Stage

/-- grid in stepSimulation. -/
def gridSize (N blockDim : Nat) : Nat := (N + blockDim - 1) / blockDim

/-- A thread of the grid that gets past the guard. -/
def Running (N blockDim blockIdx threadIdx : Nat) : Prop :=
  blockIdx < gridSize N blockDim ∧ threadIdx < blockDim ∧
    blockIdx * blockDim + threadIdx < N

instance (N blockDim blockIdx threadIdx : Nat) :
    Decidable (Running N blockDim blockIdx threadIdx) := instDecidableAnd

/-- No thread of the block that will reach the barrier is still before it. -/
def Gathered (N blockDim : Nat) (s : Launch F) (blockIdx : Nat) : Prop :=
  ∀ tid < blockDim, Running N blockDim blockIdx tid → s.stages blockIdx tid ≠ .loading

instance (N blockDim : Nat) (s : Launch F) (blockIdx : Nat) :
    Decidable (Gathered N blockDim s blockIdx) := Nat.decidableBallLT ..

def put {V : Type*} (table : Nat → Nat → V) (block tid : Nat) (v : V) : Nat → Nat → V :=
  Function.update table block (Function.update (table block) tid v)

def start (particles : Nat → Particle F) : Launch F :=
  ⟨particles, fun _ _ => none, fun _ _ => .loading⟩

def Launch.enter (s : Launch F) (blockIdx threadIdx : Nat) (stage : Stage) : Launch F :=
  { s with stages := put s.stages blockIdx threadIdx stage }

def Launch.load (s : Launch F) (blockDim blockIdx threadIdx : Nat) : Launch F :=
  { s with
    sharedParticles := put s.sharedParticles blockIdx threadIdx
      (some (s.particles (blockIdx * blockDim + threadIdx))) }

def Launch.store (s : Launch F) (blockDim blockIdx threadIdx : Nat) : Option (Launch F) := do
  let p ← s.sharedParticles blockIdx threadIdx
  some { s with particles := Function.update s.particles (blockIdx * blockDim + threadIdx) p }

section Kernel
variable [Field F] [LinearOrder F]

/-- Round i of a thread's loop; none when it reads a slot that nothing was stored to. -/
def Launch.meet (sqrtf : F → F) (s : Launch F) (blockIdx threadIdx i : Nat) :
    Option (Launch F) :=
  if i ≠ threadIdx then do
    let p1 ← s.sharedParticles blockIdx threadIdx
    let p2 ← s.sharedParticles blockIdx i
    let pair := resolveCollision sqrtf p1 p2
    some { s with
      sharedParticles :=
        put (put s.sharedParticles blockIdx threadIdx (some pair.1)) blockIdx i (some pair.2) }
  else some s

def turn (sqrtf : F → F) (N blockDim : Nat) (s : Launch F) (blockIdx threadIdx : Nat) :
    Option (Launch F) :=
  if Running N blockDim blockIdx threadIdx then
    match s.stages blockIdx threadIdx with
    | .loading => some ((s.load blockDim blockIdx threadIdx).enter blockIdx threadIdx .arrived)
    | .arrived =>
        if Gathered N blockDim s blockIdx then some (s.enter blockIdx threadIdx (.pairing 0))
        else some s
    | .pairing i =>
        if i < blockDim then do
          let met ← s.meet sqrtf blockIdx threadIdx i
          some (met.enter blockIdx threadIdx (.pairing (i + 1)))
        else do
          let stored ← s.store blockDim blockIdx threadIdx
          some (stored.enter blockIdx threadIdx .finished)
    | .finished => some s
  else some s

/-- The launch under a schedule, a list of the threads that take a turn. -/
def launch (sqrtf : F → F) (N blockDim : Nat) (particles : Nat → Particle F)
    (schedule : List (Nat × Nat)) : Option (Launch F) :=
  run (fun s thread => turn sqrtf N blockDim s thread.1 thread.2) (start particles) schedule

/-- The same where the shared memory of the blocks holds something from before. -/
def launchFrom (sqrtf : F → F) (N blockDim : Nat) (slots : Nat → Nat → Option (Particle F))
    (particles : Nat → Particle F) (schedule : List (Nat × Nat)) : Option (Launch F) :=
  run (fun s thread => turn sqrtf N blockDim s thread.1 thread.2)
    { start particles with sharedParticles := slots } schedule

/-- No schedule makes a thread read a slot that was not stored to. -/
def LoadedOnly (sqrtf : F → F) (N blockDim : Nat) (particles : Nat → Particle F) : Prop :=
  ∀ schedule, ∃ s, launch sqrtf N blockDim particles schedule = some s

/-- Under every schedule the first N particles decide what becomes of them. -/
def Determined (sqrtf : F → F) (N blockDim : Nat) (particles : Nat → Particle F) : Prop :=
  ∀ others, (∀ i < N, others i = particles i) → ∀ schedule, ∃ s t,
    launch sqrtf N blockDim particles schedule = some s ∧
    launch sqrtf N blockDim others schedule = some t ∧
    ∀ i < N, s.particles i = t.particles i

end Kernel

section Tables
variable {V : Type*} (table : Nat → Nat → V) (block tid : Nat) (v : V)

@[simp] theorem put_self : put table block tid v block tid = v := by
  simp [put]

theorem put_other {b t : Nat} (other : ¬ (b = block ∧ t = tid)) :
    put table block tid v b t = table b t := by
  by_cases same : b = block
  · subst same
    have apart : t ≠ tid := fun thread => other ⟨rfl, thread⟩
    simp [put, apart]
  · simp [put, same]

end Tables

section Stages
variable {N blockDim : Nat} {s : Launch F} {blockIdx threadIdx : Nat}

theorem store_iff {u : Launch F} :
    s.store blockDim blockIdx threadIdx = some u ↔ ∃ p,
      s.sharedParticles blockIdx threadIdx = some p ∧
      { s with
        particles := Function.update s.particles (blockIdx * blockDim + threadIdx) p } = u := by
  simp [Launch.store, Option.bind_eq_some_iff]

theorem store_kept {u : Launch F} (kept : s.store blockDim blockIdx threadIdx = some u) :
    u.sharedParticles = s.sharedParticles ∧ u.stages = s.stages := by
  obtain ⟨p, _, rfl⟩ := store_iff.mp kept
  exact ⟨rfl, rfl⟩

theorem gathered_congr {u : Launch F} (stages : u.stages = s.stages) (b : Nat) :
    Gathered N blockDim u b ↔ Gathered N blockDim s b := by
  simp only [Gathered, stages]

theorem entered_gathered {stage : Stage} (past : stage ≠ .loading) {b : Nat}
    (gathered : Gathered N blockDim s b) :
    Gathered N blockDim (s.enter blockIdx threadIdx stage) b := by
  intro t inside running
  by_cases same : b = blockIdx ∧ t = threadIdx
  · obtain ⟨rfl, rfl⟩ := same
    simpa only [Launch.enter, put_self] using past
  · simpa only [Launch.enter, put_other _ _ _ _ same] using gathered t inside running

/-- In whole blocks every slot belongs to a running thread. -/
theorem whole_block (whole : blockDim ∣ N) (running : Running N blockDim blockIdx threadIdx)
    {i : Nat} (inside : i < blockDim) : Running N blockDim blockIdx i := by
  obtain ⟨launched, _, below⟩ := running
  obtain ⟨blocks, total⟩ := whole
  have block : blockIdx < blocks := by
    rw [total, Nat.mul_comm blockDim] at below
    exact Nat.lt_of_mul_lt_mul_right (Nat.lt_of_le_of_lt (Nat.le_add_right _ _) below)
  have upto : (blockIdx + 1) * blockDim ≤ blocks * blockDim := Nat.mul_le_mul_right _ block
  refine ⟨launched, inside, ?_⟩
  rw [Nat.succ_mul] at upto
  rw [total, Nat.mul_comm blockDim]
  omega

/-- The threads of the last block that run. -/
theorem last_block (positive : 0 < blockDim) (t : Nat) :
    Running N blockDim (N / blockDim) t ↔ t < N % blockDim := by
  have split : N / blockDim * blockDim + N % blockDim = N := Nat.div_add_mod' N blockDim
  constructor
  · rintro ⟨_, _, below⟩
    omega
  · intro small
    have inside := small.trans (Nat.mod_lt N positive)
    refine ⟨?_, inside, by omega⟩
    apply (Nat.le_div_iff_mul_le positive).mpr
    rw [Nat.succ_mul]
    omega

/-- The slots that are not none belong to running threads and include those of all threads
    past their load; no thread is past the barrier before its block is. -/
structure Sound (N blockDim : Nat) (s : Launch F) : Prop where
  owned : ∀ b t, (s.sharedParticles b t).isSome → Running N blockDim b t
  stored : ∀ b t, Running N blockDim b t → s.stages b t ≠ .loading →
    (s.sharedParticles b t).isSome
  gathered : ∀ b t i, s.stages b t = .pairing i → Gathered N blockDim s b

theorem start_sound (particles : Nat → Particle F) :
    Sound N blockDim (start particles) where
  owned b t present := by simp [start] at present
  stored b t running past := by simp [start] at past
  gathered b t i here := by simp [start] at here

theorem same_sound (sound : Sound N blockDim s) {u : Launch F}
    (slots : ∀ b t, (u.sharedParticles b t).isSome = (s.sharedParticles b t).isSome)
    (stages : u.stages = s.stages) : Sound N blockDim u where
  owned b t present := sound.owned b t (slots b t ▸ present)
  stored b t running past := by
    rw [slots]
    rw [stages] at past
    exact sound.stored b t running past
  gathered b t i here := (gathered_congr stages b).mpr (sound.gathered b t i (stages ▸ here))

theorem load_sound (sound : Sound N blockDim s)
    (running : Running N blockDim blockIdx threadIdx) :
    Sound N blockDim (s.load blockDim blockIdx threadIdx) where
  owned b t present := by
    by_cases same : b = blockIdx ∧ t = threadIdx
    · obtain ⟨rfl, rfl⟩ := same
      exact running
    · apply sound.owned b t
      simpa only [Launch.load, put_other _ _ _ _ same] using present
  stored b t live past := by
    by_cases same : b = blockIdx ∧ t = threadIdx
    · obtain ⟨rfl, rfl⟩ := same
      simp [Launch.load]
    · simpa only [Launch.load, put_other _ _ _ _ same] using sound.stored b t live past
  gathered := sound.gathered

theorem enter_sound (sound : Sound N blockDim s) {stage : Stage} (past : stage ≠ .loading)
    (slot : Running N blockDim blockIdx threadIdx →
      (s.sharedParticles blockIdx threadIdx).isSome)
    (ready : ∀ i, stage = .pairing i → Gathered N blockDim s blockIdx) :
    Sound N blockDim (s.enter blockIdx threadIdx stage) where
  owned := sound.owned
  stored b t running later := by
    by_cases same : b = blockIdx ∧ t = threadIdx
    · obtain ⟨rfl, rfl⟩ := same
      exact slot running
    · apply sound.stored b t running
      simpa only [Launch.enter, put_other _ _ _ _ same] using later
  gathered b t i here := by
    apply entered_gathered past
    by_cases same : b = blockIdx ∧ t = threadIdx
    · obtain ⟨rfl, rfl⟩ := same
      apply ready i
      simpa only [Launch.enter, put_self] using here
    · apply sound.gathered b t i
      simpa only [Launch.enter, put_other _ _ _ _ same] using here

end Stages

section Turns
variable [Field F] [LinearOrder F] {sqrtf : F → F} {N blockDim : Nat} {s u : Launch F}
  {blockIdx threadIdx : Nat}

theorem turn_outside (outside : ¬ Running N blockDim blockIdx threadIdx) :
    turn sqrtf N blockDim s blockIdx threadIdx = some s := if_neg outside

section Inside
variable (running : Running N blockDim blockIdx threadIdx)
include running

theorem turn_loading (here : s.stages blockIdx threadIdx = .loading) :
    turn sqrtf N blockDim s blockIdx threadIdx =
      some ((s.load blockDim blockIdx threadIdx).enter blockIdx threadIdx .arrived) := by
  rw [turn, if_pos running, here]

theorem turn_passing (here : s.stages blockIdx threadIdx = .arrived)
    (gathered : Gathered N blockDim s blockIdx) :
    turn sqrtf N blockDim s blockIdx threadIdx =
      some (s.enter blockIdx threadIdx (.pairing 0)) := by
  rw [turn, if_pos running, here]
  exact if_pos gathered

theorem turn_waiting (here : s.stages blockIdx threadIdx = .arrived)
    (missing : ¬ Gathered N blockDim s blockIdx) :
    turn sqrtf N blockDim s blockIdx threadIdx = some s := by
  rw [turn, if_pos running, here]
  exact if_neg missing

theorem turn_meeting {i : Nat} (here : s.stages blockIdx threadIdx = .pairing i)
    (inside : i < blockDim) :
    turn sqrtf N blockDim s blockIdx threadIdx = some u ↔
      ∃ met, s.meet sqrtf blockIdx threadIdx i = some met ∧
        met.enter blockIdx threadIdx (.pairing (i + 1)) = u := by
  rw [turn, if_pos running, here]
  simp [inside, Option.bind_eq_some_iff]

theorem turn_storing {i : Nat} (here : s.stages blockIdx threadIdx = .pairing i)
    (outside : ¬ i < blockDim) :
    turn sqrtf N blockDim s blockIdx threadIdx = some u ↔
      ∃ stored, s.store blockDim blockIdx threadIdx = some stored ∧
        stored.enter blockIdx threadIdx .finished = u := by
  rw [turn, if_pos running, here]
  simp [outside, Option.bind_eq_some_iff]

theorem turn_finished (here : s.stages blockIdx threadIdx = .finished) :
    turn sqrtf N blockDim s blockIdx threadIdx = some s := by
  rw [turn, if_pos running, here]

end Inside

theorem meet_self (sqrtf : F → F) (s : Launch F) (blockIdx threadIdx : Nat) :
    s.meet sqrtf blockIdx threadIdx threadIdx = some s := if_neg (not_not_intro rfl)

/-- A round with a partner needs both slots. -/
theorem meet_iff {i : Nat} (other : i ≠ threadIdx) :
    s.meet sqrtf blockIdx threadIdx i = some u ↔ ∃ p1 p2,
      s.sharedParticles blockIdx threadIdx = some p1 ∧ s.sharedParticles blockIdx i = some p2 ∧
      { s with
        sharedParticles := put
          (put s.sharedParticles blockIdx threadIdx (some (resolveCollision sqrtf p1 p2).1))
          blockIdx i (some (resolveCollision sqrtf p1 p2).2) } = u := by
  simp [Launch.meet, other, Option.bind_eq_some_iff]

/-- What a turn can do. -/
inductive Turned (sqrtf : F → F) (N blockDim : Nat) (s : Launch F)
    (blockIdx threadIdx : Nat) : Launch F → Prop where
  | idle : Turned sqrtf N blockDim s blockIdx threadIdx s
  | load (running : Running N blockDim blockIdx threadIdx)
    (here : s.stages blockIdx threadIdx = .loading) :
    Turned sqrtf N blockDim s blockIdx threadIdx
      ((s.load blockDim blockIdx threadIdx).enter blockIdx threadIdx .arrived)
  | pass (here : s.stages blockIdx threadIdx = .arrived)
    (gathered : Gathered N blockDim s blockIdx) :
    Turned sqrtf N blockDim s blockIdx threadIdx (s.enter blockIdx threadIdx (.pairing 0))
  | meet {i : Nat} {met : Launch F} (here : s.stages blockIdx threadIdx = .pairing i)
    (pair : s.meet sqrtf blockIdx threadIdx i = some met) :
    Turned sqrtf N blockDim s blockIdx threadIdx
      (met.enter blockIdx threadIdx (.pairing (i + 1)))
  | store {i : Nat} {stored : Launch F} (here : s.stages blockIdx threadIdx = .pairing i)
    (kept : s.store blockDim blockIdx threadIdx = some stored) :
    Turned sqrtf N blockDim s blockIdx threadIdx (stored.enter blockIdx threadIdx .finished)

theorem turn_cases (fires : turn sqrtf N blockDim s blockIdx threadIdx = some u) :
    Turned sqrtf N blockDim s blockIdx threadIdx u := by
  by_cases running : Running N blockDim blockIdx threadIdx
  · cases here : s.stages blockIdx threadIdx with
    | loading =>
        rw [turn_loading running here, Option.some.injEq] at fires
        exact fires ▸ .load running here
    | arrived =>
        by_cases gathered : Gathered N blockDim s blockIdx
        · rw [turn_passing running here gathered, Option.some.injEq] at fires
          exact fires ▸ .pass here gathered
        · rw [turn_waiting running here gathered, Option.some.injEq] at fires
          exact fires ▸ .idle
    | pairing i =>
        by_cases inside : i < blockDim
        · obtain ⟨met, pair, last⟩ := (turn_meeting running here inside).mp fires
          exact last ▸ .meet here pair
        · obtain ⟨stored, kept, last⟩ := (turn_storing running here inside).mp fires
          exact last ▸ .store here kept
    | finished =>
        rw [turn_finished running here, Option.some.injEq] at fires
        exact fires ▸ .idle
  · rw [turn_outside running, Option.some.injEq] at fires
    exact fires ▸ .idle

theorem put_present {V : Type*} {table : Nat → Nat → Option V}
    (present : (table blockIdx threadIdx).isSome) (v : V) (b t : Nat) :
    (put table blockIdx threadIdx (some v) b t).isSome = (table b t).isSome := by
  by_cases same : b = blockIdx ∧ t = threadIdx
  · obtain ⟨rfl, rfl⟩ := same
    rw [put_self, present]
    rfl
  · rw [put_other _ _ _ _ same]

theorem meet_kept {i : Nat} (pair : s.meet sqrtf blockIdx threadIdx i = some u) :
    (∀ b t, (u.sharedParticles b t).isSome = (s.sharedParticles b t).isSome) ∧
      u.stages = s.stages := by
  by_cases other : i = threadIdx
  · rw [other, meet_self, Option.some.injEq] at pair
    subst pair
    exact ⟨fun b t => rfl, rfl⟩
  · obtain ⟨p1, p2, own, partner, rfl⟩ := (meet_iff other).mp pair
    have first := Option.isSome_of_eq_some own
    have second := Option.isSome_of_eq_some partner
    refine ⟨fun b t => ?_, rfl⟩
    rw [put_present, put_present first]
    rw [put_present first]
    exact second

theorem turn_sound (sound : Sound N blockDim s)
    (fires : turn sqrtf N blockDim s blockIdx threadIdx = some u) : Sound N blockDim u := by
  have slot : s.stages blockIdx threadIdx ≠ .loading → Running N blockDim blockIdx threadIdx →
      (s.sharedParticles blockIdx threadIdx).isSome :=
    fun past running => sound.stored _ _ running past
  cases turn_cases fires with
  | idle => exact sound
  | load running here =>
      apply enter_sound (load_sound sound running) (by simp)
      · intro _
        simp [Launch.load]
      · intro i impossible
        cases impossible
  | pass here gathered =>
      apply enter_sound sound (by simp)
      · exact slot (by simp [here])
      · intro _ _
        exact gathered
  | meet here pair =>
      obtain ⟨slots, stages⟩ := meet_kept pair
      apply enter_sound (same_sound sound slots stages) (by simp)
      · rw [slots]
        exact slot (by simp [here])
      · intro _ _
        exact (gathered_congr stages _).mpr (sound.gathered _ _ _ here)
  | store here kept =>
      obtain ⟨slots, stages⟩ := store_kept kept
      apply enter_sound (same_sound sound (fun b t => by rw [slots]) stages) (by simp)
      · rw [slots]
        exact slot (by simp [here])
      · intro i impossible
        cases impossible

/-- A turn is possible when the slots that it reads hold something. -/
theorem turn_possible
    (own : Running N blockDim blockIdx threadIdx → s.stages blockIdx threadIdx ≠ .loading →
      (s.sharedParticles blockIdx threadIdx).isSome)
    (partner : ∀ i < blockDim, Running N blockDim blockIdx threadIdx →
      s.stages blockIdx threadIdx = .pairing i → (s.sharedParticles blockIdx i).isSome) :
    ∃ u, turn sqrtf N blockDim s blockIdx threadIdx = some u := by
  by_cases running : Running N blockDim blockIdx threadIdx
  · cases here : s.stages blockIdx threadIdx with
    | loading => exact ⟨_, turn_loading running here⟩
    | arrived =>
        by_cases gathered : Gathered N blockDim s blockIdx
        · exact ⟨_, turn_passing running here gathered⟩
        · exact ⟨_, turn_waiting running here gathered⟩
    | pairing i =>
        obtain ⟨p1, mine⟩ := Option.isSome_iff_exists.mp (own running (by simp [here]))
        by_cases inside : i < blockDim
        · obtain ⟨p2, other⟩ := Option.isSome_iff_exists.mp (partner i inside running here)
          by_cases apart : i = threadIdx
          · subst apart
            exact ⟨_, (turn_meeting running here inside).mpr ⟨s, meet_self .., rfl⟩⟩
          · obtain ⟨met, pair⟩ : ∃ met, s.meet sqrtf blockIdx threadIdx i = some met :=
              ⟨_, (meet_iff apart).mpr ⟨p1, p2, mine, other, rfl⟩⟩
            exact ⟨_, (turn_meeting running here inside).mpr ⟨met, pair, rfl⟩⟩
        · obtain ⟨stored, kept⟩ : ∃ stored, s.store blockDim blockIdx threadIdx = some stored :=
            ⟨_, store_iff.mpr ⟨p1, mine, rfl⟩⟩
          exact ⟨_, (turn_storing running here inside).mpr ⟨stored, kept, rfl⟩⟩
    | finished => exact ⟨_, turn_finished running here⟩
  · exact ⟨_, turn_outside running⟩

/-- When all blocks are whole, every turn is possible. -/
theorem turn_defined (whole : blockDim ∣ N) (sound : Sound N blockDim s)
    (blockIdx threadIdx : Nat) : ∃ u, turn sqrtf N blockDim s blockIdx threadIdx = some u := by
  apply turn_possible
  · exact sound.stored blockIdx threadIdx
  · intro i inside running here
    have partner := whole_block whole running inside
    exact sound.stored _ _ partner (sound.gathered _ _ _ here i inside partner)

theorem turn_filled (filled : ∀ b t, (s.sharedParticles b t).isSome)
    (fires : turn sqrtf N blockDim s blockIdx threadIdx = some u) (b t : Nat) :
    (u.sharedParticles b t).isSome := by
  cases turn_cases fires with
  | idle => exact filled b t
  | load running here => exact (put_present (filled _ _) _ b t).trans (filled b t)
  | pass here gathered => exact filled b t
  | meet here pair => exact ((meet_kept pair).1 b t).trans (filled b t)
  | store here kept => simpa only [Launch.enter, (store_kept kept).1] using filled b t

/-- When every slot holds something, a launch goes on whatever the blocks. -/
theorem filled_defined {slots : Nat → Nat → Option (Particle F)}
    (filled : ∀ b t, (slots b t).isSome) (sqrtf : F → F) (N blockDim : Nat)
    (particles : Nat → Particle F) (schedule : List (Nat × Nat)) :
    ∃ s, launchFrom sqrtf N blockDim slots particles schedule = some s := by
  refine run_defined (fun s => ∀ b t, (s.sharedParticles b t).isSome) ?_ filled schedule
  intro s thread here
  obtain ⟨u, fires⟩ : ∃ u, turn sqrtf N blockDim s thread.1 thread.2 = some u :=
    turn_possible (fun _ _ => here _ _) (fun i _ _ _ => here _ i)
  exact ⟨u, fires, turn_filled here fires⟩

/-- Two launches that differ at most in particles from N on. -/
structure Agree (N : Nat) (s u : Launch F) : Prop where
  particles : ∀ i < N, s.particles i = u.particles i
  slots : s.sharedParticles = u.sharedParticles
  stages : s.stages = u.stages

omit [Field F] [LinearOrder F] in
theorem enter_agree {s' : Launch F} (agree : Agree N s s') (blockIdx threadIdx : Nat)
    (stage : Stage) :
    Agree N (s.enter blockIdx threadIdx stage) (s'.enter blockIdx threadIdx stage) where
  particles := agree.particles
  slots := agree.slots
  stages := by simp only [Launch.enter, agree.stages]

omit [Field F] [LinearOrder F] in
theorem load_agree {s' : Launch F} (agree : Agree N s s')
    (running : Running N blockDim blockIdx threadIdx) :
    Agree N (s.load blockDim blockIdx threadIdx) (s'.load blockDim blockIdx threadIdx) where
  particles := agree.particles
  slots := by simp only [Launch.load, agree.slots, agree.particles _ running.2.2]
  stages := agree.stages

omit [Field F] [LinearOrder F] in
theorem store_agree {s' : Launch F} (agree : Agree N s s')
    (kept : s.store blockDim blockIdx threadIdx = some u) :
    ∃ u', s'.store blockDim blockIdx threadIdx = some u' ∧ Agree N u u' := by
  obtain ⟨p, own, rfl⟩ := store_iff.mp kept
  rw [agree.slots] at own
  refine ⟨_, store_iff.mpr ⟨p, own, rfl⟩, ?_, agree.slots, agree.stages⟩
  intro i inside
  by_cases here : i = blockIdx * blockDim + threadIdx
  · simp [here]
  · simpa [here] using agree.particles i inside

theorem meet_agree {s' : Launch F} (agree : Agree N s s') {i : Nat}
    (pair : s.meet sqrtf blockIdx threadIdx i = some u) :
    ∃ u', s'.meet sqrtf blockIdx threadIdx i = some u' ∧ Agree N u u' := by
  by_cases other : i = threadIdx
  · rw [other, meet_self, Option.some.injEq] at pair
    rw [other, meet_self, ← pair]
    exact ⟨s', rfl, agree⟩
  · obtain ⟨p1, p2, own, partner, rfl⟩ := (meet_iff other).mp pair
    rw [agree.slots] at own partner
    refine ⟨_, (meet_iff other).mpr ⟨p1, p2, own, partner, rfl⟩, agree.particles, ?_, agree.stages⟩
    simp only [agree.slots]

/-- Neither the stages nor the slots depend on particles from N on. -/
theorem turn_agree {s' : Launch F} (agree : Agree N s s')
    (fires : turn sqrtf N blockDim s blockIdx threadIdx = some u) :
    ∃ u', turn sqrtf N blockDim s' blockIdx threadIdx = some u' ∧ Agree N u u' := by
  have same : s'.stages blockIdx threadIdx = s.stages blockIdx threadIdx := by rw [agree.stages]
  by_cases running : Running N blockDim blockIdx threadIdx
  · cases here : s.stages blockIdx threadIdx with
    | loading =>
        rw [turn_loading running here, Option.some.injEq] at fires
        rw [turn_loading running (same.trans here), ← fires]
        exact ⟨_, rfl, enter_agree (load_agree agree running) ..⟩
    | arrived =>
        have ready : Gathered N blockDim s blockIdx ↔ Gathered N blockDim s' blockIdx :=
          gathered_congr agree.stages blockIdx
        by_cases gathered : Gathered N blockDim s blockIdx
        · rw [turn_passing running here gathered, Option.some.injEq] at fires
          rw [turn_passing running (same.trans here) (ready.mp gathered), ← fires]
          exact ⟨_, rfl, enter_agree agree ..⟩
        · rw [turn_waiting running here gathered, Option.some.injEq] at fires
          rw [turn_waiting running (same.trans here) (mt ready.mpr gathered), ← fires]
          exact ⟨s', rfl, agree⟩
    | pairing i =>
        by_cases inside : i < blockDim
        · obtain ⟨met, pair, rfl⟩ := (turn_meeting running here inside).mp fires
          obtain ⟨met', pair', like⟩ := meet_agree agree pair
          exact ⟨_, (turn_meeting running (same.trans here) inside).mpr ⟨met', pair', rfl⟩,
            enter_agree like ..⟩
        · obtain ⟨stored, kept, rfl⟩ := (turn_storing running here inside).mp fires
          obtain ⟨stored', kept', like⟩ := store_agree agree kept
          exact ⟨_, (turn_storing running (same.trans here) inside).mpr ⟨stored', kept', rfl⟩,
            enter_agree like ..⟩
    | finished =>
        rw [turn_finished running here, Option.some.injEq] at fires
        rw [turn_finished running (same.trans here), ← fires]
        exact ⟨s', rfl, agree⟩
  · rw [turn_outside running, Option.some.injEq] at fires
    rw [turn_outside running, ← fires]
    exact ⟨s', rfl, agree⟩

theorem whole_defined (whole : blockDim ∣ N) (sqrtf : F → F) (particles : Nat → Particle F) :
    LoadedOnly sqrtf N blockDim particles := by
  intro schedule
  apply run_defined (Sound N blockDim) ?_ (start_sound particles)
  intro s thread sound
  obtain ⟨u, fires⟩ := turn_defined whole sound thread.1 thread.2
  exact ⟨u, fires, turn_sound sound fires⟩

theorem whole_determined (whole : blockDim ∣ N) (sqrtf : F → F)
    (particles : Nat → Particle F) : Determined sqrtf N blockDim particles := by
  intro others same schedule
  obtain ⟨s, ran⟩ := whole_defined whole sqrtf particles schedule
  have before : Agree N (start particles) (start others) :=
    ⟨fun i inside => (same i inside).symm, rfl, rfl⟩
  have follow : ∀ (s s' : Launch F) (thread : Nat × Nat) (u : Launch F), Agree N s s' →
      turn sqrtf N blockDim s thread.1 thread.2 = some u →
      ∃ u', turn sqrtf N blockDim s' thread.1 thread.2 = some u' ∧ Agree N u u' :=
    fun s s' thread u related fires => turn_agree related fires
  obtain ⟨t, ran', agree⟩ := run_related (Agree N) follow before ran
  exact ⟨s, t, ran, ran', agree.particles⟩

variable {particles : Nat → Particle F}

theorem reached_sound {schedule : List (Nat × Nat)}
    (ran : launch sqrtf N blockDim particles schedule = some s) : Sound N blockDim s := by
  apply run_invariant (Sound N blockDim) ?_ (start_sound particles) ran
  intro s thread u fires sound
  exact turn_sound sound fires

section Partial
variable (clear : LoadedOnly sqrtf N blockDim particles)
include clear

/-- One more turn after any schedule. -/
theorem turn_after {schedule : List (Nat × Nat)}
    (ran : launch sqrtf N blockDim particles schedule = some s) (blockIdx threadIdx : Nat) :
    ∃ u, turn sqrtf N blockDim s blockIdx threadIdx = some u ∧
      launch sqrtf N blockDim particles (schedule ++ [(blockIdx, threadIdx)]) = some u := by
  obtain ⟨u, more⟩ := clear (schedule ++ [(blockIdx, threadIdx)])
  have split := more
  rw [launch, run_append] at split
  obtain ⟨t, first, last⟩ := Option.bind_eq_some_iff.mp split
  obtain rfl := Option.some.inj (first.symm.trans ran)
  rw [run_cons] at last
  obtain ⟨v, fires, rest⟩ := Option.bind_eq_some_iff.mp last
  obtain rfl := Option.some.inj rest
  exact ⟨v, fires, more⟩

/-- The first n threads of a block load while the others have not begun. -/
theorem some_arrived {n : Nat} (running : ∀ t < n, Running N blockDim blockIdx t) :
    ∃ schedule s, launch sqrtf N blockDim particles schedule = some s ∧
      ∀ t, s.stages blockIdx t = if t < n then .arrived else .loading := by
  induction n with
  | zero => exact ⟨[], start particles, rfl, fun t => rfl⟩
  | succ n before =>
      obtain ⟨schedule, s, ran, stages⟩ := before fun t below => running t (by omega)
      obtain ⟨u, fires, more⟩ := turn_after clear ran blockIdx n
      have here : s.stages blockIdx n = .loading := by simp [stages]
      rw [turn_loading (running n n.lt_succ_self) here] at fires
      obtain rfl := Option.some.inj fires
      refine ⟨_, _, more, fun t => ?_⟩
      by_cases own : t = n
      · simp [own, Launch.enter]
      · have rest : ¬ (blockIdx = blockIdx ∧ t = n) := fun same => own same.2
        have range : t < n + 1 ↔ t < n := by omega
        simp only [Launch.enter, Launch.load, put_other _ _ _ _ rest, stages, range]

/-- The first thread of a block goes through its loop as far as any schedule lets it. -/
theorem front_pairing {n : Nat} (running : ∀ t < n, Running N blockDim blockIdx t)
    (rest : ∀ t, Running N blockDim blockIdx t → t < n) (front : 0 < n) {i : Nat}
    (upto : i ≤ n) :
    ∃ schedule s, launch sqrtf N blockDim particles schedule = some s ∧
      s.stages blockIdx 0 = .pairing i := by
  have first := running 0 front
  induction i with
  | zero =>
      obtain ⟨schedule, s, ran, stages⟩ := some_arrived clear running
      obtain ⟨u, fires, more⟩ := turn_after clear ran blockIdx 0
      have here : s.stages blockIdx 0 = .arrived := by simp [stages, front]
      have gathered : Gathered N blockDim s blockIdx := by
        intro t _ live
        simp [stages, rest t live]
      rw [turn_passing first here gathered] at fires
      obtain rfl := Option.some.inj fires
      exact ⟨_, _, more, by simp [Launch.enter]⟩
  | succ i before =>
      obtain ⟨schedule, s, ran, here⟩ := before (by omega)
      obtain ⟨u, fires, more⟩ := turn_after clear ran blockIdx 0
      have inside : i < blockDim := (running i upto).2.1
      obtain ⟨met, _, rfl⟩ := (turn_meeting first here inside).mp fires
      exact ⟨_, _, more, by simp [Launch.enter]⟩

/-- Otherwise the first thread of the last block reads the first slot past the particles. -/
theorem loaded_whole (positive : 0 < blockDim) : blockDim ∣ N := by
  by_contra partly
  have rest : 0 < N % blockDim :=
    Nat.pos_of_ne_zero fun zero => partly (Nat.dvd_of_mod_eq_zero zero)
  obtain ⟨schedule, s, ran, here⟩ := front_pairing clear
    (fun t => (last_block positive t).mpr) (fun t => (last_block positive t).mp) rest le_rfl
  have first := (last_block positive 0).mpr rest
  have absent : ¬ Running N blockDim (N / blockDim) (N % blockDim) := by
    rw [last_block positive]
    exact lt_irrefl _
  obtain ⟨u, fires, _⟩ := turn_after clear ran (N / blockDim) 0
  obtain ⟨met, pair, _⟩ := (turn_meeting first here (Nat.mod_lt N positive)).mp fires
  obtain ⟨p1, p2, _, partner, _⟩ := (meet_iff rest.ne').mp pair
  exact absent ((reached_sound ran).owned _ _ (Option.isSome_of_eq_some partner))

end Partial

/-- Only loaded particles are used exactly when the blocks divide the particles evenly. -/
theorem loaded_only_iff (positive : 0 < blockDim) (sqrtf : F → F) (N : Nat)
    (particles : Nat → Particle F) :
    LoadedOnly sqrtf N blockDim particles ∧ Determined sqrtf N blockDim particles ↔
      blockDim ∣ N := by
  constructor
  · rintro ⟨clear, _⟩
    exact loaded_whole clear positive
  · intro whole
    exact ⟨whole_defined whole sqrtf particles, whole_determined whole sqrtf particles⟩

end Turns

/-- Two blocks of two threads for four particles. -/
theorem sample_loaded :
    LoadedOnly Real.sqrt 4 2 (pack (sampleArgs 0) sampleArrays) ∧
      Determined Real.sqrt 4 2 (pack (sampleArgs 0) sampleArrays) :=
  (loaded_only_iff Nat.two_pos Real.sqrt 4 _).mpr (by decide)

/-- Of three particles the last is alone in its block and meets a slot without a particle. -/
theorem empty_slot_read :
    launch Real.sqrt 3 2 (pack (sampleArgs 0) sampleArrays) [(1, 0), (1, 0), (1, 0), (1, 0)] =
        none ∧
      ¬ LoadedOnly Real.sqrt 3 2 (pack (sampleArgs 0) sampleArrays) := by
  have absent : launch Real.sqrt 3 2 (pack (sampleArgs 0) sampleArrays)
      [(1, 0), (1, 0), (1, 0), (1, 0)] = none := rfl
  refine ⟨absent, fun clear => ?_⟩
  obtain ⟨s, ran⟩ := clear [(1, 0), (1, 0), (1, 0), (1, 0)]
  rw [absent] at ran
  cases ran

end HandleCollisions

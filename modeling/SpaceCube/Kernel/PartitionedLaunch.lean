import SpaceCube.Kernel.ThreadOrder

/- One step shared out among workers, each running the launch of particle_kernel.cu on all the
   arrays with its own particles flagged. -/
namespace PartitionedLaunch
open ParticleForce Float3Algebra Contact UpdateParticles ThreadOrder
variable {F : Type*} [Field F] [LinearOrder F]

/-- The threads in increasing index order. -/
def workerLaunch (sqrtf : F → F) (a : Args F) (localFlags : Nat → Int) (s : Arrays F) :
    Arrays F :=
  (List.range a.N).foldl (workerThread sqrtf a localFlags) s

def ownFlags {Worker : Type*} [DecidableEq Worker] (owner : Nat → Worker) (worker : Worker)
    (i : Nat) : Int :=
  if owner i = worker then 1 else 0

/-- Each entry as the worker that owns it returns it. -/
def collected {Worker : Type*} [DecidableEq Worker] (sqrtf : F → F) (a : Args F)
    (owner : Nat → Worker) (s : Arrays F) : Arrays F where
  positions i := (workerLaunch sqrtf a (ownFlags owner (owner i)) s).positions i
  velocities i := (workerLaunch sqrtf a (ownFlags owner (owner i)) s).velocities i
  accelerations i := (workerLaunch sqrtf a (ownFlags owner (owner i)) s).accelerations i

def whole (sqrtf : F → F) (a : Args F) (s : Arrays F) : Arrays F :=
  workerLaunch sqrtf a (fun _ => 1) s

/-- Particle i in all three arrays. -/
def entry (s : Arrays F) (i : Nat) : Motion F × Float3 F := (s.motion i, s.accelerations i)

def SameParticles (a : Args F) (s t : Arrays F) : Prop := ∀ i < a.N, entry s i = entry t i

theorem flags_own {Worker : Type*} [DecidableEq Worker] (owner : Nat → Worker) (i : Nat) :
    ownFlags owner (owner i) i ≠ 0 := by
  simp [ownFlags]

/-- The launch before its thread n. -/
def launchTo (sqrtf : F → F) (a : Args F) (localFlags : Nat → Int) (s : Arrays F) (n : Nat) :
    Arrays F :=
  (List.range n).foldl (workerThread sqrtf a localFlags) s

theorem launch_to_succ (sqrtf : F → F) (a : Args F) (localFlags : Nat → Int) (s : Arrays F)
    (n : Nat) :
    launchTo sqrtf a localFlags s (n + 1) =
      workerThread sqrtf a localFlags (launchTo sqrtf a localFlags s n) n := by
  simp [launchTo, List.range_succ]

/-- Partner i is in contact when the collision loop of thread idx reaches it. -/
def Meets (sqrtf : F → F) (k : Constants F) (a : Args F) (s : Arrays F) (idx i : Nat) : Prop :=
  let l := collisionRounds sqrtf a idx (integrate sqrtf k a s idx, s) i
  i ≠ idx ∧ InContact (a.radii idx) (a.radii i) (l.1.position - l.2.positions i)

/-- In the launch of all threads, each thread that a thread of another worker follows is still,
    and contacts are between particles of one worker. -/
structure Separate {Worker : Type*} (sqrtf : F → F) (a : Args F) (owner : Nat → Worker)
    (s : Arrays F) : Prop where
  still : ∀ i j, i < j → j < a.N → owner j ≠ owner i →
    Still sqrtf workerConstants a (launchTo sqrtf a (fun _ => 1) s i) i
  within : ∀ i j, i < a.N → j < a.N →
    Meets sqrtf workerConstants a (launchTo sqrtf a (fun _ => 1) s i) i j → owner j = owner i

/-- Two states that show the same to threads which only touch these particles. -/
structure Alike (mine : Nat → Prop) (s t : Arrays F) : Prop where
  places : s.positions = t.positions
  entries : ∀ i, mine i → entry s i = entry t i

section Threads
variable {sqrtf : F → F} {k : Constants F} {a : Args F} {s t : Arrays F} {idx : Nat}
  {mine : Nat → Prop}

omit [Field F] [LinearOrder F] in
theorem set_alike (alike : Alike mine s t) (i : Nat) (p : Motion F) :
    Alike mine (s.setMotion i p) (t.setMotion i p) where
  places := by simp only [Arrays.setMotion, alike.places]
  entries j own := by
    obtain ⟨motion, acceleration⟩ := Prod.mk.inj (alike.entries j own)
    by_cases same : j = i
    · rw [same] at acceleration ⊢
      exact Prod.ext ((motion_set s i p).trans (motion_set t i p).symm) acceleration
    · exact Prod.ext (((motion_set_other s same p).trans motion).trans
        (motion_set_other t same p).symm) acceleration

/-- A round that resolves no contact outside keeps two states alike. -/
theorem collide_alike {l m : Motion F × Arrays F} (self : l.1 = m.1)
    (alike : Alike mine l.2 m.2) {i : Nat}
    (met : i ≠ idx →
      InContact (a.radii idx) (a.radii i) (l.1.position - l.2.positions i) → mine i) :
    (collide sqrtf a idx l i).1 = (collide sqrtf a idx m i).1 ∧
      Alike mine (collide sqrtf a idx l i).2 (collide sqrtf a idx m i).2 := by
  by_cases touching : i ≠ idx ∧
      InContact (a.radii idx) (a.radii i) (l.1.position - l.2.positions i)
  · obtain ⟨other, contact⟩ := touching
    have partner : l.2.motion i = m.2.motion i :=
      (Prod.mk.inj (alike.entries i (met other contact))).1
    simp only [collide, if_pos other, self, partner]
    exact ⟨trivial, set_alike alike i _⟩
  · have apart := fun other contact => touching ⟨other, contact⟩
    rw [collide_apart apart, collide_apart (by rwa [self, alike.places] at apart)]
    exact ⟨self, alike⟩

theorem rounds_alike (p : Motion F) (alike : Alike mine s t) {n : Nat}
    (met : ∀ i < n, i ≠ idx → InContact (a.radii idx) (a.radii i)
      ((collisionRounds sqrtf a idx (p, s) i).1.position -
        (collisionRounds sqrtf a idx (p, s) i).2.positions i) → mine i) :
    (collisionRounds sqrtf a idx (p, s) n).1 = (collisionRounds sqrtf a idx (p, t) n).1 ∧
      Alike mine (collisionRounds sqrtf a idx (p, s) n).2
        (collisionRounds sqrtf a idx (p, t) n).2 := by
  induction n with
  | zero => exact ⟨rfl, alike⟩
  | succ n before =>
      obtain ⟨self, same⟩ := before fun i below => met i (Nat.lt_succ_of_lt below)
      rw [rounds_succ, rounds_succ]
      exact collide_alike self same (met n (Nat.lt_succ_self n))

/-- A thread of one of these particles that meets only them makes the same of both. -/
theorem thread_alike (alike : Alike mine s t) (own : mine idx)
    (met : ∀ i < a.N, Meets sqrtf k a s idx i → mine i) :
    Alike mine (thread sqrtf k a s idx) (thread sqrtf k a t idx) := by
  obtain ⟨motion, rest⟩ := Prod.mk.inj (alike.entries idx own)
  have speed : s.velocities idx = t.velocities idx := congrArg Motion.velocity motion
  obtain ⟨self, loop⟩ := rounds_alike (integrate sqrtf k a s idx) alike
    fun i below other contact => met i below ⟨other, contact⟩
  have moved := set_alike loop idx
    (collisionRounds sqrtf a idx (integrate sqrtf k a s idx, s) a.N).1
  simp only [thread, collisionLoop, ← integrate_congr alike.places speed rest,
    ← acceleration_congr alike.places rest, ← self]
  refine ⟨moved.places, fun i member => ?_⟩
  obtain ⟨place, acceleration⟩ := Prod.mk.inj (moved.entries i member)
  refine Prod.ext place ?_
  by_cases here : i = idx
  · simp only [entry, Arrays.setAcceleration, here, Function.update_self]
  · simpa only [entry, Arrays.setAcceleration, Function.update_of_ne here] using acceleration

/-- A thread leaves the entries of the others it does not meet. -/
theorem unmet_kept {j : Nat} (other : j ≠ idx) (unmet : ¬ Meets sqrtf k a s idx j) :
    entry (thread sqrtf k a s idx) j = entry s j := by
  let start := (integrate sqrtf k a s idx, s)
  have place : (collisionRounds sqrtf a idx start j).2.positions j = s.positions j :=
    congrArg Motion.position (partner_waiting sqrtf a idx j start)
  have loop : (collisionRounds sqrtf a idx start a.N).2.motion j = s.motion j := by
    refine partner_untouched fun _ distinct contact => unmet ⟨distinct, ?_⟩
    rw [← place] at contact
    exact contact
  refine Prod.ext ?_ ?_
  · rw [entry, thread_motion, if_neg other]
    exact loop
  · rw [entry, thread_accelerations, Function.update_of_ne other]
    rfl

theorem still_meets_none (still : Still sqrtf k a s idx) {i : Nat} (inside : i < a.N) :
    ¬ Meets sqrtf k a s idx i := by
  rintro ⟨other, contact⟩
  rw [still_rounds still inside.le, still.1] at contact
  exact still.2 i inside other contact

end Threads

/-- Only the flagged threads run. -/
theorem launch_flagged (sqrtf : F → F) (a : Args F) (localFlags : Nat → Int) (s : Arrays F) :
    workerLaunch sqrtf a localFlags s =
      ((List.range a.N).filter (fun i => localFlags i ≠ 0)).foldl
        (thread sqrtf workerConstants a) s := by
  rw [List.foldl_filter]
  refine List.foldl_ext _ _ _ fun t i member => ?_
  have inside : ¬ a.N ≤ i := Nat.not_le.mpr (List.mem_range.mp member)
  by_cases remote : localFlags i = 0 <;> simp [workerThread, remote, inside]

section Partition
variable {sqrtf : F → F} {a : Args F} {s : Arrays F}

/-- A thread of the launch of all. -/
theorem whole_thread {n : Nat} (inside : n < a.N) (t : Arrays F) :
    workerThread sqrtf a (fun _ => 1) t n = thread sqrtf workerConstants a t n := by
  simp [workerThread, Nat.not_le.mpr inside]

variable {Worker : Type*} [DecidableEq Worker] {owner : Nat → Worker}

theorem own_thread {n : Nat} (inside : n < a.N) (t : Arrays F) :
    workerThread sqrtf a (ownFlags owner (owner n)) t n = thread sqrtf workerConstants a t n := by
  simp [workerThread, Nat.not_le.mpr inside, flags_own]

theorem other_thread {worker : Worker} {n : Nat} (foreign : owner n ≠ worker) (t : Arrays F) :
    workerThread sqrtf a (ownFlags owner worker) t n = t := by
  simp [workerThread, ownFlags, foreign]

/-- Before each thread, a worker's own launch and the launch of all show the same to the
    threads of that worker that are still to come, and its entries are the same. -/
theorem own_launch (separate : Separate sqrtf a owner s) (worker : Worker) {n : Nat}
    (below : n ≤ a.N) :
    let t := launchTo sqrtf a (fun _ => 1) s n
    let u := launchTo sqrtf a (ownFlags owner worker) s n
    (∀ i < a.N, owner i = worker → entry t i = entry u i) ∧
      ((∃ j, n ≤ j ∧ j < a.N ∧ owner j = worker) → t.positions = u.positions) := by
  induction n with
  | zero => exact ⟨fun _ _ _ => rfl, fun _ => rfl⟩
  | succ n before =>
      obtain ⟨entries, places⟩ := before (Nat.le_of_succ_le below)
      dsimp only at entries places ⊢
      rw [launch_to_succ, launch_to_succ, whole_thread below]
      by_cases own : owner n = worker
      · subst own
        rw [own_thread below]
        have alike : Alike (fun i => i < a.N ∧ owner i = owner n) _ _ :=
          ⟨places ⟨n, le_rfl, below, rfl⟩, fun i mine => entries i mine.1 mine.2⟩
        have after := thread_alike alike ⟨below, rfl⟩
          fun i inside met => ⟨inside, separate.within n i below inside met⟩
        exact ⟨fun i inside mine => after.entries i ⟨inside, mine⟩, fun _ => after.places⟩
      · rw [other_thread own]
        constructor
        · intro i inside mine
          have other : i ≠ n := fun same => own (same ▸ mine)
          rw [← entries i inside mine]
          refine unmet_kept other fun met => own ?_
          rw [← separate.within n i below inside met, mine]
        · rintro ⟨j, later, inside, mine⟩
          have still := separate.still n j later inside fun same => own (same.symm.trans mine)
          rw [still_thread still]
          exact places ⟨j, Nat.le_of_succ_le later, inside, mine⟩

/-- At rest the threads still to come stay still. -/
theorem still_launch (still : AllStill sqrtf workerConstants a s) {n : Nat} (below : n ≤ a.N) :
    ∀ j, n ≤ j → j < a.N →
      Still sqrtf workerConstants a (launchTo sqrtf a (fun _ => 1) s n) j := by
  induction n with
  | zero => exact fun j _ inside => still j inside
  | succ n before =>
      intro j later inside
      have rest := before (Nat.le_of_succ_le below)
      rw [launch_to_succ, whole_thread below]
      exact still_stays (rest n le_rfl below) (rest j (Nat.le_of_succ_le later) inside)
        (Nat.ne_of_gt later)

omit [DecidableEq Worker] in
theorem still_separate (still : AllStill sqrtf workerConstants a s) (owner : Nat → Worker) :
    Separate sqrtf a owner s where
  still i _ below inside _ :=
    still_launch still (below.trans inside).le i le_rfl (below.trans inside)
  within i _ inside other met :=
    absurd met (still_meets_none (still_launch still inside.le i le_rfl inside) other)

end Partition

/-- Separate workers make together what one launch makes; at rest all partitions do. -/
theorem separate_partition_free {sqrtf : F → F} {a : Args F} {s : Arrays F} {Worker : Type*}
    [DecidableEq Worker] (owner : Nat → Worker) :
    (Separate sqrtf a owner s →
      SameParticles a (collected sqrtf a owner s) (whole sqrtf a s)) ∧
    (AllStill sqrtf workerConstants a s →
      SameParticles a (collected sqrtf a owner s) (whole sqrtf a s)) := by
  have free : Separate sqrtf a owner s →
      SameParticles a (collected sqrtf a owner s) (whole sqrtf a s) := by
    intro separate i inside
    exact ((own_launch separate (owner i) le_rfl).1 i inside rfl).symm
  exact ⟨free, fun still => free (still_separate still owner)⟩

theorem worker_gentle :
    0 < (workerConstants : Constants ℝ).damping ∧ (workerConstants : Constants ℝ).damping ≤ 1 := by
  norm_num [workerConstants]

/-- Two bodies that no force accelerates: body 0 at rest, body 1 on its way outwards. -/
noncomputable def leavingArrays (gap : ℝ) : Arrays ℝ where
  positions i := if i = 0 then ⟨0, 0, 0⟩ else ⟨gap, 0, 0⟩
  velocities i := if i = 0 then ⟨0, 0, 0⟩ else ⟨1, 0, 0⟩
  accelerations i :=
    if i = 0 then 0 - calculateForce Real.sqrt ⟨0, 0, 0⟩ 1 ⟨gap, 0, 0⟩ 1
    else 0 - calculateForce Real.sqrt ⟨gap, 0, 0⟩ 1 ⟨0, 0, 0⟩ 1

theorem leaving_free {gap : ℝ} (inside : 0 ≤ gap ∧ gap ≤ 100) {i : Nat} (body : i < 2) :
    nextAcceleration Real.sqrt workerConstants (sampleArgs 1) (leavingArrays gap) i = 0 := by
  have pull : totalForce Real.sqrt (sampleArgs 1) (leavingArrays gap).positions i =
      0 - (leavingArrays gap).accelerations i := by
    rcases (by omega : i = 0 ∨ i = 1) with rfl | rfl <;>
      simp [totalForce, sampleArgs, leavingArrays, List.range_succ]
  have walls : calculateWallForce (workerConstants : Constants ℝ).wallStiffness
      ((leavingArrays gap).positions i) (sampleArgs 1).boxSize = 0 := by
    rcases (by omega : i = 0 ∨ i = 1) with rfl | rfl
    · exact walls_far _ (by norm_num)
    · exact walls_far _ inside
  simp only [nextAcceleration, pull, walls, add_no_force]
  ext <;> simp [sampleArgs]

theorem leaving_lands {gap : ℝ} (inside : 0 ≤ gap ∧ gap ≤ 100) {i : Nat} (body : i < 2)
    (speed : ℝ) (slow : 0 ≤ speed ∧ speed ≤ 1)
    (own : (leavingArrays gap).velocities i = ⟨speed, 0, 0⟩) :
    (integrate Real.sqrt workerConstants (sampleArgs 1) (leavingArrays gap) i).position =
      (leavingArrays gap).positions i +
        ⟨(workerConstants : Constants ℝ).damping * speed, 0, 0⟩ := by
  obtain ⟨damped, below⟩ := worker_gentle
  have velocity : (workerConstants : Constants ℝ).damping •
      ((leavingArrays gap).velocities i + (sampleArgs 1).dt • (0 : Float3 ℝ)) =
        ⟨(workerConstants : Constants ℝ).damping * speed, 0, 0⟩ := by
    rw [own]
    ext <;> simp
  have limited := damped_slow (v := (workerConstants : Constants ℝ).damping * speed)
    (mul_nonneg damped.le slow.1) (by nlinarith [slow.1, slow.2])
  simp only [integrate, nextVelocity, leaving_free inside body, velocity, limited]
  simp [sampleArgs]

theorem front_still {gap : ℝ} (apart : 3 ≤ gap ∧ gap ≤ 100) :
    Still Real.sqrt workerConstants (sampleArgs 1) (leavingArrays gap) 0 := by
  refine ⟨?_, fun i inside other => ?_⟩
  · rw [leaving_lands ⟨by linarith [apart.1], apart.2⟩ Nat.two_pos 0 (by norm_num) rfl]
    ext <;> simp
  · obtain rfl : i = 1 := by
      have below : i < 2 := inside
      omega
    rintro ⟨near, _⟩
    norm_num [leavingArrays, sampleArgs, dot, minDistance, margin] at near
    nlinarith [apart.1]

/-- After thread 0, body 1 leaves without meeting body 0. -/
theorem rear_clear {gap : ℝ} (apart : 3 ≤ gap ∧ gap ≤ 100) :
    ¬ Meets Real.sqrt workerConstants (sampleArgs 1)
      (thread Real.sqrt workerConstants (sampleArgs 1) (leavingArrays gap) 0) 1 0 := by
  obtain ⟨damped, _⟩ := worker_gentle
  obtain ⟨places, speed, rest⟩ := still_after (front_still apart) Nat.one_ne_zero
  have lands := leaving_lands (i := 1) ⟨by linarith [apart.1], apart.2⟩ Nat.one_lt_two 1
    (by norm_num) rfl
  rintro ⟨_, near, _⟩
  rw [rounds_zero, integrate_congr places speed rest, lands, places] at near
  norm_num [leavingArrays, sampleArgs, dot, minDistance, margin] at near
  nlinarith [apart.1]

theorem leaving_separate {gap : ℝ} (apart : 3 ≤ gap ∧ gap ≤ 100) :
    Separate Real.sqrt (sampleArgs 1) (fun i => i) (leavingArrays gap) := by
  have first : launchTo Real.sqrt (sampleArgs 1) (fun _ => 1) (leavingArrays gap) 1 =
      thread Real.sqrt workerConstants (sampleArgs 1) (leavingArrays gap) 0 :=
    whole_thread (a := sampleArgs 1) Nat.two_pos _
  constructor
  · intro i j below inside _
    obtain rfl : i = 0 := by
      have last : j < 2 := inside
      omega
    exact front_still apart
  · intro i j inside other met
    have bodies : i < 2 ∧ j < 2 := ⟨inside, other⟩
    rcases (by omega : i = 0 ∨ i = 1) with rfl | rfl
    · exact absurd met (still_meets_none (front_still apart) other)
    · rw [first] at met
      rcases (by omega : j = 0 ∨ j = 1) with rfl | rfl
      · exact absurd met (rear_clear apart)
      · rfl

theorem sample_separate :
    SameParticles (sampleArgs 1)
      (collected Real.sqrt (sampleArgs 1) (fun i => i) (leavingArrays 10))
      (whole Real.sqrt (sampleArgs 1) (leavingArrays 10)) :=
  (separate_partition_free fun i => i).1 (leaving_separate (by norm_num))

/-- The launch of the worker that owns particle 1 alone, and the one with all flags set. -/
theorem rear_worker (dt : ℝ) (s : Arrays ℝ) :
    workerLaunch Real.sqrt (sampleArgs dt) (ownFlags (fun i : Nat => i) 1) s =
      thread Real.sqrt workerConstants (sampleArgs dt) s 1 := by
  rw [launch_flagged]
  rfl

theorem both_flagged (dt : ℝ) (s : Arrays ℝ) :
    whole Real.sqrt (sampleArgs dt) s =
      thread Real.sqrt workerConstants (sampleArgs dt)
        (thread Real.sqrt workerConstants (sampleArgs dt) s 0) 1 := by
  rw [whole, launch_flagged]
  rfl

/-- Shared out to two workers, two bodies in contact, and two of which one is displaced, end
    up otherwise than in one launch. -/
theorem partition_matters :
    ¬ SameParticles (sampleArgs 0)
        (collected Real.sqrt (sampleArgs 0) (fun i => i) sampleArrays)
        (whole Real.sqrt (sampleArgs 0) sampleArrays) ∧
      (∀ i j, i < 2 → j < 2 → i ≠ j → ¬ InContact 1 1
        ((leapArrays workerConstants 10).positions i -
          (leapArrays workerConstants 10).positions j)) ∧
      ¬ SameParticles (sampleArgs 1)
        (collected Real.sqrt (sampleArgs 1) (fun i => i) (leapArrays workerConstants 10))
        (whole Real.sqrt (sampleArgs 1) (leapArrays workerConstants 10)) := by
  obtain ⟨damped, below⟩ := worker_gentle
  refine ⟨fun same => ?_, leap_far (by norm_num [workerConstants]), fun same => ?_⟩
  · have entries := same 1 Nat.one_lt_two
    rw [both_flagged] at entries
    have speed : (workerLaunch Real.sqrt (sampleArgs 0) (ownFlags (fun i : Nat => i) 1)
        sampleArrays).velocities 1 = _ := congrArg (fun e => e.1.velocity) entries
    have front := front_then_rear (k := workerConstants) ⟨damped.le, below⟩
    rw [rear_worker, rear_alone ⟨damped.le, below⟩] at speed
    have product : (⟨1, 0, 0⟩ : Float3 ℝ) = ⟨_, 0, 0⟩ := speed.trans front
    norm_num [workerConstants] at product
  · have entries := same 1 Nat.one_lt_two
    rw [both_flagged] at entries
    have pull : (workerLaunch Real.sqrt (sampleArgs 1) (ownFlags (fun i : Nat => i) 1)
        (leapArrays workerConstants 10)).accelerations 1 = _ := congrArg (fun e => e.2) entries
    have rear := leap_rear_alone (k := workerConstants) ⟨damped, below⟩
    rw [rear_worker, entry, leap_then_rear ⟨damped.le, below⟩] at pull
    rw [pull] at rear
    exact lt_irrefl _ rear

end PartitionedLaunch

import SpaceCube.Kernel.TiledForce
import SpaceCube.Kernel.Contact

/- One thread of update_particles, as particle_kernel.cu and particle_sim.py have it. The
   tiled force loop of the former is taken as the plain one. -/
namespace UpdateParticles
open ParticleForce Float3Algebra Contact
variable {F : Type*}

/-- The #defines in which the two kernels differ. -/
structure Constants (F : Type*) where
  damping : F
  wallStiffness : F

/-- What a launch only reads. -/
structure Args (F : Type*) where
  N : Nat
  masses : Nat → F
  radii : Nat → F
  dt : F
  boxSize : F

@[ext] structure Arrays (F : Type*) where
  positions : Nat → Float3 F
  velocities : Nat → Float3 F
  accelerations : Nat → Float3 F

def Arrays.motion (s : Arrays F) (i : Nat) : Motion F := ⟨s.positions i, s.velocities i⟩

def Arrays.setMotion (s : Arrays F) (i : Nat) (p : Motion F) : Arrays F where
  positions := Function.update s.positions i p.position
  velocities := Function.update s.velocities i p.velocity
  accelerations := s.accelerations

def Arrays.setAcceleration (s : Arrays F) (i : Nat) (acc : Float3 F) : Arrays F where
  positions := s.positions
  velocities := s.velocities
  accelerations := Function.update s.accelerations i acc

@[simp] theorem motion_set (s : Arrays F) (i : Nat) (p : Motion F) :
    (s.setMotion i p).motion i = p := by
  simp [Arrays.motion, Arrays.setMotion]

theorem motion_set_other (s : Arrays F) {i j : Nat} (other : j ≠ i) (p : Motion F) :
    (s.setMotion i p).motion j = s.motion j := by
  simp [Arrays.motion, Arrays.setMotion, other]

@[simp] theorem set_same_motion (s : Arrays F) (i : Nat) :
    s.setMotion i (s.motion i) = s := by
  simp [Arrays.motion, Arrays.setMotion]

section Kernel
variable [Field F]

/-- particle_kernel.cu. -/
def workerConstants : Constants F := ⟨0.7, 1.5⟩

/-- particle_sim.py. -/
def inlineConstants : Constants F := ⟨0.999, 0.01⟩

def maxSpeed : F := 100

def totalForce (sqrtf : F → F) (a : Args F) (positions : Nat → Float3 F) (idx : Nat) :
    Float3 F :=
  (List.range a.N).foldl (fun total i =>
    if i ≠ idx then
      total + calculateForce sqrtf (positions idx) (a.masses idx) (positions i) (a.masses i)
    else total) 0

/-- The sum that the tiled loop is compared with. -/
theorem plain_force (sqrtf : F → F) (l : TiledForce.Launch F) (radii : Nat → F)
    (dt boxSize : F) (idx : Nat) :
    totalForce sqrtf ⟨l.N, l.masses, radii, dt, boxSize⟩ l.positions idx =
      l.plainForce sqrtf idx := rfl

variable [LinearOrder F]

/-- Both walls of one axis. -/
def axisForce (wallStiffness boxSize coordinate : F) : F :=
  let low := -boxSize - coordinate
  let high := coordinate - boxSize
  let force := if 0 < low then wallStiffness * low else 0
  if 0 < high then force - wallStiffness * high else force

def calculateWallForce (wallStiffness : F) (pos : Float3 F) (boxSize : F) : Float3 F :=
  ⟨axisForce wallStiffness boxSize pos.x, axisForce wallStiffness boxSize pos.y,
    axisForce wallStiffness boxSize pos.z⟩

def limitSpeed (sqrtf : F → F) (vel : Float3 F) : Float3 F :=
  let speed := sqrtf (dot vel vel)
  if maxSpeed < speed then
    ⟨vel.x * (maxSpeed / speed), vel.y * (maxSpeed / speed), vel.z * (maxSpeed / speed)⟩
  else vel

/-- The thread's acc, vel and pos before the collision loop. -/
def nextAcceleration (sqrtf : F → F) (k : Constants F) (a : Args F) (s : Arrays F)
    (idx : Nat) : Float3 F :=
  let pos := s.positions idx
  let force := totalForce sqrtf a s.positions idx +
    calculateWallForce k.wallStiffness pos a.boxSize
  let acc := s.accelerations idx
  ⟨acc.x + force.x / a.masses idx, acc.y + force.y / a.masses idx,
    acc.z + force.z / a.masses idx⟩

def nextVelocity (sqrtf : F → F) (k : Constants F) (a : Args F) (s : Arrays F) (idx : Nat) :
    Float3 F :=
  let acc := nextAcceleration sqrtf k a s idx
  limitSpeed sqrtf (k.damping • (s.velocities idx + a.dt • acc))

def integrate (sqrtf : F → F) (k : Constants F) (a : Args F) (s : Arrays F) (idx : Nat) :
    Motion F :=
  let vel := nextVelocity sqrtf k a s idx
  ⟨s.positions idx + a.dt • vel, vel⟩

/-- Round i of the collision loop on the thread's own pos, vel and the arrays. -/
def collide (sqrtf : F → F) (a : Args F) (idx : Nat) (l : Motion F × Arrays F) (i : Nat) :
    Motion F × Arrays F :=
  if i ≠ idx then
    let pair := resolveCollision sqrtf l.1 (a.radii idx) (a.masses idx) (l.2.motion i)
      (a.radii i) (a.masses i)
    (pair.1, l.2.setMotion i pair.2)
  else l

/-- The loop before its round n. -/
def collisionRounds (sqrtf : F → F) (a : Args F) (idx : Nat) (l : Motion F × Arrays F)
    (n : Nat) : Motion F × Arrays F :=
  (List.range n).foldl (collide sqrtf a idx) l

def collisionLoop (sqrtf : F → F) (a : Args F) (idx : Nat) (l : Motion F × Arrays F) :
    Motion F × Arrays F :=
  collisionRounds sqrtf a idx l a.N

/-- A thread that gets past the guards. -/
def thread (sqrtf : F → F) (k : Constants F) (a : Args F) (s : Arrays F) (idx : Nat) :
    Arrays F :=
  let l := collisionLoop sqrtf a idx (integrate sqrtf k a s idx, s)
  (l.2.setMotion idx l.1).setAcceleration idx (nextAcceleration sqrtf k a s idx)

/-- update_particles in particle_sim.py. -/
def inlineThread (sqrtf : F → F) (a : Args F) (s : Arrays F) (idx : Nat) : Arrays F :=
  if a.N ≤ idx then s else thread sqrtf inlineConstants a s idx

/-- update_particles in particle_kernel.cu. -/
def workerThread (sqrtf : F → F) (a : Args F) (localFlags : Nat → Int) (s : Arrays F)
    (idx : Nat) : Arrays F :=
  if a.N ≤ idx ∨ localFlags idx = 0 then s else thread sqrtf workerConstants a s idx

theorem rounds_zero (sqrtf : F → F) (a : Args F) (idx : Nat) (l : Motion F × Arrays F) :
    collisionRounds sqrtf a idx l 0 = l := rfl

theorem rounds_succ (sqrtf : F → F) (a : Args F) (idx : Nat) (l : Motion F × Arrays F)
    (n : Nat) :
    collisionRounds sqrtf a idx l (n + 1) =
      collide sqrtf a idx (collisionRounds sqrtf a idx l n) n := by
  simp [collisionRounds, List.range_succ]

theorem collide_self (sqrtf : F → F) (a : Args F) (idx : Nat) (l : Motion F × Arrays F) :
    collide sqrtf a idx l idx = l := if_neg (not_not_intro rfl)

theorem collide_apart {sqrtf : F → F} {a : Args F} {idx i : Nat} {l : Motion F × Arrays F}
    (apart : i ≠ idx →
      ¬ InContact (a.radii idx) (a.radii i) (l.1.position - l.2.positions i)) :
    collide sqrtf a idx l i = l := by
  by_cases other : i ≠ idx
  · have same : resolveCollision sqrtf l.1 (a.radii idx) (a.masses idx) (l.2.motion i)
        (a.radii i) (a.masses i) = (l.1, l.2.motion i) :=
      resolve_apart (apart other) (a.masses idx) (a.masses i)
    simp only [collide, if_pos other, same, set_same_motion]
  · exact if_neg other

/-- A round with a partner resolves the pair. -/
theorem collide_pair (sqrtf : F → F) (a : Args F) {idx i : Nat} (other : i ≠ idx)
    (l : Motion F × Arrays F) :
    ((collide sqrtf a idx l i).1, (collide sqrtf a idx l i).2.motion i) =
      resolveCollision sqrtf l.1 (a.radii idx) (a.masses idx) (l.2.motion i) (a.radii i)
        (a.masses i) := by
  simp only [collide, if_pos other, motion_set]

/-- A round with a partner in contact. -/
theorem collide_touching (sqrtf : F → F) {a : Args F} {idx i : Nat} (other : i ≠ idx)
    {l : Motion F × Arrays F}
    (contact : InContact (a.radii idx) (a.radii i) (l.1.position - l.2.positions i)) :
    collide sqrtf a idx l i =
      let pair := rebound sqrtf l.1 (a.radii idx) (a.masses idx) (l.2.motion i) (a.radii i)
        (a.masses i)
      (pair.1, l.2.setMotion i pair.2) := by
  have resolved : resolveCollision sqrtf l.1 (a.radii idx) (a.masses idx) (l.2.motion i)
      (a.radii i) (a.masses i) = rebound sqrtf l.1 (a.radii idx) (a.masses idx) (l.2.motion i)
        (a.radii i) (a.masses i) := resolve_touching contact _ _
  simp only [collide, if_pos other, resolved]

theorem thread_motion (sqrtf : F → F) (k : Constants F) (a : Args F) (s : Arrays F)
    (idx j : Nat) :
    (thread sqrtf k a s idx).motion j =
      if j = idx then (collisionLoop sqrtf a idx (integrate sqrtf k a s idx, s)).1
      else (collisionLoop sqrtf a idx (integrate sqrtf k a s idx, s)).2.motion j := by
  by_cases own : j = idx
  · rw [if_pos own, own]
    exact motion_set _ idx _
  · rw [if_neg own]
    exact motion_set_other _ own _

theorem thread_velocities (sqrtf : F → F) (k : Constants F) (a : Args F) (s : Arrays F)
    (idx j : Nat) :
    (thread sqrtf k a s idx).velocities j =
      if j = idx then (collisionLoop sqrtf a idx (integrate sqrtf k a s idx, s)).1.velocity
      else (collisionLoop sqrtf a idx (integrate sqrtf k a s idx, s)).2.velocities j :=
  (congrArg Motion.velocity (thread_motion sqrtf k a s idx j)).trans (apply_ite _ _ _ _)

/-- Collisions leave the accelerations; a thread writes its own. -/
theorem rounds_accelerations (sqrtf : F → F) (a : Args F) (idx : Nat)
    (l : Motion F × Arrays F) (n : Nat) :
    (collisionRounds sqrtf a idx l n).2.accelerations = l.2.accelerations := by
  induction n with
  | zero => rfl
  | succ n before =>
      rw [rounds_succ, ← before, collide]
      split <;> rfl

theorem thread_accelerations (sqrtf : F → F) (k : Constants F) (a : Args F) (s : Arrays F)
    (idx : Nat) :
    (thread sqrtf k a s idx).accelerations =
      Function.update s.accelerations idx (nextAcceleration sqrtf k a s idx) := by
  simp only [thread, collisionLoop, Arrays.setAcceleration, Arrays.setMotion,
    rounds_accelerations]

/-- Entry i of the arrays waits for its own round, and stays so when that finds no contact. -/
theorem partner_untouched {sqrtf : F → F} {a : Args F} {idx i : Nat}
    {l : Motion F × Arrays F} {n : Nat}
    (apart : i < n → i ≠ idx → ¬ InContact (a.radii idx) (a.radii i)
      ((collisionRounds sqrtf a idx l i).1.position - l.2.positions i)) :
    (collisionRounds sqrtf a idx l n).2.motion i = l.2.motion i := by
  induction n with
  | zero => rfl
  | succ n before =>
      have earlier := before fun below => apart (Nat.lt_succ_of_lt below)
      rw [rounds_succ]
      by_cases own : i = n
      · subst own
        have place : (collisionRounds sqrtf a idx l i).2.positions i = l.2.positions i :=
          congrArg Motion.position earlier
        rw [collide_apart, earlier]
        rw [place]
        exact apart (Nat.lt_succ_self i)
      · by_cases other : n ≠ idx
        · rw [collide, if_pos other, motion_set_other _ own, earlier]
        · obtain rfl := not_not.mp other
          rw [collide_self, earlier]

theorem partner_waiting (sqrtf : F → F) (a : Args F) (idx i : Nat)
    (l : Motion F × Arrays F) :
    (collisionRounds sqrtf a idx l i).2.motion i = l.2.motion i :=
  partner_untouched fun below => absurd below (lt_irrefl i)

/-- After its round nothing more happens to a partner. -/
theorem partner_done (sqrtf : F → F) (a : Args F) (idx i : Nat) (l : Motion F × Arrays F)
    {n : Nat} (later : i + 1 ≤ n) :
    (collisionRounds sqrtf a idx l n).2.motion i =
      (collide sqrtf a idx (collisionRounds sqrtf a idx l i) i).2.motion i := by
  induction n, later using Nat.le_induction with
  | base => rw [rounds_succ]
  | succ n after before =>
      rw [rounds_succ, ← before, collide]
      split
      · exact motion_set_other _ (Nat.ne_of_lt after) _
      · rfl

theorem integrate_frozen (sqrtf : F → F) (k : Constants F) {a : Args F} (frozen : a.dt = 0)
    (s : Arrays F) (idx : Nat) :
    integrate sqrtf k a s idx =
      ⟨s.positions idx, limitSpeed sqrtf (k.damping • s.velocities idx)⟩ := by
  simp only [integrate, nextVelocity, frozen, zero_smul, add_zero]

theorem limit_slow [IsStrictOrderedRing F] {sqrtf : F → F} (exact : ExactRoot sqrtf)
    {vel : Float3 F} (slow : dot vel vel ≤ maxSpeed * maxSpeed) :
    limitSpeed sqrtf vel = vel := by
  obtain ⟨sign, square⟩ := exact _ (dot_self_nonneg vel)
  have top : (0 : F) ≤ maxSpeed := by
    unfold maxSpeed
    positivity
  refine if_neg (not_lt.mpr ?_)
  exact (mul_self_le_mul_self_iff sign top).mpr (square.trans_le slow)

theorem axis_force_inside [IsStrictOrderedRing F] {boxSize coordinate : F}
    (low : -boxSize ≤ coordinate) (high : coordinate ≤ boxSize) (wallStiffness : F) :
    axisForce wallStiffness boxSize coordinate = 0 := by
  have below : ¬ 0 < -boxSize - coordinate := by linarith
  have above : ¬ 0 < coordinate - boxSize := by linarith
  simp only [axisForce, if_neg below, if_neg above]

end Kernel

/-- Two bodies of mass and radius one. -/
def sampleArgs (dt : ℝ) : Args ℝ where
  N := 2
  masses _ := 1
  radii _ := 1
  dt := dt
  boxSize := 100

/-- Body 0 on its way to body 1. -/
def sampleArrays : Arrays ℝ where
  positions i := if i = 0 then oncoming.position else resting.position
  velocities i := if i = 0 then oncoming.velocity else resting.velocity
  accelerations _ := ⟨0, 0, 0⟩

end UpdateParticles

import SpaceCube.Library.CheckedArithmetic
import SpaceCube.Kernel.UpdateParticles

/- update_particles of particle_sim.py once more, with every division and every root checked. -/
namespace NoZeroDivision
open ParticleForce Float3Algebra Contact UpdateParticles CheckedArithmetic
variable {F : Type*} [Field F] [LinearOrder F]

def divideBy (v : Float3 F) (c : F) : Option (Float3 F) := do
  let x ← checkedDiv v.x c
  let y ← checkedDiv v.y c
  let z ← checkedDiv v.z c
  some ⟨x, y, z⟩

def checkedForce (sqrtf : F → F) (p1Pos : Float3 F) (mass1 : F) (p2Pos : Float3 F)
    (mass2 : F) : Option (Float3 F) := do
  let r : Float3 F := ⟨p2Pos.x - p1Pos.x, p2Pos.y - p1Pos.y, p2Pos.z - p1Pos.z⟩
  let distance ← checkedRoot sqrtf (distanceSq r)
  let forceMagnitude ← checkedDiv (mass1 * mass2) (distanceSq r * distance)
  some ⟨r.x * forceMagnitude, r.y * forceMagnitude, r.z * forceMagnitude⟩

def checkedTotal (sqrtf : F → F) (a : Args F) (positions : Nat → Float3 F) (idx : Nat) :
    Option (Float3 F) :=
  (List.range a.N).foldlM (fun total i =>
    if i ≠ idx then do
      let f ← checkedForce sqrtf (positions idx) (a.masses idx) (positions i) (a.masses i)
      some (total + f)
    else some total) 0

def checkedAcceleration (sqrtf : F → F) (a : Args F) (s : Arrays F) (idx : Nat) :
    Option (Float3 F) := do
  let total ← checkedTotal sqrtf a s.positions idx
  let force := total +
    calculateWallForce inlineConstants.wallStiffness (s.positions idx) a.boxSize
  let quotient ← divideBy force (a.masses idx)
  some (s.accelerations idx + quotient)

def checkedLimit (sqrtf : F → F) (vel : Float3 F) : Option (Float3 F) := do
  let speed ← checkedRoot sqrtf (dot vel vel)
  if maxSpeed < speed then do
    let factor ← checkedDiv maxSpeed speed
    some ⟨vel.x * factor, vel.y * factor, vel.z * factor⟩
  else some vel

def checkedRebound (sqrtf : F → F) (p1 : Motion F) (radius1 mass1 : F) (p2 : Motion F)
    (radius2 mass2 : F) : Option (Motion F × Motion F) := do
  let delta := p1.position - p2.position
  let distance ← checkedRoot sqrtf (dot delta delta)
  let n ← divideBy delta distance
  let inverse1 ← checkedDiv 1 mass1
  let inverse2 ← checkedDiv 1 mass2
  let j ← checkedDiv (2.0 * dot (p1.velocity - p2.velocity) n) (inverse1 + inverse2)
  let kick1 ← divideBy ⟨j * n.x, j * n.y, j * n.z⟩ mass1
  let kick2 ← divideBy ⟨j * n.x, j * n.y, j * n.z⟩ mass2
  let overlap := 0.5 * (minDistance radius1 radius2 - distance)
  some
    (⟨⟨p1.position.x + overlap * n.x, p1.position.y + overlap * n.y,
        p1.position.z + overlap * n.z⟩, p1.velocity - kick1⟩,
     ⟨⟨p2.position.x - overlap * n.x, p2.position.y - overlap * n.y,
        p2.position.z - overlap * n.z⟩, p2.velocity + kick2⟩)

def checkedResolve (sqrtf : F → F) (p1 : Motion F) (radius1 mass1 : F) (p2 : Motion F)
    (radius2 mass2 : F) : Option (Motion F × Motion F) :=
  if InContact radius1 radius2 (p1.position - p2.position) then
    checkedRebound sqrtf p1 radius1 mass1 p2 radius2 mass2
  else some (p1, p2)

def checkedCollide (sqrtf : F → F) (a : Args F) (idx : Nat) (l : Motion F × Arrays F)
    (i : Nat) : Option (Motion F × Arrays F) :=
  if i ≠ idx then do
    let pair ← checkedResolve sqrtf l.1 (a.radii idx) (a.masses idx) (l.2.motion i)
      (a.radii i) (a.masses i)
    some (pair.1, l.2.setMotion i pair.2)
  else some l

def checkedThread (sqrtf : F → F) (a : Args F) (s : Arrays F) (idx : Nat) :
    Option (Arrays F) :=
  if a.N ≤ idx then some s
  else do
    let acc ← checkedAcceleration sqrtf a s idx
    let vel ← checkedLimit sqrtf
      ((inlineConstants.damping : F) • (s.velocities idx + a.dt • acc))
    let l ← (List.range a.N).foldlM (checkedCollide sqrtf a idx)
      (⟨s.positions idx + a.dt • vel, vel⟩, s)
    some ((l.2.setMotion idx l.1).setAcceleration idx acc)

/-- Launch after launch, each with its own order of the threads. -/
def checkedRun (sqrtf : F → F) (a : Args F) (orders : List (List Nat)) (s : Arrays F) :
    Option (Arrays F) :=
  orders.foldlM (fun s order => order.foldlM (checkedThread sqrtf a) s) s

def inlineRun (sqrtf : F → F) (a : Args F) (orders : List (List Nat)) (s : Arrays F) :
    Arrays F :=
  orders.foldl (fun s order => order.foldl (inlineThread sqrtf a) s) s

theorem divide_some {c : F} (nonzero : c ≠ 0) (v : Float3 F) :
    divideBy v c = some ⟨v.x / c, v.y / c, v.z / c⟩ := by
  simp [divideBy, checked_div nonzero]

section Ordered
variable [IsStrictOrderedRing F]

/-- The clamp divides only by speeds above the limit. -/
theorem limit_checked (sqrtf : F → F) (vel : Float3 F) :
    checkedLimit sqrtf vel = some (limitSpeed sqrtf vel) := by
  have top : (0 : F) < maxSpeed := by
    unfold maxSpeed
    positivity
  simp only [checkedLimit, checked_root (dot_self_nonneg vel), Option.bind_eq_bind,
    Option.bind_some, limitSpeed]
  by_cases fast : maxSpeed < sqrtf (dot vel vel)
  · rw [if_pos fast, if_pos fast, checked_div (top.trans fast).ne', Option.bind_some]
  · rw [if_neg fast, if_neg fast]

variable {sqrtf : F → F} (exact : ExactRoot sqrtf)
include exact

/-- The softening keeps the distance from zero wherever the two are. -/
theorem force_checked (p1Pos p2Pos : Float3 F) (mass1 mass2 : F) :
    checkedForce sqrtf p1Pos mass1 p2Pos mass2 =
      some (calculateForce sqrtf p1Pos mass1 p2Pos mass2) := by
  have positive := distanceSq_pos
    (⟨p2Pos.x - p1Pos.x, p2Pos.y - p1Pos.y, p2Pos.z - p1Pos.z⟩ : Float3 F)
  have nonzero := mul_ne_zero positive.ne' (root_pos exact positive).ne'
  simp only [checkedForce, checked_root positive.le, Option.bind_eq_bind, Option.bind_some,
    checked_div nonzero]
  rfl

theorem total_checked (a : Args F) (positions : Nat → Float3 F) (idx : Nat) :
    checkedTotal sqrtf a positions idx = some (totalForce sqrtf a positions idx) := by
  apply checked_loop
  intro total i _
  by_cases other : i ≠ idx
  · simp [other, force_checked exact]
  · simp [other]

theorem acceleration_checked (a : Args F) (s : Arrays F) {idx : Nat}
    (heavy : a.masses idx ≠ 0) :
    checkedAcceleration sqrtf a s idx =
      some (nextAcceleration sqrtf inlineConstants a s idx) := by
  simp only [checkedAcceleration, total_checked exact, Option.bind_eq_bind, Option.bind_some,
    divide_some heavy]
  rfl

/-- In contact the squared distance is above the guard, and the masses are positive. -/
theorem rebound_checked {p1 p2 : Motion F} {radius1 radius2 mass1 mass2 : F}
    (heavy1 : 0 < mass1) (heavy2 : 0 < mass2)
    (apart : 0 < dot (p1.position - p2.position) (p1.position - p2.position)) :
    checkedRebound sqrtf p1 radius1 mass1 p2 radius2 mass2 =
      some (rebound sqrtf p1 radius1 mass1 p2 radius2 mass2) := by
  have inverses : 1 / mass1 + 1 / mass2 ≠ 0 :=
    (add_pos (one_div_pos.mpr heavy1) (one_div_pos.mpr heavy2)).ne'
  have two : (2.0 : F) = 2 := by norm_num
  have half : (0.5 : F) = 1 / 2 := by norm_num
  simp only [checkedRebound, checked_root apart.le, Option.bind_eq_bind, Option.bind_some,
    divide_some (root_pos exact apart).ne', checked_div heavy1.ne', checked_div heavy2.ne',
    checked_div inverses, divide_some heavy1.ne', divide_some heavy2.ne', two, half]
  rfl

theorem resolve_checked (p1 p2 : Motion F) (radius1 radius2 : F) {mass1 mass2 : F}
    (heavy1 : 0 < mass1) (heavy2 : 0 < mass2) :
    checkedResolve sqrtf p1 radius1 mass1 p2 radius2 mass2 =
      some (resolveCollision sqrtf p1 radius1 mass1 p2 radius2 mass2) := by
  by_cases contact : InContact radius1 radius2 (p1.position - p2.position)
  · rw [checkedResolve, if_pos contact, resolve_touching contact]
    exact rebound_checked exact heavy1 heavy2 (centres_apart contact)
  · rw [checkedResolve, if_neg contact, resolve_apart contact]

variable {a : Args F} (heavy : ∀ i < a.N, 0 < a.masses i)
include heavy

theorem collide_checked {idx i : Nat} (inside : idx < a.N) (within : i < a.N)
    (l : Motion F × Arrays F) :
    checkedCollide sqrtf a idx l i = some (collide sqrtf a idx l i) := by
  by_cases other : i ≠ idx
  · rw [checkedCollide, if_pos other, collide, if_pos other,
      resolve_checked exact _ _ _ _ (heavy idx inside) (heavy i within)]
    rfl
  · rw [checkedCollide, if_neg other, collide, if_neg other]

theorem thread_checked (s : Arrays F) (idx : Nat) :
    checkedThread sqrtf a s idx = some (inlineThread sqrtf a s idx) := by
  by_cases outside : a.N ≤ idx
  · rw [checkedThread, if_pos outside, inlineThread, if_pos outside]
  · have inside := Nat.not_le.mp outside
    have loop : ∀ l, (List.range a.N).foldlM (checkedCollide sqrtf a idx) l =
        some (collisionLoop sqrtf a idx l) := by
      intro l
      apply checked_loop
      intro l i member
      exact collide_checked exact heavy inside (List.mem_range.mp member) l
    rw [checkedThread, if_neg outside, inlineThread, if_neg outside]
    simp only [acceleration_checked exact a s (heavy idx inside).ne', limit_checked, loop,
      Option.bind_eq_bind, Option.bind_some]
    rfl

/-- No division by zero and no root of a negative number in any run. -/
theorem no_zero_division (orders : List (List Nat)) (s : Arrays F) :
    checkedRun sqrtf a orders s = some (inlineRun sqrtf a orders s) := by
  apply checked_loop
  intro s order _
  apply checked_loop
  intro s idx _
  exact thread_checked exact heavy s idx

end Ordered

/-- The bodies of the sample with a mass that _init_particles can give them. -/
def lightArgs : Args ℝ := { sampleArgs 1 with masses := fun _ => 0.7 }

theorem sample_no_zero_division :
    checkedRun Real.sqrt lightArgs [[0, 1], [1, 0]] sampleArrays =
      some (inlineRun Real.sqrt lightArgs [[0, 1], [1, 0]] sampleArrays) := by
  apply no_zero_division real_root
  intro i _
  norm_num [lightArgs]

end NoZeroDivision

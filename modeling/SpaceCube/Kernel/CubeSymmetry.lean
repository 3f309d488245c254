import Mathlib.Algebra.BigOperators.Fin
import Mathlib.Algebra.Module.LinearMap.Defs
import Mathlib.Logic.Equiv.Defs
import SpaceCube.Kernel.PartitionedLaunch

/- The cube has no preferred axis and no preferred direction on one, and the kernels do not
   introduce any. -/
namespace CubeSymmetry
open ParticleForce Float3Algebra Contact UpdateParticles ThreadOrder PartitionedLaunch
variable {F : Type*} [Field F]

/-- The dot products do not tell the vectors from their images. -/
def Rigid (T : Float3 F →ₗ[F] Float3 F) : Prop := ∀ a b, dot (T a) (T b) = dot a b

def turnMotion (T : Float3 F →ₗ[F] Float3 F) (p : Motion F) : Motion F :=
  ⟨T p.position, T p.velocity⟩

def turnArrays (T : Float3 F →ₗ[F] Float3 F) (s : Arrays F) : Arrays F where
  positions i := T (s.positions i)
  velocities i := T (s.velocities i)
  accelerations i := T (s.accelerations i)

section Layout
variable (T : Float3 F →ₗ[F] Float3 F) (s : Arrays F) (i : Nat)

@[simp] theorem turned_position : (turnArrays T s).positions i = T (s.positions i) := rfl

@[simp] theorem turned_velocity : (turnArrays T s).velocities i = T (s.velocities i) := rfl

@[simp] theorem turned_acceleration :
    (turnArrays T s).accelerations i = T (s.accelerations i) := rfl

@[simp] theorem turned_motion : (turnArrays T s).motion i = turnMotion T (s.motion i) := rfl

theorem update_turned (f : Nat → Float3 F) (v : Float3 F) :
    Function.update (fun j => T (f j)) i (T v) = fun j => T (Function.update f i v j) := by
  funext j
  by_cases here : j = i
  · rw [here, Function.update_self, Function.update_self]
  · rw [Function.update_of_ne here, Function.update_of_ne here]

theorem set_motion_turned (p : Motion F) :
    (turnArrays T s).setMotion i (turnMotion T p) = turnArrays T (s.setMotion i p) := by
  simp only [Arrays.setMotion, turnMotion, turnArrays, update_turned]

theorem set_acceleration_turned (acc : Float3 F) :
    (turnArrays T s).setAcceleration i (T acc) = turnArrays T (s.setAcceleration i acc) := by
  simp only [Arrays.setAcceleration, turnArrays, update_turned]

end Layout

/-- The pair force is along the line between the particles. -/
theorem force_along (sqrtf : F → F) (p1 p2 : Float3 F) (mass1 mass2 : F) :
    calculateForce sqrtf p1 mass1 p2 mass2 =
      (mass1 * mass2 / ((dot (p2 - p1) (p2 - p1) + softening * softening) *
        sqrtf (dot (p2 - p1) (p2 - p1) + softening * softening))) • (p2 - p1) := by
  ext <;> exact mul_comm _ _

section Rigid
variable {T : Float3 F →ₗ[F] Float3 F} (rigid : Rigid T) (sqrtf : F → F)
include rigid

theorem dot_kept (a b : Float3 F) : dot (T a - T b) (T a - T b) = dot (a - b) (a - b) := by
  rw [← map_sub, rigid]

theorem force_turned (p1 p2 : Float3 F) (mass1 mass2 : F) :
    calculateForce sqrtf (T p1) mass1 (T p2) mass2 =
      T (calculateForce sqrtf p1 mass1 p2 mass2) := by
  simp only [force_along, dot_kept rigid, map_smul, map_sub]

theorem total_turned (a : Args F) (positions : Nat → Float3 F) (idx : Nat) :
    totalForce sqrtf a (fun i => T (positions i)) idx =
      T (totalForce sqrtf a positions idx) := by
  have round : ∀ total i,
      (if i ≠ idx then T total + calculateForce sqrtf (T (positions idx)) (a.masses idx)
        (T (positions i)) (a.masses i) else T total) =
      T (if i ≠ idx then total + calculateForce sqrtf (positions idx) (a.masses idx)
        (positions i) (a.masses i) else total) := by
    intro total i
    rw [force_turned rigid, ← map_add, apply_ite T]
  unfold totalForce
  conv_lhs => rw [← map_zero T]
  refine List.foldl_hom T ?_
  exact round

theorem distance_turned (delta : Float3 F) :
    distance sqrtf (T delta) = distance sqrtf delta := by
  rw [distance, rigid, distance]

theorem normal_turned (delta : Float3 F) : normal sqrtf (T delta) = T (normal sqrtf delta) := by
  rw [normal_eq, normal_eq, distance_turned rigid, map_smul]

theorem rebound_turned (p1 : Motion F) (radius1 mass1 : F) (p2 : Motion F)
    (radius2 mass2 : F) :
    rebound sqrtf (turnMotion T p1) radius1 mass1 (turnMotion T p2) radius2 mass2 =
      Prod.map (turnMotion T) (turnMotion T)
        (rebound sqrtf p1 radius1 mass1 p2 radius2 mass2) := by
  have delta : T p1.position - T p2.position = T (p1.position - p2.position) :=
    (map_sub T _ _).symm
  have relVelocity : T p1.velocity - T p2.velocity = T (p1.velocity - p2.velocity) :=
    (map_sub T _ _).symm
  simp only [rebound_eq, turnMotion, delta, relVelocity, push, impulse, normal_turned rigid,
    distance_turned rigid, rigid _ _, Prod.map]
  simp only [map_add, map_sub, map_smul]

variable [LinearOrder F]

theorem contact_turned (radius1 radius2 : F) (p1 p2 : Float3 F) :
    InContact radius1 radius2 (T p1 - T p2) ↔ InContact radius1 radius2 (p1 - p2) := by
  rw [InContact, dot_kept rigid]

theorem resolve_turned (p1 : Motion F) (radius1 mass1 : F) (p2 : Motion F)
    (radius2 mass2 : F) :
    resolveCollision sqrtf (turnMotion T p1) radius1 mass1 (turnMotion T p2) radius2 mass2 =
      Prod.map (turnMotion T) (turnMotion T)
        (resolveCollision sqrtf p1 radius1 mass1 p2 radius2 mass2) := by
  have same := contact_turned rigid radius1 radius2 p1.position p2.position
  by_cases contact : InContact radius1 radius2 (p1.position - p2.position)
  · rw [resolve_touching contact, ← rebound_turned rigid]
    exact resolve_touching (same.mpr contact) _ _
  · rw [resolve_apart contact]
    exact resolve_apart (mt same.mp contact) _ _

theorem limit_turned (vel : Float3 F) : limitSpeed sqrtf (T vel) = T (limitSpeed sqrtf vel) := by
  have scaled : ∀ v : Float3 F, limitSpeed sqrtf v =
      if maxSpeed < sqrtf (dot v v) then (maxSpeed / sqrtf (dot v v)) • v else v := by
    intro v
    unfold limitSpeed
    dsimp only
    congr 1
    ext <;> exact mul_comm _ _
  rw [scaled, scaled, rigid, ← map_smul, apply_ite T]

/-- A round of the collision loop. -/
theorem collide_turned (a : Args F) (idx : Nat) (l : Motion F × Arrays F) (i : Nat) :
    collide sqrtf a idx (Prod.map (turnMotion T) (turnArrays T) l) i =
      Prod.map (turnMotion T) (turnArrays T) (collide sqrtf a idx l i) := by
  by_cases other : i ≠ idx
  · simp only [collide, if_pos other, Prod.map, turned_motion, resolve_turned rigid,
      set_motion_turned]
  · simp only [collide, if_neg other]

theorem rounds_turned (a : Args F) (idx : Nat) (l : Motion F × Arrays F) (n : Nat) :
    collisionRounds sqrtf a idx (Prod.map (turnMotion T) (turnArrays T) l) n =
      Prod.map (turnMotion T) (turnArrays T) (collisionRounds sqrtf a idx l n) := by
  induction n with
  | zero => rfl
  | succ n before => rw [rounds_succ, rounds_succ, before, collide_turned rigid]

end Rigid

/-- The walls are where they were as well. -/
structure Symmetry (F : Type*) [Field F] [LinearOrder F] where
  map : Float3 F →ₗ[F] Float3 F
  rigid : Rigid map
  walls : ∀ wallStiffness pos boxSize,
    calculateWallForce wallStiffness (map pos) boxSize =
      map (calculateWallForce wallStiffness pos boxSize)

section Threads
variable [LinearOrder F] (t : Symmetry F) (sqrtf : F → F)

theorem acceleration_turned (k : Constants F) (a : Args F) (s : Arrays F) (idx : Nat) :
    nextAcceleration sqrtf k a (turnArrays t.map s) idx =
      t.map (nextAcceleration sqrtf k a s idx) := by
  have scaled : ∀ u : Arrays F, nextAcceleration sqrtf k a u idx = u.accelerations idx +
      (a.masses idx)⁻¹ • (totalForce sqrtf a u.positions idx +
        calculateWallForce k.wallStiffness (u.positions idx) a.boxSize) := by
    intro u
    unfold nextAcceleration
    ext <;> simp only [div_eq_inv_mul, add_x, add_y, add_z, smul_x, smul_y, smul_z]
  have pull : totalForce sqrtf a (turnArrays t.map s).positions idx =
      t.map (totalForce sqrtf a s.positions idx) := total_turned t.rigid sqrtf a _ idx
  rw [scaled, scaled, pull, turned_position, t.walls, turned_acceleration]
  simp only [map_add, map_smul]

theorem integrate_turned (k : Constants F) (a : Args F) (s : Arrays F) (idx : Nat) :
    integrate sqrtf k a (turnArrays t.map s) idx =
      turnMotion t.map (integrate sqrtf k a s idx) := by
  have velocity : nextVelocity sqrtf k a (turnArrays t.map s) idx =
      t.map (nextVelocity sqrtf k a s idx) := by
    simp only [nextVelocity, acceleration_turned, turned_velocity, ← map_smul, ← map_add,
      limit_turned t.rigid]
  simp only [integrate, turnMotion, velocity, turned_position, ← map_smul, ← map_add]

theorem thread_turned (k : Constants F) (a : Args F) (s : Arrays F) (idx : Nat) :
    thread sqrtf k a (turnArrays t.map s) idx = turnArrays t.map (thread sqrtf k a s idx) := by
  have loop : collisionLoop sqrtf a idx
      (integrate sqrtf k a (turnArrays t.map s) idx, turnArrays t.map s) =
      Prod.map (turnMotion t.map) (turnArrays t.map)
        (collisionLoop sqrtf a idx (integrate sqrtf k a s idx, s)) := by
    rw [integrate_turned]
    exact rounds_turned t.rigid sqrtf a idx (integrate sqrtf k a s idx, s) a.N
  simp only [thread, loop, Prod.map, acceleration_turned, set_motion_turned,
    set_acceleration_turned]

/-- Any threads of either kernel one after another. -/
theorem inline_turned (a : Args F) (order : List Nat) (s : Arrays F) :
    inlineLaunch sqrtf a order (turnArrays t.map s) =
      turnArrays t.map (inlineLaunch sqrtf a order s) := by
  refine List.foldl_hom (turnArrays t.map) fun u idx => ?_
  rw [inlineThread, inlineThread, thread_turned, apply_ite (turnArrays t.map)]

theorem worker_turned (a : Args F) (localFlags : Nat → Int) (s : Arrays F) :
    workerLaunch sqrtf a localFlags (turnArrays t.map s) =
      turnArrays t.map (workerLaunch sqrtf a localFlags s) := by
  refine List.foldl_hom (turnArrays t.map) fun u idx => ?_
  rw [workerThread, workerThread, thread_turned, apply_ite (turnArrays t.map)]

theorem collected_turned {Worker : Type*} [DecidableEq Worker] (a : Args F)
    (owner : Nat → Worker) (s : Arrays F) :
    collected sqrtf a owner (turnArrays t.map s) =
      turnArrays t.map (collected sqrtf a owner s) := by
  simp only [collected, worker_turned, turned_position, turned_velocity, turned_acceleration]
  rfl

end Threads

/-- The axes in another order, each as it was or the other way round. -/
structure Turn where
  axes : Equiv.Perm (Fin 3)
  flipped : Fin 3 → Bool

def coordinate (v : Float3 F) : Fin 3 → F := ![v.x, v.y, v.z]

def fromCoordinates (c : Fin 3 → F) : Float3 F := ⟨c 0, c 1, c 2⟩

def Turn.sign (t : Turn) (i : Fin 3) : F := if t.flipped i then -1 else 1

omit [Field F] in
theorem vector_ext {a b : Float3 F} (same : ∀ i, coordinate a i = coordinate b i) : a = b := by
  ext
  · exact same 0
  · exact same 1
  · exact same 2

omit [Field F] in
@[simp] theorem coordinate_from (c : Fin 3 → F) (i : Fin 3) :
    coordinate (fromCoordinates c) i = c i := by
  fin_cases i <;> rfl

@[simp] theorem coordinate_add (a b : Float3 F) (i : Fin 3) :
    coordinate (a + b) i = coordinate a i + coordinate b i := by
  fin_cases i <;> rfl

@[simp] theorem coordinate_smul (c : F) (a : Float3 F) (i : Fin 3) :
    coordinate (c • a) i = c * coordinate a i := by
  fin_cases i <;> rfl

theorem dot_coordinates (a b : Float3 F) :
    dot a b = ∑ i, coordinate a i * coordinate b i := by
  rw [Fin.sum_univ_three]
  rfl

section Turn
variable (t : Turn)

theorem sign_square (i : Fin 3) : (t.sign i : F) * t.sign i = 1 := by
  unfold Turn.sign
  split <;> simp

def Turn.map (t : Turn) : Float3 F →ₗ[F] Float3 F where
  toFun v := fromCoordinates fun i => t.sign i * coordinate v (t.axes i)
  map_add' a b := vector_ext fun i => by simp [mul_add]
  map_smul' c a := vector_ext fun i => by simp [mul_left_comm]

@[simp] theorem coordinate_map (v : Float3 F) (i : Fin 3) :
    coordinate (t.map v) i = t.sign i * coordinate v (t.axes i) := coordinate_from _ i

theorem turn_rigid : Rigid (t.map : Float3 F →ₗ[F] Float3 F) := by
  intro a b
  calc dot (t.map a) (t.map b)
      = ∑ i, t.sign i * t.sign i * (coordinate a (t.axes i) * coordinate b (t.axes i)) := by
        rw [dot_coordinates]
        refine Finset.sum_congr rfl fun i _ => ?_
        rw [coordinate_map, coordinate_map, mul_mul_mul_comm]
    _ = ∑ i, coordinate a (t.axes i) * coordinate b (t.axes i) := by
        simp only [sign_square, one_mul]
    _ = dot a b := by
        rw [dot_coordinates]
        exact Equiv.sum_comp t.axes fun i => coordinate a i * coordinate b i

variable [LinearOrder F]

/-- The two walls of an axis are opposite. -/
theorem axis_force_odd (wallStiffness boxSize c : F) :
    axisForce wallStiffness boxSize (-c) = -axisForce wallStiffness boxSize c := by
  have low : -boxSize - -c = c - boxSize := by ring
  have high : -c - boxSize = -boxSize - c := by ring
  unfold axisForce
  simp only [low, high]
  split_ifs <;> ring

theorem wall_coordinate (wallStiffness : F) (pos : Float3 F) (boxSize : F) (i : Fin 3) :
    coordinate (calculateWallForce wallStiffness pos boxSize) i =
      axisForce wallStiffness boxSize (coordinate pos i) := by
  fin_cases i <;> rfl

theorem axis_force_sign (wallStiffness boxSize c : F) (i : Fin 3) :
    axisForce wallStiffness boxSize (t.sign i * c) =
      t.sign i * axisForce wallStiffness boxSize c := by
  unfold Turn.sign
  split
  · simp only [neg_one_mul, axis_force_odd]
  · simp only [one_mul]

/-- All 48 of them keep the walls. -/
def Turn.symmetry (t : Turn) : Symmetry F where
  map := t.map
  rigid := turn_rigid t
  walls k pos b := vector_ext fun i => by
    rw [wall_coordinate, coordinate_map, coordinate_map, wall_coordinate, axis_force_sign]

end Turn

section Runs
variable [LinearOrder F]

/-- The launches of particle_sim.py one after another, each with the order its threads take. -/
def inlineRun (sqrtf : F → F) (a : Args F) (orders : List (List Nat)) (s : Arrays F) :
    Arrays F :=
  orders.foldl (fun s order => inlineLaunch sqrtf a order s) s

/-- The steps of the workers of particle_kernel.cu, each with its owners. -/
def workersRun {Worker : Type*} [DecidableEq Worker] (sqrtf : F → F) (a : Args F)
    (owners : List (Nat → Worker)) (s : Arrays F) : Arrays F :=
  owners.foldl (fun s owner => collected sqrtf a owner s) s

/-- What starts turned stays so, in either program and however its steps are scheduled. -/
theorem cube_symmetric (sqrtf : F → F) (a : Args F) (t : Turn) (s : Arrays F)
    (orders : List (List Nat)) {Worker : Type*} [DecidableEq Worker]
    (owners : List (Nat → Worker)) :
    inlineRun sqrtf a orders (turnArrays t.map s) =
        turnArrays t.map (inlineRun sqrtf a orders s) ∧
      workersRun sqrtf a owners (turnArrays t.map s) =
        turnArrays t.map (workersRun sqrtf a owners s) := by
  constructor
  · exact List.foldl_hom _ fun u order => inline_turned t.symmetry sqrtf a order u
  · exact List.foldl_hom _ fun u owner => collected_turned t.symmetry sqrtf a owner u

end Runs
end CubeSymmetry

import SpaceCube.Kernel.CubeSymmetry
import SpaceCube.Kernel.ForceBalance
import SpaceCube.Kernel.StoredAcceleration

/- stepSimulation of ci/kernel.cu with its three launches. predictFuture writes to an array of
   its own, which is the one that main copies. -/
namespace StepSimulation
open ParticleForce Float3Algebra Contact UpdateParticles CxxStep CubeSymmetry Runs
variable {F : Type*}

structure Params (F : Type*) where
  N : Nat
  dt : F
  predictionSteps : Int
  boxSize : F

/-- The two device arrays. -/
structure Globals (F : Type*) where
  particles : Nat → Particle F
  futureParticles : Nat → Particle F

/-- How the device takes the threads of the three launches. -/
structure Schedule where
  update : List Nat
  collisions : List (Nat × Nat)
  predict : List Nat

section Kernel
variable [Field F]

/-- The loop that adds up what acts on p, which need not be in the array. -/
def interaction (sqrtf : F → F) (N : Nat) (particles : Nat → Particle F) (idx : Nat)
    (p : Particle F) : Float3 F :=
  (List.range N).foldl (fun force j =>
    if j ≠ idx then force + CxxStep.calculateForce sqrtf p (particles j) else force) 0

/-- One round of predictFuture on the thread's copy p. -/
def predictRound (sqrtf : F → F) (N : Nat) (dt : F) (current : Nat → Particle F) (idx : Nat)
    (p : Particle F) : Particle F :=
  let force := interaction sqrtf N current idx p
  let totalAccel : Float3 F :=
    ⟨p.acceleration.x + force.x / p.mass, p.acceleration.y + force.y / p.mass,
      p.acceleration.z + force.z / p.mass⟩
  let velocity := p.velocity + dt • totalAccel
  { p with
    velocity := velocity
    position := p.position + dt • velocity }

def predicted (sqrtf : F → F) (params : Params F) (current : Nat → Particle F) (idx : Nat) :
    Particle F :=
  (predictRound sqrtf params.N params.dt current idx)^[params.predictionSteps.toNat]
    (current idx)

def predictFuture (sqrtf : F → F) (params : Params F) (current future : Nat → Particle F)
    (idx : Nat) : Nat → Particle F :=
  if params.N ≤ idx then future
  else Function.update future idx (predicted sqrtf params current idx)

variable [LinearOrder F]

/-- block.x is 256. The argument t is not used. slots is what the shared memory of the blocks
    holds when handleCollisions is launched. -/
def stepFrom (sqrtf : F → F) (params : Params F) (slots : Nat → Nat → Option (Particle F))
    (g : Globals F) (schedule : Schedule) : Option (Globals F) := do
  let updated := StoredAcceleration.launch sqrtf params.N params.dt params.boxSize
    schedule.update g.particles
  let handled ← HandleCollisions.launchFrom sqrtf params.N 256 slots updated schedule.collisions
  some {
    particles := handled.particles
    futureParticles := schedule.predict.foldl
      (predictFuture sqrtf params handled.particles) g.futureParticles }

/-- A slot that no thread of the launch has stored to is absent. -/
def stepSimulation (sqrtf : F → F) (params : Params F) (g : Globals F) (schedule : Schedule) :
    Option (Globals F) :=
  stepFrom sqrtf params (fun _ _ => none) g schedule

def steps (sqrtf : F → F) (params : Params F) (g : Globals F) (schedules : List Schedule) :
    Option (Globals F) :=
  run (stepSimulation sqrtf params) g schedules

/-- What the device has for one step: the shared memory it finds and the order it takes. -/
abbrev Device (F : Type*) := (Nat → Nat → Option (Particle F)) × Schedule

def stepsFrom (sqrtf : F → F) (params : Params F) (g : Globals F) (devices : List (Device F)) :
    Option (Globals F) :=
  run (fun g device => stepFrom sqrtf params device.1 g device.2) g devices

theorem steps_from (sqrtf : F → F) (params : Params F) (g : Globals F)
    (schedules : List Schedule) : steps sqrtf params g schedules =
      stepsFrom sqrtf params g (schedules.map fun schedule => (fun _ _ => none, schedule)) := by
  rw [steps, stepsFrom, run, run, List.foldlM_map]
  rfl

theorem step_iff {sqrtf : F → F} {params : Params F} {slots : Nat → Nat → Option (Particle F)}
    {g h : Globals F} {schedule : Schedule} :
    stepFrom sqrtf params slots g schedule = some h ↔ ∃ handled,
      HandleCollisions.launchFrom sqrtf params.N 256 slots (StoredAcceleration.launch sqrtf
        params.N params.dt params.boxSize schedule.update g.particles) schedule.collisions =
          some handled ∧
      ⟨handled.particles, schedule.predict.foldl
        (predictFuture sqrtf params handled.particles) g.futureParticles⟩ = h := by
  simp [stepFrom, Option.bind_eq_some_iff]

end Kernel

section Turning
variable [Field F]

def turnParticle (T : Float3 F →ₗ[F] Float3 F) (p : Particle F) : Particle F :=
  { p with
    position := T p.position
    velocity := T p.velocity
    acceleration := T p.acceleration }

def turnArray (T : Float3 F →ₗ[F] Float3 F) (particles : Nat → Particle F) (i : Nat) :
    Particle F :=
  turnParticle T (particles i)

def turnGlobals (T : Float3 F →ₗ[F] Float3 F) (g : Globals F) : Globals F :=
  ⟨turnArray T g.particles, turnArray T g.futureParticles⟩

theorem array_set (T : Float3 F →ₗ[F] Float3 F) (particles : Nat → Particle F) (i : Nat)
    (p : Particle F) :
    Function.update (turnArray T particles) i (turnParticle T p) =
      turnArray T (Function.update particles i p) := by
  funext j
  by_cases here : j = i
  · rw [here, Function.update_self, turnArray, Function.update_self]
  · rw [Function.update_of_ne here, turnArray, turnArray, Function.update_of_ne here]

theorem interaction_turned {T : Float3 F →ₗ[F] Float3 F} (rigid : Rigid T) (sqrtf : F → F)
    (N : Nat) (particles : Nat → Particle F) (idx : Nat) (p : Particle F) :
    interaction sqrtf N (turnArray T particles) idx (turnParticle T p) =
      T (interaction sqrtf N particles idx p) := by
  unfold interaction
  conv_lhs => rw [← map_zero T]
  refine List.foldl_hom T fun force j => ?_
  have pull : CxxStep.calculateForce sqrtf (turnParticle T p) (turnArray T particles j) =
      T (CxxStep.calculateForce sqrtf p (particles j)) := force_turned rigid sqrtf _ _ _ _
  rw [pull, ← map_add, apply_ite T]

/-- The division by the mass, in vectors. -/
theorem over_mass (acceleration force : Float3 F) (mass : F) :
    (⟨acceleration.x + force.x / mass, acceleration.y + force.y / mass,
      acceleration.z + force.z / mass⟩ : Float3 F) = acceleration + mass⁻¹ • force := by
  ext <;> simp only [div_eq_inv_mul, add_x, add_y, add_z, smul_x, smul_y, smul_z]

theorem predict_round_turned {T : Float3 F →ₗ[F] Float3 F} (rigid : Rigid T) (sqrtf : F → F)
    (N : Nat) (dt : F) (current : Nat → Particle F) (idx : Nat) (p : Particle F) :
    predictRound sqrtf N dt (turnArray T current) idx (turnParticle T p) =
      turnParticle T (predictRound sqrtf N dt current idx p) := by
  simp only [predictRound, interaction_turned rigid, over_mass]
  simp only [turnParticle, map_add, map_smul]

theorem predicted_turned {T : Float3 F →ₗ[F] Float3 F} (rigid : Rigid T) (sqrtf : F → F)
    (params : Params F) (current : Nat → Particle F) (idx : Nat) :
    predicted sqrtf params (turnArray T current) idx =
      turnParticle T (predicted sqrtf params current idx) := by
  have rounds : Function.Semiconj (turnParticle T)
      (predictRound sqrtf params.N params.dt current idx)
      (predictRound sqrtf params.N params.dt (turnArray T current) idx) :=
    fun p => (predict_round_turned rigid sqrtf params.N params.dt current idx p).symm
  exact (rounds.iterate_right _ (current idx)).symm

theorem predict_turned {T : Float3 F →ₗ[F] Float3 F} (rigid : Rigid T) (sqrtf : F → F)
    (params : Params F) (current future : Nat → Particle F) (order : List Nat) :
    order.foldl (predictFuture sqrtf params (turnArray T current)) (turnArray T future) =
      turnArray T (order.foldl (predictFuture sqrtf params current) future) := by
  refine List.foldl_hom (turnArray T) fun u idx => ?_
  rw [predictFuture, predictFuture, predicted_turned rigid, array_set, apply_ite (turnArray T)]

variable [LinearOrder F]

theorem resolve_particles_turned {T : Float3 F →ₗ[F] Float3 F} (rigid : Rigid T)
    (sqrtf : F → F) (p1 p2 : Particle F) :
    CxxStep.resolveCollision sqrtf (turnParticle T p1) (turnParticle T p2) =
      Prod.map (turnParticle T) (turnParticle T) (CxxStep.resolveCollision sqrtf p1 p2) := by
  have pair : rebound sqrtf (turnParticle T p1).motion p1.radius p1.mass
      (turnParticle T p2).motion p2.radius p2.mass =
        Prod.map (turnMotion T) (turnMotion T)
          (rebound sqrtf p1.motion p1.radius p1.mass p2.motion p2.radius p2.mass) :=
    rebound_turned rigid sqrtf p1.motion p1.radius p1.mass p2.motion p2.radius p2.mass
  have delta : (turnParticle T p1).position - (turnParticle T p2).position =
      T (p1.position - p2.position) := (map_sub T _ _).symm
  have square := rigid (p1.position - p2.position) (p1.position - p2.position)
  have length := distance_turned rigid sqrtf (p1.position - p2.position)
  have radii : (turnParticle T p1).radius = p1.radius ∧ (turnParticle T p2).radius = p2.radius :=
    ⟨rfl, rfl⟩
  have masses : (turnParticle T p1).mass = p1.mass ∧ (turnParticle T p2).mass = p2.mass :=
    ⟨rfl, rfl⟩
  unfold CxxStep.resolveCollision
  simp only [delta, square, length, radii, masses, pair]
  split
  · rfl
  · split <;> rfl

/-- A pair in one array. -/
theorem collide_in_place_turned {T : Float3 F →ₗ[F] Float3 F} (rigid : Rigid T) (sqrtf : F → F)
    (idx : Nat) (particles : Nat → Particle F) (i : Nat) :
    collideInPlace sqrtf idx (turnArray T particles) i =
      turnArray T (collideInPlace sqrtf idx particles i) := by
  by_cases other : i ≠ idx
  · have pair : CxxStep.resolveCollision sqrtf (turnArray T particles idx)
        (turnArray T particles i) = Prod.map (turnParticle T) (turnParticle T)
          (CxxStep.resolveCollision sqrtf (particles idx) (particles i)) :=
      resolve_particles_turned rigid sqrtf (particles idx) (particles i)
    simp only [collideInPlace, if_pos other, pair, Prod.map, array_set]
  · simp only [collideInPlace, if_neg other]

section Symmetry
variable (t : Symmetry F) (sqrtf : F → F)

theorem advance_turned (N : Nat) (dt boxSize : F) (particles : Nat → Particle F) (idx : Nat) :
    advance sqrtf N dt boxSize (turnArray t.map particles) idx =
      turnParticle t.map (advance sqrtf N dt boxSize particles idx) := by
  have scaled : ∀ array : Nat → Particle F, advance sqrtf N dt boxSize array idx =
      let p := array idx
      let acceleration := p.acceleration + p.mass⁻¹ • (interaction sqrtf N array idx p +
        CxxStep.calculateWallForce p boxSize)
      let velocity := limitSpeed sqrtf ((0.999 : F) • (p.velocity + dt • acceleration))
      ⟨p.position + dt • velocity, velocity, acceleration, p.mass, p.radius⟩ := by
    intro array
    simp only [advance, over_mass]
    rfl
  have walls : ∀ p : Particle F, CxxStep.calculateWallForce (turnParticle t.map p) boxSize =
      t.map (CxxStep.calculateWallForce p boxSize) := fun p => t.walls 0.01 p.position boxSize
  have own : turnArray t.map particles idx = turnParticle t.map (particles idx) := rfl
  simp only [scaled, own, interaction_turned t.rigid, walls]
  simp only [turnParticle, ← map_add, ← map_smul, limit_turned t.rigid]

theorem update_particles_turned (N : Nat) (dt boxSize : F) (particles : Nat → Particle F)
    (idx : Nat) :
    updateParticles sqrtf N dt boxSize (turnArray t.map particles) idx =
      turnArray t.map (updateParticles sqrtf N dt boxSize particles idx) := by
  have rounds : ∀ array : Nat → Particle F, roundsInPlace sqrtf idx (turnArray t.map array) N =
      turnArray t.map (roundsInPlace sqrtf idx array N) := fun array =>
    List.foldl_hom (turnArray t.map) fun u i => collide_in_place_turned t.rigid sqrtf idx u i
  rw [updateParticles, updateParticles, advance_turned, array_set, rounds,
    apply_ite (turnArray t.map)]

theorem launch_turned (N : Nat) (dt boxSize : F) (order : List Nat)
    (particles : Nat → Particle F) :
    StoredAcceleration.launch sqrtf N dt boxSize order (turnArray t.map particles) =
      turnArray t.map (StoredAcceleration.launch sqrtf N dt boxSize order particles) :=
  List.foldl_hom (turnArray t.map) fun u idx =>
    update_particles_turned t sqrtf N dt boxSize u idx

end Symmetry
section Blocks
open HandleCollisions

def turnLaunch (T : Float3 F →ₗ[F] Float3 F) (s : Launch F) : Launch F where
  particles := turnArray T s.particles
  sharedParticles b t := (s.sharedParticles b t).map (turnParticle T)
  stages := s.stages

omit [LinearOrder F] in
theorem put_turned (T : Float3 F →ₗ[F] Float3 F) (table : Nat → Nat → Option (Particle F))
    (block tid : Nat) (p : Particle F) :
    put (fun b t => (table b t).map (turnParticle T)) block tid (some (turnParticle T p)) =
      fun b t => (put table block tid (some p) b t).map (turnParticle T) := by
  funext b t
  by_cases same : b = block ∧ t = tid
  · obtain ⟨rfl, rfl⟩ := same
    rw [put_self, put_self, Option.map_some]
  · rw [put_other _ _ _ _ same, put_other _ _ _ _ same]

omit [LinearOrder F] in
theorem load_turned (T : Float3 F →ₗ[F] Float3 F) (s : Launch F) (blockDim b t : Nat) :
    (turnLaunch T s).load blockDim b t = turnLaunch T (s.load blockDim b t) := by
  simp only [Launch.load, turnLaunch, turnArray, put_turned]

omit [LinearOrder F] in
theorem store_turned (T : Float3 F →ₗ[F] Float3 F) (s : Launch F) (blockDim b t : Nat) :
    (turnLaunch T s).store blockDim b t = (s.store blockDim b t).map (turnLaunch T) := by
  cases slot : s.sharedParticles b t with
  | none => simp [Launch.store, turnLaunch, slot]
  | some p => simp [Launch.store, turnLaunch, slot, array_set]

theorem meet_turned {T : Float3 F →ₗ[F] Float3 F} (rigid : Rigid T) (sqrtf : F → F)
    (s : Launch F) (b t i : Nat) :
    (turnLaunch T s).meet sqrtf b t i = (s.meet sqrtf b t i).map (turnLaunch T) := by
  by_cases other : i ≠ t
  · cases own : s.sharedParticles b t with
    | none => simp [Launch.meet, turnLaunch, other, own]
    | some p1 =>
        cases partner : s.sharedParticles b i with
        | none => simp [Launch.meet, turnLaunch, other, own, partner]
        | some p2 =>
            simp [Launch.meet, turnLaunch, other, own, partner, put_turned,
              resolve_particles_turned rigid]
  · simp [Launch.meet, other]

/-- A turn of a thread looks at the stages and not at the vectors. -/
theorem block_turned {T : Float3 F →ₗ[F] Float3 F} (rigid : Rigid T) (sqrtf : F → F)
    (N blockDim : Nat) (s : Launch F) (b t : Nat) :
    turn sqrtf N blockDim (turnLaunch T s) b t =
      (turn sqrtf N blockDim s b t).map (turnLaunch T) := by
  have gathered : Gathered N blockDim (turnLaunch T s) b ↔ Gathered N blockDim s b :=
    gathered_congr rfl b
  have stages : (turnLaunch T s).stages = s.stages := rfl
  by_cases running : Running N blockDim b t
  · cases here : s.stages b t with
    | loading =>
        rw [turn_loading running here, turn_loading running (stages ▸ here), load_turned]
        rfl
    | arrived =>
        by_cases all : Gathered N blockDim s b
        · rw [turn_passing running here all, turn_passing running (stages ▸ here)
            (gathered.mpr all)]
          rfl
        · rw [turn_waiting running here all, turn_waiting running (stages ▸ here)
            (mt gathered.mp all)]
          rfl
    | pairing i =>
        simp only [turn, if_pos running, stages, here, meet_turned rigid, store_turned]
        split
        · cases s.meet sqrtf b t i <;> rfl
        · cases s.store blockDim b t <;> rfl
    | finished =>
        rw [turn_finished running here, turn_finished running (stages ▸ here)]
        rfl
  · rw [turn_outside running, turn_outside running]
    rfl

theorem handled_turned {T : Float3 F →ₗ[F] Float3 F} (rigid : Rigid T) (sqrtf : F → F)
    (N blockDim : Nat) (particles : Nat → Particle F) (schedule : List (Nat × Nat)) :
    launchFrom sqrtf N blockDim (fun _ _ => none) (turnArray T particles) schedule =
      (launchFrom sqrtf N blockDim (fun _ _ => none) particles schedule).map (turnLaunch T) :=
  run_map (turnLaunch T)
    (fun s thread => block_turned rigid sqrtf N blockDim s thread.1 thread.2)
    (start particles) schedule

end Blocks

theorem step_turned (t : Symmetry F) (sqrtf : F → F) (params : Params F) (g : Globals F)
    (schedule : Schedule) :
    stepSimulation sqrtf params (turnGlobals t.map g) schedule =
      (stepSimulation sqrtf params g schedule).map (turnGlobals t.map) := by
  have updated : StoredAcceleration.launch sqrtf params.N params.dt params.boxSize
      schedule.update (turnGlobals t.map g).particles = _ :=
    launch_turned t sqrtf params.N params.dt params.boxSize schedule.update g.particles
  simp only [stepSimulation, stepFrom, updated, handled_turned t.rigid]
  cases HandleCollisions.launchFrom sqrtf params.N 256 (fun _ _ => none)
      (StoredAcceleration.launch sqrtf params.N params.dt params.boxSize schedule.update
        g.particles) schedule.collisions with
  | none => rfl
  | some handled =>
      have future := predict_turned t.rigid sqrtf params handled.particles g.futureParticles
        schedule.predict
      exact congrArg (fun u => some (Globals.mk (turnArray t.map handled.particles) u)) future

/-- Simulation and prediction of what starts turned stay turned, under every schedule. -/
theorem steps_turned (sqrtf : F → F) (params : Params F) (t : Turn) (g : Globals F)
    (schedules : List Schedule) :
    steps sqrtf params (turnGlobals t.map g) schedules =
      (steps sqrtf params g schedules).map (turnGlobals t.map) :=
  run_map (turnGlobals t.map) (step_turned t.symmetry sqrtf params) g schedules

end Turning

section Prediction
variable [Field F] {sqrtf : F → F} {params : Params F}

/-- A launch of predictFuture writes what its threads predict and nothing else. -/
theorem predict_entry (current future : Nat → Particle F) (order : List Nat) (idx : Nat) :
    order.foldl (predictFuture sqrtf params current) future idx =
      if idx ∈ order ∧ idx < params.N then predicted sqrtf params current idx
      else future idx := by
  induction order generalizing future with
  | nil => simp
  | cons first rest ih =>
      rw [List.foldl_cons, ih, predictFuture]
      by_cases outside : params.N ≤ first
      · rw [if_pos outside]
        by_cases later : idx ∈ rest ∧ idx < params.N
        · rw [if_pos later, if_pos ⟨List.mem_cons_of_mem first later.1, later.2⟩]
        · rw [if_neg later, if_neg]
          rintro ⟨member, inside⟩
          rcases List.mem_cons.mp member with rfl | rest
          · exact absurd inside (Nat.not_lt.mpr outside)
          · exact later ⟨rest, inside⟩
      · rw [if_neg outside]
        by_cases own : idx = first
        · subst own
          simp [Nat.not_le.mp outside]
        · simp [own]

/-- What a round reads of the particles is what the plain loop of particle_sim.py reads. -/
theorem interaction_plain (sqrtf : F → F) (N : Nat) (dt boxSize : F)
    (particles : Nat → Particle F) (idx : Nat) :
    interaction sqrtf N particles idx (particles idx) =
      totalForce sqrtf ⟨N, fun i => (particles i).mass, fun i => (particles i).radius, dt, boxSize⟩
        (fun i => (particles i).position) idx := rfl

variable [LinearOrder F]

theorem launch_mass (sqrtf : F → F) (N : Nat) (dt boxSize : F) (order : List Nat)
    (particles : Nat → Particle F) (i : Nat) :
    (StoredAcceleration.launch sqrtf N dt boxSize order particles i).mass =
      (particles i).mass := by
  induction order generalizing particles with
  | nil => rfl
  | cons idx rest ih =>
      rw [StoredAcceleration.launch, List.foldl_cons]
      refine (ih _).trans ?_
      by_cases other : i = idx
      · subst other
        by_cases inside : i < N
        · exact congrArg Prod.snd (StoredAcceleration.own_kept sqrtf dt boxSize inside particles)
        · rw [updateParticles, if_pos (Nat.not_lt.mp inside)]
      · exact congrArg Prod.snd (StoredAcceleration.other_kept sqrtf dt boxSize other particles)

theorem step_mass {g h : Globals F} {device : Device F}
    (stepped : stepFrom sqrtf params device.1 g device.2 = some h) (i : Nat) :
    (h.particles i).mass = (g.particles i).mass := by
  obtain ⟨handled, ran, rfl⟩ := step_iff.mp stepped
  have same := congrArg Prod.snd (StoredAcceleration.handled_kept sqrtf ran i)
  exact same.trans (launch_mass sqrtf _ _ _ _ _ i)

theorem steps_mass {g h : Globals F} {devices : List (Device F)}
    (ran : stepsFrom sqrtf params g devices = some h) (i : Nat) :
    (h.particles i).mass = (g.particles i).mass :=
  run_invariant (fun u => (u.particles i).mass = (g.particles i).mass)
    (fun _ _ _ stepped before => (step_mass stepped i).trans before) rfl ran

/-- The last step of a run decides the predictions. -/
theorem last_predicted {g h : Globals F} {devices : List (Device F)} {last : Device F}
    (ran : stepsFrom sqrtf params g (devices ++ [last]) = some h) {idx : Nat}
    (inside : idx < params.N) (runs : idx ∈ last.2.predict) :
    h.futureParticles idx = predicted sqrtf params h.particles idx := by
  rw [stepsFrom, run_append] at ran
  obtain ⟨u, _, ran⟩ := Option.bind_eq_some_iff.mp ran
  rw [run_cons] at ran
  obtain ⟨v, stepped, done⟩ := Option.bind_eq_some_iff.mp ran
  rw [run_nil, Option.some.injEq] at done
  obtain ⟨handled, _, rfl⟩ := step_iff.mp stepped
  rw [← done]
  exact (predict_entry _ _ _ idx).trans (if_pos ⟨runs, inside⟩)

variable [IsStrictOrderedRing F]

/-- The forces predict no change of the total momentum: what changes it is the stored
    accelerations. The centre of mass moves with it. -/
structure Balanced (params : Params F) (g : Globals F) : Prop where
  momentum : ∑ i ∈ Finset.range params.N,
      (g.futureParticles i).mass • (g.futureParticles i).velocity =
    ∑ i ∈ Finset.range params.N, (g.particles i).mass •
      ((g.particles i).velocity + params.dt • (g.particles i).acceleration)
  centre : ∑ i ∈ Finset.range params.N,
      (g.futureParticles i).mass • (g.futureParticles i).position =
    ∑ i ∈ Finset.range params.N, (g.particles i).mass • (g.particles i).position +
      params.dt • ∑ i ∈ Finset.range params.N,
        (g.futureParticles i).mass • (g.futureParticles i).velocity

/-- This is so whatever the blocks of handleCollisions find in their shared memory. -/
theorem predicted_balanced {g h : Globals F} {devices : List (Device F)} {last : Device F}
    (one : params.predictionSteps = 1) (heavy : ∀ i < params.N, (g.particles i).mass ≠ 0)
    (complete : ∀ i < params.N, i ∈ last.2.predict)
    (ran : stepsFrom sqrtf params g (devices ++ [last]) = some h) : Balanced params h := by
  let force := fun i => interaction sqrtf params.N h.particles i (h.particles i)
  have single : ∀ i < params.N, h.futureParticles i =
      predictRound sqrtf params.N params.dt h.particles i (h.particles i) := by
    intro i inside
    rw [last_predicted ran inside (complete i inside), predicted, one]
    rfl
  have velocity : ∀ i < params.N, (h.futureParticles i).mass • (h.futureParticles i).velocity =
      (h.particles i).mass • ((h.particles i).velocity +
        params.dt • (h.particles i).acceleration) + params.dt • force i := by
    intro i inside
    have mass : (h.particles i).mass ≠ 0 := (steps_mass ran i).symm ▸ heavy i inside
    have moved : (h.particles i).mass • params.dt • (h.particles i).mass⁻¹ • force i =
        params.dt • force i := by rw [smul_comm, smul_inv_smul₀ mass]
    rw [single i inside, ← moved, ← smul_add, add_assoc, ← smul_add, ← over_mass]
    rfl
  have position : ∀ i < params.N, (h.futureParticles i).mass • (h.futureParticles i).position =
      (h.particles i).mass • (h.particles i).position +
        params.dt • ((h.futureParticles i).mass • (h.futureParticles i).velocity) := by
    intro i inside
    rw [single i inside, smul_comm params.dt]
    exact smul_add (h.particles i).mass (h.particles i).position _
  have cancel : ∑ i ∈ Finset.range params.N, force i = 0 := by
    rw [Finset.sum_congr rfl fun i _ => interaction_plain sqrtf params.N params.dt
      params.boxSize h.particles i]
    exact ForceBalance.forces_cancel sqrtf _ _
  have members := fun i (member : i ∈ Finset.range params.N) => Finset.mem_range.mp member
  constructor
  · rw [Finset.sum_congr rfl fun i member => velocity i (members i member),
      Finset.sum_add_distrib, ← Finset.smul_sum, cancel, smul_zero, add_zero]
  · rw [Finset.sum_congr rfl fun i member => position i (members i member),
      Finset.sum_add_distrib, ← Finset.smul_sum]

end Prediction

/-- The parameters of main. -/
def mainParams [Field F] : Params F := ⟨100, 0.1, 1, 100.0⟩

noncomputable def sampleGlobals : Globals ℝ :=
  ⟨StoredAcceleration.samplePair, StoredAcceleration.samplePair⟩

/-- The threads past N leave their slots as they found them. The turns are enough for all others
    to load, wait, meet 256 slots and store. -/
noncomputable def sampleDevice : Device ℝ :=
  (fun _ t => some (StoredAcceleration.samplePair t),
    { update := List.range 256
      collisions := (List.range 259).flatMap fun _ => (List.range 256).map fun t => (0, t)
      predict := List.range 256 })

theorem sample_balanced :
    ∃ h, stepsFrom Real.sqrt mainParams sampleGlobals [sampleDevice] = some h ∧
      Balanced mainParams h := by
  let params : Params ℝ := mainParams
  obtain ⟨handled, collided⟩ := HandleCollisions.filled_defined
    (fun _ t => (rfl : (some (StoredAcceleration.samplePair t)).isSome = true)) Real.sqrt
    params.N 256 (StoredAcceleration.launch Real.sqrt params.N params.dt params.boxSize
      sampleDevice.2.update sampleGlobals.particles) sampleDevice.2.collisions
  have stepped : stepFrom Real.sqrt params sampleDevice.1 sampleGlobals sampleDevice.2 =
      some _ := step_iff.mpr ⟨handled, collided, rfl⟩
  have ran : stepsFrom Real.sqrt params sampleGlobals ([] ++ [sampleDevice]) = some _ :=
    run_snoc (run_nil _ _) stepped
  refine ⟨_, ran, predicted_balanced rfl ?_ ?_ ran⟩
  · intro i _
    exact StoredAcceleration.initial_mass (StoredAcceleration.pair_initialized i)
  · intro i inside
    have below : i < 100 := inside
    simp only [sampleDevice, List.mem_range]
    omega

end StepSimulation

import SpaceCube.Kernel.HandleCollisions

/- The acceleration that updateParticles of ci/kernel.cu stores, launch after launch: the next
   launch takes it for the initial one. -/
namespace StoredAcceleration
open ParticleForce Float3Algebra Contact UpdateParticles CxxStep
variable {F : Type*}

/-- What only updateParticles writes, and the mass, which nothing writes. -/
def kept (p : Particle F) : Float3 F × F := (p.acceleration, p.mass)

section Kernel
variable [Field F] [LinearOrder F]

/-- The variable force in updateParticles before the division by the mass. -/
def netForce (sqrtf : F → F) (N : Nat) (boxSize : F) (particles : Nat → Particle F)
    (idx : Nat) : Float3 F :=
  (List.range N).foldl (fun force i =>
    if i ≠ idx then force + CxxStep.calculateForce sqrtf (particles idx) (particles i)
    else force) 0 + CxxStep.calculateWallForce (particles idx) boxSize

/-- The threads one after another in a given order. -/
def launch (sqrtf : F → F) (N : Nat) (dt boxSize : F) (order : List Nat)
    (particles : Nat → Particle F) : Nat → Particle F :=
  order.foldl (updateParticles sqrtf N dt boxSize) particles

/-- The force that thread idx computes in a launch, from what it finds. -/
def forceOn (sqrtf : F → F) (N : Nat) (dt boxSize : F) (order : List Nat)
    (particles : Nat → Particle F) (idx : Nat) : Float3 F :=
  netForce sqrtf N boxSize
    (launch sqrtf N dt boxSize (order.takeWhile (· ≠ idx)) particles) idx

/-- Launch k runs each thread once on states k; what else happens before launch k + 1 leaves
    accelerations and masses. -/
structure Trajectory (sqrtf : F → F) (N : Nat) (dt boxSize : F) (orders : Nat → List Nat)
    (states : Nat → Nat → Particle F) : Prop where
  full : ∀ k, (orders k).Perm (List.range N)
  between : ∀ k i, kept (states (k + 1) i) =
    kept (launch sqrtf N dt boxSize (orders k) (states k) i)

/-- After launch k the particle has its first acceleration and that of launch k's force. -/
def InitialPlusForce (sqrtf : F → F) (N : Nat) (dt boxSize : F) (orders : Nat → List Nat)
    (states : Nat → Nat → Particle F) (k idx : Nat) : Prop :=
  (launch sqrtf N dt boxSize (orders k) (states k) idx).acceleration =
    (states 0 idx).acceleration +
      (states 0 idx).mass⁻¹ • forceOn sqrtf N dt boxSize (orders k) (states k) idx

/-- The same launch again and again, with nothing in between. -/
def repeated (sqrtf : F → F) (N : Nat) (dt boxSize : F) (order : List Nat)
    (particles : Nat → Particle F) (k : Nat) : Nat → Particle F :=
  (launch sqrtf N dt boxSize order)^[k] particles

theorem repeated_trajectory {sqrtf : F → F} {N : Nat} {dt boxSize : F} {order : List Nat}
    (full : order.Perm (List.range N)) (particles : Nat → Particle F) :
    Trajectory sqrtf N dt boxSize (fun _ => order)
      (repeated sqrtf N dt boxSize order particles) where
  full _ := full
  between k i := by rw [repeated, Function.iterate_succ_apply', repeated]

theorem resolve_kept (sqrtf : F → F) (p1 p2 : Particle F) :
    kept (CxxStep.resolveCollision sqrtf p1 p2).1 = kept p1 ∧
      kept (CxxStep.resolveCollision sqrtf p1 p2).2 = kept p2 := by
  unfold CxxStep.resolveCollision
  dsimp only
  split
  · exact ⟨rfl, rfl⟩
  · split
    · exact ⟨rfl, rfl⟩
    · exact ⟨rfl, rfl⟩

theorem round_kept (sqrtf : F → F) (idx : Nat) (particles : Nat → Particle F) (i j : Nat) :
    kept (collideInPlace sqrtf idx particles i j) = kept (particles j) := by
  obtain ⟨first, second⟩ := resolve_kept sqrtf (particles idx) (particles i)
  by_cases other : i ≠ idx
  · rw [collideInPlace, if_pos other]
    by_cases partner : j = i
    · rw [partner, Function.update_self, second]
    · rw [Function.update_of_ne partner]
      by_cases own : j = idx
      · rw [own, Function.update_self, first]
      · rw [Function.update_of_ne own]
  · rw [collideInPlace, if_neg other]

theorem rounds_kept (sqrtf : F → F) (idx : Nat) (particles : Nat → Particle F) (n j : Nat) :
    kept (roundsInPlace sqrtf idx particles n j) = kept (particles j) := by
  induction n with
  | zero => rfl
  | succ n before => rw [in_place_succ, round_kept, before]

variable (sqrtf : F → F) {N : Nat} (dt boxSize : F)

theorem other_kept {idx j : Nat} (other : j ≠ idx) (particles : Nat → Particle F) :
    kept (updateParticles sqrtf N dt boxSize particles idx j) = kept (particles j) := by
  by_cases outside : N ≤ idx
  · rw [updateParticles, if_pos outside]
  · rw [updateParticles, if_neg outside, rounds_kept, Function.update_of_ne other]

theorem own_kept {idx : Nat} (inside : idx < N) (particles : Nat → Particle F) :
    kept (updateParticles sqrtf N dt boxSize particles idx idx) =
      ((particles idx).acceleration +
        (particles idx).mass⁻¹ • netForce sqrtf N boxSize particles idx,
        (particles idx).mass) := by
  rw [updateParticles, if_neg (Nat.not_le.mpr inside), rounds_kept, Function.update_self]
  have total : (advance sqrtf N dt boxSize particles idx).acceleration =
      (particles idx).acceleration +
        (particles idx).mass⁻¹ • netForce sqrtf N boxSize particles idx := by
    ext <;> exact congrArg (_ + ·) (div_eq_inv_mul _ _)
  exact congrArg (·, (particles idx).mass) total

theorem absent_kept {idx : Nat} {order : List Nat} (absent : idx ∉ order)
    (particles : Nat → Particle F) :
    kept (launch sqrtf N dt boxSize order particles idx) = kept (particles idx) := by
  induction order generalizing particles with
  | nil => rfl
  | cons first rest ih =>
      obtain ⟨other, later⟩ := not_or.mp (mt List.mem_cons.mpr absent)
      rw [launch, List.foldl_cons]
      exact (ih later _).trans (other_kept sqrtf dt boxSize other particles)

/-- In a full launch every particle gets its own force once. -/
theorem launch_kept {order : List Nat} (full : order.Perm (List.range N)) {idx : Nat}
    (inside : idx < N) (particles : Nat → Particle F) :
    kept (launch sqrtf N dt boxSize order particles idx) =
      ((particles idx).acceleration +
        (particles idx).mass⁻¹ • forceOn sqrtf N dt boxSize order particles idx,
        (particles idx).mass) := by
  have member : idx ∈ order := full.mem_iff.mpr (List.mem_range.mpr inside)
  obtain ⟨front, back, split, absent⟩ := List.eq_append_cons_of_mem member
  have distinct := full.nodup_iff.mpr List.nodup_range
  rw [split] at distinct
  have later : idx ∉ back := (List.nodup_cons.mp distinct.of_append_right).1
  have before : order.takeWhile (· ≠ idx) = front := by
    have others : ∀ i ∈ front, decide (i ≠ idx) = true := fun i earlier =>
      decide_eq_true fun same => absent (same ▸ earlier)
    rw [split, List.takeWhile_append_of_pos others, List.takeWhile_cons_of_neg (by simp),
      List.append_nil]
  have found := absent_kept sqrtf dt boxSize (N := N) absent particles
  have acceleration := congrArg Prod.fst found
  have mass := congrArg Prod.snd found
  have last : launch sqrtf N dt boxSize order particles = launch sqrtf N dt boxSize back
      (updateParticles sqrtf N dt boxSize (launch sqrtf N dt boxSize front particles) idx) := by
    simp only [launch, split, List.foldl_append, List.foldl_cons]
  rw [last, absent_kept sqrtf dt boxSize later, own_kept sqrtf dt boxSize inside]
  dsimp only [kept] at acceleration mass
  rw [acceleration, mass, forceOn, before]

/-- Arrays and the slots of the threads past their load, up to places and velocities. -/
structure SameBodies (blockDim : Nat) (particles : Nat → Particle F)
    (s : HandleCollisions.Launch F) : Prop where
  array : ∀ i, kept (s.particles i) = kept (particles i)
  slots : ∀ b t p, s.stages b t ≠ .loading → s.sharedParticles b t = some p →
    kept p = kept (particles (b * blockDim + t))

omit [Field F] [LinearOrder F] in
theorem put_kept {blockDim : Nat} {particles : Nat → Particle F}
    {table : Nat → Nat → Option (Particle F)} (past : Nat → Nat → Prop) {block tid : Nat}
    (slots : ∀ b t p, ¬ (b = block ∧ t = tid) → past b t → table b t = some p →
      kept p = kept (particles (b * blockDim + t))) {q : Particle F}
    (own : past block tid → kept q = kept (particles (block * blockDim + tid)))
    (b t : Nat) (p : Particle F) (there : past b t)
    (here : HandleCollisions.put table block tid (some q) b t = some p) :
    kept p = kept (particles (b * blockDim + t)) := by
  by_cases same : b = block ∧ t = tid
  · obtain ⟨rfl, rfl⟩ := same
    rw [HandleCollisions.put_self, Option.some.injEq] at here
    rw [← here]
    exact own there
  · rw [HandleCollisions.put_other _ _ _ _ same] at here
    exact slots b t p same there here

omit [Field F] [LinearOrder F] in
/-- Only the thread that enters a stage leaves the one it was in. -/
theorem entered_past {s : HandleCollisions.Launch F} {blockIdx threadIdx b t : Nat}
    {stage : HandleCollisions.Stage}
    (past : (s.enter blockIdx threadIdx stage).stages b t ≠ .loading)
    (own : b = blockIdx ∧ t = threadIdx → s.stages b t ≠ .loading) :
    s.stages b t ≠ .loading := by
  by_cases same : b = blockIdx ∧ t = threadIdx
  · exact own same
  · simpa only [HandleCollisions.Launch.enter, HandleCollisions.put_other _ _ _ _ same] using past

variable {sqrtf} in
theorem turn_kept {blockDim : Nat} {particles : Nat → Particle F}
    {s u : HandleCollisions.Launch F} {blockIdx threadIdx : Nat}
    (same : SameBodies blockDim particles s)
    (fires : HandleCollisions.turn sqrtf N blockDim s blockIdx threadIdx = some u) :
    SameBodies blockDim particles u := by
  cases HandleCollisions.turn_cases fires with
  | idle => exact same
  | load running here =>
      refine ⟨same.array, fun b t p past slot => ?_⟩
      let passed := fun b t => ((s.load blockDim blockIdx threadIdx).enter blockIdx threadIdx
        .arrived).stages b t ≠ .loading
      refine put_kept passed (fun b t p other past slot => ?_) (fun _ => same.array _) b t p past
        slot
      exact same.slots b t p (entered_past past fun own => absurd own other) slot
  | pass here gathered =>
      refine ⟨same.array, fun b t p past slot => ?_⟩
      exact same.slots b t p (entered_past past fun own => by simp [own, here]) slot
  | meet here pair =>
      rename_i i met
      have before : ∀ b t, (met.enter blockIdx threadIdx (.pairing (i + 1))).stages b t ≠
          .loading → s.stages b t ≠ .loading := by
        intro b t past
        have stages := (HandleCollisions.meet_kept pair).2
        rw [← stages]
        exact entered_past past fun own => by simp [own, stages, here]
      have own : s.stages blockIdx threadIdx ≠ .loading := by simp [here]
      by_cases other : i = threadIdx
      · rw [other, HandleCollisions.meet_self, Option.some.injEq] at pair
        subst pair
        exact ⟨same.array, fun b t p past slot => same.slots b t p (before b t past) slot⟩
      · obtain ⟨p1, p2, mine, partner, rfl⟩ := (HandleCollisions.meet_iff other).mp pair
        obtain ⟨first, second⟩ := resolve_kept sqrtf p1 p2
        refine ⟨same.array, fun b t p past slot => ?_⟩
        let passed := fun b t => s.stages b t ≠ .loading
        refine put_kept passed (fun b t p _ past slot => ?_) (fun past => ?_) b t p
          (before b t past) slot
        · refine put_kept passed (fun b t p _ past slot => same.slots b t p past slot)
            (fun _ => ?_) b t p past slot
          exact first.trans (same.slots _ _ _ own mine)
        · exact second.trans (same.slots _ _ _ past partner)
  | store here stored =>
      obtain ⟨p, own, rfl⟩ := HandleCollisions.store_iff.mp stored
      have past : s.stages blockIdx threadIdx ≠ .loading := by simp [here]
      refine ⟨fun i => ?_, fun b t q later slot => ?_⟩
      · by_cases slot : i = blockIdx * blockDim + threadIdx
        · rw [slot]
          simpa [HandleCollisions.Launch.enter] using same.slots _ _ _ past own
        · simpa [HandleCollisions.Launch.enter, slot] using same.array i
      · refine same.slots b t q (entered_past later fun same => ?_) slot
        simp [same, here]

/-- handleCollisions, whatever its schedule and its shared memory, leaves accelerations and
    masses. -/
theorem handled_kept {blockDim : Nat} {slots : Nat → Nat → Option (Particle F)}
    {particles : Nat → Particle F} {schedule : List (Nat × Nat)} {s : HandleCollisions.Launch F}
    (ran : HandleCollisions.launchFrom sqrtf N blockDim slots particles schedule = some s)
    (i : Nat) : kept (s.particles i) = kept (particles i) := by
  have same : SameBodies blockDim particles s := by
    apply Runs.run_invariant (SameBodies blockDim particles) ?_ ?_ ran
    · intro s thread u fires before
      exact turn_kept before fires
    · exact ⟨fun i => rfl, fun b t p past _ => absurd rfl past⟩
  exact same.array i

/-- The steps of stepSimulation are a trajectory. -/
theorem simulated_trajectory {blockDim : Nat} {orders : Nat → List Nat}
    {states : Nat → Nat → Particle F} (full : ∀ k, (orders k).Perm (List.range N))
    (steps : ∀ k, ∃ slots schedule s, HandleCollisions.launchFrom sqrtf N blockDim slots
      (launch sqrtf N dt boxSize (orders k) (states k)) schedule = some s ∧
        states (k + 1) = s.particles) :
    Trajectory sqrtf N dt boxSize orders states where
  full := full
  between k i := by
    obtain ⟨_, schedule, s, ran, next⟩ := steps k
    rw [next]
    exact handled_kept sqrtf ran i

section Runs
variable {sqrtf dt boxSize} {orders : Nat → List Nat} {states : Nat → Nat → Particle F}
  (trajectory : Trajectory sqrtf N dt boxSize orders states) {idx : Nat} (inside : idx < N)
include trajectory inside

theorem next_kept (k : Nat) :
    kept (states (k + 1) idx) = ((states k idx).acceleration +
      (states k idx).mass⁻¹ • forceOn sqrtf N dt boxSize (orders k) (states k) idx,
      (states k idx).mass) :=
  (trajectory.between k idx).trans
    (launch_kept sqrtf dt boxSize (trajectory.full k) inside (states k))

theorem mass_kept (k : Nat) : (states k idx).mass = (states 0 idx).mass := by
  induction k with
  | zero => rfl
  | succ k before => exact (congrArg Prod.snd (next_kept trajectory inside k)).trans before

/-- The forces of all earlier launches are still in the stored acceleration. -/
theorem accumulated (k : Nat) :
    (states k idx).acceleration = (states 0 idx).acceleration + (states 0 idx).mass⁻¹ •
      ∑ j ∈ Finset.range k, forceOn sqrtf N dt boxSize (orders j) (states j) idx := by
  induction k with
  | zero => simp
  | succ k before =>
      have next : (states (k + 1) idx).acceleration = _ :=
        congrArg Prod.fst (next_kept trajectory inside k)
      rw [next, mass_kept trajectory inside, before, Finset.sum_range_succ, smul_add, add_assoc]

theorem stored_after (k : Nat) :
    (launch sqrtf N dt boxSize (orders k) (states k) idx).acceleration =
      (states k idx).acceleration + (states 0 idx).mass⁻¹ •
        forceOn sqrtf N dt boxSize (orders k) (states k) idx := by
  have own := congrArg Prod.fst
    (launch_kept sqrtf dt boxSize (trajectory.full k) inside (states k))
  rw [mass_kept trajectory inside] at own
  exact own

/-- Launch k stores initial plus force exactly when it finds the initial acceleration, that is
    when the forces of the launches before it cancel. -/
theorem initial_plus_force_iff (heavy : (states 0 idx).mass ≠ 0) (k : Nat) :
    (InitialPlusForce sqrtf N dt boxSize orders states k idx ↔
      (states k idx).acceleration = (states 0 idx).acceleration) ∧
    ((states k idx).acceleration = (states 0 idx).acceleration ↔
      ∑ j ∈ Finset.range k, forceOn sqrtf N dt boxSize (orders j) (states j) idx = 0) := by
  constructor
  · rw [InitialPlusForce, stored_after trajectory inside]
    exact add_left_inj _
  · rw [accumulated trajectory inside, add_eq_left]
    exact smul_eq_zero_iff_right (inv_ne_zero heavy)

end Runs
end Kernel

section Initial
variable [Field F] [LinearOrder F] [IsStrictOrderedRing F]

def Within (bound : F) (v : Float3 F) : Prop := |v.x| ≤ bound ∧ |v.y| ≤ bound ∧ |v.z| ≤ bound

/-- What initialize can give a particle. -/
structure Initialized (boxSize : F) (p : Particle F) : Prop where
  mass : 0.6 ≤ p.mass ∧ p.mass ≤ 0.8
  radius : p.radius ^ 3 = p.mass
  position : Within (0.5 * boxSize) p.position
  velocity : Within 10.0 p.velocity
  acceleration : Within 0.01 p.acceleration

theorem initial_mass {boxSize : F} {p : Particle F} (initial : Initialized boxSize p) :
    p.mass ≠ 0 := by
  have positive : (0 : F) < 0.6 := by norm_num
  exact (positive.trans_le initial.mass.1).ne'

end Initial

/-- Two resting bodies, far apart. -/
def samplePair [Field F] (i : Nat) : Particle F where
  position := if i = 0 then ⟨-5.0, 0, 0⟩ else ⟨5.0, 0, 0⟩
  velocity := 0
  acceleration := 0
  mass := 0.729
  radius := 0.9

theorem pair_initialized (i : Nat) : Initialized (20 : ℝ) (samplePair i) where
  mass := by norm_num [samplePair]
  radius := by norm_num [samplePair]
  position := by
    by_cases first : i = 0
    · norm_num [samplePair, Within, first, abs_of_nonneg]
    · norm_num [samplePair, Within, first, abs_of_nonneg]
  velocity := by norm_num [samplePair, Within]
  acceleration := by norm_num [samplePair, Within]

theorem sample_trajectory :
    Trajectory Real.sqrt 2 0 20 (fun _ => [0, 1])
      (repeated Real.sqrt 2 0 20 [0, 1] samplePair) := repeated_trajectory (.refl _) _

theorem sample_first_launch :
    InitialPlusForce Real.sqrt 2 0 20 (fun _ => [0, 1])
      (repeated Real.sqrt 2 0 20 [0, 1] samplePair) 0 0 :=
  (initial_plus_force_iff sample_trajectory Nat.two_pos
    (initial_mass (pair_initialized 0)) 0).1.mpr (Eq.refl _)

theorem sample_pull :
    0 < (forceOn Real.sqrt 2 0 20 [0, 1] samplePair 0).x := by
  have pull : 0 < (CxxStep.calculateForce Real.sqrt (samplePair 0) (samplePair 1)).x := by
    apply pull_ahead (fun v => Real.sqrt_pos.mpr)
    · norm_num [samplePair]
    · norm_num [samplePair]
  have wall : CxxStep.calculateWallForce (samplePair 0) (20 : ℝ) = 0 := by
    ext
    · exact axis_force_inside (by norm_num [samplePair]) (by norm_num [samplePair]) _
    · exact axis_force_inside (by norm_num [samplePair]) (by norm_num [samplePair]) _
    · exact axis_force_inside (by norm_num [samplePair]) (by norm_num [samplePair]) _
  have force : forceOn Real.sqrt 2 0 20 [0, 1] samplePair 0 =
      CxxStep.calculateForce Real.sqrt (samplePair 0) (samplePair 1) := by
    simp [forceOn, launch, netForce, wall, List.range_succ]
  rw [force]
  exact pull

/-- After the second launch the force of the first is still there. -/
theorem second_launch_drifts :
    (∀ i, Initialized (20 : ℝ) (samplePair i)) ∧
      ¬ InitialPlusForce Real.sqrt 2 0 20 (fun _ => [0, 1])
        (repeated Real.sqrt 2 0 20 [0, 1] samplePair) 1 0 := by
  refine ⟨pair_initialized, fun initial => ?_⟩
  have heavy : (repeated Real.sqrt 2 0 20 [0, 1] samplePair 0 0).mass ≠ 0 :=
    initial_mass (pair_initialized 0)
  rw [InitialPlusForce, stored_after sample_trajectory Nat.two_pos,
    accumulated sample_trajectory Nat.two_pos, add_left_inj, add_eq_left,
    smul_eq_zero_iff_right (inv_ne_zero heavy),
    Finset.sum_range_one] at initial
  have zero : (forceOn Real.sqrt 2 0 20 [0, 1] samplePair 0).x = 0 :=
    congrArg Float3.x initial
  exact sample_pull.ne' zero

end StoredAcceleration

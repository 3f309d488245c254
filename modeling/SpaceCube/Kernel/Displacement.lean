import SpaceCube.Kernel.SpeedLimit

/- How far one thread of particle_kernel.cu can move its particle: the clamped velocity for one
   time step, and half the reach of each contact. -/
namespace Displacement
open ParticleForce Float3Algebra Contact Magnitude UpdateParticles PartitionedLaunch NonLocal
open SpeedLimit
variable {F : Type*}

/-- The half reaches of all other particles. -/
theorem half_reaches [Field F] (a : Args F) (idx : Nat) :
    (∑ i ∈ Finset.range a.N,
        if i ≠ idx then 1 / 2 * minDistance (a.radii idx) (a.radii i) else 0) =
      1 / 2 * ∑ i ∈ (Finset.range a.N).erase idx, minDistance (a.radii idx) (a.radii i) := by
  rw [← Finset.sum_filter, Finset.filter_ne', Finset.mul_sum]

variable [Field F] [LinearOrder F] [IsStrictOrderedRing F] {sqrtf : F → F}
  (exact : ExactRoot sqrtf)
include exact

theorem normal_length {delta : Float3 F} (apart : 0 < dot delta delta) :
    magnitude sqrtf (normal sqrtf delta) = 1 := by
  have one := root_of_square exact (zero_le_one : (0 : F) ≤ 1)
  rw [mul_one] at one
  rw [magnitude, normal_unit exact apart, one]

/-- In contact the push is between nothing and half the reach. -/
theorem push_bounded {radius1 radius2 : F} (size1 : 0 ≤ radius1) (size2 : 0 ≤ radius2)
    {delta : Float3 F} (contact : InContact radius1 radius2 delta) :
    |push sqrtf radius1 radius2 delta| ≤ 1 / 2 * minDistance radius1 radius2 := by
  have reach := reach_pos size1 size2
  have sign := contact_distance_pos exact (centres_apart contact)
  have near : distance sqrtf delta < minDistance radius1 radius2 := by
    apply (mul_self_lt_mul_self_iff sign.le reach.le).mpr
    rw [distance_square exact]
    exact contact.1
  rw [push, abs_of_nonneg (by linarith)]
  linarith

/-- A round moves what the thread holds by at most half the reach of the pair. -/
theorem round_moves {a : Args F} (sizes : ∀ i < a.N, 0 ≤ a.radii i) {idx i : Nat}
    (inside : idx < a.N) (within : i < a.N) (l : Motion F × Arrays F) :
    magnitude sqrtf ((collide sqrtf a idx l i).1.position - l.1.position) ≤
      if i ≠ idx then 1 / 2 * minDistance (a.radii idx) (a.radii i) else 0 := by
  by_cases other : i ≠ idx
  · have reach := reach_pos (sizes idx inside) (sizes i within)
    rw [if_pos other]
    by_cases contact : InContact (a.radii idx) (a.radii i) (l.1.position - l.2.positions i)
    · have pushed : (collide sqrtf a idx l i).1.position - l.1.position =
          push sqrtf (a.radii idx) (a.radii i) (l.1.position - l.2.positions i) •
            normal sqrtf (l.1.position - l.2.positions i) := by
        have pair := congrArg (fun q => q.1.position) (collide_touching sqrtf other contact)
        rw [rebound_eq] at pair
        dsimp only at pair
        rw [pair]
        exact add_sub_cancel_left _ _
      rw [pushed, magnitude_smul exact, normal_length exact (centres_apart contact), mul_one]
      exact push_bounded exact (sizes idx inside) (sizes i within) contact
    · rw [collide_apart fun _ => contact, sub_self, magnitude_zero exact]
      linarith
  · rw [if_neg other, not_not.mp other, collide_self, sub_self, magnitude_zero exact]

theorem rounds_move {a : Args F} (sizes : ∀ i < a.N, 0 ≤ a.radii i) {idx : Nat}
    (inside : idx < a.N) (l : Motion F × Arrays F) {n : Nat} (below : n ≤ a.N) :
    magnitude sqrtf ((collisionRounds sqrtf a idx l n).1.position - l.1.position) ≤
      ∑ i ∈ Finset.range n,
        if i ≠ idx then 1 / 2 * minDistance (a.radii idx) (a.radii i) else 0 := by
  induction n with
  | zero => simp [rounds_zero, magnitude_zero exact]
  | succ n before =>
      have first := before (Nat.le_of_succ_le below)
      have last := round_moves exact sizes inside below (collisionRounds sqrtf a idx l n)
      have path := magnitude_add_le exact
        ((collisionRounds sqrtf a idx l n).1.position - l.1.position)
        ((collide sqrtf a idx (collisionRounds sqrtf a idx l n) n).1.position -
          (collisionRounds sqrtf a idx l n).1.position)
      rw [rounds_succ, Finset.sum_range_succ]
      rw [add_comm (_ - _), sub_add_sub_cancel] at path
      exact path.trans (add_le_add first last)

/-- Whatever velocity the clamp is given, and whatever the thread meets. -/
theorem landing_bounded {a : Args F} (forward : 0 ≤ a.dt) (sizes : ∀ i < a.N, 0 ≤ a.radii i)
    {idx : Nat} (inside : idx < a.N) (s : Arrays F) (pos vel : Float3 F) :
    let clamped := limitSpeed sqrtf vel
    let l := collisionLoop sqrtf a idx (⟨pos + a.dt • clamped, clamped⟩, s)
    magnitude sqrtf (l.1.position - pos) ≤ maxSpeed * a.dt +
      1 / 2 * ∑ i ∈ (Finset.range a.N).erase idx, minDistance (a.radii idx) (a.radii i) := by
  intro clamped l
  have slow : magnitude sqrtf clamped ≤ maxSpeed := clamped_slow exact vel
  have flight : magnitude sqrtf (a.dt • clamped) ≤ maxSpeed * a.dt := by
    rw [magnitude_smul exact, abs_of_nonneg forward, mul_comm maxSpeed]
    exact mul_le_mul_of_nonneg_left slow forward
  have pushes := rounds_move exact sizes inside (⟨pos + a.dt • clamped, clamped⟩, s) le_rfl
  have path := magnitude_add_le exact (a.dt • clamped) (l.1.position - (pos + a.dt • clamped))
  have whole : a.dt • clamped + (l.1.position - (pos + a.dt • clamped)) = l.1.position - pos := by
    abel
  rw [whole] at path
  rw [half_reaches] at pushes
  exact path.trans (add_le_add flight pushes)

/-- No teleporting: what a local thread writes back is near what it loaded. -/
theorem no_teleporting {a : Args F} (forward : 0 ≤ a.dt) (sizes : ∀ i < a.N, 0 ≤ a.radii i)
    {localFlags : Nat → Int} {idx : Nat} (inside : idx < a.N) (flagged : localFlags idx ≠ 0)
    (s : Arrays F) :
    magnitude sqrtf
        ((workerThread sqrtf a localFlags s idx).positions idx - s.positions idx) ≤
      maxSpeed * a.dt +
        1 / 2 * ∑ i ∈ (Finset.range a.N).erase idx,
          minDistance (a.radii idx) (a.radii i) := by
  have own := congrArg Motion.position (thread_motion sqrtf workerConstants a s idx idx)
  rw [if_pos rfl] at own
  have written : (workerThread sqrtf a localFlags s idx).positions idx = _ :=
    (congrArg (·.positions idx) (local_thread inside flagged sqrtf s)).trans own
  rw [written]
  exact landing_bounded exact forward sizes inside s (s.positions idx) _

omit exact in
theorem sample_no_teleporting :
    magnitude Real.sqrt ((workerThread Real.sqrt (sampleArgs 1) frontFlags sampleArrays
      0).positions 0 - sampleArrays.positions 0) ≤
        maxSpeed * 1 + 1 / 2 * ∑ i ∈ (Finset.range 2).erase 0,
          minDistance 1 ((sampleArgs 1).radii i) :=
  no_teleporting real_root zero_le_one (fun _ _ => zero_le_one) Nat.two_pos one_ne_zero
    sampleArrays

end Displacement

import Mathlib.Algebra.BigOperators.Field
import SpaceCube.Kernel.Magnitude
import SpaceCube.Kernel.UpdateParticles

/- The forces between the particles, as the plain loop of particle_sim.py adds them up. -/
namespace ForceBalance
open ParticleForce Float3Algebra Contact Magnitude UpdateParticles
variable {F : Type*} [Field F]

/-- The force of particle i on particle idx; none on itself. -/
def pairForce (sqrtf : F → F) (a : Args F) (positions : Nat → Float3 F) (idx i : Nat) :
    Float3 F :=
  if i ≠ idx then
    calculateForce sqrtf (positions idx) (a.masses idx) (positions i) (a.masses i)
  else 0

/-- The loop is a sum over all particles. -/
theorem total_sum (sqrtf : F → F) (a : Args F) (positions : Nat → Float3 F) (idx : Nat) :
    totalForce sqrtf a positions idx =
      ∑ i ∈ Finset.range a.N, pairForce sqrtf a positions idx i := by
  unfold totalForce
  induction a.N with
  | zero => rfl
  | succ n before =>
      rw [List.range_succ, List.foldl_append, Finset.sum_range_succ, ← before, pairForce]
      by_cases other : n ≠ idx
      · simp [other]
      · simp [other]

theorem force_swap (sqrtf : F → F) (p1 p2 : Float3 F) (mass1 mass2 : F) :
    calculateForce sqrtf p2 mass2 p1 mass1 = -calculateForce sqrtf p1 mass1 p2 mass2 := by
  have square : distanceSq (⟨p1.x - p2.x, p1.y - p2.y, p1.z - p2.z⟩ : Float3 F) =
      distanceSq ⟨p2.x - p1.x, p2.y - p1.y, p2.z - p1.z⟩ := by
    unfold distanceSq
    ring
  simp only [calculateForce, square, mul_comm mass2 mass1]
  ext
  · simp only [neg_x]
    ring
  · simp only [neg_y]
    ring
  · simp only [neg_z]
    ring

theorem pair_swap (sqrtf : F → F) (a : Args F) (positions : Nat → Float3 F) (idx i : Nat) :
    pairForce sqrtf a positions i idx = -pairForce sqrtf a positions idx i := by
  by_cases other : i ≠ idx
  · rw [pairForce, pairForce, if_pos other, if_pos other.symm]
    exact force_swap ..
  · obtain rfl := not_not.mp other
    simp [pairForce]

variable [LinearOrder F] [IsStrictOrderedRing F]

theorem self_opposite {v : Float3 F} (opposite : v = -v) : v = 0 := by
  ext
  · exact self_eq_neg.mp (congrArg Float3.x opposite)
  · exact self_eq_neg.mp (congrArg Float3.y opposite)
  · exact self_eq_neg.mp (congrArg Float3.z opposite)

/-- What is opposite in every pair cancels over all of them. -/
theorem opposite_sum {force : Nat → Nat → Float3 F} (swap : ∀ i j, force j i = -force i j)
    (these : Finset Nat) : ∑ i ∈ these, ∑ j ∈ these, force i j = 0 := by
  apply self_opposite
  calc ∑ i ∈ these, ∑ j ∈ these, force i j
      = ∑ j ∈ these, ∑ i ∈ these, force i j := Finset.sum_comm
    _ = ∑ j ∈ these, ∑ i ∈ these, -force j i := by
        apply Finset.sum_congr rfl
        intro j _
        apply Finset.sum_congr rfl
        intro i _
        exact swap j i
    _ = -∑ j ∈ these, ∑ i ∈ these, force j i := by
        simp only [Finset.sum_neg_distrib]

theorem forces_cancel (sqrtf : F → F) (a : Args F) (positions : Nat → Float3 F) :
    ∑ idx ∈ Finset.range a.N, totalForce sqrtf a positions idx = 0 := by
  simp only [total_sum]
  exact opposite_sum (pair_swap sqrtf a positions) _

variable {sqrtf : F → F} (exact : ExactRoot sqrtf)
include exact

/-- The softened distance is at least the softening and at least the true distance. -/
theorem softened_distance (r : Float3 F) :
    0 < sqrtf (distanceSq r) ∧ magnitude sqrtf r ≤ sqrtf (distanceSq r) := by
  have positive := distanceSq_pos r
  have root := root_pos exact positive
  refine ⟨root, (magnitude_le_iff exact root.le r).mpr ?_⟩
  rw [(exact _ positive.le).2]
  exact le_add_of_nonneg_right (mul_self_nonneg softening)

theorem force_bounded (p1 p2 : Float3 F) {mass1 mass2 : F} (sign1 : 0 ≤ mass1)
    (sign2 : 0 ≤ mass2) :
    magnitude sqrtf (calculateForce sqrtf p1 mass1 p2 mass2) ≤
      mass1 * mass2 / softening ^ 2 := by
  let r : Float3 F := ⟨p2.x - p1.x, p2.y - p1.y, p2.z - p1.z⟩
  obtain ⟨root, length⟩ := softened_distance exact r
  have square := distanceSq_pos r
  have product := mul_nonneg sign1 sign2
  have factor : 0 ≤ mass1 * mass2 / (distanceSq r * sqrtf (distanceSq r)) :=
    div_nonneg product (mul_pos square root).le
  have scaled : calculateForce sqrtf p1 mass1 p2 mass2 =
      (mass1 * mass2 / (distanceSq r * sqrtf (distanceSq r))) • r := by
    ext <;> exact mul_comm _ _
  have soft : softening ^ 2 ≤ distanceSq r := by
    rw [pow_two]
    exact le_add_of_nonneg_left (dot_self_nonneg r)
  calc magnitude sqrtf (calculateForce sqrtf p1 mass1 p2 mass2)
      = mass1 * mass2 / (distanceSq r * sqrtf (distanceSq r)) * magnitude sqrtf r := by
        rw [scaled, magnitude_smul exact, abs_of_nonneg factor]
    _ ≤ mass1 * mass2 / (distanceSq r * sqrtf (distanceSq r)) * sqrtf (distanceSq r) :=
        mul_le_mul_of_nonneg_left length factor
    _ = mass1 * mass2 / distanceSq r := by
        rw [← div_div, div_mul_cancel₀ _ root.ne']
    _ ≤ mass1 * mass2 / softening ^ 2 :=
        div_le_div_of_nonneg_left product (pow_pos softening_pos 2) soft

theorem total_bounded {a : Args F} (light : ∀ i < a.N, 0 ≤ a.masses i)
    (positions : Nat → Float3 F) {idx : Nat} (inside : idx < a.N) :
    magnitude sqrtf (totalForce sqrtf a positions idx) ≤
      a.masses idx * (∑ i ∈ (Finset.range a.N).erase idx, a.masses i) / softening ^ 2 := by
  have member : idx ∈ Finset.range a.N := Finset.mem_range.mpr inside
  have own : pairForce sqrtf a positions idx idx = 0 := if_neg (not_not_intro rfl)
  have others : totalForce sqrtf a positions idx =
      ∑ i ∈ (Finset.range a.N).erase idx, pairForce sqrtf a positions idx i := by
    rw [total_sum, ← Finset.add_sum_erase _ _ member, own, zero_add]
  rw [others, Finset.mul_sum, Finset.sum_div]
  apply (magnitude_sum_le exact _ _).trans
  apply Finset.sum_le_sum
  intro i other
  obtain ⟨apart, within⟩ := Finset.mem_erase.mp other
  rw [pairForce, if_pos apart]
  exact force_bounded exact _ _ (light idx inside) (light i (Finset.mem_range.mp within))

/-- The forces cancel, and each is bounded wherever the particles are. -/
theorem forces_balance (a : Args F) (light : ∀ i < a.N, 0 ≤ a.masses i)
    (positions : Nat → Float3 F) :
    ∑ idx ∈ Finset.range a.N, totalForce sqrtf a positions idx = 0 ∧
    ∀ idx < a.N, magnitude sqrtf (totalForce sqrtf a positions idx) ≤
      a.masses idx * (∑ i ∈ (Finset.range a.N).erase idx, a.masses i) / softening ^ 2 :=
  ⟨forces_cancel sqrtf a positions, fun _ inside => total_bounded exact light positions inside⟩

omit exact in
theorem sample_balance :
    ∑ idx ∈ Finset.range 2, totalForce Real.sqrt (sampleArgs 0) sampleArrays.positions idx = 0 ∧
    ∀ idx < 2, magnitude Real.sqrt
        (totalForce Real.sqrt (sampleArgs 0) sampleArrays.positions idx) ≤
      1 * (∑ i ∈ (Finset.range 2).erase idx, (sampleArgs 0).masses i) / softening ^ 2 :=
  forces_balance real_root (sampleArgs 0) (fun _ _ => zero_le_one) sampleArrays.positions

end ForceBalance

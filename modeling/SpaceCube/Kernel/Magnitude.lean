import Mathlib.Algebra.Order.BigOperators.Group.Finset
import SpaceCube.Kernel.Contact

/- The length of a float3, and the bounds that sums of vectors keep. -/
namespace Magnitude
open ParticleForce Float3Algebra Contact
variable {F : Type*} [Field F] [LinearOrder F]

/-- The kernels' speed and distance. -/
def magnitude (sqrtf : F → F) (v : Float3 F) : F := sqrtf (dot v v)

section Ordered
variable [IsStrictOrderedRing F] {sqrtf : F → F} (exact : ExactRoot sqrtf)
include exact

theorem magnitude_nonneg (v : Float3 F) : 0 ≤ magnitude sqrtf v :=
  (exact _ (dot_self_nonneg v)).1

theorem magnitude_square (v : Float3 F) : magnitude sqrtf v * magnitude sqrtf v = dot v v :=
  (exact _ (dot_self_nonneg v)).2

theorem magnitude_le_iff {bound : F} (nonneg : 0 ≤ bound) (v : Float3 F) :
    magnitude sqrtf v ≤ bound ↔ dot v v ≤ bound * bound := by
  rw [← magnitude_square exact v]
  exact mul_self_le_mul_self_iff (magnitude_nonneg exact v) nonneg

theorem magnitude_zero : magnitude sqrtf (0 : Float3 F) = 0 := by
  have below := (magnitude_le_iff exact le_rfl (0 : Float3 F)).mpr (by simp)
  exact le_antisymm below (magnitude_nonneg exact 0)

theorem magnitude_smul (c : F) (v : Float3 F) :
    magnitude sqrtf (c • v) = |c| * magnitude sqrtf v := by
  have sign := mul_nonneg (abs_nonneg c) (magnitude_nonneg exact v)
  refine (mul_self_inj (magnitude_nonneg exact _) sign).mp ?_
  calc magnitude sqrtf (c • v) * magnitude sqrtf (c • v)
      = c * c * dot v v := by
        rw [magnitude_square exact, smul_dot, dot_smul, mul_assoc]
    _ = |c| * |c| * (magnitude sqrtf v * magnitude sqrtf v) := by
        rw [abs_mul_abs_self, magnitude_square exact]
    _ = |c| * magnitude sqrtf v * (|c| * magnitude sqrtf v) := mul_mul_mul_comm _ _ _ _

/-- The squares that the product of the lengths has more than the square of the dot. -/
theorem dot_le (a b : Float3 F) : dot a b ≤ magnitude sqrtf a * magnitude sqrtf b := by
  have sign := mul_nonneg (magnitude_nonneg exact a) (magnitude_nonneg exact b)
  have lengths : magnitude sqrtf a * magnitude sqrtf b *
      (magnitude sqrtf a * magnitude sqrtf b) = dot a a * dot b b := by
    rw [mul_mul_mul_comm, magnitude_square exact, magnitude_square exact]
  have squares : dot a a * dot b b = dot a b * dot a b +
      ((a.x * b.y - a.y * b.x) * (a.x * b.y - a.y * b.x) +
        (a.y * b.z - a.z * b.y) * (a.y * b.z - a.z * b.y) +
        (a.z * b.x - a.x * b.z) * (a.z * b.x - a.x * b.z)) := by
    simp only [dot]
    ring
  have rest := add_nonneg (add_nonneg (mul_self_nonneg (a.x * b.y - a.y * b.x))
    (mul_self_nonneg (a.y * b.z - a.z * b.y))) (mul_self_nonneg (a.z * b.x - a.x * b.z))
  by_contra more
  have larger := mul_self_lt_mul_self sign (not_le.mp more)
  rw [lengths, squares] at larger
  exact absurd larger (not_lt.mpr (le_add_of_nonneg_right rest))

theorem magnitude_add_le (a b : Float3 F) :
    magnitude sqrtf (a + b) ≤ magnitude sqrtf a + magnitude sqrtf b := by
  have sign := add_nonneg (magnitude_nonneg exact a) (magnitude_nonneg exact b)
  rw [magnitude_le_iff exact sign]
  have cross := dot_le exact a b
  have first := magnitude_square exact a
  have second := magnitude_square exact b
  calc dot (a + b) (a + b) = dot a a + 2 * dot a b + dot b b := by
        rw [dot_add, add_dot, add_dot, dot_comm b a]
        ring
    _ ≤ dot a a + 2 * (magnitude sqrtf a * magnitude sqrtf b) + dot b b := by linarith
    _ = (magnitude sqrtf a + magnitude sqrtf b) * (magnitude sqrtf a + magnitude sqrtf b) := by
        rw [← first, ← second]
        ring

theorem magnitude_sum_le {I : Type*} (these : Finset I) (v : I → Float3 F) :
    magnitude sqrtf (∑ i ∈ these, v i) ≤ ∑ i ∈ these, magnitude sqrtf (v i) :=
  Finset.le_sum_of_subadditive _ (magnitude_zero exact).le (magnitude_add_le exact) these v

end Ordered
end Magnitude

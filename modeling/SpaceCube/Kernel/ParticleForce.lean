import Mathlib.Algebra.Order.Field.Basic
import Mathlib.Tactic.Positivity

/- The pair force of the kernels in exact arithmetic. sqrtf is the device's square root. -/
namespace ParticleForce
variable {F : Type*}

@[ext] structure Float3 (F : Type*) where
  x : F
  y : F
  z : F
  deriving DecidableEq, Repr

/-- A shared-memory entry: a position with the mass in w. -/
@[ext] structure Float4 (F : Type*) where
  x : F
  y : F
  z : F
  w : F
  deriving DecidableEq, Repr

def Float4.position (p : Float4 F) : Float3 F := ⟨p.x, p.y, p.z⟩

section Field
variable [Field F]

instance : Zero (Float3 F) := ⟨⟨0, 0, 0⟩⟩
instance : Add (Float3 F) := ⟨fun a b => ⟨a.x + b.x, a.y + b.y, a.z + b.z⟩⟩

@[simp] theorem zero_x : (0 : Float3 F).x = 0 := rfl
@[simp] theorem zero_y : (0 : Float3 F).y = 0 := rfl
@[simp] theorem zero_z : (0 : Float3 F).z = 0 := rfl
@[simp] theorem add_x (a b : Float3 F) : (a + b).x = a.x + b.x := rfl
@[simp] theorem add_y (a b : Float3 F) : (a + b).y = a.y + b.y := rfl
@[simp] theorem add_z (a b : Float3 F) : (a + b).z = a.z + b.z := rfl

@[simp] theorem add_no_force (a : Float3 F) : a + 0 = a := by
  ext <;> simp

def softening : F := 13 / 10

def distanceSq (r : Float3 F) : F :=
  r.x * r.x + r.y * r.y + r.z * r.z + softening * softening

def calculateForce (sqrtf : F → F) (p1Pos : Float3 F) (mass1 : F) (p2Pos : Float3 F)
    (mass2 : F) : Float3 F :=
  let r : Float3 F := ⟨p2Pos.x - p1Pos.x, p2Pos.y - p1Pos.y, p2Pos.z - p1Pos.z⟩
  let distance := sqrtf (distanceSq r)
  let forceMagnitude := mass1 * mass2 / (distanceSq r * distance)
  ⟨r.x * forceMagnitude, r.y * forceMagnitude, r.z * forceMagnitude⟩

theorem no_force_left (sqrtf : F → F) (p1Pos p2Pos : Float3 F) (mass2 : F) :
    calculateForce sqrtf p1Pos 0 p2Pos mass2 = 0 := by
  ext <;> simp [calculateForce]

theorem no_force_right (sqrtf : F → F) (p1Pos p2Pos : Float3 F) (mass1 : F) :
    calculateForce sqrtf p1Pos mass1 p2Pos 0 = 0 := by
  ext <;> simp [calculateForce]

end Field

section Ordered
variable [Field F] [LinearOrder F] [IsStrictOrderedRing F]

theorem softening_pos : (0 : F) < softening := by
  unfold softening
  positivity

theorem distanceSq_pos (r : Float3 F) : 0 < distanceSq r := by
  have soft : (0 : F) < softening * softening := mul_pos softening_pos softening_pos
  have x := mul_self_nonneg r.x
  have y := mul_self_nonneg r.y
  have z := mul_self_nonneg r.z
  exact add_pos_of_nonneg_of_pos (add_nonneg (add_nonneg x y) z) soft

/-- A body ahead on the x axis pulls forward. -/
theorem pull_ahead {sqrtf : F → F} (positive : ∀ v, 0 < v → 0 < sqrtf v) {p1 p2 : Float3 F}
    (ahead : p1.x < p2.x) {mass1 mass2 : F} (heavy : 0 < mass1 * mass2) :
    0 < (calculateForce sqrtf p1 mass1 p2 mass2).x := by
  have square := distanceSq_pos (⟨p2.x - p1.x, p2.y - p1.y, p2.z - p1.z⟩ : Float3 F)
  have root := positive _ square
  exact mul_pos (sub_pos.mpr ahead) (div_pos heavy (mul_pos square root))

/-- A body one unit ahead on the x axis whose mass is the inverse of ours pulls us forward. -/
theorem force_ahead {sqrtf : F → F} (positive : ∀ v, 0 < v → 0 < sqrtf v) (p : Float3 F)
    {mass : F} (heavy : mass ≠ 0) :
    0 < (calculateForce sqrtf p mass ⟨p.x + 1, p.y, p.z⟩ mass⁻¹).x := by
  have product : 0 < mass * mass⁻¹ := by
    rw [mul_inv_cancel₀ heavy]
    exact one_pos
  exact pull_ahead positive (lt_add_one p.x) product

end Ordered
end ParticleForce

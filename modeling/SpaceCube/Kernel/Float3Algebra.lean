import Mathlib.Algebra.Module.Defs
import Mathlib.Algebra.BigOperators.Group.Finset.Basic
import Mathlib.Tactic.Ring
import SpaceCube.Kernel.ParticleForce

/- float3 values as vectors. -/
namespace Float3Algebra
open ParticleForce
variable {F : Type*}

section Field
variable [Field F]

instance : Neg (Float3 F) := ⟨fun a => ⟨-a.x, -a.y, -a.z⟩⟩
instance : Sub (Float3 F) := ⟨fun a b => ⟨a.x - b.x, a.y - b.y, a.z - b.z⟩⟩
instance : SMul F (Float3 F) := ⟨fun c a => ⟨c * a.x, c * a.y, c * a.z⟩⟩

@[simp] theorem neg_x (a : Float3 F) : (-a).x = -a.x := rfl
@[simp] theorem neg_y (a : Float3 F) : (-a).y = -a.y := rfl
@[simp] theorem neg_z (a : Float3 F) : (-a).z = -a.z := rfl
@[simp] theorem sub_x (a b : Float3 F) : (a - b).x = a.x - b.x := rfl
@[simp] theorem sub_y (a b : Float3 F) : (a - b).y = a.y - b.y := rfl
@[simp] theorem sub_z (a b : Float3 F) : (a - b).z = a.z - b.z := rfl
@[simp] theorem smul_x (c : F) (a : Float3 F) : (c • a).x = c * a.x := rfl
@[simp] theorem smul_y (c : F) (a : Float3 F) : (c • a).y = c * a.y := rfl
@[simp] theorem smul_z (c : F) (a : Float3 F) : (c • a).z = c * a.z := rfl

instance : AddCommGroup (Float3 F) where
  add_assoc a b c := by ext <;> simp [add_assoc]
  zero_add a := by ext <;> simp
  add_zero a := by ext <;> simp
  add_comm a b := by ext <;> simp [add_comm]
  neg_add_cancel a := by ext <;> simp
  sub_eq_add_neg a b := by ext <;> simp [sub_eq_add_neg]
  nsmul := nsmulRec
  zsmul := zsmulRec

instance : Module F (Float3 F) where
  one_smul a := by ext <;> simp
  mul_smul c d a := by ext <;> simp [mul_assoc]
  smul_zero c := by ext <;> simp
  smul_add c a b := by ext <;> simp [mul_add]
  add_smul c d a := by ext <;> simp [add_mul]
  zero_smul a := by ext <;> simp

def dot (a b : Float3 F) : F := a.x * b.x + a.y * b.y + a.z * b.z

theorem dot_comm (a b : Float3 F) : dot a b = dot b a := by
  simp only [dot, mul_comm]

@[simp] theorem dot_zero (a : Float3 F) : dot a 0 = 0 := by
  simp [dot]

@[simp] theorem dot_add (a b c : Float3 F) : dot a (b + c) = dot a b + dot a c := by
  simp only [dot, add_x, add_y, add_z]
  ring

@[simp] theorem dot_sub (a b c : Float3 F) : dot a (b - c) = dot a b - dot a c := by
  simp only [dot, sub_x, sub_y, sub_z]
  ring

@[simp] theorem dot_smul (a : Float3 F) (c : F) (b : Float3 F) :
    dot a (c • b) = c * dot a b := by
  simp only [dot, smul_x, smul_y, smul_z]
  ring

@[simp] theorem dot_neg (a b : Float3 F) : dot a (-b) = -dot a b := by
  simp only [dot, neg_x, neg_y, neg_z]
  ring

@[simp] theorem add_dot (a b c : Float3 F) : dot (a + b) c = dot a c + dot b c := by
  rw [dot_comm, dot_add, dot_comm c a, dot_comm c b]

@[simp] theorem sub_dot (a b c : Float3 F) : dot (a - b) c = dot a c - dot b c := by
  rw [dot_comm, dot_sub, dot_comm c a, dot_comm c b]

@[simp] theorem smul_dot (c : F) (a b : Float3 F) : dot (c • a) b = c * dot a b := by
  rw [dot_comm, dot_smul, dot_comm b a]

@[simp] theorem neg_dot (a b : Float3 F) : dot (-a) b = -dot a b := by
  rw [dot_comm, dot_neg, dot_comm b a]

/-- Reflection across a unit vector turns the part along it round. -/
theorem reflected_dot {n : Float3 F} (unit : dot n n = 1) (a : Float3 F) :
    dot (a - (2 * dot a n) • n) n = -dot a n := by
  rw [sub_dot, smul_dot, unit]
  ring

end Field

section Ordered
variable [Field F] [LinearOrder F] [IsStrictOrderedRing F]

theorem dot_self_nonneg (a : Float3 F) : 0 ≤ dot a a :=
  add_nonneg (add_nonneg (mul_self_nonneg a.x) (mul_self_nonneg a.y)) (mul_self_nonneg a.z)

end Ordered
end Float3Algebra

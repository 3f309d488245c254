import Mathlib.Algebra.BigOperators.Group.Finset.Piecewise
import SpaceCube.Kernel.UpdateParticles

/- What the collision loop of a thread keeps. -/
namespace CollisionLoop
open ParticleForce Float3Algebra Contact UpdateParticles
variable {F : Type*}

/-- The N particles while thread idx is in its loop: its own entry is what it holds. -/
def shared (idx : Nat) (l : Motion F × Arrays F) : Arrays F := l.2.setMotion idx l.1

section Sums
variable {M : Type*} [AddCommMonoid M] (share : F → Motion F → M)

def sumOver (a : Args F) (these : Finset Nat) (s : Arrays F) : M :=
  ∑ i ∈ these, share (a.masses i) (s.motion i)

/-- A quantity that each particle adds to. -/
def total (a : Args F) (s : Arrays F) : M := sumOver share a (Finset.range a.N) s

theorem sum_set {a : Args F} {these : Finset Nat} {i : Nat} (member : i ∈ these)
    (s : Arrays F) (p : Motion F) :
    sumOver share a these (s.setMotion i p) =
      share (a.masses i) p + sumOver share a (these.erase i) s := by
  unfold sumOver
  rw [← Finset.add_sum_erase these _ member, motion_set]
  refine congrArg _ (Finset.sum_congr rfl fun j other => ?_)
  rw [motion_set_other s (Finset.ne_of_mem_erase other)]

theorem sum_split {a : Args F} {these : Finset Nat} {i : Nat} (member : i ∈ these)
    (s : Arrays F) :
    sumOver share a these s =
      share (a.masses i) (s.motion i) + sumOver share a (these.erase i) s := by
  rw [← sum_set share member s (s.motion i), set_same_motion]

variable [Field F] [LinearOrder F]

/-- A resolved pair contributes as much as before. -/
def PairKept (sqrtf : F → F) : Prop :=
  ∀ (p1 p2 : Motion F) (radius1 mass1 radius2 mass2 : F), 0 < mass1 → 0 < mass2 →
    share mass1 (resolveCollision sqrtf p1 radius1 mass1 p2 radius2 mass2).1 +
        share mass2 (resolveCollision sqrtf p1 radius1 mass1 p2 radius2 mass2).2 =
      share mass1 p1 + share mass2 p2

variable {share} {sqrtf : F → F} {a : Args F} {idx : Nat}

theorem collide_kept (kept : PairKept share sqrtf) (heavy : ∀ i < a.N, 0 < a.masses i)
    (inside : idx < a.N) {i : Nat} (within : i < a.N) (l : Motion F × Arrays F) :
    total share a (shared idx (collide sqrtf a idx l i)) = total share a (shared idx l) := by
  by_cases other : i ≠ idx
  · have own : idx ∈ Finset.range a.N := Finset.mem_range.mpr inside
    have partner : i ∈ (Finset.range a.N).erase idx :=
      Finset.mem_erase.mpr ⟨other, Finset.mem_range.mpr within⟩
    have pair := kept l.1 (l.2.motion i) (a.radii idx) (a.masses idx) (a.radii i)
      (a.masses i) (heavy idx inside) (heavy i within)
    rw [collide, if_pos other, shared, shared, total, total, sum_set share own,
      sum_set share partner, sum_set share own, sum_split share partner, ← add_assoc,
      ← add_assoc, pair]
  · rw [not_not.mp other, collide_self]

theorem rounds_kept (kept : PairKept share sqrtf) (heavy : ∀ i < a.N, 0 < a.masses i)
    (inside : idx < a.N) (l : Motion F × Arrays F) {n : Nat} (within : n ≤ a.N) :
    total share a (shared idx (collisionRounds sqrtf a idx l n)) =
      total share a (shared idx l) := by
  induction n with
  | zero => rfl
  | succ n before =>
      rw [rounds_succ, collide_kept kept heavy inside within]
      exact before (Nat.le_of_succ_le within)

theorem loop_kept (kept : PairKept share sqrtf) (heavy : ∀ i < a.N, 0 < a.masses i)
    (inside : idx < a.N) (l : Motion F × Arrays F) :
    total share a (shared idx (collisionLoop sqrtf a idx l)) = total share a (shared idx l) :=
  rounds_kept kept heavy inside l le_rfl

end Sums

variable [Field F]

def totalMomentum (a : Args F) (s : Arrays F) : Float3 F := total momentum a s

def totalEnergy (a : Args F) (s : Arrays F) : F := total kineticEnergy a s

def sumOfPositions (a : Args F) (s : Arrays F) : Float3 F := total (fun _ p => p.position) a s

variable [LinearOrder F] [IsStrictOrderedRing F]

theorem collision_loop_conserves {sqrtf : F → F} (exact : ExactRoot sqrtf) (a : Args F)
    (heavy : ∀ i < a.N, 0 < a.masses i) {idx : Nat} (inside : idx < a.N) (p : Motion F)
    (s : Arrays F) :
    let before := shared idx (p, s)
    let after := shared idx (collisionLoop sqrtf a idx (p, s))
    totalMomentum a after = totalMomentum a before ∧
      totalEnergy a after = totalEnergy a before ∧
      sumOfPositions a after = sumOfPositions a before := by
  refine ⟨loop_kept ?_ heavy inside _, loop_kept ?_ heavy inside _,
    loop_kept ?_ heavy inside _⟩
  · intro p1 p2 radius1 mass1 radius2 mass2 heavy1 heavy2
    exact momentum_conserved sqrtf p1 p2 radius1 radius2 heavy1 heavy2
  · intro p1 p2 radius1 mass1 radius2 mass2 heavy1 heavy2
    exact energy_conserved exact p1 p2 radius1 radius2 heavy1 heavy2
  · intro p1 p2 radius1 mass1 radius2 mass2 _ _
    exact centre_conserved sqrtf p1 p2 radius1 mass1 radius2 mass2

theorem sample_loop_conserves :
    let before := shared 0 (oncoming, sampleArrays)
    let after := shared 0 (collisionLoop Real.sqrt (sampleArgs 0) 0 (oncoming, sampleArrays))
    totalMomentum (sampleArgs 0) after = totalMomentum (sampleArgs 0) before ∧
      totalEnergy (sampleArgs 0) after = totalEnergy (sampleArgs 0) before ∧
      sumOfPositions (sampleArgs 0) after = sumOfPositions (sampleArgs 0) before :=
  collision_loop_conserves real_root (sampleArgs 0) (fun _ _ => one_pos) (Nat.zero_lt_succ 1)
    oncoming sampleArrays

end CollisionLoop

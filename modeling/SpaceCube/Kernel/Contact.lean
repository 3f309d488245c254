import Mathlib.Analysis.Real.Sqrt
import Mathlib.Tactic.FieldSimp
import Mathlib.Tactic.LinearCombination
import Mathlib.Tactic.Linarith
import Mathlib.Tactic.Module
import SpaceCube.Kernel.Float3Algebra

/- resolve_collision, the same text in particle_kernel.cu and particle_sim.py. -/
namespace Contact
open ParticleForce Float3Algebra
variable {F : Type*}

/-- What a pair of pointers pos, vel leads to. -/
@[ext] structure Motion (F : Type*) where
  position : Float3 F
  velocity : Float3 F
  deriving DecidableEq, Repr

/-- The device's root is exact. -/
def ExactRoot [Field F] [LinearOrder F] (sqrtf : F → F) : Prop :=
  ∀ v, 0 ≤ v → 0 ≤ sqrtf v ∧ sqrtf v * sqrtf v = v

section Field
variable [Field F]

/-- MIN_DISTANCE. -/
def margin : F := 1 / 10000

def minDistance (radius1 radius2 : F) : F := radius1 + radius2 + margin

def distance (sqrtf : F → F) (delta : Float3 F) : F := sqrtf (dot delta delta)

def normal (sqrtf : F → F) (delta : Float3 F) : Float3 F :=
  ⟨delta.x / distance sqrtf delta, delta.y / distance sqrtf delta,
    delta.z / distance sqrtf delta⟩

def impulse (mass1 mass2 : F) (relVelocity normal : Float3 F) : F :=
  2 * dot relVelocity normal / (1 / mass1 + 1 / mass2)

/-- The branch taken in contact. -/
def rebound (sqrtf : F → F) (p1 : Motion F) (radius1 mass1 : F) (p2 : Motion F)
    (radius2 mass2 : F) : Motion F × Motion F :=
  let delta := p1.position - p2.position
  let n := normal sqrtf delta
  let j := impulse mass1 mass2 (p1.velocity - p2.velocity) n
  let overlap := 1 / 2 * (minDistance radius1 radius2 - distance sqrtf delta)
  (⟨⟨p1.position.x + overlap * n.x, p1.position.y + overlap * n.y,
      p1.position.z + overlap * n.z⟩,
    ⟨p1.velocity.x - j * n.x / mass1, p1.velocity.y - j * n.y / mass1,
      p1.velocity.z - j * n.z / mass1⟩⟩,
   ⟨⟨p2.position.x - overlap * n.x, p2.position.y - overlap * n.y,
      p2.position.z - overlap * n.z⟩,
    ⟨p2.velocity.x + j * n.x / mass2, p2.velocity.y + j * n.y / mass2,
      p2.velocity.z + j * n.z / mass2⟩⟩)

variable [LinearOrder F]

abbrev InContact (radius1 radius2 : F) (delta : Float3 F) : Prop :=
  dot delta delta < minDistance radius1 radius2 * minDistance radius1 radius2 ∧
    1 / 1000000 < dot delta delta

def resolveCollision (sqrtf : F → F) (p1 : Motion F) (radius1 mass1 : F) (p2 : Motion F)
    (radius2 mass2 : F) : Motion F × Motion F :=
  if InContact radius1 radius2 (p1.position - p2.position) then
    rebound sqrtf p1 radius1 mass1 p2 radius2 mass2
  else (p1, p2)

theorem resolve_touching {sqrtf : F → F} {p1 p2 : Motion F} {radius1 radius2 : F}
    (contact : InContact radius1 radius2 (p1.position - p2.position)) (mass1 mass2 : F) :
    resolveCollision sqrtf p1 radius1 mass1 p2 radius2 mass2 =
      rebound sqrtf p1 radius1 mass1 p2 radius2 mass2 := if_pos contact

theorem resolve_apart {sqrtf : F → F} {p1 p2 : Motion F} {radius1 radius2 : F}
    (apart : ¬ InContact radius1 radius2 (p1.position - p2.position)) (mass1 mass2 : F) :
    resolveCollision sqrtf p1 radius1 mass1 p2 radius2 mass2 = (p1, p2) := if_neg apart

end Field

section Vectors
variable [Field F]

/-- Half of what the centres lack to the threshold. -/
def push (sqrtf : F → F) (radius1 radius2 : F) (delta : Float3 F) : F :=
  1 / 2 * (minDistance radius1 radius2 - distance sqrtf delta)

theorem normal_eq (sqrtf : F → F) (delta : Float3 F) :
    normal sqrtf delta = (distance sqrtf delta)⁻¹ • delta := by
  ext <;> simp [normal, div_eq_inv_mul]

theorem normal_neg (sqrtf : F → F) (delta : Float3 F) :
    normal sqrtf (-delta) = -normal sqrtf delta := by
  simp only [normal_eq, distance, neg_dot, dot_neg, neg_neg, smul_neg]

theorem distance_neg (sqrtf : F → F) (delta : Float3 F) :
    distance sqrtf (-delta) = distance sqrtf delta := by
  simp [distance]

theorem min_distance_comm (radius1 radius2 : F) :
    minDistance radius1 radius2 = minDistance radius2 radius1 := by
  simp only [minDistance, add_comm radius1]

theorem impulse_swap (mass1 mass2 : F) (relVelocity n : Float3 F) :
    impulse mass2 mass1 (-relVelocity) (-n) = impulse mass1 mass2 relVelocity n := by
  simp [impulse, add_comm]

/-- The branch in vectors. -/
theorem rebound_eq (sqrtf : F → F) (p1 : Motion F) (radius1 mass1 : F) (p2 : Motion F)
    (radius2 mass2 : F) :
    let delta := p1.position - p2.position
    let n := normal sqrtf delta
    let j := impulse mass1 mass2 (p1.velocity - p2.velocity) n
    rebound sqrtf p1 radius1 mass1 p2 radius2 mass2 =
      (⟨p1.position + push sqrtf radius1 radius2 delta • n,
        p1.velocity - (j / mass1) • n⟩,
       ⟨p2.position - push sqrtf radius1 radius2 delta • n,
        p2.velocity + (j / mass2) • n⟩) := by
  simp only [rebound, push, Prod.mk.injEq, Motion.mk.injEq]
  refine ⟨⟨rfl, ?_⟩, rfl, ?_⟩ <;> ext <;> simp <;> ring

theorem rebound_swap (sqrtf : F → F) (p1 : Motion F) (radius1 mass1 : F) (p2 : Motion F)
    (radius2 mass2 : F) :
    rebound sqrtf p2 radius2 mass2 p1 radius1 mass1 =
      (rebound sqrtf p1 radius1 mass1 p2 radius2 mass2).swap := by
  have line : p2.position - p1.position = -(p1.position - p2.position) := (neg_sub _ _).symm
  have speed : p2.velocity - p1.velocity = -(p1.velocity - p2.velocity) := (neg_sub _ _).symm
  simp only [rebound_eq, push, line, speed, normal_neg, distance_neg, impulse_swap,
    min_distance_comm radius2, smul_neg, ← sub_eq_add_neg, sub_neg_eq_add, Prod.swap_prod_mk]

end Vectors

section Swap
variable [Field F] [LinearOrder F]

theorem contact_swap (radius1 radius2 : F) (delta : Float3 F) :
    InContact radius2 radius1 (-delta) ↔ InContact radius1 radius2 delta := by
  simp [InContact, min_distance_comm radius2]

theorem resolve_swap (sqrtf : F → F) (p1 : Motion F) (radius1 mass1 : F) (p2 : Motion F)
    (radius2 mass2 : F) :
    resolveCollision sqrtf p2 radius2 mass2 p1 radius1 mass1 =
      (resolveCollision sqrtf p1 radius1 mass1 p2 radius2 mass2).swap := by
  have same := contact_swap radius1 radius2 (p1.position - p2.position)
  rw [neg_sub] at same
  by_cases contact : InContact radius1 radius2 (p1.position - p2.position)
  · rw [resolve_touching contact, resolve_touching (same.mpr contact), rebound_swap]
  · rw [resolve_apart contact, resolve_apart (mt same.mp contact), Prod.swap_prod_mk]

end Swap

section Ordered
variable [Field F] [LinearOrder F] [IsStrictOrderedRing F]

theorem root_of_square {sqrtf : F → F} (exact : ExactRoot sqrtf) {v : F} (nonneg : 0 ≤ v) :
    sqrtf (v * v) = v := by
  obtain ⟨sign, square⟩ := exact (v * v) (mul_self_nonneg v)
  exact (mul_self_inj sign nonneg).mp square

theorem distance_square {sqrtf : F → F} (exact : ExactRoot sqrtf) (delta : Float3 F) :
    distance sqrtf delta * distance sqrtf delta = dot delta delta :=
  (exact _ (dot_self_nonneg delta)).2

omit [IsStrictOrderedRing F] in
theorem root_pos {sqrtf : F → F} (exact : ExactRoot sqrtf) {v : F} (positive : 0 < v) :
    0 < sqrtf v := by
  obtain ⟨sign, square⟩ := exact v positive.le
  apply lt_of_le_of_ne sign
  intro zero
  rw [← zero, mul_zero] at square
  exact positive.ne square

omit [IsStrictOrderedRing F] in
theorem contact_distance_pos {sqrtf : F → F} (exact : ExactRoot sqrtf) {delta : Float3 F}
    (apart : 0 < dot delta delta) : 0 < distance sqrtf delta := root_pos exact apart

theorem centres_apart {radius1 radius2 : F} {delta : Float3 F}
    (contact : InContact radius1 radius2 delta) : 0 < dot delta delta :=
  lt_trans (by norm_num) contact.2

theorem normal_unit {sqrtf : F → F} (exact : ExactRoot sqrtf) {delta : Float3 F}
    (apart : 0 < dot delta delta) : dot (normal sqrtf delta) (normal sqrtf delta) = 1 := by
  have positive := (contact_distance_pos exact apart).ne'
  rw [normal_eq, smul_dot, dot_smul, ← distance_square exact delta]
  field_simp

omit [IsStrictOrderedRing F] in
theorem along_normal {sqrtf : F → F} (exact : ExactRoot sqrtf) {delta : Float3 F}
    (apart : 0 < dot delta delta) : distance sqrtf delta • normal sqrtf delta = delta := by
  rw [normal_eq, smul_smul, mul_inv_cancel₀ (contact_distance_pos exact apart).ne', one_smul]

theorem impulse_total {mass1 mass2 : F} (heavy1 : 0 < mass1) (heavy2 : 0 < mass2)
    (relVelocity n : Float3 F) :
    impulse mass1 mass2 relVelocity n / mass1 + impulse mass1 mass2 relVelocity n / mass2 =
      2 * dot relVelocity n := by
  have sum : mass1 + mass2 ≠ 0 := (add_pos heavy1 heavy2).ne'
  simp only [impulse]
  field_simp

/-- What a contact leaves: the centres at the threshold on the same line, the relative
    velocity reflected in the plane across it. -/
structure Bounced (sqrtf : F → F) (radius1 radius2 : F) (p1 p2 q1 q2 : Motion F) : Prop where
  apart : distance sqrtf (q1.position - q2.position) = minDistance radius1 radius2
  line : normal sqrtf (q1.position - q2.position) = normal sqrtf (p1.position - p2.position)
  along : dot (q1.velocity - q2.velocity) (normal sqrtf (p1.position - p2.position)) =
    -dot (p1.velocity - p2.velocity) (normal sqrtf (p1.position - p2.position))
  across : q1.velocity - q2.velocity -
      dot (q1.velocity - q2.velocity) (normal sqrtf (p1.position - p2.position)) •
        normal sqrtf (p1.position - p2.position) =
    p1.velocity - p2.velocity -
      dot (p1.velocity - p2.velocity) (normal sqrtf (p1.position - p2.position)) •
        normal sqrtf (p1.position - p2.position)

/-- The centres end up at the threshold. -/
theorem rebound_delta {sqrtf : F → F} (exact : ExactRoot sqrtf) {p1 p2 : Motion F}
    (apart : 0 < dot (p1.position - p2.position) (p1.position - p2.position))
    (radius1 mass1 radius2 mass2 : F) :
    (rebound sqrtf p1 radius1 mass1 p2 radius2 mass2).1.position -
        (rebound sqrtf p1 radius1 mass1 p2 radius2 mass2).2.position =
      minDistance radius1 radius2 • normal sqrtf (p1.position - p2.position) := by
  have delta := along_normal exact apart
  simp only [rebound_eq, push]
  generalize normal sqrtf (p1.position - p2.position) = n at delta ⊢
  generalize distance sqrtf (p1.position - p2.position) = d at delta ⊢
  calc p1.position + (1 / 2 * (minDistance radius1 radius2 - d)) • n -
        (p2.position - (1 / 2 * (minDistance radius1 radius2 - d)) • n)
      = p1.position - p2.position + (minDistance radius1 radius2 - d) • n := by module
    _ = minDistance radius1 radius2 • n := by rw [← delta]; module

/-- The relative velocity is reflected. -/
theorem rebound_relative {mass1 mass2 : F} (heavy1 : 0 < mass1) (heavy2 : 0 < mass2)
    (sqrtf : F → F) (p1 p2 : Motion F) (radius1 radius2 : F) :
    (rebound sqrtf p1 radius1 mass1 p2 radius2 mass2).1.velocity -
        (rebound sqrtf p1 radius1 mass1 p2 radius2 mass2).2.velocity =
      p1.velocity - p2.velocity -
        (2 * dot (p1.velocity - p2.velocity) (normal sqrtf (p1.position - p2.position))) •
          normal sqrtf (p1.position - p2.position) := by
  simp only [rebound_eq]
  rw [← impulse_total heavy1 heavy2]
  module

theorem rebound_bounced {sqrtf : F → F} (exact : ExactRoot sqrtf) {p1 p2 : Motion F}
    {radius1 radius2 mass1 mass2 : F} (heavy1 : 0 < mass1) (heavy2 : 0 < mass2)
    (reach : 0 < minDistance radius1 radius2)
    (apart : 0 < dot (p1.position - p2.position) (p1.position - p2.position)) :
    Bounced sqrtf radius1 radius2 p1 p2 (rebound sqrtf p1 radius1 mass1 p2 radius2 mass2).1
      (rebound sqrtf p1 radius1 mass1 p2 radius2 mass2).2 := by
  have delta := rebound_delta exact apart radius1 mass1 radius2 mass2
  have relative := rebound_relative heavy1 heavy2 sqrtf p1 p2 radius1 radius2
  have unit := normal_unit exact apart
  have distant : distance sqrtf (minDistance radius1 radius2 •
      normal sqrtf (p1.position - p2.position)) = minDistance radius1 radius2 := by
    rw [distance, smul_dot, dot_smul, unit, mul_one, root_of_square exact reach.le]
  refine ⟨?_, ?_, ?_, ?_⟩
  · rw [delta, distant]
  · rw [delta, normal_eq, distant, smul_smul, inv_mul_cancel₀ reach.ne', one_smul]
  · rw [relative, reflected_dot unit]
  · rw [relative, reflected_dot unit]
    module

theorem reach_pos {radius1 radius2 : F} (size1 : 0 ≤ radius1) (size2 : 0 ≤ radius2) :
    0 < minDistance radius1 radius2 := by
  have positive : (0 : F) < margin := by
    unfold margin
    positivity
  exact add_pos_of_nonneg_of_pos (add_nonneg size1 size2) positive

/-- A resolved pair is exactly at the threshold, which the strict comparison leaves out. -/
theorem rebound_settles {sqrtf : F → F} (exact : ExactRoot sqrtf) {p1 p2 : Motion F}
    (apart : 0 < dot (p1.position - p2.position) (p1.position - p2.position))
    (radius1 mass1 radius2 mass2 : F) :
    ¬ InContact radius1 radius2
      ((rebound sqrtf p1 radius1 mass1 p2 radius2 mass2).1.position -
        (rebound sqrtf p1 radius1 mass1 p2 radius2 mass2).2.position) := by
  rintro ⟨near, _⟩
  rw [rebound_delta exact apart, smul_dot, dot_smul, normal_unit exact apart, mul_one] at near
  exact lt_irrefl _ near

theorem resolve_settles {sqrtf : F → F} (exact : ExactRoot sqrtf) (p1 : Motion F)
    (radius1 mass1 : F) (p2 : Motion F) (radius2 mass2 : F) :
    ¬ InContact radius1 radius2
      ((resolveCollision sqrtf p1 radius1 mass1 p2 radius2 mass2).1.position -
        (resolveCollision sqrtf p1 radius1 mass1 p2 radius2 mass2).2.position) := by
  by_cases contact : InContact radius1 radius2 (p1.position - p2.position)
  · rw [resolve_touching contact]
    exact rebound_settles exact (centres_apart contact) radius1 mass1 radius2 mass2
  · rw [resolve_apart contact]
    exact contact

/-- The partner is pushed away: the centres lack something to the threshold. -/
theorem rebound_moves {sqrtf : F → F} (exact : ExactRoot sqrtf) {p1 p2 : Motion F}
    {radius1 radius2 : F}
    (near : dot (p1.position - p2.position) (p1.position - p2.position) <
      minDistance radius1 radius2 * minDistance radius1 radius2)
    (apart : 0 < dot (p1.position - p2.position) (p1.position - p2.position))
    (mass1 mass2 : F) :
    (rebound sqrtf p1 radius1 mass1 p2 radius2 mass2).2.position ≠ p2.position := by
  have square := distance_square exact (p1.position - p2.position)
  have unit := normal_unit exact apart
  intro still
  simp only [rebound_eq, sub_eq_self] at still
  have zero : push sqrtf radius1 radius2 (p1.position - p2.position) = 0 := by
    have length := congrArg (dot (normal sqrtf (p1.position - p2.position))) still
    simpa [unit] using length
  have threshold : minDistance radius1 radius2 = distance sqrtf (p1.position - p2.position) := by
    unfold push at zero
    linarith
  rw [threshold, square] at near
  exact lt_irrefl _ near

theorem contact_handled_once {sqrtf : F → F} (exact : ExactRoot sqrtf) (p1 p2 : Motion F)
    {radius1 mass1 radius2 mass2 : F} (heavy1 : 0 < mass1) (heavy2 : 0 < mass2)
    (size1 : 0 ≤ radius1) (size2 : 0 ≤ radius2) :
    let once := resolveCollision sqrtf p1 radius1 mass1 p2 radius2 mass2
    (InContact radius1 radius2 (p1.position - p2.position) →
      Bounced sqrtf radius1 radius2 p1 p2 once.1 once.2) ∧
    resolveCollision sqrtf p2 radius2 mass2 p1 radius1 mass1 = once.swap ∧
    resolveCollision sqrtf once.1 radius1 mass1 once.2 radius2 mass2 = once ∧
    resolveCollision sqrtf once.2 radius2 mass2 once.1 radius1 mass1 = once.swap := by
  intro once
  have settled := resolve_settles exact p1 radius1 mass1 p2 radius2 mass2
  have again : resolveCollision sqrtf once.1 radius1 mass1 once.2 radius2 mass2 = once :=
    resolve_apart settled mass1 mass2
  refine ⟨fun contact => ?_, resolve_swap sqrtf p1 radius1 mass1 p2 radius2 mass2, again, ?_⟩
  · simp only [once, resolve_touching contact]
    exact rebound_bounced exact heavy1 heavy2 (reach_pos size1 size2) (centres_apart contact)
  · rw [resolve_swap, again]

end Ordered

theorem real_root : ExactRoot Real.sqrt :=
  fun v nonneg => ⟨Real.sqrt_nonneg v, Real.mul_self_sqrt nonneg⟩

/-- Unit masses in line at distance one exchange their velocities. -/
theorem rebound_in_line {x1 x2 : ℝ} (unit : (x1 - x2) * (x1 - x2) = 1) (u1 u2 : ℝ) :
    rebound Real.sqrt ⟨⟨x1, 0, 0⟩, ⟨u1, 0, 0⟩⟩ 1 1 ⟨⟨x2, 0, 0⟩, ⟨u2, 0, 0⟩⟩ 1 1 =
      (⟨⟨x1 + 10001 / 20000 * (x1 - x2), 0, 0⟩, ⟨u2, 0, 0⟩⟩,
       ⟨⟨x2 - 10001 / 20000 * (x1 - x2), 0, 0⟩, ⟨u1, 0, 0⟩⟩) := by
  have one : distance Real.sqrt (⟨x1, 0, 0⟩ - ⟨x2, 0, 0⟩ : Float3 ℝ) = 1 := by
    simp [distance, dot, unit]
  have line : normal Real.sqrt (⟨x1, 0, 0⟩ - ⟨x2, 0, 0⟩ : Float3 ℝ) = ⟨x1 - x2, 0, 0⟩ := by
    rw [normal_eq, one]
    ext <;> simp
  have kick : impulse 1 1 (⟨u1, 0, 0⟩ - ⟨u2, 0, 0⟩ : Float3 ℝ) ⟨x1 - x2, 0, 0⟩ =
      (u1 - u2) * (x1 - x2) := by
    simp only [impulse, dot, sub_x, sub_y, sub_z]
    ring
  simp only [rebound_eq, push, one, line, kick, minDistance, margin, Prod.mk.injEq,
    Motion.mk.injEq]
  refine ⟨⟨?_, ?_⟩, ?_, ?_⟩
  all_goals ext <;> simp
  · norm_num
  · linear_combination (u2 - u1) * unit
  · norm_num
  · linear_combination (u1 - u2) * unit

theorem resolve_in_line {x1 x2 : ℝ} (unit : (x1 - x2) * (x1 - x2) = 1) (u1 u2 : ℝ) :
    resolveCollision Real.sqrt ⟨⟨x1, 0, 0⟩, ⟨u1, 0, 0⟩⟩ 1 1 ⟨⟨x2, 0, 0⟩, ⟨u2, 0, 0⟩⟩ 1 1 =
      (⟨⟨x1 + 10001 / 20000 * (x1 - x2), 0, 0⟩, ⟨u2, 0, 0⟩⟩,
       ⟨⟨x2 - 10001 / 20000 * (x1 - x2), 0, 0⟩, ⟨u1, 0, 0⟩⟩) := by
  rw [resolve_touching, rebound_in_line unit]
  simp only [InContact, dot, sub_x, sub_y, sub_z, unit, minDistance, margin]
  norm_num

def oncoming : Motion ℝ := ⟨⟨0, 0, 0⟩, ⟨1, 0, 0⟩⟩

def resting : Motion ℝ := ⟨⟨1, 0, 0⟩, ⟨0, 0, 0⟩⟩

theorem sample_in_contact : InContact 1 1 (oncoming.position - resting.position) := by
  norm_num [InContact, oncoming, resting, dot, minDistance, margin]

theorem sample_handled_once :
    let once := resolveCollision Real.sqrt oncoming 1 1 resting 1 1
    Bounced Real.sqrt 1 1 oncoming resting once.1 once.2 ∧
      resolveCollision Real.sqrt resting 1 1 oncoming 1 1 = once.swap ∧
      resolveCollision Real.sqrt once.1 1 1 once.2 1 1 = once ∧
      resolveCollision Real.sqrt once.2 1 1 once.1 1 1 = once.swap := by
  have handled := contact_handled_once real_root oncoming resting one_pos one_pos
    zero_le_one zero_le_one
  exact ⟨handled.1 sample_in_contact, handled.2⟩


section Conserved
variable [Field F]

def momentum (mass : F) (p : Motion F) : Float3 F := mass • p.velocity

def kineticEnergy (mass : F) (p : Motion F) : F := mass * dot p.velocity p.velocity / 2

variable [LinearOrder F]

theorem momentum_conserved (sqrtf : F → F) (p1 p2 : Motion F) (radius1 radius2 : F)
    {mass1 mass2 : F} (heavy1 : 0 < mass1) (heavy2 : 0 < mass2) :
    let q := resolveCollision sqrtf p1 radius1 mass1 p2 radius2 mass2
    momentum mass1 q.1 + momentum mass2 q.2 = momentum mass1 p1 + momentum mass2 p2 := by
  intro q
  by_cases contact : InContact radius1 radius2 (p1.position - p2.position)
  · simp only [q, resolve_touching contact, rebound_eq, momentum, smul_sub, smul_add,
      smul_smul, mul_div_cancel₀ _ heavy1.ne', mul_div_cancel₀ _ heavy2.ne']
    abel
  · simp only [q, resolve_apart contact]

theorem centre_conserved (sqrtf : F → F) (p1 p2 : Motion F)
    (radius1 mass1 radius2 mass2 : F) :
    let q := resolveCollision sqrtf p1 radius1 mass1 p2 radius2 mass2
    q.1.position + q.2.position = p1.position + p2.position := by
  intro q
  by_cases contact : InContact radius1 radius2 (p1.position - p2.position)
  · simp only [q, resolve_touching contact, rebound_eq]
    abel
  · simp only [q, resolve_apart contact]

variable [IsStrictOrderedRing F]

/-- The work of an impulse j along a unit vector. -/
theorem kicked_energy {n : Float3 F} (unit : dot n n = 1) {mass : F} (heavy : mass ≠ 0)
    (j : F) (here there v : Float3 F) :
    kineticEnergy mass ⟨here, v + (j / mass) • n⟩ =
      kineticEnergy mass ⟨there, v⟩ + j * dot v n + j * (j / mass) / 2 := by
  have two : dot n v = dot v n := dot_comm n v
  simp only [kineticEnergy, add_dot, dot_add, smul_dot, dot_smul, unit, two]
  field_simp
  ring

/-- The unit normal and the two-mass impulse cancel in the quadratic term. -/
theorem energy_conserved {sqrtf : F → F} (exact : ExactRoot sqrtf) (p1 p2 : Motion F)
    (radius1 radius2 : F) {mass1 mass2 : F} (heavy1 : 0 < mass1) (heavy2 : 0 < mass2) :
    let q := resolveCollision sqrtf p1 radius1 mass1 p2 radius2 mass2
    kineticEnergy mass1 q.1 + kineticEnergy mass2 q.2 =
      kineticEnergy mass1 p1 + kineticEnergy mass2 p2 := by
  intro q
  by_cases contact : InContact radius1 radius2 (p1.position - p2.position)
  · have unit := normal_unit exact (centres_apart contact)
    have total := impulse_total heavy1 heavy2 (p1.velocity - p2.velocity)
      (normal sqrtf (p1.position - p2.position))
    simp only [q, resolve_touching contact, rebound_eq]
    generalize normal sqrtf (p1.position - p2.position) = n at unit total ⊢
    generalize impulse mass1 mass2 (p1.velocity - p2.velocity) n = j at total ⊢
    have back : p1.velocity - (j / mass1) • n = p1.velocity + (-j / mass1) • n := by module
    rw [sub_dot] at total
    rw [back, kicked_energy unit heavy1.ne' (-j) _ p1.position,
      kicked_energy unit heavy2.ne' j _ p2.position]
    linear_combination j / 2 * total
  · simp only [q, resolve_apart contact]

end Conserved
end Contact

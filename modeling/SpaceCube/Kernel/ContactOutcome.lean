import SpaceCube.Kernel.Contact

/- Which pairs resolve_collision separates: by their velocities and by their places. -/
namespace ContactOutcome
open ParticleForce Float3Algebra Contact
variable {F : Type*} [Field F] [LinearOrder F]

/-- The relative velocity along the line of centres; positive when the two separate. -/
def separation (sqrtf : F → F) (line : Float3 F) (p1 p2 : Motion F) : F :=
  dot (p1.velocity - p2.velocity) (normal sqrtf line)

/-- After a contact the two are not driven into each other. -/
def Separated (sqrtf : F → F) (p1 : Motion F) (radius1 mass1 : F) (p2 : Motion F)
    (radius2 mass2 : F) : Prop :=
  let q := resolveCollision sqrtf p1 radius1 mass1 p2 radius2 mass2
  0 ≤ separation sqrtf (p1.position - p2.position) q.1 q.2

section Ordered
variable [IsStrictOrderedRing F] {sqrtf : F → F} (exact : ExactRoot sqrtf)
include exact

theorem separation_reversed {p1 p2 : Motion F} {radius1 radius2 mass1 mass2 : F}
    (heavy1 : 0 < mass1) (heavy2 : 0 < mass2)
    (contact : InContact radius1 radius2 (p1.position - p2.position)) :
    let q := resolveCollision sqrtf p1 radius1 mass1 p2 radius2 mass2
    separation sqrtf (p1.position - p2.position) q.1 q.2 =
      -separation sqrtf (p1.position - p2.position) p1 p2 := by
  intro q
  simp only [q, resolve_touching contact, separation,
    rebound_relative heavy1 heavy2 sqrtf p1 p2 radius1 radius2]
  exact reflected_dot (normal_unit exact (centres_apart contact)) _

/-- A contact separates exactly the pairs that were not separating before it. -/
theorem separated_iff (p1 p2 : Motion F) {radius1 radius2 mass1 mass2 : F}
    (heavy1 : 0 < mass1) (heavy2 : 0 < mass2)
    (contact : InContact radius1 radius2 (p1.position - p2.position)) :
    Separated sqrtf p1 radius1 mass1 p2 radius2 mass2 ↔
      separation sqrtf (p1.position - p2.position) p1 p2 ≤ 0 := by
  have reversed := separation_reversed exact heavy1 heavy2 contact
  simp only [Separated, reversed, Left.nonneg_neg_iff]

/-- Above the guard a pair is left apart, whether it was or not; below it nothing happens. -/
theorem left_apart (p1 p2 : Motion F) {radius1 radius2 : F} (size1 : 0 < radius1)
    (size2 : 0 < radius2) (mass1 mass2 : F) :
    let q := resolveCollision sqrtf p1 radius1 mass1 p2 radius2 mass2
    let before := p1.position - p2.position
    (1 / 1000000 < dot before before →
      radius1 + radius2 ≤ distance sqrtf (q.1.position - q.2.position)) ∧
    (distance sqrtf before ≤ 1 / 1000000 → q = (p1, p2)) := by
  intro q before
  have reach := reach_pos size1.le size2.le
  have wide : radius1 + radius2 ≤ minDistance radius1 radius2 := by
    have positive : (0 : F) < margin := by
      unfold margin
      positivity
    exact le_add_of_nonneg_right positive.le
  have sign : 0 ≤ distance sqrtf before := (exact _ (dot_self_nonneg before)).1
  have square := distance_square exact before
  constructor
  · intro clear
    by_cases near : dot before before < minDistance radius1 radius2 * minDistance radius1 radius2
    · have contact : InContact radius1 radius2 (p1.position - p2.position) := ⟨near, clear⟩
      have delta := rebound_delta exact (centres_apart contact) radius1 mass1 radius2 mass2
      have unit := normal_unit exact (centres_apart contact)
      have threshold : distance sqrtf (q.1.position - q.2.position) =
          minDistance radius1 radius2 := by
        simp only [q, resolve_touching contact]
        rw [delta, distance, smul_dot, dot_smul, unit, mul_one, root_of_square exact reach.le]
      rw [threshold]
      exact wide
    · have same : q = (p1, p2) := resolve_apart (fun contact => near contact.1) mass1 mass2
      rw [same]
      refine wide.trans ?_
      rw [← square] at near
      exact (mul_self_le_mul_self_iff reach.le sign).mpr (not_lt.mp near)
  · intro close
    refine resolve_apart (fun contact => ?_) mass1 mass2
    have small : dot before before ≤ 1 / 1000000 * (1 / 1000000) := by
      rw [← square]
      exact mul_self_le_mul_self sign close
    have clear := contact.2
    linarith

end Ordered

def departing : Motion ℝ := ⟨⟨0, 0, 0⟩, ⟨-1, 0, 0⟩⟩

theorem sample_separation (position velocity : ℝ) :
    separation Real.sqrt (⟨0, 0, 0⟩ - resting.position) ⟨⟨position, 0, 0⟩, ⟨velocity, 0, 0⟩⟩
      resting = -velocity := by
  have line : (⟨0, 0, 0⟩ - resting.position : Float3 ℝ) = ⟨-1, 0, 0⟩ := by
    ext <;> simp [resting]
  have one : distance Real.sqrt (⟨-1, 0, 0⟩ : Float3 ℝ) = 1 := by
    simp [distance, dot]
  rw [separation, line, normal_eq, one]
  simp [dot, resting]

theorem sample_separated : Separated Real.sqrt oncoming 1 1 resting 1 1 := by
  refine (separated_iff real_root oncoming resting one_pos one_pos sample_in_contact).mpr ?_
  have approach := sample_separation 0 1
  exact approach.le.trans (by norm_num)

/-- Two bodies already on their way apart are turned back. -/
theorem departing_turned_back :
    InContact 1 1 (departing.position - resting.position) ∧
      ¬ Separated Real.sqrt departing 1 1 resting 1 1 := by
  have contact : InContact 1 1 (departing.position - resting.position) := sample_in_contact
  refine ⟨contact, fun separated => ?_⟩
  have reversed := separation_reversed real_root one_pos one_pos contact
  have apart : separation Real.sqrt (departing.position - resting.position) departing resting =
      - -1 := sample_separation 0 (-1)
  rw [Separated, reversed, apart] at separated
  norm_num at separated

/-- At distance one the pair ends apart. -/
theorem sample_left_apart :
    let q := resolveCollision Real.sqrt oncoming 1 1 resting 1 1
    1 + 1 ≤ distance Real.sqrt (q.1.position - q.2.position) :=
  (left_apart real_root oncoming resting one_pos one_pos 1 1).1
    sample_in_contact.2

/-- Two bodies of radius one whose centres are at a distance of one ten-millionth stay so. -/
theorem close_pair_left :
    let p1 : Motion ℝ := ⟨⟨0, 0, 0⟩, ⟨0, 0, 0⟩⟩
    let p2 : Motion ℝ := ⟨⟨1 / 10000000, 0, 0⟩, ⟨0, 0, 0⟩⟩
    let q := resolveCollision Real.sqrt p1 1 1 p2 1 1
    p1.position ≠ p2.position ∧
      ¬ 1 + 1 ≤ distance Real.sqrt (q.1.position - q.2.position) := by
  intro p1 p2 q
  have gap : distance Real.sqrt (p1.position - p2.position) = 1 / 10000000 := by
    have square : dot (p1.position - p2.position) (p1.position - p2.position) =
        1 / 10000000 * (1 / 10000000) := by
      simp [p1, p2, dot]
    rw [distance, square, root_of_square real_root (by norm_num)]
  have same : q = (p1, p2) := by
    refine resolve_apart (fun contact => ?_) 1 1
    have clear := contact.2
    rw [← distance_square real_root, gap] at clear
    norm_num at clear
  refine ⟨fun equal => ?_, ?_⟩
  · have first := congrArg Float3.x equal
    norm_num [p1, p2] at first
  · rw [same, gap]
    norm_num

end ContactOutcome

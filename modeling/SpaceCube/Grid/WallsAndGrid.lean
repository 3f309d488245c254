import SpaceCube.Grid.GridCoverage
import SpaceCube.Kernel.UpdateParticles

/- The box of the kernel's walls beside the box that the grid divides. -/
namespace WallsAndGrid
open PyValue BoxGrid WorkerBounds GridCoverage ParticleForce UpdateParticles
variable {K : Type} [Field K] [LinearOrder K]

/-- No wall of particle_kernel.cu acts on the position. -/
def Free (boxSize : K) (p : Float3 K) : Prop :=
  calculateWallForce workerConstants.wallStiffness p boxSize = 0

/-- Both ends of the intervals included. -/
def ClosedContains (bounds : Bounds K) (p : Float3 K) : Prop :=
  (bounds.x.1 ≤ p.x ∧ p.x ≤ bounds.x.2) ∧ (bounds.y.1 ≤ p.y ∧ p.y ≤ bounds.y.2) ∧
    (bounds.z.1 ≤ p.z ∧ p.z ≤ bounds.z.2)

/-- The position is in the bounds of some worker. -/
def Owned (boxSize : K) (numWorkers root : Nat) (p : Float3 K) : Prop :=
  ∃ workerId bounds,
    getWorkerBounds (gridOf boxSize numWorkers root) workerId = .ok bounds ∧
      ClosedContains bounds p

/-- Every coordinate is between the two. -/
def Between (low high : K) (p : Float3 K) : Prop :=
  (low ≤ p.x ∧ p.x ≤ high) ∧ (low ≤ p.y ∧ p.y ≤ high) ∧ (low ≤ p.z ∧ p.z ≤ high)

def cellCount (dimensions : Nat × Nat × Nat) : Nat :=
  dimensions.1 * dimensions.2.1 * dimensions.2.2

section Ordered
variable [IsStrictOrderedRing K] {boxSize : K} (positive : 0 < boxSize)
include positive

theorem axis_free_iff {wallStiffness : K} (stiff : 0 < wallStiffness) (coordinate : K) :
    axisForce wallStiffness boxSize coordinate = 0 ↔
      -boxSize ≤ coordinate ∧ coordinate ≤ boxSize := by
  constructor
  · intro free
    simp only [axisForce] at free
    by_cases low : 0 < -boxSize - coordinate
    · have high : ¬ 0 < coordinate - boxSize := by linarith
      rw [if_neg high, if_pos low] at free
      exact absurd free (mul_pos stiff low).ne'
    · by_cases high : 0 < coordinate - boxSize
      · rw [if_pos high, if_neg low, zero_sub, neg_eq_zero] at free
        exact absurd free (mul_pos stiff high).ne'
      · constructor
        · linarith
        · linarith
  · rintro ⟨low, high⟩
    exact axis_force_inside low high wallStiffness

/-- The walls enclose a cube around the origin with twice the box size as its edge. -/
theorem free_iff (p : Float3 K) : Free boxSize p ↔ Between (-boxSize) boxSize p := by
  have stiff : (0 : K) < workerConstants.wallStiffness := by
    norm_num [workerConstants]
  have x := axis_free_iff positive stiff p.x
  have y := axis_free_iff positive stiff p.y
  have z := axis_free_iff positive stiff p.z
  rw [Between, ← x, ← y, ← z, Free, Float3.ext_iff]
  rfl

/-- One coordinate in the closed bounds of some cell. -/
theorem axis_cell {n : Nat} (cells : 1 ≤ n) {p : K} (held : 0 ≤ p ∧ p ≤ boxSize) :
    ∃ i, i < n ∧ (cell (boxSize / n) i).1 ≤ p ∧ p ≤ (cell (boxSize / n) i).2 := by
  apply closed_cell_exists (size_positive positive cells) cells held.1
  rw [size_total boxSize cells]
  exact held.2

/-- The cells enclose a cube with the origin as its corner and the box size as its edge. -/
theorem owned_iff {numWorkers root : Nat} (rounded : 1 ≤ root)
    (full : cellCount (optimizeGridDimensions numWorkers root) = numWorkers)
    (p : Float3 K) : Owned boxSize numWorkers root p ↔ Between 0 boxSize p := by
  obtain ⟨x, y, z, dims, hx, hy, hz, _, _, entries⟩ := grid_spec boxSize numWorkers rounded
  have exactly : x * y * z = numWorkers := by rwa [dims] at full
  constructor
  · rintro ⟨workerId, bounds, got, contains⟩
    obtain ⟨w, below, rfl⟩ := known_worker rounded got
    rw [bounds_ok_iff, entries w below, Option.some.injEq] at got
    subst got
    obtain ⟨bx, bY, bz⟩ := digits_bound (show w < x * y * z by omega)
    have axis : ∀ {n i : Nat}, i < n → ∀ {q : K}, (cell (boxSize / n) i).1 ≤ q ∧
        q ≤ (cell (boxSize / n) i).2 → 0 ≤ q ∧ q ≤ boxSize := by
      intro n i inside q held
      obtain ⟨low, _, high⟩ := cell_inside positive inside
      exact ⟨low.trans held.1, held.2.trans high⟩
    exact ⟨axis bx contains.1, axis bY contains.2.1, axis bz contains.2.2⟩
  · rintro ⟨px, py, pz⟩
    obtain ⟨i, hi, ci⟩ := axis_cell positive hx px
    obtain ⟨j, hj, cj⟩ := axis_cell positive hy py
    obtain ⟨k, hk, ck⟩ := axis_cell positive hz pz
    have below : number y z (i, j, k) < numWorkers := by
      rw [← exactly]
      exact number_bound hi hj hk
    refine ⟨_, _, (bounds_ok_iff _ _ _).mpr (entries _ below), ?_⟩
    rw [digits_number hj hk, cell_bounds_axes]
    exact ⟨ci, cj, ck⟩

/-- Walls and grid agree on a position exactly when it has no negative coordinate or is beyond
    a wall. -/
theorem walls_match_iff {numWorkers root : Nat} (rounded : 1 ≤ root)
    (full : cellCount (optimizeGridDimensions numWorkers root) = numWorkers)
    (p : Float3 K) :
    (Free boxSize p ↔ Owned boxSize numWorkers root p) ↔
      (0 ≤ p.x ∧ 0 ≤ p.y ∧ 0 ≤ p.z) ∨ ¬ Between (-boxSize) boxSize p := by
  have below : -boxSize ≤ 0 := neg_nonpos.mpr positive.le
  rw [free_iff positive, owned_iff positive rounded full]
  constructor
  · intro same
    by_cases inside : Between (-boxSize) boxSize p
    · obtain ⟨px, py, pz⟩ := same.mp inside
      exact Or.inl ⟨px.1, py.1, pz.1⟩
    · exact Or.inr inside
  · intro agree
    constructor
    · intro inside
      rcases agree with ⟨nx, ny, nz⟩ | outside
      · obtain ⟨px, py, pz⟩ := inside
        exact ⟨⟨nx, px.2⟩, ⟨ny, py.2⟩, ⟨nz, pz.2⟩⟩
      · exact absurd inside outside
    · rintro ⟨px, py, pz⟩
      exact ⟨⟨below.trans px.1, px.2⟩, ⟨below.trans py.1, py.2⟩, ⟨below.trans pz.1, pz.2⟩⟩

end Ordered

theorem eight_full : cellCount (optimizeGridDimensions 8 2) = 8 := by
  have root : ceilCbrt 8 = 2 := by decide
  have dims := exact_dimensions 8
  rw [root] at dims
  rw [dims]
  rfl

theorem sample_walls_match :
    Free (100 : ℚ) ⟨50, 50, 50⟩ ↔ Owned (100 : ℚ) 8 2 ⟨50, 50, 50⟩ :=
  (walls_match_iff (by norm_num) (by decide) eight_full _).mpr (Or.inl (by norm_num))

/-- A position that no wall acts on and no worker has. -/
theorem free_unowned :
    Free (100 : ℚ) ⟨-50, 50, 50⟩ ∧ ¬ Owned (100 : ℚ) 8 2 ⟨-50, 50, 50⟩ := by
  have positive : (0 : ℚ) < 100 := by norm_num
  constructor
  · rw [free_iff positive]
    norm_num [Between]
  · rw [owned_iff positive (by decide) eight_full]
    norm_num [Between]

end WallsAndGrid

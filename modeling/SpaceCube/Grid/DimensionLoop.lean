import SpaceCube.Grid.WorkerBounds
import SpaceCube.Library.WhileLoop

/- The loop of _optimize_grid_dimensions pass by pass. The root it starts from may have been
   rounded either way. -/
namespace DimensionLoop
open BoxGrid PyValue WhileLoop WorkerBounds

def cells (d : Nat × Nat × Nat) : Nat := d.1 * d.2.1 * d.2.2

/-- One pass: the least dimension grows, the first of several. -/
def growLeast (d : Nat × Nat × Nat) : Nat × Nat × Nat :=
  if d.1 ≤ d.2.1 ∧ d.1 ≤ d.2.2 then (d.1 + 1, d.2.1, d.2.2)
  else if d.2.1 ≤ d.1 ∧ d.2.1 ≤ d.2.2 then (d.1, d.2.1 + 1, d.2.2)
  else (d.1, d.2.1, d.2.2 + 1)

def TooFew (numWorkers : Nat) (d : Nat × Nat × Nat) : Prop := cells d < numWorkers

/-- The dimensions differ by at most one and none is before a larger one. -/
structure Balanced (d : Nat × Nat × Nat) : Prop where
  first : d.2.1 ≤ d.1
  second : d.2.2 ≤ d.2.1
  third : d.1 ≤ d.2.2 + 1

theorem correct_passes (numWorkers x y z : Nat) :
    ∃ k, Passes (TooFew numWorkers) growLeast (x, y, z) k (correctDimensions numWorkers x y z) := by
  fun_induction correctDimensions numWorkers x y z with
  | case1 x y z short first ih =>
    obtain ⟨k, run⟩ := ih
    have grown : growLeast (x, y, z) = (x + 1, y, z) := if_pos first
    exact ⟨k + 1, passes_more short (grown ▸ run)⟩
  | case2 x y z short first second ih =>
    obtain ⟨k, run⟩ := ih
    have grown : growLeast (x, y, z) = (x, y + 1, z) :=
      (if_neg first).trans (if_pos second)
    exact ⟨k + 1, passes_more short (grown ▸ run)⟩
  | case3 x y z short first second ih =>
    obtain ⟨k, run⟩ := ih
    have grown : growLeast (x, y, z) = (x, y, z + 1) :=
      (if_neg first).trans (if_neg second)
    exact ⟨k + 1, passes_more short (grown ▸ run)⟩
  | case4 x y z enough => exact ⟨0, passes_none enough⟩

theorem balanced_cube (c : Nat) : Balanced (c, c, c) :=
  ⟨Nat.le_refl c, Nat.le_refl c, Nat.le_succ c⟩

theorem balanced_grow {d : Nat × Nat × Nat} (balanced : Balanced d) :
    Balanced (growLeast d) := by
  obtain ⟨x, y, z⟩ := d
  obtain ⟨first, second, third⟩ := balanced
  dsimp only at first second third
  unfold growLeast
  dsimp only
  split
  · constructor <;> dsimp only <;> omega
  · split
    · constructor <;> dsimp only <;> omega
    · constructor <;> dsimp only <;> omega

/-- A pass adds cells, but takes no dimension below its start. -/
theorem grow_positive {d : Nat × Nat × Nat} (positive : 1 ≤ d.1 ∧ 1 ≤ d.2.1 ∧ 1 ≤ d.2.2) :
    1 ≤ (growLeast d).1 ∧ 1 ≤ (growLeast d).2.1 ∧ 1 ≤ (growLeast d).2.2 := by
  unfold growLeast
  split
  · dsimp only
    omega
  · split <;> dsimp only <;> omega

/-- Whatever positive number the loop starts from, it ends; its dimensions are balanced at
    every pass; and it ends with enough cells, of which the last pass was needed. -/
theorem dimension_loop {K : Type} [Field K] (boxSize : K) (numWorkers c : Nat)
    (several : 2 ≤ numWorkers) (positive : 1 ≤ c) :
    ∃ k x y z, optimizeGridDimensions numWorkers c = (x, y, z) ∧
      growLeast^[k] (c, c, c) = (x, y, z) ∧
      (∀ i ≤ k, Balanced (growLeast^[i] (c, c, c))) ∧
      (1 ≤ x ∧ 1 ≤ y ∧ 1 ≤ z) ∧ numWorkers ≤ x * y * z ∧
      (∀ i < k, cells (growLeast^[i] (c, c, c)) < numWorkers) ∧
      (∀ j, k = j + 1 → growLeast (growLeast^[j] (c, c, c)) = (x, y, z) ∧
        cells (growLeast^[j] (c, c, c)) < numWorkers) ∧
      GridManager.init boxSize numWorkers c = .ok (gridOf boxSize numWorkers c) ∧
      ∀ w < numWorkers, (workerCell (x, y, z) w).1 < x ∧ (workerCell (x, y, z) w).2.1 < y ∧
        (workerCell (x, y, z) w).2.2 < z := by
  obtain ⟨k, run⟩ := correct_passes numWorkers c c c
  have many : optimizeGridDimensions numWorkers c = correctDimensions numWorkers c c c :=
    if_neg (by omega)
  have balanced := passes_keep Balanced (fun _ _ => balanced_grow) (balanced_cube c) run
  have sizes := passes_keep (fun d => 1 ≤ d.1 ∧ 1 ≤ d.2.1 ∧ 1 ≤ d.2.2)
    (fun _ _ => grow_positive) ⟨positive, positive, positive⟩ run k (Nat.le_refl k)
  rw [run.result] at sizes
  have enough : numWorkers ≤ cells (correctDimensions numWorkers c c c) :=
    Nat.le_of_not_lt run.stopped
  refine ⟨k, _, _, _, many, run.result, balanced, sizes, enough, run.went, ?_,
    init_ok boxSize numWorkers positive, fun w below => ?_⟩
  · rintro j rfl
    exact passes_last run
  · exact digits_bound (Nat.lt_of_lt_of_le below enough)

/-- Five workers, with the root rounded down too far: three passes. -/
theorem sample_dimensions : ∃ k x y z, optimizeGridDimensions 5 1 = (x, y, z) ∧
    growLeast^[k] (1, 1, 1) = (x, y, z) ∧ 5 ≤ x * y * z ∧
    ∀ i < k, cells (growLeast^[i] (1, 1, 1)) < 5 := by
  obtain ⟨k, x, y, z, dims, last, _, _, enough, below, _⟩ :=
    dimension_loop (1 : Rat) 5 1 (by decide) (by decide)
  exact ⟨k, x, y, z, dims, last, enough, below⟩

end DimensionLoop

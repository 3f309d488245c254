import SpaceCube.Library.BoxGrid
import SpaceCube.Orchestrator.PyValue

/- The division of the box among the workers. A cell of the grid is numbered by its
   mixed-radix digits, and the first num_workers cells are handed out. -/
namespace WorkerBounds
open InsertionDict BoxGrid PyValue
variable {K : Type}

/-- One interval for each axis. -/
structure Bounds (K : Type) where
  x : K × K
  y : K × K
  z : K × K

theorem least_below {m x y z n : Nat} (hx : m ≤ x) (hy : m ≤ y) (hz : m ≤ z)
    (short : x * y * z < n) : m < n := by
  have face : m * m ≤ x * y := Nat.mul_le_mul hx hy
  have cube : m * m * m ≤ x * y * z := Nat.mul_le_mul face hz
  by_contra large
  have positive : 1 ≤ m := by omega
  have square : m ≤ m * m := Nat.le_mul_of_pos_left m positive
  have whole : m * m ≤ m * m * m := Nat.le_mul_of_pos_right (m * m) positive
  omega

/-- The correcting loop: the least dimension grows until there are enough cells. -/
def correctDimensions (numWorkers x y z : Nat) : Nat × Nat × Nat :=
  if short : x * y * z < numWorkers then
    if first : x ≤ y ∧ x ≤ z then correctDimensions numWorkers (x + 1) y z
    else if second : y ≤ x ∧ y ≤ z then correctDimensions numWorkers x (y + 1) z
    else correctDimensions numWorkers x y (z + 1)
  else (x, y, z)
termination_by (numWorkers - x) + (numWorkers - y) + (numWorkers - z)
decreasing_by
  · have below := least_below (Nat.le_refl x) first.1 first.2 short
    omega
  · have below := least_below second.1 (Nat.le_refl y) second.2 short
    omega
  · have below := least_below (m := z) (by omega) (by omega) (Nat.le_refl z) short
    omega

/-- root is the cube root of num_workers as rounded up by the code. -/
def optimizeGridDimensions (numWorkers root : Nat) : Nat × Nat × Nat :=
  if numWorkers = 1 then (1, 1, 1) else correctDimensions numWorkers root root root

structure GridManager (K : Type) where
  boxSize : K
  numWorkers : Nat
  dimensions : Nat × Nat × Nat
  cellSizes : K × K × K
  workerBounds : Dict Key (Bounds K)

def workerCell (dimensions : Nat × Nat × Nat) (workerId : Nat) : Nat × Nat × Nat :=
  let i := workerId / (dimensions.2.1 * dimensions.2.2)
  let remainder := workerId % (dimensions.2.1 * dimensions.2.2)
  let j := remainder / dimensions.2.2
  let k := remainder % dimensions.2.2
  (i, j, k)

section Defs
variable [Field K]

def cellBounds (cellSizes : K × K × K) (c : Nat × Nat × Nat) : Bounds K where
  x := (c.1 * cellSizes.1, (c.1 + 1) * cellSizes.1)
  y := (c.2.1 * cellSizes.2.1, (c.2.1 + 1) * cellSizes.2.1)
  z := (c.2.2 * cellSizes.2.2, (c.2.2 + 1) * cellSizes.2.2)

def calculateWorkerBounds (boxSize : K) (numWorkers : Nat) (dimensions : Nat × Nat × Nat)
    (cellSizes : K × K × K) : Dict Key (Bounds K) :=
  if numWorkers = 1 then
    Dict.empty.set (Key.ofNat 0) ⟨(0, boxSize), (0, boxSize), (0, boxSize)⟩
  else (List.range numWorkers).foldl
    (fun bounds workerId => bounds.set (Key.ofNat workerId)
      (cellBounds cellSizes (workerCell dimensions workerId))) .empty

def gridOf (boxSize : K) (numWorkers root : Nat) : GridManager K :=
  let dimensions := optimizeGridDimensions numWorkers root
  let cellSizes := (boxSize / dimensions.1, boxSize / dimensions.2.1, boxSize / dimensions.2.2)
  ⟨boxSize, numWorkers, dimensions, cellSizes,
    calculateWorkerBounds boxSize numWorkers dimensions cellSizes⟩

/-- A zero dimension, which only num_workers = 0 gives, fails the division. -/
def GridManager.init (boxSize : K) (numWorkers root : Nat) : Except PyErr (GridManager K) :=
  let dimensions := optimizeGridDimensions numWorkers root
  if dimensions.1 = 0 ∨ dimensions.2.1 = 0 ∨ dimensions.2.2 = 0 then .error .zeroDivisionError
  else .ok (gridOf boxSize numWorkers root)

end Defs

def getWorkerBounds (grid : GridManager K) (workerId : Key) : Except PyErr (Bounds K) :=
  match grid.workerBounds.get? workerId with
  | some bounds => .ok bounds
  | none => .error (.keyError workerId)

theorem bounds_ok_iff (grid : GridManager K) (workerId : Key) (bounds : Bounds K) :
    getWorkerBounds grid workerId = .ok bounds ↔ grid.workerBounds.get? workerId = some bounds := by
  unfold getWorkerBounds
  cases grid.workerBounds.get? workerId <;> simp

theorem bounds_ok_mem (grid : GridManager K) (workerId : Key) :
    (∃ bounds, getWorkerBounds grid workerId = .ok bounds) ↔ workerId ∈ grid.workerBounds := by
  rw [mem_iff_get?]
  exact exists_congr fun bounds => bounds_ok_iff grid workerId bounds

/-- The loop only grows the dimensions and ends with a cell for every worker. -/
theorem correct_dimensions_spec (numWorkers x y z : Nat) :
    ∃ x' y' z', correctDimensions numWorkers x y z = (x', y', z') ∧
      x ≤ x' ∧ y ≤ y' ∧ z ≤ z' ∧ numWorkers ≤ x' * y' * z' := by
  fun_induction correctDimensions numWorkers x y z with
  | case1 x y z _ _ ih =>
    obtain ⟨x', y', z', eq, hx, hy, hz, enough⟩ := ih
    exact ⟨x', y', z', eq, by omega, hy, hz, enough⟩
  | case2 x y z _ _ _ ih =>
    obtain ⟨x', y', z', eq, hx, hy, hz, enough⟩ := ih
    exact ⟨x', y', z', eq, hx, by omega, hz, enough⟩
  | case3 x y z _ _ _ ih =>
    obtain ⟨x', y', z', eq, hx, hy, hz, enough⟩ := ih
    exact ⟨x', y', z', eq, hx, hy, by omega, enough⟩
  | case4 x y z enough =>
    exact ⟨x, y, z, rfl, Nat.le_refl x, Nat.le_refl y, Nat.le_refl z, by omega⟩

theorem optimize_spec (numWorkers : Nat) {root : Nat} (positive : 1 ≤ root) :
    ∃ x y z, optimizeGridDimensions numWorkers root = (x, y, z) ∧
      1 ≤ x ∧ 1 ≤ y ∧ 1 ≤ z ∧ numWorkers ≤ x * y * z := by
  unfold optimizeGridDimensions
  split
  · exact ⟨1, 1, 1, rfl, by omega, by omega, by omega, by omega⟩
  · obtain ⟨x, y, z, eq, hx, hy, hz, enough⟩ := correct_dimensions_spec numWorkers root root root
    exact ⟨x, y, z, eq, by omega, by omega, by omega, enough⟩

theorem table_spec (f : Nat → Bounds K) (n : Nat) :
    ((List.range n).foldl (fun bounds w => bounds.set (Key.ofNat w) (f w)) Dict.empty).keys =
        (List.range n).map Key.ofNat ∧
      ∀ w, w < n → ((List.range n).foldl (fun bounds w => bounds.set (Key.ofNat w) (f w))
        Dict.empty).get? (Key.ofNat w) = some (f w) := by
  induction n with
  | zero => exact ⟨rfl, fun w below => absurd below (Nat.not_lt_zero w)⟩
  | succ n ih =>
    obtain ⟨keys, entries⟩ := ih
    simp only [List.range_succ, List.foldl_append, List.foldl_cons, List.foldl_nil,
      List.map_append, List.map_cons, List.map_nil]
    have absent : Key.ofNat n ∉ (List.range n).foldl
        (fun bounds w => bounds.set (Key.ofNat w) (f w)) Dict.empty := by
      rw [mem_iff_keys, keys]
      intro member
      obtain ⟨w, below, same⟩ := List.mem_map.mp member
      have eq := key_ofNat_injective same
      rw [eq, List.mem_range] at below
      omega
    constructor
    · rw [keys_set, if_neg absent, keys]
    · intro w below
      by_cases last : w = n
      · rw [last, get?_set_self]
      · rw [get?_set_ne _ _ fun same => last (key_ofNat_injective same)]
        exact entries w (by omega)

theorem init_ok [Field K] (boxSize : K) (numWorkers : Nat) {root : Nat} (positive : 1 ≤ root) :
    GridManager.init boxSize numWorkers root = .ok (gridOf boxSize numWorkers root) := by
  obtain ⟨x, y, z, dims, hx, hy, hz, _⟩ := optimize_spec numWorkers positive
  unfold GridManager.init
  simp only [dims]
  rw [if_neg (by omega)]

/-- Every worker in range has the bounds of its cell; with one worker that cell is the
    whole box. -/
theorem grid_spec [Field K] (boxSize : K) (numWorkers : Nat) {root : Nat} (positive : 1 ≤ root) :
    ∃ x y z, optimizeGridDimensions numWorkers root = (x, y, z) ∧
      1 ≤ x ∧ 1 ≤ y ∧ 1 ≤ z ∧ numWorkers ≤ x * y * z ∧
      (gridOf boxSize numWorkers root).workerBounds.keys =
        (List.range numWorkers).map Key.ofNat ∧
      ∀ w, w < numWorkers → (gridOf boxSize numWorkers root).workerBounds.get? (Key.ofNat w) =
        some (cellBounds (boxSize / x, boxSize / y, boxSize / z) (digits y z w)) := by
  obtain ⟨x, y, z, dims, hx, hy, hz, enough⟩ := optimize_spec numWorkers positive
  refine ⟨x, y, z, dims, hx, hy, hz, enough, ?_⟩
  simp only [gridOf, calculateWorkerBounds, dims]
  split
  · rename_i one
    subst one
    simp only [optimizeGridDimensions, ↓reduceIte, Prod.mk.injEq] at dims
    obtain ⟨rfl, rfl, rfl⟩ := dims
    refine ⟨rfl, fun w below => ?_⟩
    obtain rfl : w = 0 := by omega
    simp [cellBounds, digits]
  · exact table_spec _ numWorkers

end WorkerBounds

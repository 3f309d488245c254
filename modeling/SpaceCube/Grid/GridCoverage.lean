import Mathlib.Analysis.SpecialFunctions.Pow.Real
import SpaceCube.Grid.WorkerBounds

/- Which points of the box belong to which worker: never to two, and to one for every
   point exactly when the number of workers is a cube. -/
namespace GridCoverage
open InsertionDict BoxGrid PyValue WorkerBounds
variable {K : Type} [Field K] [LinearOrder K] [IsStrictOrderedRing K]

def Contains (bounds : Bounds K) (p : K × K × K) : Prop :=
  Holds bounds.x p.1 ∧ Holds bounds.y p.2.1 ∧ Holds bounds.z p.2.2

def InBox (boxSize : K) (p : K × K × K) : Prop :=
  Holds (0, boxSize) p.1 ∧ Holds (0, boxSize) p.2.1 ∧ Holds (0, boxSize) p.2.2

/-- An interval of the box with its ends in order. -/
def Inside (boxSize : K) (interval : K × K) : Prop :=
  0 ≤ interval.1 ∧ interval.1 < interval.2 ∧ interval.2 ≤ boxSize

/-- With the exact cube root, every point of the box is in the bounds of some worker. -/
def Covers (boxSize : K) (numWorkers : Nat) : Prop :=
  ∃ grid, GridManager.init boxSize numWorkers (ceilCbrt numWorkers) = .ok grid ∧
    ∀ p, InBox boxSize p → ∃ w bounds, w < numWorkers ∧
      getWorkerBounds grid (Key.ofNat w) = .ok bounds ∧ Contains bounds p

/-- The root of covers is the exact real cube root, rounded up. -/
theorem ceil_cube_root (n : Nat) : ⌈(n : ℝ) ^ (1 / 3 : ℝ)⌉₊ = ceilCbrt n := by
  have cubed : ((n : ℝ) ^ (1 / 3 : ℝ)) ^ 3 = n := by
    rw [← Real.rpow_natCast, ← Real.rpow_mul (Nat.cast_nonneg n)]
    norm_num
  have nonneg : 0 ≤ (n : ℝ) ^ (1 / 3 : ℝ) := Real.rpow_nonneg (Nat.cast_nonneg n) _
  have reach : ∀ d : Nat, (n : ℝ) ^ (1 / 3 : ℝ) ≤ d ↔ n ≤ d ^ 3 := by
    intro d
    rw [← pow_le_pow_iff_left₀ nonneg (Nat.cast_nonneg d) (show 3 ≠ 0 by omega), cubed]
    exact_mod_cast Iff.rfl
  apply Nat.le_antisymm
  · exact Nat.ceil_le.mpr ((reach _).mpr (le_ceilCbrt_cubed n))
  · exact ceilCbrt_le ((reach _).mp (Nat.le_ceil _))

omit [LinearOrder K] [IsStrictOrderedRing K] in
theorem cell_bounds_axes (sizes : K × K × K) (c : Nat × Nat × Nat) :
    cellBounds sizes c = ⟨cell sizes.1 c.1, cell sizes.2.1 c.2.1, cell sizes.2.2 c.2.2⟩ := rfl

theorem size_positive {boxSize : K} (positive : 0 < boxSize) {n : Nat} (cells : 1 ≤ n) :
    0 < boxSize / n :=
  div_pos positive (Nat.cast_pos.mpr cells)

theorem size_total (boxSize : K) {n : Nat} (cells : 1 ≤ n) : (n : K) * (boxSize / n) = boxSize := by
  have nonzero : (n : K) ≠ 0 := Nat.cast_ne_zero.mpr (by omega)
  exact mul_div_cancel₀ boxSize nonzero

theorem cell_inside {boxSize : K} (positive : 0 < boxSize) {i n : Nat} (below : i < n) :
    Inside boxSize (cell (boxSize / n) i) := by
  have size := size_positive positive (show 1 ≤ n by omega)
  refine ⟨cell_low size i, cell_order size i, ?_⟩
  have high := cell_high size below
  rwa [size_total boxSize (by omega)] at high

/-- A point fixes the cell that contains it. -/
theorem contains_unique {sizes : K × K × K} {c d : Nat × Nat × Nat} {p : K × K × K}
    (hc : Contains (cellBounds sizes c) p) (hd : Contains (cellBounds sizes d) p) : c = d := by
  obtain ⟨cx, cy, cz⟩ := hc
  obtain ⟨dx, dy, dz⟩ := hd
  have first := cell_unique cx dx
  have second := cell_unique cy dy
  have third := cell_unique cz dz
  exact Prod.ext first (Prod.ext second third)

omit [LinearOrder K] [IsStrictOrderedRing K] in
theorem known_worker {boxSize : K} {numWorkers root : Nat} (rounded : 1 ≤ root) {w : Key}
    {bounds : Bounds K} (found : getWorkerBounds (gridOf boxSize numWorkers root) w = .ok bounds) :
    ∃ i, i < numWorkers ∧ w = Key.ofNat i := by
  obtain ⟨_, _, _, _, _, _, _, _, keys, _⟩ := grid_spec boxSize numWorkers rounded
  have member := (bounds_ok_mem _ w).mp ⟨bounds, found⟩
  rw [mem_iff_keys, keys] at member
  obtain ⟨i, below, same⟩ := List.mem_map.mp member
  exact ⟨i, List.mem_range.mp below, same.symm⟩

/-- No point is in the bounds of two workers. -/
theorem bounds_disjoint {boxSize : K} {numWorkers root : Nat}
    (rounded : 1 ≤ root) {v w : Key} (other : v ≠ w) {first second : Bounds K}
    (hfirst : getWorkerBounds (gridOf boxSize numWorkers root) v = .ok first)
    (hsecond : getWorkerBounds (gridOf boxSize numWorkers root) w = .ok second)
    (p : K × K × K) : ¬(Contains first p ∧ Contains second p) := by
  obtain ⟨_, y, z, _, _, _, _, _, _, entries⟩ := grid_spec boxSize numWorkers rounded
  obtain ⟨i, hi, rfl⟩ := known_worker rounded hfirst
  obtain ⟨j, hj, rfl⟩ := known_worker rounded hsecond
  rintro ⟨here, there⟩
  rw [bounds_ok_iff, entries i hi, Option.some.injEq] at hfirst
  rw [bounds_ok_iff, entries j hj, Option.some.injEq] at hsecond
  subst hfirst hsecond
  exact other (congrArg Key.ofNat (digits_injective y z (contains_unique here there)))

/-- The workers' boxes: the keys are the worker range, every interval lies in order inside
    the box, and no point is in two of them. The cube root may have been rounded anyhow. -/
theorem worker_bounds_separate (boxSize : K) (numWorkers root : Nat)
    (rounded : 1 ≤ root) (positive : 0 < boxSize) :
    ∃ grid, GridManager.init boxSize numWorkers root = .ok grid ∧
      grid.workerBounds.keys = (List.range numWorkers).map Key.ofNat ∧
      (∀ w, w < numWorkers → ∃ bounds, getWorkerBounds grid (Key.ofNat w) = .ok bounds ∧
        Inside boxSize bounds.x ∧ Inside boxSize bounds.y ∧ Inside boxSize bounds.z) ∧
      ∀ v w, v < numWorkers → w < numWorkers → v ≠ w → ∀ first second,
        getWorkerBounds grid (Key.ofNat v) = .ok first →
        getWorkerBounds grid (Key.ofNat w) = .ok second →
        ∀ p, ¬(Contains first p ∧ Contains second p) := by
  obtain ⟨x, y, z, _, hx, hy, hz, enough, keys, entries⟩ :=
    grid_spec boxSize numWorkers rounded
  refine ⟨_, init_ok boxSize numWorkers rounded, keys, ?_, ?_⟩
  · intro w below
    obtain ⟨bx, bY, bz⟩ := digits_bound (show w < x * y * z by omega)
    refine ⟨_, (bounds_ok_iff _ _ _).mpr (entries w below), ?_⟩
    rw [cell_bounds_axes]
    exact ⟨cell_inside positive bx, cell_inside positive bY, cell_inside positive bz⟩
  · intro v w _ _ other first second hfirst hsecond p
    exact bounds_disjoint rounded (fun same => other (key_ofNat_injective same))
      hfirst hsecond p

theorem sample_bounds_separate :
    ∃ grid, GridManager.init (100 : ℚ) 5 2 = .ok grid ∧
      grid.workerBounds.keys = (List.range 5).map Key.ofNat := by
  obtain ⟨grid, built, keys, _⟩ :=
    worker_bounds_separate (100 : ℚ) 5 2 (by decide) (by norm_num)
  exact ⟨grid, built, keys⟩

/-- With the exact root the correcting loop has nothing to do. -/
theorem exact_dimensions (numWorkers : Nat) :
    optimizeGridDimensions numWorkers (ceilCbrt numWorkers) =
      (ceilCbrt numWorkers, ceilCbrt numWorkers, ceilCbrt numWorkers) := by
  unfold optimizeGridDimensions
  split
  · rename_i one
    rw [one]
    rfl
  · have enough := le_ceilCbrt_cubed numWorkers
    rw [pow_succ, pow_two] at enough
    rw [correctDimensions, dif_neg (by omega)]

/-- A cube of workers hands out every cell. -/
theorem cube_covers (boxSize : K) {c : Nat} (cells : 1 ≤ c) :
    Covers boxSize (c ^ 3) := by
  have workers : 1 ≤ c ^ 3 := Nat.one_le_pow 3 c cells
  have root := ceilCbrt_cube c
  obtain ⟨x, y, z, dims, hx, hy, hz, _, _, entries⟩ :=
    grid_spec boxSize _ (ceilCbrt_pos workers)
  rw [exact_dimensions, root, Prod.mk.injEq, Prod.mk.injEq] at dims
  obtain ⟨rfl, rfl, rfl⟩ := dims
  refine ⟨_, init_ok boxSize _ (ceilCbrt_pos workers), ?_⟩
  intro p inside
  have axis : ∀ q, Holds (0, boxSize) q → ∃ i, i < c ∧ Holds (cell (boxSize / c) i) q := by
    intro q held
    apply cell_exists c held.1
    rw [size_total boxSize cells]
    exact held.2
  obtain ⟨i, hi, ci⟩ := axis p.1 inside.1
  obtain ⟨j, hj, cj⟩ := axis p.2.1 inside.2.1
  obtain ⟨k, hk, ck⟩ := axis p.2.2 inside.2.2
  have below := number_bound (d := (i, j, k)) hi hj hk
  rw [← pow_two, ← pow_succ] at below
  refine ⟨number c c (i, j, k), _, below, (bounds_ok_iff _ _ _).mpr (entries _ below), ?_⟩
  rw [digits_number hj hk, cell_bounds_axes]
  exact ⟨ci, cj, ck⟩

/-- With fewer workers than cells the last cell is handed to nobody. -/
theorem last_cell_uncovered {boxSize : K} (positive : 0 < boxSize) {numWorkers : Nat}
    (workers : 1 ≤ numWorkers) (fewer : numWorkers < ceilCbrt numWorkers ^ 3) :
    ¬ Covers boxSize numWorkers := by
  rintro ⟨grid, built, cover⟩
  have cells := ceilCbrt_pos workers
  obtain ⟨x, y, z, dims, hx, hy, hz, _, _, entries⟩ := grid_spec boxSize _ cells
  obtain rfl := Except.ok.inj ((init_ok boxSize numWorkers cells).symm.trans built)
  rw [exact_dimensions numWorkers, Prod.mk.injEq, Prod.mk.injEq] at dims
  obtain ⟨rfl, rfl, rfl⟩ := dims
  obtain ⟨c, c_eq⟩ : ∃ c, ceilCbrt numWorkers = c + 1 := ⟨ceilCbrt numWorkers - 1, by omega⟩
  rw [c_eq] at fewer entries cover
  have size := size_positive positive (show 1 ≤ c + 1 by omega)
  have corner := cell_corner size c
  have inside : Holds (0, boxSize) ((c : K) * (boxSize / (c + 1 : Nat))) := by
    obtain ⟨low, order, high⟩ := cell_inside positive (Nat.lt_succ_self c)
    exact ⟨low, lt_of_lt_of_le order high⟩
  obtain ⟨w, bounds, below, got, contains⟩ := cover (_, _, _) ⟨inside, inside, inside⟩
  rw [bounds_ok_iff, entries w below, Option.some.injEq] at got
  subst got
  have same := contains_unique contains
    (show Contains (cellBounds _ (c, c, c)) _ from ⟨corner, corner, corner⟩)
  have id := number_digits (c + 1) (c + 1) w
  rw [same] at id
  have last : (c + 1) ^ 3 = number (c + 1) (c + 1) (c, c, c) + 1 := by
    simp only [number]
    ring
  omega

/-- The workers cover the box exactly when their number is a cube. -/
theorem covers_iff_cube (boxSize : K) (numWorkers : Nat) (workers : 1 ≤ numWorkers)
    (positive : 0 < boxSize) : Covers boxSize numWorkers ↔ ∃ c, c ^ 3 = numWorkers := by
  constructor
  · intro covers
    refine ⟨ceilCbrt numWorkers, ?_⟩
    have enough := le_ceilCbrt_cubed numWorkers
    by_contra other
    exact last_cell_uncovered positive workers (by omega) covers
  · rintro ⟨c, rfl⟩
    have cells : 1 ≤ c := by
      rcases Nat.eq_zero_or_pos c with rfl | some_cells
      · simp at workers
      · exact some_cells
    exact cube_covers boxSize cells

theorem eight_workers_cover : Covers (100 : ℚ) 8 :=
  (covers_iff_cube (100 : ℚ) 8 (by decide) (by norm_num)).mpr ⟨2, by decide⟩

/-- Two workers get two of eight cells: the points with x at or beyond one half are lost. -/
theorem two_workers_uncovered : ¬ Covers (1 : ℚ) 2 :=
  last_cell_uncovered (by norm_num) (by decide) (by decide)

end GridCoverage

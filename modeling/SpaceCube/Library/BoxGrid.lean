import Mathlib.Algebra.Order.Field.Basic
import Mathlib.Tactic.Linarith
import Mathlib.Tactic.Ring

/- Half-open cells of equal size along one axis, and the numbering of the cells of a
   three-dimensional box by mixed-radix digits. -/
namespace BoxGrid

section Axis
variable {K : Type*} [Field K] [LinearOrder K] [IsStrictOrderedRing K]

def cell (size : K) (i : Nat) : K × K := (i * size, (i + 1) * size)

/-- Lower end included, upper end excluded. -/
def Holds (interval : K × K) (p : K) : Prop := interval.1 ≤ p ∧ p < interval.2

theorem cell_order {size : K} (positive : 0 < size) (i : Nat) :
    (cell size i).1 < (cell size i).2 := by
  simp only [cell]
  exact mul_lt_mul_of_pos_right (lt_add_one _) positive

theorem cell_low {size : K} (positive : 0 < size) (i : Nat) : 0 ≤ (cell size i).1 :=
  mul_nonneg (Nat.cast_nonneg i) positive.le

theorem cell_high {size : K} (positive : 0 < size) {i n : Nat} (below : i < n) :
    (cell size i).2 ≤ n * size := by
  have le : ((i + 1 : Nat) : K) ≤ n := Nat.cast_le.mpr below
  rw [Nat.cast_succ] at le
  exact mul_le_mul_of_nonneg_right le positive.le

/-- Only cells of positive size contain points. -/
theorem cell_positive {size p : K} {i : Nat} (held : Holds (cell size i) p) : 0 < size := by
  have grows : (i : K) * size < (i + 1) * size := lt_of_le_of_lt held.1 held.2
  rw [add_one_mul] at grows
  exact lt_add_iff_pos_right _ |>.mp grows

/-- Two cells of one axis that share a point are the same cell. -/
theorem cell_unique {size p : K} {i j : Nat} (hi : Holds (cell size i) p)
    (hj : Holds (cell size j) p) : i = j := by
  have positive := cell_positive hi
  have below : ∀ a b : Nat, Holds (cell size a) p → Holds (cell size b) p → a < b + 1 := by
    intro a b ha hb
    have lt : (a : K) * size < (b + 1) * size := lt_of_le_of_lt ha.1 hb.2
    have small := lt_of_mul_lt_mul_right lt positive.le
    rw [← Nat.cast_succ] at small
    exact Nat.cast_lt.mp small
  have one := below i j hi hj
  have two := below j i hj hi
  omega

omit [IsStrictOrderedRing K] in
theorem cell_exists {size p : K} (n : Nat) (low : 0 ≤ p) (high : p < n * size) :
    ∃ i, i < n ∧ Holds (cell size i) p := by
  induction n with
  | zero =>
    rw [Nat.cast_zero, zero_mul] at high
    exact absurd low (not_le.mpr high)
  | succ n ih =>
    by_cases inside : p < n * size
    · obtain ⟨i, below, held⟩ := ih inside
      exact ⟨i, by omega, held⟩
    · rw [Nat.cast_succ] at high
      exact ⟨n, by omega, not_lt.mp inside, high⟩

/-- With their upper ends the cells fill the axis, its end included. -/
theorem closed_cell_exists {size p : K} (positive : 0 < size) {n : Nat} (cells : 1 ≤ n)
    (low : 0 ≤ p) (high : p ≤ n * size) :
    ∃ i, i < n ∧ (cell size i).1 ≤ p ∧ p ≤ (cell size i).2 := by
  rcases lt_or_eq_of_le high with below | last
  · obtain ⟨i, inside, held⟩ := cell_exists n low below
    exact ⟨i, inside, held.1, held.2.le⟩
  · obtain ⟨m, rfl⟩ := Nat.exists_eq_add_of_le' cells
    have upper : (cell size m).2 = p := by
      rw [last, Nat.cast_succ]
      rfl
    refine ⟨m, Nat.lt_succ_self m, ?_, upper.ge⟩
    exact (cell_order positive m).le.trans upper.le

theorem cell_corner {size : K} (positive : 0 < size) (i : Nat) :
    Holds (cell size i) (i * size) :=
  ⟨le_refl _, cell_order positive i⟩

end Axis

/-- The last axis varies fastest. -/
def digits (y z w : Nat) : Nat × Nat × Nat := (w / (y * z), w % (y * z) / z, w % (y * z) % z)

def number (y z : Nat) (d : Nat × Nat × Nat) : Nat := d.1 * (y * z) + (d.2.1 * z + d.2.2)

theorem number_digits (y z w : Nat) : number y z (digits y z w) = w := by
  simp only [number, digits]
  rw [Nat.div_add_mod', Nat.div_add_mod']

theorem digits_injective (y z : Nat) : Function.Injective (digits y z) :=
  Function.LeftInverse.injective (number_digits y z)

theorem digits_bound {x y z w : Nat} (below : w < x * y * z) :
    (digits y z w).1 < x ∧ (digits y z w).2.1 < y ∧ (digits y z w).2.2 < z := by
  have positive : 0 < x * y * z := by omega
  have face : 0 < y * z := Nat.pos_of_mul_pos_left (by rwa [← Nat.mul_assoc])
  have depth : 0 < z := Nat.pos_of_mul_pos_left positive
  refine ⟨?_, ?_, Nat.mod_lt _ depth⟩
  · apply Nat.div_lt_of_lt_mul
    rwa [Nat.mul_comm, ← Nat.mul_assoc]
  · apply Nat.div_lt_of_lt_mul
    rw [Nat.mul_comm z]
    exact Nat.mod_lt _ face

theorem number_bound {x y z : Nat} {d : Nat × Nat × Nat} (hx : d.1 < x) (hy : d.2.1 < y)
    (hz : d.2.2 < z) : number y z d < x * y * z := by
  have inner : d.2.1 * z + d.2.2 < y * z := by
    have row := Nat.mul_le_mul_right z (show d.2.1 + 1 ≤ y by omega)
    rw [Nat.add_mul] at row
    omega
  have outer := Nat.mul_le_mul_right (y * z) (show d.1 + 1 ≤ x by omega)
  rw [Nat.add_mul, ← Nat.mul_assoc x] at outer
  simp only [number]
  omega

theorem digits_number {y z : Nat} {d : Nat × Nat × Nat} (hy : d.2.1 < y) (hz : d.2.2 < z) :
    digits y z (number y z d) = d := by
  have inner := number_bound (d := (0, d.2)) Nat.one_pos hy hz
  simp only [number, Nat.zero_mul, Nat.zero_add, Nat.one_mul] at inner
  have face : 0 < y * z := by omega
  have depth : 0 < z := by omega
  have first : (d.1 * (y * z) + (d.2.1 * z + d.2.2)) / (y * z) = d.1 := by
    rw [Nat.mul_comm, Nat.mul_add_div face, Nat.div_eq_of_lt inner, Nat.add_zero]
  have rest : (d.1 * (y * z) + (d.2.1 * z + d.2.2)) % (y * z) = d.2.1 * z + d.2.2 := by
    rw [Nat.mul_comm, Nat.mul_add_mod, Nat.mod_eq_of_lt inner]
  have second : (d.2.1 * z + d.2.2) / z = d.2.1 := by
    rw [Nat.mul_comm, Nat.mul_add_div depth, Nat.div_eq_of_lt hz, Nat.add_zero]
  have third : (d.2.1 * z + d.2.2) % z = d.2.2 := by
    rw [Nat.mul_comm, Nat.mul_add_mod, Nat.mod_eq_of_lt hz]
  simp only [digits, number, first, rest, second, third]

/-- The least c with n at most c cubed. -/
def ceilCbrt : Nat → Nat
  | 0 => 0
  | n + 1 => if n + 1 ≤ ceilCbrt n ^ 3 then ceilCbrt n else ceilCbrt n + 1

theorem le_ceilCbrt_cubed (n : Nat) : n ≤ ceilCbrt n ^ 3 := by
  induction n with
  | zero => simp
  | succ n ih =>
    simp only [ceilCbrt]
    split
    · assumption
    · have grown : ceilCbrt n ^ 3 < (ceilCbrt n + 1) ^ 3 :=
        Nat.pow_lt_pow_left (Nat.lt_succ_self _) (by omega)
      omega

theorem ceilCbrt_le {n d : Nat} (large : n ≤ d ^ 3) : ceilCbrt n ≤ d := by
  induction n with
  | zero => simp [ceilCbrt]
  | succ n ih =>
    have below := ih (by omega)
    simp only [ceilCbrt]
    split
    · exact below
    · rename_i short
      rcases Nat.lt_or_eq_of_le below with less | same
      · omega
      · rw [same] at short
        omega

theorem ceilCbrt_cube (c : Nat) : ceilCbrt (c ^ 3) = c := by
  refine Nat.le_antisymm (ceilCbrt_le (Nat.le_refl _)) ?_
  have large := le_ceilCbrt_cubed (c ^ 3)
  exact (Nat.pow_le_pow_iff_left (by omega)).mp large

theorem ceilCbrt_pos {n : Nat} (positive : 1 ≤ n) : 1 ≤ ceilCbrt n := by
  have large := le_ceilCbrt_cubed n
  rcases Nat.eq_zero_or_pos (ceilCbrt n) with zero | pos
  · rw [zero] at large
    omega
  · exact pos

end BoxGrid

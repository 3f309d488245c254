import Mathlib.Data.List.Range
import SpaceCube.Kernel.TiledForce

/- Which threads a launch has and which entries a thread's tile loop comes to. Both round
   N / blockDim up, so the last block and the last tile may reach past N. -/
namespace IndexCoverage
open Relation
open BarrierBlock ParticleForce TiledForce
variable {F : Type*}

/-- The number of blocks that step and stepSimulation launch. -/
def grid (N blockDim : Nat) : Nat := (N + blockDim - 1) / blockDim

/-- idx in every kernel. -/
def globalIndex (blockDim : Nat) (t : Nat × Nat) : Nat := t.1 * blockDim + t.2

/-- Block and thread of a launch. -/
def Launched (l : Launch F) (t : Nat × Nat) : Prop := t.1 < grid l.N l.blockDim ∧ t.2 < l.blockDim

/-- The particle indices at which the tile loop of idx does not continue, each with the slot
    that it reads. -/
def visits (l : Launch F) (idx : Nat) : List (Nat × Nat) :=
  (List.range l.tiles).flatMap fun tile =>
    (List.range l.blockDim).filterMap fun i =>
      let particleIdx := tile * l.blockDim + i
      if l.N ≤ particleIdx ∨ particleIdx = idx then none else some (particleIdx, i)

theorem thread_exists (l : Launch F) {idx : Nat} (inside : idx < l.N) :
    Launched l (idx / l.blockDim, idx % l.blockDim) ∧
      globalIndex l.blockDim (idx / l.blockDim, idx % l.blockDim) = idx := by
  refine ⟨⟨?_, Nat.mod_lt _ l.threads⟩, Nat.div_add_mod' _ _⟩
  have covered : idx < grid l.N l.blockDim * l.blockDim := inside.trans_le (tiles_cover l)
  exact (Nat.div_lt_iff_lt_mul l.threads).mpr covered

theorem thread_unique {l : Launch F} {t : Nat × Nat} (launched : Launched l t) :
    t = (globalIndex l.blockDim t / l.blockDim, globalIndex l.blockDim t % l.blockDim) :=
  Prod.ext (round_quotient t.1 launched.2).symm (round_remainder t.1 launched.2).symm

/-- The loop over tiles and slots is one pass over the indices below tiles * blockDim. -/
theorem visits_linear (l : Launch F) (idx : Nat) :
    visits l idx = (List.range (l.tiles * l.blockDim)).filterMap fun j =>
      if l.N ≤ j ∨ j = idx then none else some (j, j % l.blockDim) := by
  rw [← range_rounds, List.filterMap_flatMap]
  refine List.flatMap_congr fun tile _ => ?_
  rw [List.filterMap_map]
  refine List.filterMap_congr fun i member => ?_
  have slot : i < l.blockDim := List.mem_range.mp member
  simp only [Function.comp_apply, round_remainder tile slot]

/-- What lies past N is skipped. -/
theorem visits_inside (l : Launch F) (idx : Nat) :
    visits l idx = ((List.range l.N).filter (· ≠ idx)).map fun j => (j, j % l.blockDim) := by
  obtain ⟨extra, past⟩ := Nat.exists_eq_add_of_le (tiles_cover l)
  have late : ((List.range extra).map (l.N + ·)).filterMap (fun j =>
      if l.N ≤ j ∨ j = idx then none else some (j, j % l.blockDim)) = [] := by
    rw [List.filterMap_eq_nil_iff]
    intro j member
    obtain ⟨k, _, rfl⟩ := List.mem_map.mp member
    simp
  rw [visits_linear, past, List.range_add, List.filterMap_append, late, List.append_nil,
    ← List.filterMap_eq_filter, List.map_filterMap]
  refine List.filterMap_congr fun j member => ?_
  have inside : j < l.N := List.mem_range.mp member
  by_cases own : j = idx
  · simp [own]
  · simp [own, inside, Option.guard]

/-- A finished thread's sum is the sum of the forces at its visits. -/
theorem total_visits [Field F] (sqrtf : F → F) (l : Launch F) (idx : Nat)
    (init : Nat → Float4 F) :
    (l.block sqrtf (idx / l.blockDim)).total init (idx % l.blockDim) l.tiles =
      (visits l idx).foldl (fun totalForce v =>
        totalForce + calculateForce sqrtf (l.positions idx) (l.masses idx)
          (l.seen sqrtf idx init v.1).position (l.seen sqrtf idx init v.1).w) 0 := by
  rw [total_seen, visits_inside, List.foldl_map, List.foldl_filter, Launch.forceFrom]
  refine List.foldl_ext _ _ _ fun totalForce j _ => ?_
  by_cases own : j = idx <;> simp [own]

/-- The nested loop of the kernel, whatever the slots hold in each tile, adds the forces at
    its visits and does nothing else. -/
theorem loop_visits [Field F] (sqrtf : F → F) (l : Launch F) (idx : Nat)
    (shared : Nat → Nat → Float4 F) (totalForce : Float3 F) :
    (List.range l.tiles).foldl (fun total tile => (List.range l.blockDim).foldl
        (fun total i => l.readSlot sqrtf idx tile i (shared tile i) total) total) totalForce =
      (visits l idx).foldl (fun total v =>
        total + calculateForce sqrtf (l.positions idx) (l.masses idx)
          (shared (v.1 / l.blockDim) v.2).position (shared (v.1 / l.blockDim) v.2).w)
        totalForce := by
  rw [visits, List.foldl_flatMap]
  refine List.foldl_ext _ _ _ fun total tile _ => ?_
  rw [List.foldl_filterMap]
  refine List.foldl_ext _ _ _ fun total i member => ?_
  have slot : i < l.blockDim := List.mem_range.mp member
  by_cases skipped : l.N ≤ tile * l.blockDim + i ∨ tile * l.blockDim + i = idx
  · simp only [Launch.readSlot, skipped, ↓reduceIte]
  · simp only [Launch.readSlot, skipped, ↓reduceIte, round_quotient tile slot]

/-- Every index below N is the idx of one thread, and the tile loop of each of them comes to
    every other index below N once, in increasing order, each in its own slot: the loop adds
    the forces there and does nothing else, so that under every schedule of the block a thread
    that has finished it holds their sum. -/
theorem index_coverage [Field F] (sqrtf : F → F) (l : Launch F) (idx : Nat) (inside : idx < l.N) :
    (∃! t, Launched l t ∧ globalIndex l.blockDim t = idx) ∧
      (visits l idx).map Prod.fst = (List.range l.N).filter (· ≠ idx) ∧
      ((visits l idx).map Prod.fst).Pairwise (· < ·) ∧
      (∀ j i, (j, i) ∈ visits l idx ↔ j < l.N ∧ j ≠ idx ∧ i = j % l.blockDim) ∧
      (∀ (shared : Nat → Nat → Float4 F) totalForce,
        (List.range l.tiles).foldl (fun total tile => (List.range l.blockDim).foldl
            (fun total i => l.readSlot sqrtf idx tile i (shared tile i) total) total) totalForce =
          (visits l idx).foldl (fun total v =>
            total + calculateForce sqrtf (l.positions idx) (l.masses idx)
              (shared (v.1 / l.blockDim) v.2).position (shared (v.1 / l.blockDim) v.2).w)
            totalForce) ∧
      ∀ init b, ReflTransGen (Step (l.block sqrtf (idx / l.blockDim)))
          ((l.block sqrtf (idx / l.blockDim)).start init) b → l.localFlags idx ≠ 0 →
        (b.threads (idx % l.blockDim)).stage = .finished →
        (b.threads (idx % l.blockDim)).acc = (visits l idx).foldl (fun total v =>
          total + calculateForce sqrtf (l.positions idx) (l.masses idx)
            (l.seen sqrtf idx init v.1).position (l.seen sqrtf idx init v.1).w) 0 := by
  have indices : (visits l idx).map Prod.fst = (List.range l.N).filter (· ≠ idx) := by
    rw [visits_inside, List.map_map]
    exact List.map_id _
  refine ⟨?_, indices, ?_, fun j i => ?_, loop_visits sqrtf l idx, ?_⟩
  · refine ⟨_, thread_exists l inside, ?_⟩
    rintro t ⟨launched, rfl⟩
    exact thread_unique launched
  · rw [indices]
    exact List.pairwise_lt_range.filter _
  · simp only [visits_inside, List.mem_map, List.mem_filter, List.mem_range, decide_eq_true_eq,
      Prod.mk.injEq]
    constructor
    · rintro ⟨k, ⟨below, other⟩, rfl, rfl⟩
      exact ⟨below, other, rfl⟩
    · rintro ⟨below, other, rfl⟩
      exact ⟨j, ⟨below, other⟩, rfl, rfl⟩
  · intro init b reached localFlag done
    have runs : ¬ l.Returns idx := by
      rintro (outside | remote)
      · omega
      · exact localFlag remote
    have total := total_visits sqrtf l idx init
    rw [finished_total (inv_reachable reached) (own_active sqrtf runs) done]
    exact total

/-- Five particles in blocks of two: the last tile is half empty. -/
theorem sample_coverage : 3 < (sampleLaunch 5 2 9 (by decide) (by decide)).N ∧
    (visits (sampleLaunch 5 2 9 (by decide) (by decide)) 3).map Prod.fst = [0, 1, 2, 4] := by
  have covered :=
    index_coverage Real.sqrt (sampleLaunch 5 2 9 (by decide) (by decide)) 3 (by decide)
  exact ⟨by decide, covered.2.1.trans (by decide)⟩

end IndexCoverage

import Mathlib.Analysis.Real.Sqrt
import SpaceCube.Library.BarrierBlock
import SpaceCube.Kernel.ParticleForce

/- The tiled force loop of update_particles in particle_kernel.cu. Index arithmetic is Nat. -/
namespace TiledForce
open Relation
open BarrierBlock ParticleForce
variable {F : Type*}

/-- A launch over N particles with ceil(N / blockDim) blocks. Of each array only the entries
    below N are read. -/
structure Launch (F : Type*) where
  N : Nat
  blockDim : Nat
  positions : Nat → Float3 F
  masses : Nat → F
  localFlags : Nat → Int
  particles : 1 ≤ N
  threads : 1 ≤ blockDim

def Launch.tiles (l : Launch F) : Nat := (l.N + l.blockDim - 1) / l.blockDim

/-- The threads that leave before the loop. -/
abbrev Launch.Returns (l : Launch F) (idx : Nat) : Prop := l.N ≤ idx ∨ l.localFlags idx = 0

theorem tiles_cover (l : Launch F) : l.N ≤ l.tiles * l.blockDim := by
  have rest := Nat.mod_lt (l.N + l.blockDim - 1) l.threads
  have whole := Nat.div_add_mod (l.N + l.blockDim - 1) l.blockDim
  have threads := l.threads
  rw [Nat.mul_comm] at whole
  simp only [Launch.tiles]
  omega

section Kernel
variable [Field F]

def Launch.loaded (l : Launch F) (j : Nat) : Float4 F :=
  ⟨(l.positions j).x, (l.positions j).y, (l.positions j).z, l.masses j⟩

def Launch.loadTile (l : Launch F) (tile threadIdx : Nat) : Float4 F :=
  let loadIdx := tile * l.blockDim + threadIdx
  if loadIdx < l.N then l.loaded loadIdx else ⟨0, 0, 0, 0⟩

def Launch.readSlot (sqrtf : F → F) (l : Launch F) (idx tile i : Nat) (p2 : Float4 F)
    (totalForce : Float3 F) : Float3 F :=
  let particleIdx := tile * l.blockDim + i
  if l.N ≤ particleIdx ∨ particleIdx = idx then totalForce
  else totalForce +
    calculateForce sqrtf (l.positions idx) (l.masses idx) p2.position p2.w

def Launch.block (sqrtf : F → F) (l : Launch F) (blockIdx : Nat) :
    Program (Float4 F) (Float3 F) where
  size := l.blockDim
  rounds := l.tiles
  live threadIdx := ¬ l.Returns (blockIdx * l.blockDim + threadIdx)
  zero := 0
  data := l.loadTile
  read threadIdx := l.readSlot sqrtf (blockIdx * l.blockDim + threadIdx)

/-- The loop of update_particles in particle_sim.py. -/
def Launch.plainForce (sqrtf : F → F) (l : Launch F) (idx : Nat) : Float3 F :=
  (List.range l.N).foldl (fun totalForce i =>
    if i ≠ idx then
      totalForce + calculateForce sqrtf (l.positions idx) (l.masses idx) (l.positions i)
        (l.masses i)
    else totalForce) 0

/-- Whatever the shared slots hold at the launch and however the block's threads are
    scheduled, the thread of idx can always be brought to the end of its loop, and there its
    sum is the plain one. -/
def Launch.TiledEqualsPlain (sqrtf : F → F) (l : Launch F) (idx : Nat) : Prop :=
  ∀ (init : Nat → Float4 F) (b : Block (Float4 F) (Float3 F)),
    let p := l.block sqrtf (idx / l.blockDim)
    let threadIdx := idx % l.blockDim
    ReflTransGen (Step p) (p.start init) b →
      (∃ last, ReflTransGen (Step p) b last ∧ (last.threads threadIdx).stage = .finished) ∧
      ((b.threads threadIdx).stage = .finished →
        (b.threads threadIdx).acc = l.plainForce sqrtf idx)

/-- The sum when the loop finds seen j where particle j's entry should be. -/
def Launch.forceFrom (sqrtf : F → F) (l : Launch F) (idx : Nat) (seen : Nat → Float4 F) :
    Float3 F :=
  (List.range l.N).foldl (fun totalForce j =>
    if j = idx then totalForce
    else totalForce +
      calculateForce sqrtf (l.positions idx) (l.masses idx) (seen j).position (seen j).w) 0

/-- What the loop of idx finds in place of particle j. -/
noncomputable def Launch.seen (sqrtf : F → F) (l : Launch F) (idx : Nat)
    (init : Nat → Float4 F) (j : Nat) : Float4 F :=
  (l.block sqrtf (idx / l.blockDim)).slot init (j / l.blockDim) (j % l.blockDim)

theorem plain_from_loaded (sqrtf : F → F) (l : Launch F) (idx : Nat) :
    l.plainForce sqrtf idx = l.forceFrom sqrtf idx l.loaded := by
  unfold Launch.plainForce Launch.forceFrom
  refine List.foldl_ext _ _ _ fun total j _ => ?_
  by_cases same : j = idx <;> simp [same, Launch.loaded, Float4.position]

theorem force_congr {sqrtf : F → F} {l : Launch F} {idx : Nat} {seen other : Nat → Float4 F}
    (same : ∀ j < l.N, seen j = other j) :
    l.forceFrom sqrtf idx seen = l.forceFrom sqrtf idx other := by
  refine List.foldl_ext _ _ _ fun total j member => ?_
  rw [same j (List.mem_range.mp member)]

theorem force_massless {sqrtf : F → F} {l : Launch F} {idx : Nat} (light : l.masses idx = 0)
    (seen : Nat → Float4 F) : l.forceFrom sqrtf idx seen = 0 := by
  unfold Launch.forceFrom
  induction l.N with
  | zero => rfl
  | succ n before =>
      rw [List.range_succ, List.foldl_append, before, light]
      simp [no_force_left]

/-- The pull along the x axis of one entry. -/
def Launch.pull (sqrtf : F → F) (l : Launch F) (idx : Nat) (p2 : Float4 F) : F :=
  (calculateForce sqrtf (l.positions idx) (l.masses idx) p2.position p2.w).x

theorem force_x (sqrtf : F → F) (l : Launch F) (idx : Nat) (seen : Nat → Float4 F) :
    (l.forceFrom sqrtf idx seen).x =
      ∑ j ∈ Finset.range l.N, if j = idx then 0 else l.pull sqrtf idx (seen j) := by
  unfold Launch.forceFrom
  induction l.N with
  | zero => rfl
  | succ n before =>
      rw [List.range_succ, List.foldl_append, Finset.sum_range_succ, ← before]
      by_cases same : n = idx <;> simp [same, Launch.pull]

theorem block_read (sqrtf : F → F) (l : Launch F) (idx : Nat) :
    (l.block sqrtf (idx / l.blockDim)).read (idx % l.blockDim) = l.readSlot sqrtf idx := by
  simp only [Launch.block, Nat.div_add_mod']

theorem read_past {sqrtf : F → F} {l : Launch F} {idx j : Nat} (past : l.N ≤ j)
    (p2 : Float4 F) (totalForce : Float3 F) :
    l.readSlot sqrtf idx (j / l.blockDim) (j % l.blockDim) p2 totalForce = totalForce := by
  simp [Launch.readSlot, Nat.div_add_mod', past]

theorem read_inside {sqrtf : F → F} {l : Launch F} {idx j : Nat} (inside : j < l.N)
    (p2 : Float4 F) (totalForce : Float3 F) :
    l.readSlot sqrtf idx (j / l.blockDim) (j % l.blockDim) p2 totalForce =
      if j = idx then totalForce
      else totalForce +
        calculateForce sqrtf (l.positions idx) (l.masses idx) p2.position p2.w := by
  simp [Launch.readSlot, Nat.div_add_mod', Nat.not_le.mpr inside]

/-- A finished thread has summed what its block's slots showed it. -/
theorem total_seen (sqrtf : F → F) (l : Launch F) (idx : Nat) (init : Nat → Float4 F) :
    (l.block sqrtf (idx / l.blockDim)).total init (idx % l.blockDim) l.tiles =
      l.forceFrom sqrtf idx (l.seen sqrtf idx init) := by
  let readIn : Float3 F → Nat → Float3 F := fun a j =>
    l.readSlot sqrtf idx (j / l.blockDim) (j % l.blockDim) (l.seen sqrtf idx init j) a
  calc (l.block sqrtf (idx / l.blockDim)).total init (idx % l.blockDim) l.tiles
      = (List.range (l.tiles * l.blockDim)).foldl readIn 0 := by
        rw [total_linear, block_read]
        rfl
    _ = (List.range l.N).foldl readIn 0 :=
        foldl_past (tiles_cover l) (fun a j late => read_past late _ a) 0
    _ = l.forceFrom sqrtf idx (l.seen sqrtf idx init) :=
        List.foldl_ext _ _ _ fun a j member => read_inside (List.mem_range.mp member) _ a

theorem seen_stored {sqrtf : F → F} {l : Launch F} {idx j : Nat} (inside : j < l.N)
    (stored : ¬ l.Returns (idx / l.blockDim * l.blockDim + j % l.blockDim))
    (init : Nat → Float4 F) : l.seen sqrtf idx init j = l.loaded j := by
  have slot : (l.block sqrtf (idx / l.blockDim)).Active (j % l.blockDim) :=
    ⟨Nat.mod_lt _ l.threads, stored⟩
  refine (slot_active slot init _).trans ?_
  simp [Launch.block, Launch.loadTile, Nat.div_add_mod', inside]

theorem seen_unstored {sqrtf : F → F} {l : Launch F} {idx j : Nat}
    (returns : l.Returns (idx / l.blockDim * l.blockDim + j % l.blockDim))
    (init : Nat → Float4 F) : l.seen sqrtf idx init j = init (j % l.blockDim) :=
  slot_idle (fun active => absurd returns active.2) init _

theorem seen_congr {sqrtf : F → F} {l : Launch F} {idx j : Nat} {init other : Nat → Float4 F}
    (same : init (j % l.blockDim) = other (j % l.blockDim)) :
    l.seen sqrtf idx init j = l.seen sqrtf idx other j := by
  unfold Launch.seen Program.slot
  rw [same]

/-- The thread of idx runs its loop. -/
theorem own_active (sqrtf : F → F) {l : Launch F} {idx : Nat} (runs : ¬ l.Returns idx) :
    (l.block sqrtf (idx / l.blockDim)).Active (idx % l.blockDim) := by
  refine ⟨Nat.mod_lt _ l.threads, ?_⟩
  simpa only [Launch.block, Nat.div_add_mod'] using runs

/-- Over every schedule, the tiled sum is the plain one exactly when the sum over what the
    slots show is, for every content of the slots at the launch. -/
theorem tiled_iff_seen {sqrtf : F → F} {l : Launch F} {idx : Nat} (runs : ¬ l.Returns idx) :
    l.TiledEqualsPlain sqrtf idx ↔ ∀ init,
      l.forceFrom sqrtf idx (l.seen sqrtf idx init) = l.forceFrom sqrtf idx l.loaded := by
  have active := own_active sqrtf runs
  constructor
  · intro equal init
    obtain ⟨last, reached, done⟩ := completes
      (inv_start (l.block sqrtf (idx / l.blockDim)) init) active
    have total := finished_total (inv_reachable reached) active (done _ active)
    have plain := (equal init last reached).2 (done _ active)
    rw [← total_seen, ← plain_from_loaded, ← plain, total]
    rfl
  · intro equal init b _ _ reached
    have inv := inv_reachable reached
    refine ⟨?_, fun done => ?_⟩
    · obtain ⟨last, rest, done⟩ := completes inv active
      exact ⟨last, rest, done _ active⟩
    · have total := total_seen sqrtf l idx init
      rw [finished_total inv active done, plain_from_loaded, ← equal init]
      exact total

/-- No schedule of a block goes on forever. -/
theorem launch_ends (sqrtf : F → F) (l : Launch F) (blockIdx : Nat) (init : Nat → Float4 F) :
    ∃ bound, ∀ (schedule : Nat → Block (Float4 F) (Float3 F)) (n : Nat),
      schedule 0 = (l.block sqrtf blockIdx).start init →
      (∀ k < n, Step (l.block sqrtf blockIdx) (schedule k) (schedule (k + 1))) → n ≤ bound := by
  refine ⟨(l.block sqrtf blockIdx).measure ((l.block sqrtf blockIdx).start init), ?_⟩
  intro schedule n first steps
  have bound := schedule_bounded schedule first n steps
  omega

theorem stored_slots_equal {sqrtf : F → F} {l : Launch F} {idx : Nat} (runs : ¬ l.Returns idx)
    (full : ∀ i < l.blockDim, i < l.N →
      ¬ l.Returns (idx / l.blockDim * l.blockDim + i)) :
    l.TiledEqualsPlain sqrtf idx := by
  refine (tiled_iff_seen runs).mpr fun init => force_congr fun j inside => ?_
  have slot : j % l.blockDim < l.blockDim := Nat.mod_lt _ l.threads
  have small : j % l.blockDim < l.N := (Nat.mod_le _ _).trans_lt inside
  exact seen_stored inside (full _ slot small) init

theorem massless_equal {sqrtf : F → F} {l : Launch F} {idx : Nat} (runs : ¬ l.Returns idx)
    (light : l.masses idx = 0) : l.TiledEqualsPlain sqrtf idx := by
  refine (tiled_iff_seen runs).mpr fun init => ?_
  rw [force_massless light, force_massless light]

end Kernel

section Ordered
variable [Field F] [LinearOrder F] [IsStrictOrderedRing F]

def blank : Nat → Float4 F := fun _ => ⟨0, 0, 0, 0⟩

/-- In one slot, a body of the inverse of mass one unit ahead of p. -/
def ahead (p : Float3 F) (mass : F) (slot i : Nat) : Float4 F :=
  if i = slot then ⟨p.x + 1, p.y, p.z, mass⁻¹⟩ else ⟨0, 0, 0, 0⟩

/-- An unstored slot pulls as what it held before does. -/
theorem unstored_pull {sqrtf : F → F} (positive : ∀ v, 0 < v → 0 < sqrtf v) {l : Launch F}
    {idx j : Nat} (heavy : l.masses idx ≠ 0)
    (returns : l.Returns (idx / l.blockDim * l.blockDim + j % l.blockDim)) :
    l.pull sqrtf idx (l.seen sqrtf idx blank j) <
      l.pull sqrtf idx (l.seen sqrtf idx
        (ahead (l.positions idx) (l.masses idx) (j % l.blockDim)) j) := by
  have forward := force_ahead positive (l.positions idx) heavy
  rw [seen_unstored returns, seen_unstored returns]
  simp only [Launch.pull, blank, ahead, ↓reduceIte, no_force_right]
  exact forward

/-- Reading a slot that nobody stored, two contents of it give two sums. -/
theorem unstored_slot_differs {sqrtf : F → F} (positive : ∀ v, 0 < v → 0 < sqrtf v)
    {l : Launch F} {idx i : Nat} (runs : ¬ l.Returns idx) (heavy : l.masses idx ≠ 0)
    (slot : i < l.blockDim) (inside : i < l.N)
    (returns : l.Returns (idx / l.blockDim * l.blockDim + i)) :
    ¬ l.TiledEqualsPlain sqrtf idx := by
  intro equal
  have same := (tiled_iff_seen runs).mp equal
  let body := ahead (l.positions idx) (l.masses idx) i
  have sums : (l.forceFrom sqrtf idx (l.seen sqrtf idx blank)).x =
      (l.forceFrom sqrtf idx (l.seen sqrtf idx body)).x := by
    rw [same blank, same body]
  rw [force_x, force_x] at sums
  have pulls : ∀ j, j % l.blockDim = i →
      l.pull sqrtf idx (l.seen sqrtf idx blank j) <
        l.pull sqrtf idx (l.seen sqrtf idx body j) := by
    rintro j rfl
    exact unstored_pull positive heavy returns
  have others : ∀ j, j % l.blockDim ≠ i →
      l.seen sqrtf idx blank j = l.seen sqrtf idx body j := by
    intro j away
    exact seen_congr (if_neg away).symm
  have first : i % l.blockDim = i := Nat.mod_eq_of_lt slot
  have notOwn : i ≠ idx := by
    rintro rfl
    rw [Nat.div_eq_of_lt slot, Nat.zero_mul, Nat.zero_add] at returns
    exact runs returns
  refine absurd sums (ne_of_lt (Finset.sum_lt_sum ?_ ⟨i, Finset.mem_range.mpr inside, ?_⟩))
  · intro j _
    by_cases self : j = idx
    · rw [if_pos self, if_pos self]
    · rw [if_neg self, if_neg self]
      by_cases here : j % l.blockDim = i
      · exact (pulls j here).le
      · rw [others j here]
  · rw [if_neg notOwn, if_neg notOwn]
    exact pulls i first

/-- The tiled loop is the plain loop exactly for a thread whose block stores every slot that
    it reads, or whose particle has no mass. -/
theorem tiled_equals_plain_iff {sqrtf : F → F} (positive : ∀ v, 0 < v → 0 < sqrtf v)
    (l : Launch F) (idx : Nat) (inside : idx < l.N) (localFlag : l.localFlags idx ≠ 0) :
    l.TiledEqualsPlain sqrtf idx ↔
      l.masses idx = 0 ∨
        ∀ i < l.blockDim, i < l.N →
          idx / l.blockDim * l.blockDim + i < l.N ∧
            l.localFlags (idx / l.blockDim * l.blockDim + i) ≠ 0 := by
  have runs : ¬ l.Returns idx := by
    rintro (outside | remote)
    · omega
    · exact localFlag remote
  constructor
  · intro equal
    by_contra fails
    push Not at fails
    obtain ⟨heavy, i, slot, below, leaves⟩ := fails
    have returns : l.Returns (idx / l.blockDim * l.blockDim + i) := by
      rcases Nat.lt_or_ge (idx / l.blockDim * l.blockDim + i) l.N with within | beyond
      · exact Or.inr (leaves within)
      · exact Or.inl beyond
    exact unstored_slot_differs positive runs heavy slot below returns equal
  · rintro (light | full)
    · exact massless_equal runs light
    · refine stored_slots_equal runs fun i slot below => ?_
      rintro (beyond | remote)
      · exact absurd (full i slot below).1 (Nat.not_lt.mpr beyond)
      · exact (full i slot below).2 remote

end Ordered

/-- Bodies of mass one in a row, all of them in the worker's own part but for remote. -/
def sampleLaunch (N blockDim : Nat) (remote : Nat) (particles : 1 ≤ N) (threads : 1 ≤ blockDim) :
    Launch ℝ where
  N := N
  blockDim := blockDim
  positions i := ⟨i, 0, 0⟩
  masses _ := 1
  localFlags i := if i = remote then 0 else 1
  particles := particles
  threads := threads

theorem sample_tiled : (sampleLaunch 4 2 1 (by decide) (by decide)).TiledEqualsPlain
    Real.sqrt 2 := by
  refine (tiled_equals_plain_iff (fun v => Real.sqrt_pos.mpr) _ 2 (by decide) (by decide)).mpr
    (Or.inr ?_)
  decide

/-- A body of another worker in the block spoils the sum of its neighbour. With all bodies
    local, three of them in blocks of two, the last block's missing thread does the same. -/
theorem unstored_slots_read :
    (0 < 2 ∧ (sampleLaunch 2 2 1 (by decide) (by decide)).localFlags 0 ≠ 0 ∧
      ¬ (sampleLaunch 2 2 1 (by decide) (by decide)).TiledEqualsPlain Real.sqrt 0) ∧
    (2 < 3 ∧ (∀ j < 3, (sampleLaunch 3 2 3 (by decide) (by decide)).localFlags j ≠ 0) ∧
      ¬ (sampleLaunch 3 2 3 (by decide) (by decide)).TiledEqualsPlain Real.sqrt 2) := by
  have positive : ∀ v : ℝ, 0 < v → 0 < Real.sqrt v := fun v => Real.sqrt_pos.mpr
  have heavy : (1 : ℝ) ≠ 0 := one_ne_zero
  refine ⟨⟨by decide, by decide, ?_⟩, by decide, by decide, ?_⟩
  · exact unstored_slot_differs (i := 1) positive (by decide) heavy (by decide) (by decide)
      (by decide)
  · exact unstored_slot_differs (i := 1) positive (by decide) heavy (by decide) (by decide)
      (by decide)

end TiledForce

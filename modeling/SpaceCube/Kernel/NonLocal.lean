import SpaceCube.Library.SerialThreads
import SpaceCube.Kernel.PartitionedLaunch

/- What a launch of particle_kernel.cu does to the particles that are not local. The flag keeps
   their threads out, not their entries. -/
namespace NonLocal
open ParticleForce Float3Algebra Contact UpdateParticles SerialThreads ThreadOrder
open PartitionedLaunch
variable {F : Type*} [Field F] [LinearOrder F]

/-- The threads one after another in a given order. -/
def launchInOrder (sqrtf : F → F) (a : Args F) (localFlags : Nat → Int) (order : List Nat)
    (s : Arrays F) : Arrays F :=
  order.foldl (workerThread sqrtf a localFlags) s

/-- Some thread of the launch runs and finds particle i in contact. -/
def FoundInContact (sqrtf : F → F) (a : Args F) (localFlags : Nat → Int) (order : List Nat)
    (s : Arrays F) (i : Nat) : Prop :=
  ∃ front idx back, order = front ++ idx :: back ∧ idx < a.N ∧ localFlags idx ≠ 0 ∧
    Meets sqrtf workerConstants a (launchInOrder sqrtf a localFlags front s) idx i

/-- Throughout the launch the entry is what it was. -/
def LeftAlone (sqrtf : F → F) (a : Args F) (localFlags : Nat → Int) (order : List Nat)
    (s : Arrays F) (i : Nat) : Prop :=
  ∀ front, front <+: order → entry (launchInOrder sqrtf a localFlags front s) i = entry s i

theorem launch_snoc (sqrtf : F → F) (a : Args F) (localFlags : Nat → Int) (front : List Nat)
    (idx : Nat) (s : Arrays F) :
    launchInOrder sqrtf a localFlags (front ++ [idx]) s =
      workerThread sqrtf a localFlags (launchInOrder sqrtf a localFlags front s) idx := by
  simp [launchInOrder]

theorem local_thread {a : Args F} {localFlags : Nat → Int} {idx : Nat} (inside : idx < a.N)
    (flagged : localFlags idx ≠ 0) (sqrtf : F → F) (s : Arrays F) :
    workerThread sqrtf a localFlags s idx = thread sqrtf workerConstants a s idx :=
  if_neg (not_or.mpr ⟨Nat.not_le.mpr inside, flagged⟩)

theorem idle_thread {a : Args F} {localFlags : Nat → Int} {idx : Nat}
    (idle : a.N ≤ idx ∨ localFlags idx = 0) (sqrtf : F → F) (s : Arrays F) :
    workerThread sqrtf a localFlags s idx = s := if_pos idle

theorem unfound_left {sqrtf : F → F} {a : Args F} {localFlags : Nat → Int} {order : List Nat}
    {s : Arrays F} {i : Nat} (remote : localFlags i = 0)
    (unfound : ¬ FoundInContact sqrtf a localFlags order s i) :
    LeftAlone sqrtf a localFlags order s i := by
  intro front before
  refine invariant_before (P := fun t => entry t i = entry s i) rfl ?_ before
  intro front idx back split kept
  by_cases idle : a.N ≤ idx ∨ localFlags idx = 0
  · rw [idle_thread idle]
    exact kept
  · obtain ⟨inside, flagged⟩ := not_or.mp idle
    rw [local_thread (Nat.not_le.mp inside) flagged, ← kept]
    refine unmet_kept (fun same => flagged (same ▸ remote)) fun meets => unfound ?_
    exact ⟨front, idx, back, split, Nat.not_le.mp inside, flagged, meets⟩

variable [IsStrictOrderedRing F]

/-- A thread pushes each particle that it finds in contact. -/
theorem meets_moves {sqrtf : F → F} (exact : ExactRoot sqrtf) {k : Constants F} {a : Args F}
    {s : Arrays F} {idx i : Nat} (within : i < a.N) (meets : Meets sqrtf k a s idx i) :
    (thread sqrtf k a s idx).positions i ≠ s.positions i := by
  obtain ⟨other, contact⟩ := meets
  let l := collisionRounds sqrtf a idx (integrate sqrtf k a s idx, s) i
  have waiting : l.2.motion i = s.motion i := partner_waiting sqrtf a idx i _
  have moved : (thread sqrtf k a s idx).motion i = (collide sqrtf a idx l i).2.motion i := by
    rw [thread_motion, if_neg other]
    exact partner_done sqrtf a idx i _ within
  have pair : (collide sqrtf a idx l i).2.motion i = (rebound sqrtf l.1 (a.radii idx)
      (a.masses idx) (l.2.motion i) (a.radii i) (a.masses i)).2 := by
    rw [collide_touching sqrtf other contact]
    exact motion_set _ i _
  have place : (thread sqrtf k a s idx).positions i = (rebound sqrtf l.1 (a.radii idx)
      (a.masses idx) (l.2.motion i) (a.radii i) (a.masses i)).2.position :=
    congrArg Motion.position (moved.trans pair)
  have old : (l.2.motion i).position = s.positions i := congrArg Motion.position waiting
  rw [place, ← old]
  exact rebound_moves exact contact.1 (centres_apart contact) (a.masses idx) (a.masses i)

/-- A particle that is not local is left alone exactly by the launches in which no thread
    finds it in contact. -/
theorem left_alone_iff {sqrtf : F → F} (exact : ExactRoot sqrtf) (a : Args F)
    (localFlags : Nat → Int) (order : List Nat) (s : Arrays F) {i : Nat} (within : i < a.N)
    (remote : localFlags i = 0) :
    LeftAlone sqrtf a localFlags order s i ↔
      ¬ FoundInContact sqrtf a localFlags order s i := by
  constructor
  · rintro alone ⟨front, idx, back, split, inside, flagged, meets⟩
    have before := alone front ⟨idx :: back, split.symm⟩
    have after := alone (front ++ [idx]) ⟨back, by rw [split]; simp⟩
    rw [launch_snoc, local_thread inside flagged, ← before] at after
    exact meets_moves exact within meets (congrArg (fun e => e.1.position) after)
  · exact unfound_left remote

/-- Only particle 0 is local. -/
def frontFlags (i : Nat) : Int := if i = 0 then 1 else 0

theorem front_launch (a : Args ℝ) (two : a.N = 2) (s : Arrays ℝ) :
    launchInOrder Real.sqrt a frontFlags [0, 1] s = thread Real.sqrt workerConstants a s 0 := by
  have first : workerThread Real.sqrt a frontFlags s 0 = thread Real.sqrt workerConstants a s 0 :=
    local_thread (by omega) (by decide) Real.sqrt s
  have second t : workerThread Real.sqrt a frontFlags t 1 = t :=
    if_pos (Or.inr rfl)
  simp only [launchInOrder, List.foldl_cons, List.foldl_nil, first, second]

/-- Of the two threads only the first runs. -/
theorem front_only {front back : List Nat} {idx : Nat} (split : [0, 1] = front ++ idx :: back)
    (flagged : frontFlags idx ≠ 0) : front = [] ∧ idx = 0 := by
  cases front with
  | nil => exact ⟨rfl, (List.cons.inj split).1.symm⟩
  | cons first rest =>
      obtain ⟨_, tail⟩ := List.cons.inj split
      have last : idx ∈ [1] := tail ▸ List.mem_append_right rest List.mem_cons_self
      rw [List.mem_singleton.mp last] at flagged
      exact absurd rfl flagged

/-- Far apart, particle 1 is left alone. -/
theorem sample_left_alone :
    LeftAlone Real.sqrt (sampleArgs 0) frontFlags [0, 1] (leapArrays workerConstants 10) 1 := by
  refine (left_alone_iff real_root (sampleArgs 0) frontFlags [0, 1] _ Nat.one_lt_two rfl).mpr ?_
  rintro ⟨front, idx, back, split, _, flagged, _, contact⟩
  obtain ⟨rfl, rfl⟩ := front_only split flagged
  rw [rounds_succ, collide_self, rounds_zero, integrate_frozen Real.sqrt _ rfl] at contact
  exact leap_far (by norm_num [workerConstants]) 0 1 Nat.two_pos Nat.one_lt_two
    Nat.zero_ne_one contact

theorem remote_partner_pushed :
    frontFlags 1 = 0 ∧
      entry (launchInOrder Real.sqrt (sampleArgs 0) frontFlags [0, 1] sampleArrays) 1 ≠
        entry sampleArrays 1 := by
  refine ⟨rfl, fun same => ?_⟩
  rw [front_launch (sampleArgs 0) rfl] at same
  have meets : Meets Real.sqrt workerConstants (sampleArgs 0) sampleArrays 0 1 := by
    refine ⟨Nat.one_ne_zero, ?_⟩
    rw [rounds_succ, collide_self, rounds_zero, integrate_frozen Real.sqrt _ rfl]
    exact sample_in_contact
  exact meets_moves real_root Nat.one_lt_two meets (congrArg (fun e => e.1.position) same)

end NonLocal

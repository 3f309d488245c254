import SpaceCube.Kernel.Magnitude
import SpaceCube.Kernel.NonLocal

/- The speed limit over a launch. The clamp comes before the collision loop, so a contact can
   still throw a particle beyond it. -/
namespace SpeedLimit
open ParticleForce Float3Algebra Contact Magnitude UpdateParticles SerialThreads ThreadOrder
open PartitionedLaunch NonLocal
variable {F : Type*} [Field F] [LinearOrder F]

def Slow (sqrtf : F → F) (v : Float3 F) : Prop := magnitude sqrtf v ≤ maxSpeed

def AllSlow (sqrtf : F → F) (a : Args F) (s : Arrays F) : Prop :=
  ∀ i < a.N, Slow sqrtf (s.velocities i)

/-- The kinetic energy that the first of two bodies gives the second in a contact: the impulse
    times the velocity of their centre of mass along the normal. -/
def handedOver (mass1 mass2 : F) (v1 v2 n : Float3 F) : F :=
  impulse mass1 mass2 (v1 - v2) n * dot (mass1 • v1 + mass2 • v2) n / (mass1 + mass2)

/-- Neither body gets so much energy in the contact that it exceeds the limit. -/
structure Tame (sqrtf : F → F) (p1 : Motion F) (mass1 : F) (p2 : Motion F) (mass2 : F) :
    Prop where
  first :
    let n := normal sqrtf (p1.position - p2.position)
    dot p1.velocity p1.velocity -
      2 * handedOver mass1 mass2 p1.velocity p2.velocity n / mass1 ≤ maxSpeed * maxSpeed
  second :
    let n := normal sqrtf (p1.position - p2.position)
    dot p2.velocity p2.velocity +
      2 * handedOver mass1 mass2 p1.velocity p2.velocity n / mass2 ≤ maxSpeed * maxSpeed

/-- Every contact that a thread finds in its loop is tame in the state it is found in. -/
def TameThread (sqrtf : F → F) (a : Args F) (s : Arrays F) (idx : Nat) : Prop :=
  ∀ i < a.N, Meets sqrtf workerConstants a s idx i →
    let l := collisionRounds sqrtf a idx (integrate sqrtf workerConstants a s idx, s) i
    Tame sqrtf l.1 (a.masses idx) (l.2.motion i) (a.masses i)

def TameLaunch (sqrtf : F → F) (a : Args F) (localFlags : Nat → Int) (order : List Nat)
    (s : Arrays F) : Prop :=
  ∀ front idx back, order = front ++ idx :: back → idx < a.N → localFlags idx ≠ 0 →
    TameThread sqrtf a (launchInOrder sqrtf a localFlags front s) idx

/-- Between any two rounds of any thread, what it holds and the arrays are within the limit. -/
def SlowThroughout (sqrtf : F → F) (a : Args F) (localFlags : Nat → Int) (order : List Nat)
    (s : Arrays F) : Prop :=
  ∀ front idx back, order = front ++ idx :: back → idx < a.N → localFlags idx ≠ 0 →
    ∀ n ≤ a.N,
      let t := launchInOrder sqrtf a localFlags front s
      let l := collisionRounds sqrtf a idx (integrate sqrtf workerConstants a t idx, t) n
      Slow sqrtf l.1.velocity ∧ AllSlow sqrtf a l.2

section Ordered
variable [IsStrictOrderedRing F]

theorem limit_pos : (0 : F) < maxSpeed := by
  unfold maxSpeed
  positivity

variable {sqrtf : F → F} (exact : ExactRoot sqrtf)
include exact

theorem slow_iff (v : Float3 F) : Slow sqrtf v ↔ dot v v ≤ maxSpeed * maxSpeed :=
  magnitude_le_iff exact limit_pos.le v

/-- What the clamp leaves is at most the limit. -/
theorem clamped_slow (v : Float3 F) : Slow sqrtf (limitSpeed sqrtf v) := by
  by_cases fast : maxSpeed < magnitude sqrtf v
  · have positive : 0 < magnitude sqrtf v := limit_pos.trans fast
    have clamp : limitSpeed sqrtf v = ⟨v.x * (maxSpeed / magnitude sqrtf v),
        v.y * (maxSpeed / magnitude sqrtf v), v.z * (maxSpeed / magnitude sqrtf v)⟩ := if_pos fast
    have scaled : limitSpeed sqrtf v = (maxSpeed / magnitude sqrtf v) • v := by
      rw [clamp]
      ext <;> exact mul_comm _ _
    have factor : |maxSpeed / magnitude sqrtf v| = maxSpeed / magnitude sqrtf v :=
      abs_of_nonneg (div_nonneg limit_pos.le positive.le)
    rw [Slow, scaled, magnitude_smul exact, factor, div_mul_cancel₀ _ positive.ne']
  · have kept : limitSpeed sqrtf v = v := if_neg fast
    rw [kept]
    exact not_lt.mp fast

/-- The squared speeds after a contact. -/
theorem rebound_squares {p1 p2 : Motion F} {mass1 mass2 : F} (heavy1 : 0 < mass1)
    (heavy2 : 0 < mass2) (apart : 0 < dot (p1.position - p2.position) (p1.position - p2.position))
    (radius1 radius2 : F) :
    let n := normal sqrtf (p1.position - p2.position)
    let q := rebound sqrtf p1 radius1 mass1 p2 radius2 mass2
    let w := handedOver mass1 mass2 p1.velocity p2.velocity n
    dot q.1.velocity q.1.velocity = dot p1.velocity p1.velocity - 2 * w / mass1 ∧
      dot q.2.velocity q.2.velocity = dot p2.velocity p2.velocity + 2 * w / mass2 := by
  have unit := normal_unit exact apart
  have sum : mass1 + mass2 ≠ 0 := (add_pos heavy1 heavy2).ne'
  have m1 := heavy1.ne'
  have m2 := heavy2.ne'
  simp only [rebound_eq]
  generalize normal sqrtf (p1.position - p2.position) = n at unit ⊢
  have swap1 := dot_comm n p1.velocity
  have swap2 := dot_comm n p2.velocity
  simp only [impulse, sub_dot, dot_sub, add_dot, dot_add, smul_dot, dot_smul, unit, swap1, swap2,
    handedOver]
  constructor
  · field_simp
    ring
  · field_simp
    ring

/-- A contact leaves both bodies within the limit exactly when it is tame. -/
theorem contact_slow_iff (p1 p2 : Motion F) {radius1 radius2 mass1 mass2 : F}
    (heavy1 : 0 < mass1) (heavy2 : 0 < mass2)
    (contact : InContact radius1 radius2 (p1.position - p2.position)) :
    let q := resolveCollision sqrtf p1 radius1 mass1 p2 radius2 mass2
    Slow sqrtf q.1.velocity ∧ Slow sqrtf q.2.velocity ↔ Tame sqrtf p1 mass1 p2 mass2 := by
  obtain ⟨first, second⟩ :=
    rebound_squares exact heavy1 heavy2 (centres_apart contact) radius1 radius2
  simp only [resolve_touching contact, slow_iff exact, first, second]
  exact ⟨fun both => ⟨both.1, both.2⟩, fun tame => ⟨tame.first, tame.second⟩⟩

/-- The loop of a thread, contact by contact. -/
theorem rounds_slow {a : Args F} {s : Arrays F} {idx : Nat} (heavy : ∀ i < a.N, 0 < a.masses i)
    (inside : idx < a.N) (slow : AllSlow sqrtf a s) (tame : TameThread sqrtf a s idx) {n : Nat}
    (below : n ≤ a.N) :
    let l := collisionRounds sqrtf a idx (integrate sqrtf workerConstants a s idx, s) n
    Slow sqrtf l.1.velocity ∧ AllSlow sqrtf a l.2 := by
  induction n with
  | zero => exact ⟨clamped_slow exact _, slow⟩
  | succ n before =>
      obtain ⟨own, others⟩ := before (Nat.le_of_succ_le below)
      have met := tame n below
      dsimp only at own others met ⊢
      rw [Meets] at met
      rw [rounds_succ]
      generalize collisionRounds sqrtf a idx (integrate sqrtf workerConstants a s idx, s) n = l
        at own others met ⊢
      by_cases touching : n ≠ idx ∧
          InContact (a.radii idx) (a.radii n) (l.1.position - l.2.positions n)
      · obtain ⟨first, second⟩ := (contact_slow_iff exact _ _ (heavy idx inside)
          (heavy n below) touching.2).mpr (met touching)
        rw [collide, if_pos touching.1]
        refine ⟨first, fun j within => ?_⟩
        by_cases partner : j = n
        · subst partner
          simpa only [Arrays.setMotion, Function.update_self] using second
        · simpa only [Arrays.setMotion, Function.update_of_ne partner] using others j within
      · rw [collide_apart fun other contact => touching ⟨other, contact⟩]
        exact ⟨own, others⟩

theorem thread_slow {a : Args F} {s : Arrays F} {idx : Nat} (heavy : ∀ i < a.N, 0 < a.masses i)
    (inside : idx < a.N) (slow : AllSlow sqrtf a s) (tame : TameThread sqrtf a s idx) :
    AllSlow sqrtf a (thread sqrtf workerConstants a s idx) := by
  obtain ⟨own, others⟩ := rounds_slow exact heavy inside slow tame le_rfl
  intro j within
  rw [thread_velocities]
  split
  · exact own
  · exact others j within

theorem launch_slow {a : Args F} (heavy : ∀ i < a.N, 0 < a.masses i) {localFlags : Nat → Int}
    {order : List Nat} {s : Arrays F} (slow : AllSlow sqrtf a s)
    (tame : TameLaunch sqrtf a localFlags order s) {front : List Nat} (before : front <+: order) :
    AllSlow sqrtf a (launchInOrder sqrtf a localFlags front s) := by
  refine invariant_before (P := AllSlow sqrtf a) slow ?_ before
  intro front idx back split kept
  by_cases idle : a.N ≤ idx ∨ localFlags idx = 0
  · rw [idle_thread idle]
    exact kept
  · obtain ⟨inside, flagged⟩ := not_or.mp idle
    rw [local_thread (Nat.not_le.mp inside) flagged]
    exact thread_slow exact heavy (Nat.not_le.mp inside) kept
      (tame front idx back split (Nat.not_le.mp inside) flagged)

/-- A round that leaves the limit respected met a tame contact or none. -/
theorem slow_round_tame {a : Args F} {l : Motion F × Arrays F} {idx i : Nat}
    (heavy : ∀ i < a.N, 0 < a.masses i) (inside : idx < a.N) (within : i < a.N) (other : i ≠ idx)
    (contact : InContact (a.radii idx) (a.radii i) (l.1.position - l.2.positions i))
    (own : Slow sqrtf (collide sqrtf a idx l i).1.velocity)
    (others : AllSlow sqrtf a (collide sqrtf a idx l i).2) :
    Tame sqrtf l.1 (a.masses idx) (l.2.motion i) (a.masses i) := by
  have pair := collide_pair sqrtf a other l
  refine (contact_slow_iff exact _ _ (heavy idx inside) (heavy i within) contact).mp ?_
  rw [← pair]
  exact ⟨own, others i within⟩

/-- A launch keeps the speed limit throughout exactly when all its contacts are tame. -/
theorem slow_throughout_iff (a : Args F) (heavy : ∀ i < a.N, 0 < a.masses i)
    (localFlags : Nat → Int) (order : List Nat) (s : Arrays F) (slow : AllSlow sqrtf a s) :
    (SlowThroughout sqrtf a localFlags order s ↔ TameLaunch sqrtf a localFlags order s) ∧
    (TameLaunch sqrtf a localFlags order s → ∀ front, front <+: order →
      AllSlow sqrtf a (launchInOrder sqrtf a localFlags front s)) := by
  refine ⟨⟨?_, ?_⟩, fun tame front => launch_slow exact heavy slow tame⟩
  · intro throughout front idx back split inside flagged i within meets
    obtain ⟨own, others⟩ := throughout front idx back split inside flagged (i + 1) within
    rw [rounds_succ] at own others
    exact slow_round_tame exact heavy inside within meets.1 meets.2 own others
  · intro tame front idx back split inside flagged n below
    have before := launch_slow exact heavy slow tame ⟨idx :: back, split.symm⟩
    exact rounds_slow exact heavy inside before (tame front idx back split inside flagged) below

end Ordered

/-- The front body with another mass and another speed. -/
def strikingArgs (heavy : ℝ) : Args ℝ :=
  { sampleArgs 0 with masses := fun i => if i = 0 then heavy else 1 }

def strikingArrays (speed : ℝ) : Arrays ℝ :=
  sampleArrays.setMotion 0 ⟨⟨0, 0, 0⟩, ⟨speed, 0, 0⟩⟩

section Striking
variable {speed : ℝ} (moderate : 0 ≤ speed ∧ speed ≤ 100)
include moderate

theorem striking_slow (heavy : ℝ) :
    AllSlow Real.sqrt (strikingArgs heavy) (strikingArrays speed) := by
  intro i within
  rw [slow_iff real_root]
  have body : i = 0 ∨ i = 1 := by
    have below : i < 2 := within
    omega
  rcases body with rfl | rfl
  · have square := mul_self_le_mul_self moderate.1 moderate.2
    simpa [strikingArrays, Arrays.setMotion, dot, maxSpeed] using square
  · simp [strikingArrays, Arrays.setMotion, sampleArrays, resting, dot, maxSpeed]

/-- What the front thread holds when it meets the rear body. -/
theorem striking_held (heavy : ℝ) :
    collisionRounds Real.sqrt (strikingArgs heavy) 0 (integrate Real.sqrt workerConstants
      (strikingArgs heavy) (strikingArrays speed) 0, strikingArrays speed) 1 =
        (⟨⟨0, 0, 0⟩, ⟨7 / 10 * speed, 0, 0⟩⟩, strikingArrays speed) := by
  have place : (strikingArrays speed).positions 0 = ⟨0, 0, 0⟩ := by
    simp [strikingArrays, Arrays.setMotion]
  have damped : (workerConstants : Constants ℝ).damping • (strikingArrays speed).velocities 0 =
      ⟨7 / 10 * speed, 0, 0⟩ := by
    ext <;> norm_num [workerConstants, strikingArrays, Arrays.setMotion]
  have slow : dot (⟨7 / 10 * speed, 0, 0⟩ : Float3 ℝ) ⟨7 / 10 * speed, 0, 0⟩ ≤
      maxSpeed * maxSpeed := by
    have square := mul_self_le_mul_self moderate.1 moderate.2
    simp only [dot, maxSpeed]
    linarith
  rw [rounds_succ, collide_self, rounds_zero, integrate_frozen Real.sqrt _ rfl, place, damped,
    limit_slow real_root slow]

end Striking

/-- In line with a resting body, the energy handed over in terms of the masses. -/
theorem striking_tame_iff {heavy : ℝ} (positive : 0 < heavy) (speed : ℝ) :
    Tame Real.sqrt ⟨⟨0, 0, 0⟩, ⟨speed, 0, 0⟩⟩ heavy resting 1 ↔
      ((heavy - 1) / (heavy + 1) * speed) ^ 2 ≤ maxSpeed * maxSpeed ∧
        (2 * heavy / (heavy + 1) * speed) ^ 2 ≤ maxSpeed * maxSpeed := by
  have along : normal Real.sqrt (⟨0, 0, 0⟩ - resting.position) = ⟨-1, 0, 0⟩ := by
    ext <;> simp [normal, distance, resting, dot]
  have sum : heavy + 1 ≠ 0 := by positivity
  have energy : handedOver heavy 1 ⟨speed, 0, 0⟩ resting.velocity ⟨-1, 0, 0⟩ =
      2 * (heavy / (heavy + 1) * speed) ^ 2 := by
    simp only [handedOver, impulse, resting, dot, add_x, add_y, add_z, sub_x, sub_y, sub_z,
      smul_x, smul_y, smul_z]
    field_simp
    ring
  have first : dot (⟨speed, 0, 0⟩ : Float3 ℝ) ⟨speed, 0, 0⟩ -
      2 * handedOver heavy 1 ⟨speed, 0, 0⟩ resting.velocity ⟨-1, 0, 0⟩ / heavy =
        ((heavy - 1) / (heavy + 1) * speed) ^ 2 := by
    rw [energy, dot]
    field_simp
    ring
  have second : dot resting.velocity resting.velocity +
      2 * handedOver heavy 1 ⟨speed, 0, 0⟩ resting.velocity ⟨-1, 0, 0⟩ / 1 =
        (2 * heavy / (heavy + 1) * speed) ^ 2 := by
    rw [energy]
    simp only [resting, dot]
    ring
  constructor
  · intro tame
    have energy1 := tame.first
    have energy2 := tame.second
    rw [along] at energy1 energy2
    exact ⟨first.symm.trans_le energy1, second.symm.trans_le energy2⟩
  · rintro ⟨own, other⟩
    constructor
    · rw [along]
      exact first.trans_le own
    · rw [along]
      exact second.trans_le other

theorem masses_positive {heavy : ℝ} (positive : 0 < heavy) (i : Nat) :
    0 < (strikingArgs heavy).masses i := by
  by_cases own : i = 0
  · simpa [strikingArgs, own] using positive
  · simp [strikingArgs, own]

/-- Equal masses only exchange their speeds. -/
theorem sample_slow_throughout :
    SlowThroughout Real.sqrt (strikingArgs 1) frontFlags [0, 1] (strikingArrays 100) := by
  have moderate : (0 : ℝ) ≤ 100 ∧ (100 : ℝ) ≤ 100 := ⟨by norm_num, le_rfl⟩
  refine (slow_throughout_iff real_root (strikingArgs 1) (fun i _ => masses_positive one_pos i)
    frontFlags [0, 1] (strikingArrays 100) (striking_slow moderate 1)).1.mpr ?_
  intro front idx back split inside flagged i within meets
  obtain ⟨rfl, rfl⟩ := front_only split flagged
  have partner : i = 1 := by
    have below : i < 2 := within
    have other := meets.1
    omega
  subst partner
  simp only [launchInOrder, List.foldl_nil]
  rw [striking_held moderate 1]
  refine (striking_tame_iff one_pos _).mpr ⟨?_, ?_⟩
  · norm_num [maxSpeed]
  · norm_num [maxSpeed]

/-- A heavy body drives a light one beyond the limit. -/
theorem light_body_thrown :
    AllSlow Real.sqrt (strikingArgs 3) (strikingArrays 100) ∧
      ¬ AllSlow Real.sqrt (strikingArgs 3) (launchInOrder Real.sqrt (strikingArgs 3) frontFlags
        [0, 1] (strikingArrays 100)) := by
  have moderate : (0 : ℝ) ≤ 100 ∧ (100 : ℝ) ≤ 100 := ⟨by norm_num, le_rfl⟩
  have positive : (0 : ℝ) < 3 := by norm_num
  refine ⟨striking_slow moderate 3, fun slow => ?_⟩
  rw [front_launch _ rfl] at slow
  have held := striking_held moderate 3
  have contact : InContact 1 1 ((⟨0, 0, 0⟩ : Float3 ℝ) - resting.position) := sample_in_contact
  have met : resolveCollision Real.sqrt ⟨⟨0, 0, 0⟩, ⟨7 / 10 * 100, 0, 0⟩⟩ 1 3 resting 1 1 = _ :=
    (collide_pair Real.sqrt (strikingArgs 3) Nat.one_ne_zero (_, strikingArrays 100)).symm
  have loop : collisionLoop Real.sqrt (strikingArgs 3) 0 (integrate Real.sqrt workerConstants
      (strikingArgs 3) (strikingArrays 100) 0, strikingArrays 100) = _ :=
    rounds_succ Real.sqrt (strikingArgs 3) 0 _ 1
  have own := slow 0 Nat.two_pos
  have other := slow 1 Nat.one_lt_two
  rw [held] at loop
  rw [thread_velocities, if_pos rfl, loop] at own
  rw [thread_velocities, if_neg Nat.one_ne_zero, loop] at other
  have tame := (contact_slow_iff real_root ⟨⟨0, 0, 0⟩, ⟨7 / 10 * 100, 0, 0⟩⟩ resting positive
    one_pos contact).mp
  rw [met] at tame
  have fast := ((striking_tame_iff positive _).mp (tame ⟨own, other⟩)).2
  norm_num [maxSpeed] at fast

end SpeedLimit

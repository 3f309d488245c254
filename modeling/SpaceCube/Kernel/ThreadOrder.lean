import SpaceCube.Library.SerialThreads
import SpaceCube.Kernel.UpdateParticles

/- A launch as its threads one after another, each atomic, in any order. -/
namespace ThreadOrder
open ParticleForce Float3Algebra Contact UpdateParticles SerialThreads
variable {F : Type*} [Field F] [LinearOrder F]

def inlineLaunch (sqrtf : F → F) (a : Args F) (order : List Nat) (s : Arrays F) : Arrays F :=
  order.foldl (inlineThread sqrtf a) s

/-- Thread idx, if it ran now, would move no particle: it displaces its own by nothing and
    finds no other in contact. -/
def Still (sqrtf : F → F) (k : Constants F) (a : Args F) (s : Arrays F) (idx : Nat) : Prop :=
  (integrate sqrtf k a s idx).position = s.positions idx ∧
    ∀ i < a.N, i ≠ idx →
      ¬ InContact (a.radii idx) (a.radii i) (s.positions idx - s.positions i)

section Still
variable {sqrtf : F → F} {k : Constants F} {a : Args F} {s t : Arrays F} {idx : Nat}

theorem still_rounds (still : Still sqrtf k a s idx) {n : Nat} (below : n ≤ a.N) :
    collisionRounds sqrtf a idx (integrate sqrtf k a s idx, s) n =
      (integrate sqrtf k a s idx, s) := by
  induction n with
  | zero => rfl
  | succ n before =>
      rw [rounds_succ, before (Nat.le_of_succ_le below)]
      refine collide_apart fun other => ?_
      rw [still.1]
      exact still.2 n below other

/-- A still thread only writes its own velocity and acceleration. -/
theorem still_thread (still : Still sqrtf k a s idx) :
    thread sqrtf k a s idx =
      ⟨s.positions, Function.update s.velocities idx (integrate sqrtf k a s idx).velocity,
        Function.update s.accelerations idx (nextAcceleration sqrtf k a s idx)⟩ := by
  have loop : collisionLoop sqrtf a idx (integrate sqrtf k a s idx, s) = _ :=
    still_rounds still le_rfl
  simp only [thread, loop, Arrays.setMotion, Arrays.setAcceleration, still.1,
    Function.update_eq_self]

theorem still_velocity (still : Still sqrtf k a s idx) :
    (thread sqrtf k a s idx).velocities idx = (integrate sqrtf k a s idx).velocity := by
  simp only [still_thread still, Function.update_self]

/-- What a thread reads before its collision loop. -/
theorem acceleration_congr (places : s.positions = t.positions)
    (own : s.accelerations idx = t.accelerations idx) :
    nextAcceleration sqrtf k a s idx = nextAcceleration sqrtf k a t idx := by
  simp only [nextAcceleration, places, own]

theorem integrate_congr (places : s.positions = t.positions)
    (speed : s.velocities idx = t.velocities idx)
    (own : s.accelerations idx = t.accelerations idx) :
    integrate sqrtf k a s idx = integrate sqrtf k a t idx := by
  simp only [integrate, nextVelocity, acceleration_congr places own, places, speed]

theorem still_congr (places : s.positions = t.positions)
    (speed : s.velocities idx = t.velocities idx)
    (own : s.accelerations idx = t.accelerations idx) :
    Still sqrtf k a s idx ↔ Still sqrtf k a t idx := by
  simp only [Still, integrate_congr places speed own, places]

variable {i j : Nat}

theorem still_after (first : Still sqrtf k a s i) (other : j ≠ i) :
    let t := thread sqrtf k a s i
    t.positions = s.positions ∧ t.velocities j = s.velocities j ∧
      t.accelerations j = s.accelerations j := by
  simp only [still_thread first, Function.update_of_ne other, and_self]

theorem still_stays (first : Still sqrtf k a s i) (second : Still sqrtf k a s j)
    (other : j ≠ i) : Still sqrtf k a (thread sqrtf k a s i) j := by
  obtain ⟨places, speed, own⟩ := still_after first other
  exact (still_congr places speed own).mpr second

theorem still_commute (first : Still sqrtf k a s i) (second : Still sqrtf k a s j)
    (other : j ≠ i) :
    thread sqrtf k a (thread sqrtf k a s i) j = thread sqrtf k a (thread sqrtf k a s j) i := by
  obtain ⟨places, speed, own⟩ := still_after first other
  obtain ⟨places', speed', own'⟩ := still_after second other.symm
  rw [still_thread (still_stays first second other),
    still_thread (still_stays second first other.symm), integrate_congr places speed own,
    integrate_congr places' speed' own', acceleration_congr places own,
    acceleration_congr places' own', still_thread first, still_thread second]
  simp only [Function.update_comm other]

end Still

/-- Two threads that can change places: neither moves a particle. -/
def Apart (sqrtf : F → F) (a : Args F) (s : Arrays F) (i j : Nat) : Prop :=
  j ≠ i ∧ i < a.N ∧ j < a.N ∧ Still sqrtf inlineConstants a s i ∧
    Still sqrtf inlineConstants a s j

/-- No particle is about to be displaced and no two are in contact. -/
def AllStill (sqrtf : F → F) (k : Constants F) (a : Args F) (s : Arrays F) : Prop :=
  ∀ idx < a.N, Still sqrtf k a s idx

theorem inline_thread {a : Args F} {idx : Nat} (inside : idx < a.N) (sqrtf : F → F)
    (s : Arrays F) : inlineThread sqrtf a s idx = thread sqrtf inlineConstants a s idx :=
  if_neg (Nat.not_le.mpr inside)

theorem apart_commute (sqrtf : F → F) (a : Args F) (s : Arrays F) (i j : Nat)
    (distant : Apart sqrtf a s i j) :
    inlineThread sqrtf a (inlineThread sqrtf a s i) j =
      inlineThread sqrtf a (inlineThread sqrtf a s j) i := by
  obtain ⟨other, front, rear, first, second⟩ := distant
  simp only [inline_thread front, inline_thread rear]
  exact still_commute first second other

/-- Whatever the state, orders that exchanges of resting neighbours turn into each other leave
    the same arrays; at rest these are all orders of the N threads. -/
theorem resting_order_free (sqrtf : F → F) (a : Args F) (s : Arrays F) :
    (∀ order other, Exchanges (inlineThread sqrtf a) (Apart sqrtf a) s order other →
      inlineLaunch sqrtf a order s = inlineLaunch sqrtf a other s) ∧
    (AllStill sqrtf inlineConstants a s → ∀ order other,
      order.Perm (List.range a.N) → other.Perm (List.range a.N) →
      inlineLaunch sqrtf a order s = inlineLaunch sqrtf a other s) := by
  have exchanged : ∀ order other,
      Exchanges (inlineThread sqrtf a) (Apart sqrtf a) s order other →
      inlineLaunch sqrtf a order s = inlineLaunch sqrtf a other s :=
    fun order other linked => exchanges_run (apart_commute sqrtf a) linked
  refine ⟨exchanged, fun still order other first second => exchanged order other ?_⟩
  have calm : ∀ t i j, (i < a.N ∧ Still sqrtf inlineConstants a t i) →
      (j < a.N ∧ Still sqrtf inlineConstants a t j) → j ≠ i →
      j < a.N ∧ Still sqrtf inlineConstants a (inlineThread sqrtf a t i) j := by
    rintro t i j ⟨inside, rest⟩ ⟨within, other⟩ distinct
    rw [inline_thread inside]
    exact ⟨within, still_stays rest other distinct⟩
  refine exchanges_of_perm calm ?_ (first.trans second.symm)
    (first.nodup_iff.mpr List.nodup_range) fun i member => ?_
  · rintro t i j ⟨inside, rest⟩ ⟨within, other⟩ distinct
    exact ⟨distinct, inside, within, rest, other⟩
  · have inside : i < a.N := List.mem_range.mp (first.mem_iff.mp member)
    exact ⟨inside, still i inside⟩

section Samples
variable {k : Constants ℝ}

/-- In a launch of two bodies a thread meets the other one. -/
theorem front_thread (dt : ℝ) (s : Arrays ℝ) :
    ((thread Real.sqrt k (sampleArgs dt) s 0).motion 0,
        (thread Real.sqrt k (sampleArgs dt) s 0).motion 1) =
      resolveCollision Real.sqrt (integrate Real.sqrt k (sampleArgs dt) s 0) 1 1 (s.motion 1)
        1 1 := by
  rw [thread_motion, thread_motion, if_pos rfl, if_neg Nat.one_ne_zero]
  exact collide_pair Real.sqrt (sampleArgs dt) Nat.one_ne_zero _

theorem rear_thread (dt : ℝ) (s : Arrays ℝ) :
    ((thread Real.sqrt k (sampleArgs dt) s 1).motion 1,
        (thread Real.sqrt k (sampleArgs dt) s 1).motion 0) =
      resolveCollision Real.sqrt (integrate Real.sqrt k (sampleArgs dt) s 1) 1 1 (s.motion 0)
        1 1 := by
  rw [thread_motion, thread_motion, if_pos rfl, if_neg Nat.zero_ne_one]
  exact collide_pair Real.sqrt (sampleArgs dt) Nat.zero_ne_one _

/-- Damping alone never meets the speed limit here. -/
theorem damped_slow {v : ℝ} (nonneg : 0 ≤ v) (slow : v ≤ 100) :
    limitSpeed Real.sqrt ⟨v, 0, 0⟩ = ⟨v, 0, 0⟩ := by
  refine limit_slow real_root ?_
  simp only [dot, maxSpeed]
  nlinarith

/-- Body 0 without time to move. -/
theorem frozen_velocity (gentle : 0 ≤ k.damping ∧ k.damping ≤ 1) {s : Arrays ℝ} {idx : Nat}
    {speed : ℝ} (at_most : 0 ≤ speed ∧ speed ≤ 1) (own : s.velocities idx = ⟨speed, 0, 0⟩) :
    integrate Real.sqrt k (sampleArgs 0) s idx =
      ⟨s.positions idx, ⟨k.damping * speed, 0, 0⟩⟩ := by
  obtain ⟨damped, below⟩ := gentle
  obtain ⟨forward, slow⟩ := at_most
  have product : k.damping • s.velocities idx = ⟨k.damping * speed, 0, 0⟩ := by
    rw [own]
    ext <;> simp
  rw [integrate_frozen Real.sqrt k rfl, product,
    damped_slow (mul_nonneg damped forward) (by nlinarith)]

/-- Body 0 strikes with what the damping leaves it, body 1 is struck with full speed. -/
theorem front_strikes (gentle : 0 ≤ k.damping ∧ k.damping ≤ 1) :
    ((thread Real.sqrt k (sampleArgs 0) sampleArrays 0).motion 0,
        (thread Real.sqrt k (sampleArgs 0) sampleArrays 0).motion 1) =
      (⟨⟨0 + 10001 / 20000 * (0 - 1), 0, 0⟩, ⟨0, 0, 0⟩⟩,
       ⟨⟨1 - 10001 / 20000 * (0 - 1), 0, 0⟩, ⟨k.damping * 1, 0, 0⟩⟩) := by
  rw [front_thread, frozen_velocity gentle (s := sampleArrays) (by norm_num) rfl]
  exact resolve_in_line (by norm_num) (k.damping * 1) 0

theorem rear_strikes (gentle : 0 ≤ k.damping ∧ k.damping ≤ 1) :
    ((thread Real.sqrt k (sampleArgs 0) sampleArrays 1).motion 1,
        (thread Real.sqrt k (sampleArgs 0) sampleArrays 1).motion 0) =
      (⟨⟨1 + 10001 / 20000 * (1 - 0), 0, 0⟩, ⟨1, 0, 0⟩⟩,
       ⟨⟨0 - 10001 / 20000 * (1 - 0), 0, 0⟩, ⟨k.damping * 0, 0, 0⟩⟩) := by
  rw [rear_thread, frozen_velocity gentle (s := sampleArrays) (by norm_num) rfl]
  exact resolve_in_line (by norm_num) (k.damping * 0) 1

/-- After the contact neither body moves or touches the other. -/
theorem parted_still {t : Arrays ℝ} (front : t.positions 0 = ⟨-(10001 / 20000), 0, 0⟩)
    (rear : t.positions 1 = ⟨1 + 10001 / 20000, 0, 0⟩) {idx : Nat} (inside : idx < 2) :
    Still Real.sqrt k (sampleArgs 0) t idx := by
  refine ⟨by rw [integrate_frozen Real.sqrt k rfl], fun i within other => ?_⟩
  have two : i < 2 := within
  rcases (by omega : idx = 0 ∧ i = 1 ∨ idx = 1 ∧ i = 0) with ⟨rfl, rfl⟩ | ⟨rfl, rfl⟩ <;>
    norm_num [InContact, sampleArgs, front, rear, dot, minDistance, margin]

/-- Run after thread 0, thread 1 brakes body 1 a second time. -/
theorem front_then_rear (gentle : 0 ≤ k.damping ∧ k.damping ≤ 1) :
    (thread Real.sqrt k (sampleArgs 0)
        (thread Real.sqrt k (sampleArgs 0) sampleArrays 0) 1).velocities 1 =
      ⟨k.damping * k.damping, 0, 0⟩ := by
  obtain ⟨front, rear⟩ := Prod.mk.inj (front_strikes gentle)
  have still := parted_still (k := k)
    (t := thread Real.sqrt k (sampleArgs 0) sampleArrays 0)
    ((congrArg Motion.position front).trans (by norm_num))
    ((congrArg Motion.position rear).trans (by norm_num)) Nat.one_lt_two
  have own := (congrArg Motion.velocity rear).trans
    (by rw [mul_one] : _ = (⟨k.damping, 0, 0⟩ : Float3 ℝ))
  rw [still_velocity still, frozen_velocity gentle gentle own]

/-- Run first, or alone, it takes the stroke over unbraked. -/
theorem rear_alone (gentle : 0 ≤ k.damping ∧ k.damping ≤ 1) :
    (thread Real.sqrt k (sampleArgs 0) sampleArrays 1).velocities 1 = ⟨1, 0, 0⟩ := by
  obtain ⟨rear, _⟩ := Prod.mk.inj (rear_strikes gentle)
  exact congrArg Motion.velocity rear

theorem rear_then_front (gentle : 0 ≤ k.damping ∧ k.damping ≤ 1) :
    (thread Real.sqrt k (sampleArgs 0)
        (thread Real.sqrt k (sampleArgs 0) sampleArrays 1) 0).velocities 1 = ⟨1, 0, 0⟩ := by
  obtain ⟨rear, front⟩ := Prod.mk.inj (rear_strikes gentle)
  have still := parted_still (k := k)
    (t := thread Real.sqrt k (sampleArgs 0) sampleArrays 1)
    ((congrArg Motion.position front).trans (by norm_num))
    ((congrArg Motion.position rear).trans (by norm_num)) Nat.two_pos
  rw [(still_after still Nat.one_ne_zero).2.1, rear_alone gentle]

/-- Body 0 is about to reach the place of body 1 in one step. -/
noncomputable def leapArrays (k : Constants ℝ) (leap : ℝ) : Arrays ℝ where
  positions i := if i = 0 then ⟨0, 0, 0⟩ else ⟨leap * k.damping, 0, 0⟩
  velocities _ := ⟨0, 0, 0⟩
  accelerations i :=
    if i = 0 then
      ⟨leap, 0, 0⟩ - calculateForce Real.sqrt ⟨0, 0, 0⟩ 1 ⟨leap * k.damping, 0, 0⟩ 1
    else ⟨0, 0, 0⟩

theorem walls_far (wallStiffness : ℝ) {speed : ℝ} (near : 0 ≤ speed ∧ speed ≤ 100) :
    calculateWallForce wallStiffness ⟨speed, 0, 0⟩ 100 = 0 := by
  simp only [calculateWallForce]
  rw [axis_force_inside (by linarith [near.1]) near.2,
    axis_force_inside (by norm_num) (by norm_num)]
  rfl

theorem leap_acceleration (k : Constants ℝ) :
    nextAcceleration Real.sqrt k (sampleArgs 1) (leapArrays k 10) 0 = ⟨10, 0, 0⟩ := by
  have pull : totalForce Real.sqrt (sampleArgs 1) (leapArrays k 10).positions 0 =
      calculateForce Real.sqrt ⟨0, 0, 0⟩ 1 ⟨10 * k.damping, 0, 0⟩ 1 := by
    simp [totalForce, sampleArgs, leapArrays, List.range_succ]
  have free : calculateWallForce k.wallStiffness ((leapArrays k 10).positions 0)
      (sampleArgs 1).boxSize = 0 := walls_far k.wallStiffness (by norm_num)
  simp only [nextAcceleration, pull, free, add_no_force]
  ext <;> simp [leapArrays, sampleArgs]

theorem leap_lands (gentle : 0 ≤ k.damping ∧ k.damping ≤ 1) :
    integrate Real.sqrt k (sampleArgs 1) (leapArrays k 10) 0 =
      ⟨⟨10 * k.damping, 0, 0⟩, ⟨10 * k.damping, 0, 0⟩⟩ := by
  have damped : k.damping • ((leapArrays k 10).velocities 0 + (sampleArgs 1).dt •
      (⟨10, 0, 0⟩ : Float3 ℝ)) = ⟨10 * k.damping, 0, 0⟩ := by
    ext <;> simp [leapArrays, sampleArgs, mul_comm]
  have slow := damped_slow (v := 10 * k.damping) (by linarith [gentle.1])
    (by linarith [gentle.2])
  simp only [integrate, nextVelocity, leap_acceleration, damped, slow]
  simp [leapArrays, sampleArgs]
  ext <;> simp

theorem leap_meets (gentle : 0 ≤ k.damping ∧ k.damping ≤ 1) :
    (thread Real.sqrt k (sampleArgs 1) (leapArrays k 10) 0).positions 0 = ⟨10 * k.damping, 0, 0⟩ ∧
      (thread Real.sqrt k (sampleArgs 1) (leapArrays k 10) 0).positions 1 =
        ⟨10 * k.damping, 0, 0⟩ := by
  have motions := front_thread (k := k) 1 (leapArrays k 10)
  rw [leap_lands gentle, resolve_apart] at motions
  · obtain ⟨front, rear⟩ := Prod.mk.inj motions
    exact ⟨congrArg Motion.position front, congrArg Motion.position rear⟩
  · norm_num [InContact, leapArrays, Arrays.motion, dot]

/-- A thread of two bodies feels the other one. -/
theorem rear_acceleration {s : Arrays ℝ} (near : 0 ≤ k.damping ∧ k.damping ≤ 1)
    (place : s.positions 1 = ⟨10 * k.damping, 0, 0⟩) (rest : s.accelerations 1 = ⟨0, 0, 0⟩) :
    nextAcceleration Real.sqrt k (sampleArgs 1) s 1 =
      calculateForce Real.sqrt (s.positions 1) 1 (s.positions 0) 1 := by
  have pull : totalForce Real.sqrt (sampleArgs 1) s.positions 1 =
      calculateForce Real.sqrt (s.positions 1) 1 (s.positions 0) 1 := by
    simp [totalForce, sampleArgs, List.range_succ]
  have free : calculateWallForce k.wallStiffness (s.positions 1) (sampleArgs 1).boxSize = 0 := by
    rw [place]
    exact walls_far k.wallStiffness ⟨by linarith [near.1], by linarith [near.2]⟩
  simp only [nextAcceleration, pull, free, add_no_force, rest]
  ext <;> simp [sampleArgs]

/-- After thread 0 the bodies are in one place and do not attract. -/
theorem leap_then_rear (gentle : 0 ≤ k.damping ∧ k.damping ≤ 1) :
    (thread Real.sqrt k (sampleArgs 1)
        (thread Real.sqrt k (sampleArgs 1) (leapArrays k 10) 0) 1).accelerations 1 = 0 := by
  obtain ⟨front, rear⟩ := leap_meets gentle
  rw [thread_accelerations, Function.update_self, rear_acceleration gentle rear, rear, front]
  · ext <;> simp [calculateForce]
  · rw [thread_accelerations, Function.update_of_ne Nat.one_ne_zero]
    rfl

theorem leap_rear_alone (gentle : 0 < k.damping ∧ k.damping ≤ 1) :
    ((thread Real.sqrt k (sampleArgs 1) (leapArrays k 10) 1).accelerations 1).x < 0 := by
  rw [thread_accelerations, Function.update_self,
    rear_acceleration ⟨gentle.1.le, gentle.2⟩ rfl rfl]
  simp only [calculateForce]
  have square := distanceSq_pos
    (⟨0 - 10 * k.damping, 0 - 0, 0 - 0⟩ : Float3 ℝ)
  have root := Real.sqrt_pos.mpr square
  refine mul_neg_of_neg_of_pos ?_ (div_pos (by norm_num) (mul_pos square root))
  exact sub_neg_of_lt (by linarith [gentle.1] : (0 : ℝ) < 10 * k.damping)

/-- The bodies of leapArrays are far from contact. -/
theorem leap_far (away : 1 / 2 ≤ k.damping) (i j : Nat) (first : i < 2) (second : j < 2)
    (other : i ≠ j) :
    ¬ InContact 1 1 ((leapArrays k 10).positions i - (leapArrays k 10).positions j) := by
  have square : (2 + 1 / 10000) * (2 + 1 / 10000) ≤ 10 * k.damping * (10 * k.damping) := by
    nlinarith
  rintro ⟨near, _⟩
  rcases (by omega : i = 0 ∧ j = 1 ∨ i = 1 ∧ j = 0) with ⟨rfl, rfl⟩ | ⟨rfl, rfl⟩ <;>
    norm_num [leapArrays, dot, minDistance, margin] at near square <;>
    linarith

end Samples

theorem inline_gentle :
    0 < (inlineConstants : Constants ℝ).damping ∧ (inlineConstants : Constants ℝ).damping ≤ 1 := by
  norm_num [inlineConstants]

/-- At rest the order does not matter. -/
theorem sample_resting_free :
    inlineLaunch Real.sqrt (sampleArgs 0) [0, 1] (leapArrays inlineConstants 10) =
      inlineLaunch Real.sqrt (sampleArgs 0) [1, 0] (leapArrays inlineConstants 10) := by
  refine (resting_order_free Real.sqrt (sampleArgs 0) (leapArrays inlineConstants 10)).2 ?_ _ _
    (by decide) (by decide)
  intro idx inside
  refine ⟨by rw [integrate_frozen Real.sqrt _ rfl], fun i within other => ?_⟩
  exact leap_far (by norm_num [inlineConstants]) idx i inside within other.symm

/-- With no time passing, a contact is enough for the order to matter. With no two in
    contact, a displacement is. -/
theorem thread_order_matters :
    [0, 1].Perm (List.range 2) ∧ [1, 0].Perm (List.range 2) ∧
      inlineLaunch Real.sqrt (sampleArgs 0) [0, 1] sampleArrays ≠
        inlineLaunch Real.sqrt (sampleArgs 0) [1, 0] sampleArrays ∧
      (∀ i j, i < 2 → j < 2 → i ≠ j → ¬ InContact 1 1
        ((leapArrays inlineConstants 10).positions i -
          (leapArrays inlineConstants 10).positions j)) ∧
      inlineLaunch Real.sqrt (sampleArgs 1) [0, 1] (leapArrays inlineConstants 10) ≠
        inlineLaunch Real.sqrt (sampleArgs 1) [1, 0] (leapArrays inlineConstants 10) := by
  obtain ⟨damped, below⟩ := inline_gentle
  refine ⟨by decide, by decide, fun same => ?_, leap_far (by norm_num [inlineConstants]),
    fun same => ?_⟩
  · have front := front_then_rear ⟨damped.le, below⟩
    have rear := rear_then_front ⟨damped.le, below⟩
    have speed : (⟨_, 0, 0⟩ : Float3 ℝ) = ⟨1, 0, 0⟩ :=
      front.symm.trans ((congrArg (fun t => t.velocities 1) same).trans rear)
    norm_num [inlineConstants] at speed
  · have front := leap_then_rear (k := inlineConstants) ⟨damped.le, below⟩
    have rear := leap_rear_alone (k := inlineConstants) ⟨damped, below⟩
    have pull : (thread Real.sqrt inlineConstants (sampleArgs 1)
        (thread Real.sqrt inlineConstants (sampleArgs 1) (leapArrays inlineConstants 10) 1)
        0).accelerations 1 = 0 :=
      (congrArg (fun t => t.accelerations 1) same).symm.trans front
    rw [thread_accelerations, Function.update_of_ne Nat.one_ne_zero] at pull
    rw [pull] at rear
    exact lt_irrefl _ rear

end ThreadOrder

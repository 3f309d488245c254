import SpaceCube.Kernel.CollisionLoop

/- updateParticles of ci/kernel.cu, on an array of structures in place, beside the inline
   kernel of particle_sim.py. -/
namespace CxxStep
open ParticleForce Float3Algebra Contact UpdateParticles CollisionLoop
variable {F : Type*}

@[ext] structure Particle (F : Type*) where
  position : Float3 F
  velocity : Float3 F
  acceleration : Float3 F
  mass : F
  radius : F

def Particle.motion (p : Particle F) : Motion F := ⟨p.position, p.velocity⟩

def Particle.moved (p : Particle F) (m : Motion F) : Particle F :=
  { p with position := m.position, velocity := m.velocity }

/-- The same particles in the other layout. -/
def pack (a : Args F) (s : Arrays F) (i : Nat) : Particle F :=
  ⟨s.positions i, s.velocities i, s.accelerations i, a.masses i, a.radii i⟩

/-- The C++ array while the inline thread holds l.1 in its own variables. -/
def held (a : Args F) (idx : Nat) (acc : Float3 F) (l : Motion F × Arrays F) :
    Nat → Particle F :=
  pack a ((shared idx l).setAcceleration idx acc)

theorem held_self (a : Args F) (idx : Nat) (acc : Float3 F) (l : Motion F × Arrays F) :
    held a idx acc l idx =
      ⟨l.1.position, l.1.velocity, acc, a.masses idx, a.radii idx⟩ := by
  simp [held, shared, pack, Arrays.setAcceleration, Arrays.setMotion]

theorem held_other (a : Args F) {idx j : Nat} (other : j ≠ idx) (acc : Float3 F)
    (l : Motion F × Arrays F) : held a idx acc l j = pack a l.2 j := by
  simp [held, shared, pack, Arrays.setAcceleration, Arrays.setMotion, other]

section Kernel
variable [Field F]

def calculateForce (sqrtf : F → F) (p1 p2 : Particle F) : Float3 F :=
  ParticleForce.calculateForce sqrtf p1.position p1.mass p2.position p2.mass

variable [LinearOrder F]

def calculateWallForce (p : Particle F) (boxSize : F) : Float3 F :=
  UpdateParticles.calculateWallForce 0.01 p.position boxSize

def resolveCollision (sqrtf : F → F) (p1 p2 : Particle F) : Particle F × Particle F :=
  let delta := p1.position - p2.position
  if dot delta delta < 1e-12 then (p1, p2)
  else if distance sqrtf delta < minDistance p1.radius p2.radius ∧
      1e-6 < distance sqrtf delta then
    let pair := rebound sqrtf p1.motion p1.radius p1.mass p2.motion p2.radius p2.mass
    (p1.moved pair.1, p2.moved pair.2)
  else (p1, p2)

/-- particles[idx] before the collision loop. -/
def advance (sqrtf : F → F) (N : Nat) (dt boxSize : F) (particles : Nat → Particle F)
    (idx : Nat) : Particle F :=
  let p := particles idx
  let force := (List.range N).foldl (fun force i =>
    if i ≠ idx then force + calculateForce sqrtf p (particles i) else force) 0 +
      calculateWallForce p boxSize
  let acceleration : Float3 F :=
    ⟨p.acceleration.x + force.x / p.mass, p.acceleration.y + force.y / p.mass,
      p.acceleration.z + force.z / p.mass⟩
  let velocity := limitSpeed sqrtf ((0.999 : F) • (p.velocity + dt • acceleration))
  { p with
    acceleration := acceleration
    velocity := velocity
    position := p.position + dt • velocity }

def collideInPlace (sqrtf : F → F) (idx : Nat) (particles : Nat → Particle F) (i : Nat) :
    Nat → Particle F :=
  if i ≠ idx then
    let pair := resolveCollision sqrtf (particles idx) (particles i)
    Function.update (Function.update particles idx pair.1) i pair.2
  else particles

/-- The loop before its round n. -/
def roundsInPlace (sqrtf : F → F) (idx : Nat) (particles : Nat → Particle F) (n : Nat) :
    Nat → Particle F :=
  (List.range n).foldl (collideInPlace sqrtf idx) particles

def updateParticles (sqrtf : F → F) (N : Nat) (dt boxSize : F)
    (particles : Nat → Particle F) (idx : Nat) : Nat → Particle F :=
  if N ≤ idx then particles
  else roundsInPlace sqrtf idx
    (Function.update particles idx (advance sqrtf N dt boxSize particles idx)) N

/-- Thread idx, alone, leaves the N particles as the inline kernel leaves them. -/
def SameStep (sqrtf : F → F) (a : Args F) (s : Arrays F) (idx : Nat) : Prop :=
  ∀ i < a.N, updateParticles sqrtf a.N a.dt a.boxSize (pack a s) idx i =
    pack a (inlineThread sqrtf a s idx) i

/-- Near enough for both, far enough for the distance of one and not for the squared
    distance of the other. -/
abbrev InGap (radius1 radius2 : F) (delta : Float3 F) : Prop :=
  dot delta delta < minDistance radius1 radius2 * minDistance radius1 radius2 ∧
    1e-12 < dot delta delta ∧ dot delta delta ≤ 1e-6

/-- Partner i is in the gap when the loop reaches it. -/
def MeetsGap (sqrtf : F → F) (a : Args F) (s : Arrays F) (idx i : Nat) : Prop :=
  i ≠ idx ∧ InGap (a.radii idx) (a.radii i)
    ((collisionRounds sqrtf a idx (integrate sqrtf inlineConstants a s idx, s) i).1.position -
      s.positions i)

theorem in_place_succ (sqrtf : F → F) (idx : Nat) (particles : Nat → Particle F) (n : Nat) :
    roundsInPlace sqrtf idx particles (n + 1) =
      collideInPlace sqrtf idx (roundsInPlace sqrtf idx particles n) n := by
  simp [roundsInPlace, List.range_succ]

/-- Up to the collision loop the two copies agree. -/
theorem advance_packed (sqrtf : F → F) (a : Args F) (s : Arrays F) (idx : Nat) :
    Function.update (pack a s) idx
        (advance sqrtf a.N a.dt a.boxSize (pack a s) idx) =
      held a idx (nextAcceleration sqrtf inlineConstants a s idx)
        (integrate sqrtf inlineConstants a s idx, s) := by
  funext j
  by_cases own : j = idx
  · subst own
    rw [held_self, Function.update_self]
    rfl
  · rw [held_other a own, Function.update_of_ne own]

/-- In place too, only round i changes the entry of partner i. -/
theorem in_place_kept (sqrtf : F → F) {idx i : Nat} (other : i ≠ idx)
    (particles : Nat → Particle F) {n : Nat} (later : i + 1 ≤ n) :
    roundsInPlace sqrtf idx particles n i = roundsInPlace sqrtf idx particles (i + 1) i := by
  induction n, later using Nat.le_induction with
  | base => rfl
  | succ n after before =>
      rw [in_place_succ, ← before, collideInPlace]
      split
      · rw [Function.update_of_ne (Nat.ne_of_lt after), Function.update_of_ne other]
      · rfl

end Kernel

section Ordered
variable [Field F] [LinearOrder F] [IsStrictOrderedRing F]

/-- The guards of the C++ copy let through the contacts of the other and the gap. -/
theorem guards_in_place {sqrtf : F → F} (exact : ExactRoot sqrtf) {radius1 radius2 : F}
    (size1 : 0 ≤ radius1) (size2 : 0 ≤ radius2) (delta : Float3 F) :
    (¬ dot delta delta < 1e-12 ∧ distance sqrtf delta < minDistance radius1 radius2 ∧
        1e-6 < distance sqrtf delta) ↔
      InContact radius1 radius2 delta ∨ InGap radius1 radius2 delta := by
  have reach := reach_pos size1 size2
  have square := distance_square exact delta
  have sign : 0 ≤ distance sqrtf delta := (exact _ (dot_self_nonneg delta)).1
  have near : distance sqrtf delta < minDistance radius1 radius2 ↔
      dot delta delta < minDistance radius1 radius2 * minDistance radius1 radius2 := by
    rw [← square]
    exact (mul_self_lt_mul_self_iff sign reach.le)
  have far : 1e-6 < distance sqrtf delta ↔ 1e-12 < dot delta delta := by
    have twelve : (1e-12 : F) = 1e-6 * 1e-6 := by norm_num
    rw [← square, twelve]
    exact mul_self_lt_mul_self_iff (by positivity) sign
  rw [near, far]
  constructor
  · rintro ⟨_, close, off⟩
    rcases lt_or_ge (1 / 1000000) (dot delta delta) with clear | gap
    · exact Or.inl ⟨close, clear⟩
    · exact Or.inr ⟨close, off, by norm_num at gap ⊢; exact gap⟩
  · rintro (⟨close, clear⟩ | ⟨close, off, _⟩)
    · have off : 1e-12 < dot delta delta := lt_trans (by norm_num) clear
      exact ⟨not_lt.mpr off.le, close, off⟩
    · exact ⟨not_lt.mpr off.le, close, off⟩

theorem resolve_in_place {sqrtf : F → F} (exact : ExactRoot sqrtf) {p1 p2 : Particle F}
    (size1 : 0 ≤ p1.radius) (size2 : 0 ≤ p2.radius) :
    resolveCollision sqrtf p1 p2 =
      if InContact p1.radius p2.radius (p1.position - p2.position) ∨
          InGap p1.radius p2.radius (p1.position - p2.position) then
        let pair := rebound sqrtf p1.motion p1.radius p1.mass p2.motion p2.radius p2.mass
        (p1.moved pair.1, p2.moved pair.2)
      else (p1, p2) := by
  have guards := guards_in_place exact size1 size2 (p1.position - p2.position)
  rw [← if_congr guards rfl rfl, ite_and, ite_not]
  rfl

variable {sqrtf : F → F} (exact : ExactRoot sqrtf) {a : Args F}
  (sizes : ∀ i < a.N, 0 < a.radii i) {idx : Nat} (inside : idx < a.N)
include exact sizes inside

/-- What a round of the C++ loop does to the pair. -/
theorem resolve_held {i : Nat} (other : i ≠ idx) (within : i < a.N) (acc : Float3 F)
    (l : Motion F × Arrays F) :
    resolveCollision sqrtf (held a idx acc l idx) (held a idx acc l i) =
      if InContact (a.radii idx) (a.radii i) (l.1.position - l.2.positions i) ∨
          InGap (a.radii idx) (a.radii i) (l.1.position - l.2.positions i) then
        let pair := rebound sqrtf l.1 (a.radii idx) (a.masses idx) (l.2.motion i) (a.radii i)
          (a.masses i)
        ((held a idx acc l idx).moved pair.1, (held a idx acc l i).moved pair.2)
      else (held a idx acc l idx, held a idx acc l i) := by
  rw [held_self, held_other a other]
  exact resolve_in_place exact (sizes idx inside).le (sizes i within).le

theorem round_agrees {i : Nat} (within : i < a.N) (acc : Float3 F) {l : Motion F × Arrays F}
    (clear : i ≠ idx → ¬ InGap (a.radii idx) (a.radii i) (l.1.position - l.2.positions i)) :
    collideInPlace sqrtf idx (held a idx acc l) i =
      held a idx acc (collide sqrtf a idx l i) := by
  by_cases other : i ≠ idx
  · have step := resolve_held exact sizes inside other within acc l
    by_cases contact : InContact (a.radii idx) (a.radii i) (l.1.position - l.2.positions i)
    · rw [if_pos (Or.inl contact)] at step
      rw [collideInPlace, if_pos other, step, collide_touching sqrtf other contact]
      funext j
      by_cases partner : j = i
      · subst partner
        rw [Function.update_self, held_other a other, held_other a other]
        simp [Particle.moved, pack, Arrays.setMotion]
      · rw [Function.update_of_ne partner]
        by_cases own : j = idx
        · subst own
          rw [Function.update_self, held_self, held_self]
          rfl
        · rw [Function.update_of_ne own, held_other a own, held_other a own]
          simp [pack, Arrays.setMotion, partner]
    · rw [if_neg (not_or.mpr ⟨contact, clear other⟩)] at step
      rw [collideInPlace, if_pos other, step, collide_apart fun _ => contact]
      simp only [Function.update_eq_self]
  · rw [collideInPlace, if_neg other, not_not.mp other, collide_self]

/-- Without a gap the loops stay together. -/
theorem rounds_agree (acc : Float3 F) (l : Motion F × Arrays F) {n : Nat} (below : n ≤ a.N)
    (clear : ∀ i < n, i ≠ idx → ¬ InGap (a.radii idx) (a.radii i)
      ((collisionRounds sqrtf a idx l i).1.position - l.2.positions i)) :
    roundsInPlace sqrtf idx (held a idx acc l) n =
      held a idx acc (collisionRounds sqrtf a idx l n) := by
  induction n with
  | zero => rfl
  | succ n before =>
      have earlier := before (Nat.le_of_succ_le below)
        fun i less => clear i (Nat.lt_succ_of_lt less)
      have place : (collisionRounds sqrtf a idx l n).2.positions n = l.2.positions n :=
        congrArg Motion.position (partner_waiting sqrtf a idx n l)
      rw [in_place_succ, rounds_succ, earlier]
      refine round_agrees exact sizes inside below acc ?_
      rw [place]
      exact clear n (Nat.lt_succ_self n)

/-- In the gap only the C++ loop moves the partner. -/
theorem gap_moves {i : Nat} (other : i ≠ idx) (within : i < a.N) (acc : Float3 F)
    {l : Motion F × Arrays F}
    (gap : InGap (a.radii idx) (a.radii i) (l.1.position - l.2.positions i)) :
    (collideInPlace sqrtf idx (held a idx acc l) i i).position ≠ l.2.positions i := by
  have step := resolve_held exact sizes inside other within acc l
  rw [if_pos (Or.inr gap)] at step
  rw [collideInPlace, if_pos other, step, Function.update_self]
  exact rebound_moves exact gap.1 (lt_trans (by positivity) gap.2.1) (a.masses idx) (a.masses i)

omit exact sizes [IsStrictOrderedRing F] in
theorem in_place_from_held (s : Arrays F) :
    updateParticles sqrtf a.N a.dt a.boxSize (pack a s) idx =
      roundsInPlace sqrtf idx (held a idx (nextAcceleration sqrtf inlineConstants a s idx)
        (integrate sqrtf inlineConstants a s idx, s)) a.N := by
  rw [updateParticles, if_neg (Nat.not_le.mpr inside), advance_packed]

omit exact sizes [IsStrictOrderedRing F] in
theorem inline_held (s : Arrays F) :
    pack a (inlineThread sqrtf a s idx) =
      held a idx (nextAcceleration sqrtf inlineConstants a s idx)
        (collisionLoop sqrtf a idx (integrate sqrtf inlineConstants a s idx, s)) := by
  rw [inlineThread, if_neg (Nat.not_le.mpr inside)]
  rfl

theorem gap_free_same {s : Arrays F} (clear : ∀ i < a.N, ¬ MeetsGap sqrtf a s idx i) :
    SameStep sqrtf a s idx := by
  intro i _
  rw [in_place_from_held inside, inline_held inside]
  exact congrFun (rounds_agree exact sizes inside _ _ le_rfl
    fun j below other gap => clear j below ⟨other, gap⟩) i

/-- The first partner in the gap ends in another place. -/
theorem first_gap_differs {s : Arrays F} {i : Nat} (within : i < a.N)
    (before : ∀ j < i, ¬ MeetsGap sqrtf a s idx j) (meets : MeetsGap sqrtf a s idx i) :
    ¬ SameStep sqrtf a s idx := by
  obtain ⟨other, gap⟩ := meets
  intro same
  let start := (integrate sqrtf inlineConstants a s idx, s)
  have loops := rounds_agree exact sizes inside
    (nextAcceleration sqrtf inlineConstants a s idx) start within.le
    fun j below distinct inGap => before j below ⟨distinct, inGap⟩
  have place : (collisionRounds sqrtf a idx start i).2.positions i = s.positions i :=
    congrArg Motion.position (partner_waiting sqrtf a idx i start)
  have apart : ¬ InContact (a.radii idx) (a.radii i)
      ((collisionRounds sqrtf a idx start i).1.position - s.positions i) := by
    rintro ⟨_, clear⟩
    exact absurd (lt_of_lt_of_le clear gap.2.2) (by norm_num)
  have inline : (collisionLoop sqrtf a idx start).2.positions i = s.positions i :=
    congrArg Motion.position (partner_untouched fun _ _ => apart)
  have cxx := congrArg Particle.position (same i within)
  rw [in_place_from_held inside, in_place_kept sqrtf other _ within, in_place_succ, loops,
    inline_held inside, held_other a other] at cxx
  have moved := gap_moves exact sizes inside other within
    (nextAcceleration sqrtf inlineConstants a s idx)
    (show InGap _ _ ((collisionRounds sqrtf a idx start i).1.position -
      (collisionRounds sqrtf a idx start i).2.positions i) by rw [place]; exact gap)
  exact moved (cxx.trans (inline.trans place.symm))

theorem first_gap_free {s : Arrays F} (same : SameStep sqrtf a s idx) {n : Nat}
    (below : n ≤ a.N) : ∀ i < n, ¬ MeetsGap sqrtf a s idx i := by
  induction n with
  | zero => exact fun i less => absurd less (Nat.not_lt_zero i)
  | succ n earlier =>
      have before := earlier (Nat.le_of_succ_le below)
      intro i less meets
      rcases Nat.lt_succ_iff_lt_or_eq.mp less with older | rfl
      · exact before i older meets
      · exact first_gap_differs exact sizes inside below before meets same

end Ordered

section SameStep
variable [Field F] [LinearOrder F] [IsStrictOrderedRing F]

/-- The copies take the same step exactly when the loop meets no partner in the gap. -/
theorem same_step_iff {sqrtf : F → F} (exact : ExactRoot sqrtf) {a : Args F}
    (sizes : ∀ i < a.N, 0 < a.radii i) (s : Arrays F) (idx : Nat) :
    SameStep sqrtf a s idx ↔ (idx < a.N → ∀ i < a.N, ¬ MeetsGap sqrtf a s idx i) := by
  constructor
  · intro same inside
    exact first_gap_free exact sizes inside same le_rfl
  · intro clear
    rcases Nat.lt_or_ge idx a.N with inside | outside
    · exact gap_free_same exact sizes inside (clear inside)
    · intro i _
      rw [updateParticles, inlineThread, if_pos outside, if_pos outside]

end SameStep

/-- Two bodies at rest whose centres are half a thousandth apart. -/
noncomputable def gapArrays : Arrays ℝ where
  positions i := if i = 0 then ⟨0, 0, 0⟩ else ⟨1 / 2000, 0, 0⟩
  velocities _ := ⟨0, 0, 0⟩
  accelerations _ := ⟨0, 0, 0⟩

theorem sample_meets_gap : MeetsGap Real.sqrt (sampleArgs 0) gapArrays 0 1 := by
  refine ⟨Nat.one_ne_zero, ?_⟩
  rw [rounds_succ, rounds_zero, collide_self]
  norm_num [InGap, integrate, sampleArgs, gapArrays, minDistance, margin, dot]

/-- In one frame the inline kernel leaves them nearly in one place and the C++ kernel does
    not. -/
theorem gap_pair_differs :
    (∀ i < 2, 0 < (sampleArgs 0).masses i ∧ 0 < (sampleArgs 0).radii i) ∧
      0 ≤ (sampleArgs 0).dt ∧ 0 < (sampleArgs 0).boxSize ∧
      ¬ SameStep Real.sqrt (sampleArgs 0) gapArrays 0 := by
  have sizes : ∀ i < (sampleArgs 0).N, 0 < (sampleArgs 0).radii i := fun _ _ => one_pos
  refine ⟨fun _ _ => ⟨one_pos, one_pos⟩, le_rfl, ?_, fun same => ?_⟩
  · norm_num [sampleArgs]
  · exact first_gap_free real_root sizes Nat.two_pos same le_rfl 1 Nat.one_lt_two
      sample_meets_gap

theorem sample_same_step :
    SameStep Real.sqrt (sampleArgs 0) sampleArrays 0 := by
  refine (same_step_iff real_root (fun _ _ => one_pos) sampleArrays 0).mpr ?_
  rintro _ i within ⟨other, gap⟩
  obtain rfl : i = 1 := by
    have two : i < 2 := within
    omega
  rw [rounds_succ, rounds_zero, collide_self] at gap
  norm_num [InGap, integrate, sampleArgs, sampleArrays, oncoming, resting, dot] at gap

end CxxStep

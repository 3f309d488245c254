import Mathlib.Data.Rat.Floor
import SpaceCube.Grid.WorkerBounds
import SpaceCube.Orchestrator.ParticleMessages

/- What follows a complete collection: the merge of the updates and the frame built from
   the merged list. -/
namespace MergeAndFrame
open InsertionDict PyValue ParticleMessages WorkerBounds
variable {F : Type}

/-- The bounds are looked up for every worker and not used. -/
def mergeLoop (grid : GridManager F) (merged : Dict String (ParticleData F)) :
    List (Key × List (ParticleData F)) → Except PyErr (Dict String (ParticleData F))
  | [] => .ok merged
  | (workerId, workerUpdates) :: rest =>
    match getWorkerBounds grid workerId with
    | .error e => .error e
    | .ok _ => mergeLoop grid (merged.setAll ParticleData.id workerUpdates) rest

def mergeWithBoundsCheck (grid : GridManager F) (updates : Dict Key (List (ParticleData F))) :
    Except PyErr (List (ParticleData F)) :=
  (mergeLoop grid .empty updates.entries).map Dict.values

structure FrameParticle (F : Type) where
  x : F
  y : F
  z : F
  mass : F
  velocity : F × F × F
  acceleration : F × F × F
  radius : F

structure Frame (F : Type) where
  t : Rat
  particles : List (FrameParticle F)

/-- round(q, 4), ties to even, without the binary representation error. -/
def roundFour (q : Rat) : Rat :=
  let scaled := q * 10000
  let low := scaled.floor
  let half := scaled - low
  let units := if half < 1 / 2 then low else if 1 / 2 < half then low + 1
    else if low % 2 = 0 then low else low + 1
  units / 10000

/-- Items 0, 1 and 2 of a list. -/
def threeItems : List F → Except PyErr (F × F × F)
  | x :: y :: z :: _ => .ok (x, y, z)
  | _ => .error .indexError

def frameParticle (p : ParticleData F) : Except PyErr (FrameParticle F) := do
  let (x, y, z) ← threeItems p.position
  let velocity ← threeItems p.velocity
  let acceleration ← threeItems p.acceleration
  return { x, y, z, mass := p.mass, velocity, acceleration, radius := p.radius }

def buildFrameData (dt : Rat) (particles : List (ParticleData F)) (step : Nat) :
    Except PyErr (Frame F) := do
  let items ← particles.mapM frameParticle
  return { t := roundFour (step * dt), particles := items }

/-- The merge succeeds exactly when every key of updates is a worker of the grid, and then
    writes all updates one after another. -/
theorem merge_loop_ok_iff (grid : GridManager F) (merged result : Dict String (ParticleData F))
    (entries : List (Key × List (ParticleData F))) :
    mergeLoop grid merged entries = .ok result ↔
      (∀ e ∈ entries, e.1 ∈ grid.workerBounds) ∧
        result = merged.setAll ParticleData.id (entries.flatMap Prod.snd) := by
  induction entries generalizing merged with
  | nil =>
    simp only [mergeLoop, Except.ok.injEq, List.not_mem_nil, false_implies, implies_true,
      List.flatMap_nil, setAll_nil, true_and]
    exact eq_comm
  | cons e rest ih =>
    obtain ⟨workerId, workerUpdates⟩ := e
    simp only [mergeLoop, List.flatMap_cons, setAll_append, List.forall_mem_cons]
    rw [← bounds_ok_mem]
    cases getWorkerBounds grid workerId with
    | error err => simp
    | ok bounds =>
      simp only [ih, Except.ok.injEq, exists_eq', true_and]

theorem merge_ok_iff (grid : GridManager F) (updates : Dict Key (List (ParticleData F)))
    (merged : List (ParticleData F)) :
    mergeWithBoundsCheck grid updates = .ok merged ↔
      (∀ k, k ∈ updates → k ∈ grid.workerBounds) ∧
        merged = (Dict.empty.setAll ParticleData.id (updates.entries.flatMap Prod.snd)).values := by
  have keys : (∀ e ∈ updates.entries, e.1 ∈ grid.workerBounds) ↔
      ∀ k, k ∈ updates → k ∈ grid.workerBounds := by
    simp only [mem_iff_keys, Dict.keys]
    exact List.forall_mem_map.symm
  unfold mergeWithBoundsCheck
  rw [← keys]
  constructor
  · intro run
    cases loop : mergeLoop grid .empty updates.entries with
    | error e =>
      rw [loop] at run
      contradiction
    | ok result =>
      obtain ⟨known, eq⟩ := (merge_loop_ok_iff grid _ _ _).mp loop
      rw [loop] at run
      rw [← eq]
      exact ⟨known, (Except.ok.inj run).symm⟩
  · rintro ⟨known, rfl⟩
    rw [(merge_loop_ok_iff grid _ _ _).mpr ⟨known, rfl⟩]
    rfl

/-- The ids of a merged list are distinct, and they are those of the updates. -/
theorem merged_ids {grid : GridManager F} {updates : Dict Key (List (ParticleData F))}
    {merged : List (ParticleData F)} (run : mergeWithBoundsCheck grid updates = .ok merged) :
    (merged.map ParticleData.id).Nodup ∧ ∀ id, id ∈ merged.map ParticleData.id ↔
      ∃ e ∈ updates.entries, ∃ p ∈ e.2, p.id = id := by
  obtain ⟨_, rfl⟩ := (merge_ok_iff grid updates merged).mp run
  rw [self_keyed_values _ _ (setAll_self_keyed _ _ _ (empty_self_keyed _))]
  refine ⟨Dict.distinct _, fun id => ?_⟩
  rw [← mem_iff_keys, mem_setAll]
  simp only [not_mem_empty, false_or, List.mem_map, List.mem_flatMap]
  constructor
  · rintro ⟨p, ⟨e, member, sent⟩, eq⟩
    exact ⟨e, member, p, sent, eq⟩
  · rintro ⟨e, member, p, sent, eq⟩
    exact ⟨p, ⟨e, member, sent⟩, eq⟩

/-- With distinct ids nothing is overwritten and the merge is the concatenation. -/
theorem merged_concat {grid : GridManager F} {updates : Dict Key (List (ParticleData F))}
    {merged : List (ParticleData F)} (run : mergeWithBoundsCheck grid updates = .ok merged)
    (distinct : ((updates.entries.flatMap Prod.snd).map ParticleData.id).Nodup) :
    merged = updates.entries.flatMap Prod.snd := by
  obtain ⟨_, rfl⟩ := (merge_ok_iff grid updates merged).mp run
  exact values_setAll _ _ _ (fun p _ => not_mem_empty p.id) distinct

theorem mem_merged {grid : GridManager F} {updates : Dict Key (List (ParticleData F))}
    {merged : List (ParticleData F)} (run : mergeWithBoundsCheck grid updates = .ok merged)
    {p : ParticleData F} (member : p ∈ merged) : ∃ k us, updates.get? k = some us ∧ p ∈ us := by
  obtain ⟨_, rfl⟩ := (merge_ok_iff grid updates merged).mp run
  rcases mem_values_setAll member with nowhere | sent
  · simp [Dict.values, Dict.empty] at nowhere
  · obtain ⟨⟨k, us⟩, entry, inside⟩ := List.mem_flatMap.mp sent
    exact ⟨k, us, (get?_eq_some_iff _ _ _).mpr entry, inside⟩

/-- A particle that a frame can show. -/
structure Frameable (p : ParticleData F) : Prop where
  position : 3 ≤ p.position.length
  velocity : 3 ≤ p.velocity.length
  acceleration : 3 ≤ p.acceleration.length

theorem three_items_ok_iff (xs : List F) : (∃ v, threeItems xs = .ok v) ↔ 3 ≤ xs.length := by
  match xs with
  | [] | [_] | [_, _] => simp [threeItems]
  | x :: y :: z :: rest => simp [threeItems]

theorem frame_particle_ok_iff (p : ParticleData F) :
    (∃ f, frameParticle p = .ok f) ↔ Frameable p := by
  have parts : Frameable p ↔ (∃ v, threeItems p.position = .ok v) ∧
      (∃ v, threeItems p.velocity = .ok v) ∧ ∃ v, threeItems p.acceleration = .ok v := by
    simp only [three_items_ok_iff]
    exact ⟨fun h => ⟨h.1, h.2, h.3⟩, fun h => ⟨h.1, h.2.1, h.2.2⟩⟩
  rw [parts]
  unfold frameParticle
  cases threeItems p.position <;> cases threeItems p.velocity <;>
    cases threeItems p.acceleration <;> simp [bind, Except.bind, pure, Except.pure]

theorem frame_items_ok_iff (particles : List (ParticleData F)) :
    (∃ items, particles.mapM frameParticle = .ok items) ↔ ∀ p ∈ particles, Frameable p := by
  induction particles with
  | nil => simp [pure, Except.pure]
  | cons p rest ih =>
    rw [List.forall_mem_cons, ← ih, ← frame_particle_ok_iff, List.mapM_cons]
    cases frameParticle p with
    | error e => simp [bind, Except.bind]
    | ok f => cases rest.mapM frameParticle <;> simp [bind, Except.bind, pure, Except.pure]

theorem build_frame_ok_iff (dt : Rat) (particles : List (ParticleData F)) (step : Nat) :
    (∃ frame, buildFrameData dt particles step = .ok frame) ↔ ∀ p ∈ particles, Frameable p := by
  rw [← frame_items_ok_iff]
  unfold buildFrameData
  cases particles.mapM frameParticle <;> simp [bind, Except.bind, pure, Except.pure]

/-- An item of a frame that shows a particle: its first three coordinates of each kind, its
    mass and its radius. -/
structure Shows (p : ParticleData F) (item : FrameParticle F) : Prop where
  position : p.position.take 3 = [item.x, item.y, item.z]
  velocity : p.velocity.take 3 = [item.velocity.1, item.velocity.2.1, item.velocity.2.2]
  acceleration :
    p.acceleration.take 3 = [item.acceleration.1, item.acceleration.2.1, item.acceleration.2.2]
  mass : item.mass = p.mass
  radius : item.radius = p.radius

theorem three_items_take (xs : List F) (v : F × F × F) :
    threeItems xs = .ok v ↔ xs.take 3 = [v.1, v.2.1, v.2.2] := by
  match xs with
  | [] | [_] | [_, _] => simp [threeItems]
  | x :: y :: z :: rest => simp [threeItems, Prod.ext_iff]

theorem frame_particle_shows (p : ParticleData F) (item : FrameParticle F) :
    frameParticle p = .ok item ↔ Shows p item := by
  have parts : Shows p item ↔ threeItems p.position = .ok (item.x, item.y, item.z) ∧
      threeItems p.velocity = .ok item.velocity ∧
      threeItems p.acceleration = .ok item.acceleration ∧ item.mass = p.mass ∧
      item.radius = p.radius := by
    simp only [three_items_take]
    exact ⟨fun h => ⟨h.1, h.2, h.3, h.4, h.5⟩, fun h => ⟨h.1, h.2.1, h.2.2.1, h.2.2.2.1, h.2.2.2.2⟩⟩
  rw [parts]
  obtain ⟨x, y, z, mass, velocity, acceleration, radius⟩ := item
  unfold frameParticle
  cases threeItems p.position <;> cases threeItems p.velocity <;>
    cases threeItems p.acceleration <;>
    simp [bind, Except.bind, pure, Except.pure, Prod.ext_iff, eq_comm]
  tauto

theorem frame_items_show (particles : List (ParticleData F)) : ∀ items,
    particles.mapM frameParticle = .ok items ↔ List.Forall₂ Shows particles items := by
  induction particles with
  | nil =>
    intro items
    simp [pure, Except.pure, eq_comm]
  | cons p rest ih =>
    intro items
    rw [List.mapM_cons, List.forall₂_cons_left_iff]
    simp only [← frame_particle_shows, ← ih]
    cases frameParticle p with
    | error e => simp [bind, Except.bind]
    | ok f => cases rest.mapM frameParticle <;>
        simp [bind, Except.bind, pure, Except.pure, eq_comm]

/-- What a frame holds: the time of its step and an item for each particle, in order. -/
theorem build_frame_iff (dt : Rat) (particles : List (ParticleData F)) (step : Nat)
    (frame : Frame F) : buildFrameData dt particles step = .ok frame ↔
      frame.t = roundFour (step * dt) ∧ List.Forall₂ Shows particles frame.particles := by
  rw [← frame_items_show]
  obtain ⟨t, items⟩ := frame
  unfold buildFrameData
  cases particles.mapM frameParticle <;>
    simp [bind, Except.bind, pure, Except.pure, eq_comm]

end MergeAndFrame

import SpaceCube.Orchestrator.CollectUpdates

/- The collector seen one worker at a time. Processing a message is one delivery of the
   library's chunk assembly to the slot of its worker and leaves every other slot alone. -/
namespace WorkerSlots
open InsertionDict ChunkAssembly PyValue ParticleMessages CollectUpdates
variable {F : Type}

def slotOf (c : Collector F) (worker : Key) : Slot Key (ParticleData F) where
  pending := match c.chunksBuffer.get? worker with
    | some buffer => buffer.chunks
    | none => .empty
  done := c.updates.get? worker

def chunkOf (codec : Codec F) (u : Update) : Chunk Key (ParticleData F) where
  index := u.index
  total := u.total.count?
  payload := match deserializeParticles codec u.data with
    | .ok particles => some particles
    | .error _ => none

theorem slot_fresh (worker : Key) : slotOf (.fresh : Collector F) worker = Slot.fresh := rfl

theorem slot_pending_opened (c : Collector F) (worker : Key) (total : Json) :
    ((c.chunksBuffer.get? worker).getD (.opened total)).chunks = (slotOf c worker).pending := by
  unfold slotOf
  cases c.chunksBuffer.get? worker <;> rfl

/-- A stored chunk is a chunk kept by the assembly. -/
theorem store_refines {codec : Codec F} {buffer buffer' : ChunkBuffer F} {u : Update}
    {commitError : Option PyErr}
    (run : storeChunk codec buffer u commitError = .ok buffer') :
    keep buffer.chunks (chunkOf codec u) = some buffer'.chunks := by
  unfold storeChunk at run
  split at run
  · rename_i present
    simp only [Except.ok.injEq] at run
    subst run
    exact keep_present present
  · rename_i absent
    split at run
    · contradiction
    · rename_i particles decoded
      split at run
      · contradiction
      · simp only [Except.ok.injEq] at run
        subst run
        exact keep_new absent (by simp [chunkOf, decoded])

theorem store_total {codec : Codec F} {buffer : ChunkBuffer F} {u : Update}
    {pending : Dict Key (List (ParticleData F))}
    (kept : keep buffer.chunks (chunkOf codec u) = some pending) :
    ∃ buffer', storeChunk codec buffer u none = .ok buffer' ∧ buffer'.chunks = pending := by
  unfold storeChunk
  rcases keep_cases kept with ⟨present, rfl⟩ | ⟨absent, particles, decoded, rfl⟩
  · exact ⟨buffer, dif_pos present, rfl⟩
  · cases read : deserializeParticles codec u.data with
    | error e => simp [chunkOf, read] at decoded
    | ok read_particles =>
      simp only [chunkOf, read, Option.some.injEq] at decoded
      subst decoded
      exact ⟨_, dif_neg absent, rfl⟩

theorem join_gather (chunks : Dict Key (List (ParticleData F))) (n : Nat) :
    (∃ xs, joinChunks chunks n = .ok xs ∧ gather Key.ofNat chunks n = some xs) ∨
    (∃ i, i < n ∧ joinChunks chunks n = .error (.keyError (Key.ofNat i)) ∧
      gather Key.ofNat chunks n = none) := by
  induction n with
  | zero => exact Or.inl ⟨[], rfl, rfl⟩
  | succ n ih =>
    rcases ih with ⟨xs, joined, gathered⟩ | ⟨i, hi, failed, missing⟩
    · cases got : chunks.get? (Key.ofNat n) with
      | some particles =>
        exact Or.inl ⟨xs ++ particles, by simp [joinChunks, joined, got],
          by simp [gather, gathered, got]⟩
      | none =>
        exact Or.inr ⟨n, by omega, by simp [joinChunks, joined, got],
          by simp [gather, gathered, got]⟩
    · exact Or.inr ⟨i, by omega, by simp [joinChunks, failed], by simp [gather, missing]⟩

theorem slot_set_buffer (c : Collector F) (worker other : Key) (buffer : ChunkBuffer F) :
    slotOf (⟨c.updates, c.chunksBuffer.set worker buffer⟩ : Collector F) other =
      if other = worker then ⟨buffer.chunks, c.updates.get? worker⟩ else slotOf c other := by
  by_cases same : other = worker
  · simp [slotOf, same]
  · simp [slotOf, same, get?_set_ne]

theorem slot_complete (c : Collector F) (worker other : Key) (buffer : ChunkBuffer F)
    (xs : List (ParticleData F)) :
    slotOf (⟨c.updates.set worker xs, (c.chunksBuffer.set worker buffer).erase worker⟩ :
      Collector F) other = if other = worker then ⟨.empty, some xs⟩ else slotOf c other := by
  by_cases same : other = worker
  · simp [slotOf, same]
  · simp [slotOf, same, get?_set_ne, get?_erase_ne]

theorem check_refines (codec : Codec F) {c c' : Collector F} {u : Update} {buffer : ChunkBuffer F}
    (run : checkComplete c u buffer = .ok c') :
    finish Key.ofNat (slotOf c u.worker) (chunkOf codec u) buffer.chunks =
        some (slotOf c' u.worker) ∧
      ∀ worker, worker ≠ u.worker → slotOf c' worker = slotOf c worker := by
  unfold checkComplete at run
  split at run
  · rename_i equal
    split at run
    · contradiction
    · rename_i stop range
      obtain ⟨rfl, total⟩ := equals_range_count equal range
      rw [buffer.counted] at run total
      rcases join_gather buffer.chunks buffer.chunks.length with
        ⟨xs, joined, gathered⟩ | ⟨i, _, failed, _⟩
      · simp only [joined, Except.ok.injEq] at run
        subst run
        constructor
        · simp [finish, chunkOf, total, gathered, slot_complete]
        · intro worker other
          simp [slot_complete, other]
      · simp [failed] at run
  · rename_i unequal
    simp only [Except.ok.injEq] at run
    subst run
    constructor
    · have short : (chunkOf codec u).total ≠ some buffer.chunks.length := by
        intro total
        exact unequal ((count_equals total buffer.received).mpr buffer.counted)
      simp only [finish, if_neg short, slot_set_buffer, ↓reduceIte]
      rfl
    · intro worker other
      simp [slot_set_buffer, other]

theorem process_refines {codec : Codec F} {c c' : Collector F} {u : Update}
    {commitError : Option PyErr} (run : processUpdate codec c u commitError = .ok c') :
    deliver Key.ofNat (slotOf c u.worker) (chunkOf codec u) = some (slotOf c' u.worker) ∧
      ∀ worker, worker ≠ u.worker → slotOf c' worker = slotOf c worker := by
  unfold processUpdate at run
  dsimp only at run
  split at run
  · contradiction
  · rename_i buffer stored
    have kept := store_refines stored
    rw [slot_pending_opened] at kept
    obtain ⟨ended, frame⟩ := check_refines codec run
    exact ⟨by simp [deliver, kept, ended], frame⟩

/-- A message that announces a count, decodes and commits is processed unless the
    assembly fails, and then the join raises KeyError for a missing position. -/
theorem process_total {codec : Codec F} {c : Collector F} {u : Update} {T : Nat}
    (total : u.total.count? = some T) {particles : List (ParticleData F)}
    (decoded : deserializeParticles codec u.data = .ok particles) :
    (∃ c', processUpdate codec c u none = .ok c') ∨
    (deliver Key.ofNat (slotOf c u.worker) (chunkOf codec u) = none ∧
      ∃ i, processUpdate codec c u none = .error (.keyError (Key.ofNat i))) := by
  have some_kept : ∃ pending,
      keep (slotOf c u.worker).pending (chunkOf codec u) = some pending := by
    by_cases present : (chunkOf codec u).index ∈ (slotOf c u.worker).pending
    · exact ⟨_, keep_present present⟩
    · exact ⟨_, keep_new present (show _ = some particles by simp [chunkOf, decoded])⟩
  obtain ⟨pending, kept⟩ := some_kept
  rw [← slot_pending_opened c u.worker u.total] at kept
  obtain ⟨buffer, stored, eq⟩ := store_total kept
  simp only [processUpdate, stored, checkComplete, count_range total]
  by_cases equal : u.total.equalsNat buffer.received = true
  · have reached : T = buffer.chunks.length := by
      rw [← buffer.counted]
      exact ((count_equals total buffer.received).mp equal).symm
    simp only [equal, ↓reduceIte]
    rcases join_gather buffer.chunks T with ⟨xs, joined, _⟩ | ⟨i, _, failed, missing⟩
    · exact Or.inl ⟨_, by rw [joined]⟩
    · refine Or.inr ⟨?_, i, by rw [failed]⟩
      rw [slot_pending_opened] at kept
      subst eq
      have count : (chunkOf codec u).total = some buffer.chunks.length := by
        rw [← reached]
        exact total
      simp only [deliver, kept, Option.bind_some, finish, count, ↓reduceIte]
      rw [← reached, missing]
      rfl
  · exact Or.inl ⟨_, if_neg equal⟩

theorem process_progress {codec : Codec F} {c : Collector F} {u : Update} {T : Nat}
    (total : u.total.count? = some T) {particles : List (ParticleData F)}
    (decoded : deserializeParticles codec u.data = .ok particles)
    {s : Slot Key (ParticleData F)}
    (run : deliver Key.ofNat (slotOf c u.worker) (chunkOf codec u) = some s) :
    ∃ c', processUpdate codec c u none = .ok c' := by
  rcases process_total (c := c) total decoded with done | ⟨failed, _⟩
  · exact done
  · rw [run] at failed
    contradiction

/-- The chunk that a polled message delivers to this worker's slot, if it does. -/
def chunkFor (codec : Codec F) (targetStep : Nat) (worker : Key) (d : Delivery) :
    Option (Chunk Key (ParticleData F)) :=
  if validateUpdate d.value targetStep then
    match readUpdate d.value with
    | .ok u => if u.worker = worker then some (chunkOf codec u) else none
    | .error _ => none
  else none

def chunksFor (codec : Codec F) (targetStep : Nat) (worker : Key) (ds : List Delivery) :
    List (Chunk Key (ParticleData F)) := ds.filterMap (chunkFor codec targetStep worker)

theorem chunkFor_some {codec : Codec F} {targetStep : Nat} {worker : Key} {d : Delivery}
    {chunk : Chunk Key (ParticleData F)} (h : chunkFor codec targetStep worker d = some chunk) :
    validateUpdate d.value targetStep = true ∧
      ∃ u, readUpdate d.value = .ok u ∧ u.worker = worker ∧ chunk = chunkOf codec u := by
  unfold chunkFor at h
  split at h
  · rename_i valid
    split at h
    · rename_i u read
      split at h
      · rename_i same
        exact ⟨valid, u, read, same, (Option.some.inj h).symm⟩
      · contradiction
    · contradiction
  · contradiction

theorem chunkFor_read {codec : Codec F} {targetStep : Nat} {d : Delivery} {u : Update}
    (valid : validateUpdate d.value targetStep = true) (read : readUpdate d.value = .ok u)
    (worker : Key) : chunkFor codec targetStep worker d =
      if u.worker = worker then some (chunkOf codec u) else none := by
  simp [chunkFor, valid, read]

theorem chunkFor_invalid {codec : Codec F} {targetStep : Nat} {d : Delivery}
    (invalid : ¬ validateUpdate d.value targetStep = true) (worker : Key) :
    chunkFor codec targetStep worker d = none := by
  simp [chunkFor, invalid]

theorem delivery_projects {codec : Codec F} {targetStep : Nat} {c c' : Collector F}
    {d : Delivery} (run : processDelivery codec targetStep c d = .ok c') (worker : Key) :
    deliverAll Key.ofNat (slotOf c worker) (chunkFor codec targetStep worker d).toList =
      some (slotOf c' worker) := by
  unfold processDelivery at run
  split at run
  · rename_i valid
    split at run
    · contradiction
    · rename_i u read
      obtain ⟨own, frame⟩ := process_refines run
      rw [chunkFor_read valid read]
      by_cases same : u.worker = worker
      · subst same
        rw [if_pos rfl, Option.toList_some, deliverAll_singleton]
        exact own
      · rw [if_neg same, frame worker (Ne.symm same)]
        rfl
  · rename_i invalid
    simp only [Except.ok.injEq] at run
    rw [chunkFor_invalid invalid, run]
    rfl

theorem chunksFor_cons (codec : Codec F) (targetStep : Nat) (worker : Key) (d : Delivery)
    (ds : List Delivery) : chunksFor codec targetStep worker (d :: ds) =
      (chunkFor codec targetStep worker d).toList ++ chunksFor codec targetStep worker ds := by
  simp only [chunksFor, List.filterMap_cons]
  cases chunkFor codec targetStep worker d <;> rfl

theorem process_projects_from {codec : Codec F} {targetStep : Nat} {c c' : Collector F}
    {ds : List Delivery} (run : processAll codec targetStep c ds = .ok c') (worker : Key) :
    deliverAll Key.ofNat (slotOf c worker) (chunksFor codec targetStep worker ds) =
      some (slotOf c' worker) := by
  induction ds generalizing c with
  | nil =>
    simp only [process_nil, Except.ok.injEq] at run
    rw [run]
    rfl
  | cons d ds ih =>
    cases first : processDelivery codec targetStep c d with
    | error e =>
      rw [process_cons_error first] at run
      contradiction
    | ok c₁ =>
      rw [process_cons_ok first] at run
      rw [chunksFor_cons, deliverAll_append, delivery_projects first worker]
      exact ih run

/-- Whatever the workers' messages look like and however they interleave, the slot of each
    worker is the assembly of that worker's own chunks. -/
theorem process_projects {codec : Codec F} {targetStep : Nat} {c : Collector F}
    {ds : List Delivery} (run : processAll codec targetStep .fresh ds = .ok c) (worker : Key) :
    deliverAll Key.ofNat .fresh (chunksFor codec targetStep worker ds) = some (slotOf c worker) :=
  process_projects_from run worker

/-- A message whose processing can only fail in the join. -/
def Wellformed (codec : Codec F) (targetStep : Nat) (d : Delivery) : Prop :=
  validateUpdate d.value targetStep = true → d.commitError = none ∧
    ∃ u T particles, readUpdate d.value = .ok u ∧ u.total.count? = some T ∧
      deserializeParticles codec u.data = .ok particles

theorem process_all_progress {codec : Codec F} {targetStep : Nat} {c : Collector F}
    {ds : List Delivery} (formed : ∀ d ∈ ds, Wellformed codec targetStep d)
    (slots : ∀ worker, ∃ s, deliverAll Key.ofNat (slotOf c worker)
      (chunksFor codec targetStep worker ds) = some s) :
    ∃ c', processAll codec targetStep c ds = .ok c' := by
  induction ds generalizing c with
  | nil => exact ⟨c, rfl⟩
  | cons d ds ih =>
    have first : ∃ c₁, processDelivery codec targetStep c d = .ok c₁ := by
      by_cases valid : validateUpdate d.value targetStep = true
      · obtain ⟨commit, u, T, particles, read, total, decoded⟩ := formed d (by simp) valid
        obtain ⟨s, run⟩ := slots u.worker
        rw [chunksFor_cons, chunkFor_read valid read, if_pos rfl, Option.toList_some,
          List.singleton_append, deliverAll_cons] at run
        obtain ⟨s₁, delivered, _⟩ := Option.bind_eq_some_iff.mp run
        obtain ⟨c₁, done⟩ := process_progress total decoded delivered
        exact ⟨c₁, by simp [processDelivery, valid, read, commit, done]⟩
      · exact ⟨c, by simp [processDelivery, valid]⟩
    obtain ⟨c₁, step⟩ := first
    obtain ⟨c', rest⟩ := ih (c := c₁) (fun e he => formed e (by simp [he])) (by
      intro worker
      obtain ⟨s, run⟩ := slots worker
      rw [chunksFor_cons, deliverAll_append, delivery_projects step worker] at run
      exact ⟨s, run⟩)
    exact ⟨c', by rw [process_cons_ok step]; exact rest⟩

/-- Wellformed messages are processed, or the join misses a position. -/
theorem process_all_total {codec : Codec F} {targetStep : Nat} {c : Collector F}
    {ds : List Delivery} (formed : ∀ d ∈ ds, Wellformed codec targetStep d) :
    (∃ c', processAll codec targetStep c ds = .ok c') ∨
      ∃ i, processAll codec targetStep c ds = .error (.keyError (Key.ofNat i)) := by
  induction ds generalizing c with
  | nil => exact Or.inl ⟨c, rfl⟩
  | cons d ds ih =>
    have first : (∃ c₁, processDelivery codec targetStep c d = .ok c₁) ∨
        ∃ i, processDelivery codec targetStep c d = .error (.keyError (Key.ofNat i)) := by
      by_cases valid : validateUpdate d.value targetStep = true
      · obtain ⟨commit, u, T, particles, read, total, decoded⟩ := formed d (by simp) valid
        simp only [processDelivery, valid, ↓reduceIte, read, commit]
        rcases process_total (c := c) total decoded with done | ⟨_, failed⟩
        · exact Or.inl done
        · exact Or.inr failed
      · exact Or.inl ⟨c, by simp [processDelivery, valid]⟩
    rcases first with ⟨c₁, step⟩ | ⟨i, failed⟩
    · rw [process_cons_ok step]
      exact ih fun e he => formed e (by simp [he])
    · exact Or.inr ⟨i, process_cons_error failed⟩

theorem slot_done (c : Collector F) (worker : Key) :
    (slotOf c worker).done = c.updates.get? worker := rfl

/-- A key of updates has sent at least one validated message. -/
theorem updates_key_sent {codec : Codec F} {targetStep : Nat} {c : Collector F}
    {ds : List Delivery} (run : processAll codec targetStep .fresh ds = .ok c) {worker : Key}
    (member : worker ∈ c.updates) : ∃ d ∈ ds, ∃ chunk,
      chunkFor codec targetStep worker d = some chunk := by
  have projected := process_projects run worker
  cases sent : chunksFor codec targetStep worker ds with
  | nil =>
    rw [sent] at projected
    have fresh : (Slot.fresh : Slot Key (ParticleData F)) = slotOf c worker :=
      Option.some.inj projected
    obtain ⟨v, got⟩ := (mem_iff_get? _ _).mp member
    rw [← slot_done, ← fresh] at got
    simp [Slot.fresh] at got
  | cons chunk rest =>
    have present : chunk ∈ chunksFor codec targetStep worker ds := by simp [sent]
    obtain ⟨d, hd, eq⟩ := List.mem_filterMap.mp present
    exact ⟨d, hd, chunk, eq⟩

end WorkerSlots

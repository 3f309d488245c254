import SpaceCube.Orchestrator.WorkerSlots

/- Framed updates are reassembled exactly, in any order, with any duplication, under any
   interleaving of the workers and any split into polls. -/
namespace ReassemblyRoundTrip
open InsertionDict ChunkAssembly PyValue ParticleMessages CollectUpdates WorkerSlots
variable {F : Type}

/-- A validated message carrying chunk i of T of a worker, with a payload that decodes. -/
structure IsChunk (codec : Codec F) (targetStep workerId i T : Nat)
    (particles : List (ParticleData F)) (data : Json) : Prop where
  valid : validateUpdate data targetStep = true
  worker : data.item "worker_id" = .ok (.int workerId)
  index : data.item "chunk_index" = .ok (.int i)
  total : data.item "total_chunks" = .ok (.int T)
  payload : ∃ field bytes, data.item "updates" = .ok field ∧ b64decode field = .ok bytes ∧
    deserializeParticles codec bytes = .ok particles

theorem chunk_read {codec : Codec F} {targetStep workerId i T : Nat}
    {particles : List (ParticleData F)} {data : Json}
    (h : IsChunk codec targetStep workerId i T particles data) :
    ∃ bytes, readUpdate data = .ok ⟨Key.ofNat workerId, Key.ofNat i, .int T, bytes⟩ ∧
      deserializeParticles codec bytes = .ok particles := by
  obtain ⟨field, bytes, updates, decoded, restored⟩ := h.payload
  refine ⟨bytes, ?_, restored⟩
  simp only [readUpdate, h.worker, h.index, h.total, updates, decoded, Json.hashKey, bind,
    Except.bind, pure, Except.pure, Key.ofNat]

theorem chunk_wellformed {codec : Codec F} {targetStep workerId i T : Nat}
    {particles : List (ParticleData F)} {d : Delivery}
    (h : IsChunk codec targetStep workerId i T particles d.value) (commit : d.commitError = none) :
    Wellformed codec targetStep d := by
  obtain ⟨bytes, read, restored⟩ := chunk_read h
  exact fun _ => ⟨commit, _, T, particles, read, by simp [Json.count?], restored⟩

theorem chunk_for {codec : Codec F} {targetStep workerId i T : Nat}
    {particles : List (ParticleData F)} {d : Delivery}
    (h : IsChunk codec targetStep workerId i T particles d.value) (worker : Key) :
    chunkFor codec targetStep worker d =
      if Key.ofNat workerId = worker then some ⟨Key.ofNat i, some T, some particles⟩ else none := by
  obtain ⟨bytes, read, restored⟩ := chunk_read h
  rw [chunkFor_read h.valid read]
  simp [chunkOf, restored, Json.count?]

section Stream
variable {codec : Codec F} {numWorkers targetStep : Nat} {T : Nat → Nat}
  {payload : Nat → Nat → List (ParticleData F)}

/-- Every validated message is a chunk of a worker in range, with the total and the payload
    fixed for that worker and index. -/
def Stream (codec : Codec F) (numWorkers targetStep : Nat) (T : Nat → Nat)
    (payload : Nat → Nat → List (ParticleData F)) (ds : List Delivery) : Prop :=
  ∀ d ∈ ds, validateUpdate d.value targetStep = true → ∃ w i, w < numWorkers ∧ i < T w ∧
    IsChunk codec targetStep w i (T w) (payload w i) d.value

def Committed (ds : List Delivery) : Prop := ∀ d ∈ ds, d.commitError = none

theorem stream_mono {ds front : List Delivery} (sub : ∀ d ∈ front, d ∈ ds)
    (stream : Stream codec numWorkers targetStep T payload ds) :
    Stream codec numWorkers targetStep T payload front :=
  fun d hd => stream d (sub d hd)

/-- What a message delivers to a slot is the chunk of a worker in range. -/
theorem stream_chunk {ds : List Delivery}
    (stream : Stream codec numWorkers targetStep T payload ds) {worker : Key} {d : Delivery}
    (hd : d ∈ ds) {chunk : Chunk Key (ParticleData F)}
    (sent : chunkFor codec targetStep worker d = some chunk) :
    ∃ w i, w < numWorkers ∧ i < T w ∧ worker = Key.ofNat w ∧
      IsChunk codec targetStep w i (T w) (payload w i) d.value ∧
      chunk = ⟨Key.ofNat i, some (T w), some (payload w i)⟩ := by
  obtain ⟨valid, _⟩ := chunkFor_some sent
  obtain ⟨w, i, hw, hi, h⟩ := stream d hd valid
  rw [chunk_for h] at sent
  split at sent
  · rename_i same
    exact ⟨w, i, hw, hi, same.symm, h, (Option.some.inj sent).symm⟩
  · contradiction

theorem stream_framed {ds : List Delivery}
    (stream : Stream codec numWorkers targetStep T payload ds) (w : Nat) :
    ∀ chunk ∈ chunksFor codec targetStep (Key.ofNat w) ds,
      Framed Key.ofNat (T w) (payload w) chunk := by
  intro chunk member
  obtain ⟨d, hd, sent⟩ := List.mem_filterMap.mp member
  obtain ⟨v, i, _, hi, same, _, eq⟩ := stream_chunk stream hd sent
  obtain rfl := key_ofNat_injective same
  exact ⟨i, hi, eq⟩

theorem stream_wellformed {ds : List Delivery} (commits : Committed ds)
    (stream : Stream codec numWorkers targetStep T payload ds) :
    ∀ d ∈ ds, Wellformed codec targetStep d := by
  intro d hd valid
  obtain ⟨_, _, _, _, h⟩ := stream d hd valid
  exact chunk_wellformed h (commits d hd) valid

theorem stream_processed (positive : ∀ w, w < numWorkers → 1 ≤ T w) {ds : List Delivery}
    (commits : Committed ds) (stream : Stream codec numWorkers targetStep T payload ds) :
    ∃ c, processAll codec targetStep .fresh ds = .ok c := by
  apply process_all_progress (stream_wellformed commits stream)
  intro worker
  rw [slot_fresh]
  cases sent : chunksFor codec targetStep worker ds with
  | nil => exact ⟨_, rfl⟩
  | cons chunk rest =>
    have present : chunk ∈ chunksFor codec targetStep worker ds := by simp [sent]
    obtain ⟨d, hd, eq⟩ := List.mem_filterMap.mp present
    obtain ⟨w, _, hw, _, rfl, _, _⟩ := stream_chunk stream hd eq
    obtain ⟨s, run, _⟩ := exact_run key_ofNat_injective (positive w hw) (stream_framed stream w)
    rw [sent] at run
    exact ⟨s, run⟩

theorem stream_exact (positive : ∀ w, w < numWorkers → 1 ≤ T w) {ds : List Delivery}
    (stream : Stream codec numWorkers targetStep T payload ds) {c : Collector F}
    (run : processAll codec targetStep .fresh ds = .ok c) {w : Nat} (hw : w < numWorkers) :
    Exact Key.ofNat (T w) (payload w) (chunksFor codec targetStep (Key.ofNat w) ds)
      (slotOf c (Key.ofNat w)) := by
  obtain ⟨s, assembled, inv⟩ :=
    exact_run key_ofNat_injective (positive w hw) (stream_framed stream w)
  have projected := process_projects run (Key.ofNat w)
  rw [assembled] at projected
  rw [← Option.some.inj projected]
  exact inv

/-- A chunk of the worker has been sent when a message with its index has. -/
def Occurs (codec : Codec F) (targetStep : Nat) (T : Nat → Nat)
    (payload : Nat → Nat → List (ParticleData F)) (w i : Nat) (ds : List Delivery) : Prop :=
  ∃ d ∈ ds, IsChunk codec targetStep w i (T w) (payload w i) d.value

theorem occurs_iff_chunk {ds : List Delivery}
    (stream : Stream codec numWorkers targetStep T payload ds) (w i : Nat) :
    (∃ chunk ∈ chunksFor codec targetStep (Key.ofNat w) ds, chunk.index = Key.ofNat i) ↔
      Occurs codec targetStep T payload w i ds := by
  constructor
  · rintro ⟨chunk, member, index⟩
    obtain ⟨d, hd, sent⟩ := List.mem_filterMap.mp member
    obtain ⟨v, j, _, _, worker, h, rfl⟩ := stream_chunk stream hd sent
    obtain rfl := key_ofNat_injective worker
    obtain rfl := key_ofNat_injective index
    exact ⟨d, hd, h⟩
  · rintro ⟨d, hd, h⟩
    refine ⟨⟨Key.ofNat i, some (T w), some (payload w i)⟩, ?_, rfl⟩
    exact List.mem_filterMap.mpr ⟨d, hd, by rw [chunk_for h, if_pos rfl]⟩

theorem stream_done_iff (positive : ∀ w, w < numWorkers → 1 ≤ T w) {ds : List Delivery}
    (stream : Stream codec numWorkers targetStep T payload ds) {c : Collector F}
    (run : processAll codec targetStep .fresh ds = .ok c) {w : Nat} (hw : w < numWorkers) :
    Key.ofNat w ∈ c.updates ↔ ∀ i, i < T w → Occurs codec targetStep T payload w i ds := by
  have inv := stream_exact positive stream run hw
  rw [mem_iff_get?]
  refine (exact_done_iff key_ofNat_injective inv).trans ?_
  exact forall₂_congr fun i _ => occurs_iff_chunk stream w i

theorem stream_joined (positive : ∀ w, w < numWorkers → 1 ≤ T w) {ds : List Delivery}
    (stream : Stream codec numWorkers targetStep T payload ds) {c : Collector F}
    (run : processAll codec targetStep .fresh ds = .ok c) {w : Nat} (hw : w < numWorkers)
    (done : Key.ofNat w ∈ c.updates) :
    c.updates.get? (Key.ofNat w) = some (joined (payload w) (T w)) := by
  obtain ⟨xs, got⟩ := (mem_iff_get? _ _).mp done
  rw [got, ((stream_exact positive stream run hw).finished xs got).1]

theorem stream_keys {ds : List Delivery}
    (stream : Stream codec numWorkers targetStep T payload ds) {c : Collector F}
    (run : processAll codec targetStep .fresh ds = .ok c) :
    ∀ k ∈ c.updates, ∃ w, w < numWorkers ∧ k = Key.ofNat w := by
  intro k member
  obtain ⟨d, hd, chunk, sent⟩ := updates_key_sent run member
  obtain ⟨w, _, hw, _, same, _⟩ := stream_chunk stream hd sent
  exact ⟨w, hw, same⟩

theorem stream_returns (positive : ∀ w, w < numWorkers → 1 ≤ T w) {batches : List Batch}
    (commits : Committed (deliveries batches))
    (stream : Stream codec numWorkers targetStep T payload (deliveries batches)) :
    ∃ r rest c, collectUpdates codec numWorkers targetStep (batches.map Except.ok) = .ok r ∧
      batches = r.polled ++ rest ∧
      Stream codec numWorkers targetStep T payload (deliveries r.polled) ∧
      processAll codec targetStep .fresh (deliveries r.polled) = .ok c ∧ r.updates = c.updates ∧
      (numWorkers ≤ r.updates.length ∨ rest = []) := by
  have earlier : ∀ front rest, batches = front ++ rest →
      ∀ d ∈ deliveries front, d ∈ deliveries batches := by
    intro front rest split d hd
    rw [split, deliveries_append]
    exact List.mem_append_left _ hd
  obtain ⟨r, run⟩ := collect_returns numWorkers fun front rest split =>
    stream_processed positive (fun d hd => commits d (earlier front rest split d hd))
      (stream_mono (earlier front rest split) stream)
  obtain ⟨rest, c, split, all, final, stop⟩ := collect_batches_spec run
  refine ⟨r, rest, c, run, split, stream_mono (earlier _ _ split) stream, all, final, ?_⟩
  rw [final]
  exact stop

end Stream

/-- The reply framing a worker shares with distribute_particles. -/
def updateMessage (codec : Codec F) (workerId step chunkIndex totalChunks : Nat)
    (chunk : List (ParticleData F)) : Json :=
  .obj [("type", .str "particle_update"), ("worker_id", .int workerId), ("step", .int step),
    ("chunk_index", .int chunkIndex), ("total_chunks", .int totalChunks),
    ("updates", b64encode (serializeParticles codec chunk))]

/-- A whole reply in one chunk is entered at once. -/
theorem whole_reply {codec : Codec F} {step w : Nat} {particles : List (ParticleData F)}
    {d : Delivery} (chunk : IsChunk codec step w 0 1 particles d.value)
    (commit : d.commitError = none) (updates : Dict Key (List (ParticleData F))) :
    processDelivery codec step ⟨updates, .empty⟩ d =
      .ok ⟨updates.set (Key.ofNat w) particles, .empty⟩ := by
  obtain ⟨bytes, read, decoded⟩ := chunk_read chunk
  have stored : storeChunk codec (.opened (.int (1 : Nat)))
      ⟨Key.ofNat w, Key.ofNat 0, .int (1 : Nat), bytes⟩ d.commitError =
        .ok ((ChunkBuffer.opened (.int (1 : Nat))).store (Key.ofNat 0) particles
          (not_mem_empty _)) := by
    simp [storeChunk, ChunkBuffer.opened, not_mem_empty, decoded, commit]
  have erased : ∀ buffer : ChunkBuffer F,
      (Dict.empty.set (Key.ofNat w) buffer).erase (Key.ofNat w) = .empty :=
    fun buffer => erase_set_absent _ _ _ (not_mem_empty _)
  simp only [processDelivery, chunk.valid, ↓reduceIte, read, processUpdate, get?_empty,
    Option.getD_none, stored, checkComplete, erased]
  rfl

def updateMessages (codec : Codec F) (workerId step : Nat) (particles : List (ParticleData F))
    (chunkSize : Nat) : List Json :=
  let chunks := chunkParticles particles chunkSize
  (List.range chunks.length).map fun i =>
    updateMessage codec workerId step i chunks.length (chunks.getD i [])

theorem update_message_valid (codec : Codec F) (workerId step i T : Nat)
    (chunk : List (ParticleData F)) :
    validateUpdate (updateMessage codec workerId step i T chunk) step = true := by
  simp [validateUpdate, updateMessage, Json.item, Json.toInt, lookup, requiredFields]

theorem update_message_chunk (codec : Codec F) (workerId step i T : Nat)
    {chunk : List (ParticleData F)} (restores : Restores codec chunk) :
    IsChunk codec step workerId i T chunk (updateMessage codec workerId step i T chunk) where
  valid := update_message_valid codec workerId step i T chunk
  worker := by simp [updateMessage, Json.item, lookup]
  index := by simp [updateMessage, Json.item, lookup]
  total := by simp [updateMessage, Json.item, lookup]
  payload := ⟨_, _, by simp [updateMessage, Json.item, lookup], b64decode_b64encode _,
    deserialize_serialize codec chunk restores⟩

/-- The fields of a chunk message determine its worker, index, total and particles. -/
theorem chunk_unique {codec : Codec F} {step w v i j T S : Nat} {xs ys : List (ParticleData F)}
    {data : Json} (h : IsChunk codec step w i T xs data) (k : IsChunk codec step v j S ys data) :
    w = v ∧ i = j ∧ T = S ∧ xs = ys := by
  have worker := h.worker.symm.trans k.worker
  have index := h.index.symm.trans k.index
  have total := h.total.symm.trans k.total
  obtain ⟨field, bytes, updates, decoded, restored⟩ := h.payload
  obtain ⟨field', bytes', updates', decoded', restored'⟩ := k.payload
  obtain rfl : field = field' := Except.ok.inj (updates.symm.trans updates')
  obtain rfl : bytes = bytes' := Except.ok.inj (decoded.symm.trans decoded')
  refine ⟨?_, ?_, ?_, Except.ok.inj (restored.symm.trans restored')⟩
  · exact Int.ofNat.inj (Json.int.inj (Except.ok.inj worker))
  · exact Int.ofNat.inj (Json.int.inj (Except.ok.inj index))
  · exact Int.ofNat.inj (Json.int.inj (Except.ok.inj total))

section Framed
variable {codec : Codec F} {numWorkers targetStep : Nat} {T : Nat → Nat}
  {payload : Nat → Nat → List (ParticleData F)} {ds : List Delivery} {w : Nat}
  {particles : List (ParticleData F)} {chunkSize : Nat}
  (stream : Stream codec numWorkers targetStep T payload ds)
  (restores : ∀ chunk ∈ chunkParticles particles chunkSize, Restores codec chunk)

/-- The message framing chunk i of the particles. -/
def framedMessage (codec : Codec F) (w step : Nat) (particles : List (ParticleData F))
    (chunkSize i : Nat) : Json :=
  updateMessage codec w step i (chunkParticles particles chunkSize).length
    ((chunkParticles particles chunkSize).getD i [])

theorem mem_update_messages {step : Nat} {data : Json} :
    data ∈ updateMessages codec w step particles chunkSize ↔
      ∃ i, i < (chunkParticles particles chunkSize).length ∧
        data = framedMessage codec w step particles chunkSize i := by
  simp only [updateMessages, framedMessage, List.mem_map, List.mem_range]
  exact exists_congr fun i => and_congr_right fun _ => eq_comm

include restores in
theorem framed_message_chunk (step : Nat) {i : Nat}
    (hi : i < (chunkParticles particles chunkSize).length) :
    IsChunk codec step w i (chunkParticles particles chunkSize).length
      ((chunkParticles particles chunkSize).getD i [])
      (framedMessage codec w step particles chunkSize i) := by
  apply update_message_chunk
  apply restores
  simp only [List.getD_eq_getElem?_getD, List.getElem?_eq_getElem hi, Option.getD_some]
  exact List.getElem_mem hi

include stream restores in
/-- A framed message in the stream fixes the worker's total and is its chunk i. -/
theorem framed_occurs {i : Nat} (hi : i < (chunkParticles particles chunkSize).length)
    (sent : ∃ d ∈ ds, d.value = framedMessage codec w targetStep particles chunkSize i) :
    T w = (chunkParticles particles chunkSize).length ∧
      Occurs codec targetStep T payload w i ds := by
  obtain ⟨d, hd, eq⟩ := sent
  have k := framed_message_chunk (w := w) restores targetStep hi
  rw [← eq] at k
  obtain ⟨v, j, _, _, h⟩ := stream d hd k.valid
  obtain ⟨rfl, rfl, total, _⟩ := chunk_unique h k
  exact ⟨total, d, hd, h⟩

include restores in
theorem framed_agree {i : Nat}
    (framed : ∀ d ∈ ds, validateUpdate d.value targetStep = true →
      d.value.item "worker_id" = .ok (.int w) →
      d.value ∈ updateMessages codec w targetStep particles chunkSize)
    (occurs : Occurs codec targetStep T payload w i ds) :
    T w = (chunkParticles particles chunkSize).length ∧
      payload w i = (chunkParticles particles chunkSize).getD i [] ∧
      ∃ d ∈ ds, d.value = framedMessage codec w targetStep particles chunkSize i := by
  obtain ⟨d, hd, h⟩ := occurs
  obtain ⟨j, hj, eq⟩ := mem_update_messages.mp (framed d hd h.valid h.worker)
  have k := framed_message_chunk (w := w) restores targetStep hj
  rw [← eq] at k
  obtain ⟨_, rfl, total, same⟩ := chunk_unique h k
  exact ⟨total, same, d, hd, eq⟩

include stream restores in
/-- A worker that frames one particle list gets exactly that list assembled, once all of
    its messages have been polled. -/
theorem framed_worker (positive : ∀ w, w < numWorkers → 1 ≤ T w) {c : Collector F}
    (run : processAll codec targetStep .fresh ds = .ok c) (hw : w < numWorkers)
    (nonempty : particles ≠ []) (size : 1 ≤ chunkSize)
    (framed : ∀ d ∈ ds, validateUpdate d.value targetStep = true →
      d.value.item "worker_id" = .ok (.int w) →
      d.value ∈ updateMessages codec w targetStep particles chunkSize) :
    (Key.ofNat w ∈ c.updates ↔
      ∀ m ∈ updateMessages codec w targetStep particles chunkSize, ∃ d ∈ ds, d.value = m) ∧
    (Key.ofNat w ∈ c.updates → c.updates.get? (Key.ofNat w) = some particles) := by
  have done_iff := stream_done_iff positive stream run hw
  have some_chunk := chunkParticles_nonempty particles size nonempty
  have some_total := positive w hw
  constructor
  · rw [done_iff]
    constructor
    · intro all m member
      obtain ⟨i, hi, rfl⟩ := mem_update_messages.mp member
      obtain ⟨total, _⟩ := framed_agree restores framed (all 0 (by omega))
      exact (framed_agree restores framed (all i (by omega))).2.2
    · intro all i hi
      have sent : ∀ j, j < (chunkParticles particles chunkSize).length →
          ∃ d ∈ ds, d.value = framedMessage codec w targetStep particles chunkSize j :=
        fun j hj => all _ (mem_update_messages.mpr ⟨j, hj, rfl⟩)
      obtain ⟨total, _⟩ := framed_occurs stream restores (i := 0) (by omega) (sent 0 (by omega))
      exact (framed_occurs stream restores (by omega) (sent i (by omega))).2
  · intro done
    have occurs := done_iff.mp done
    obtain ⟨total, _⟩ := framed_agree restores framed (occurs 0 (by omega))
    rw [stream_joined positive stream run hw done]
    have same : ∀ i, i < T w → payload w i = (chunkParticles particles chunkSize).getD i [] :=
      fun i hi => (framed_agree restores framed (occurs i hi)).2.1
    rw [joined_congr _ _ _ same, total, joined_getD, chunkParticles_flatten particles size]

end Framed

/-- One call of _collect_updates on consistent streams: no error, exactly the workers whose
    every index was polled, their payloads in index order, and a framed list restored. -/
theorem collect_round_trip (codec : Codec F) (numWorkers targetStep : Nat) (T : Nat → Nat)
    (payload : Nat → Nat → List (ParticleData F)) (batches : List Batch)
    (positive : ∀ w, w < numWorkers → 1 ≤ T w) (commits : Committed (deliveries batches))
    (stream : Stream codec numWorkers targetStep T payload (deliveries batches)) :
    ∃ r rest, collectUpdates codec numWorkers targetStep (batches.map Except.ok) = .ok r ∧
      batches = r.polled ++ rest ∧ (numWorkers ≤ r.updates.length ∨ rest = []) ∧
      (∀ k ∈ r.updates, ∃ w, w < numWorkers ∧ k = Key.ofNat w) ∧
      (∀ w, w < numWorkers →
        (Key.ofNat w ∈ r.updates ↔
          ∀ i, i < T w → Occurs codec targetStep T payload w i (deliveries r.polled)) ∧
        (Key.ofNat w ∈ r.updates →
          r.updates.get? (Key.ofNat w) = some ((List.range (T w)).flatMap (payload w)))) ∧
      (∀ w particles chunkSize, w < numWorkers → particles ≠ [] → 1 ≤ chunkSize →
        (∀ chunk ∈ chunkParticles particles chunkSize, Restores codec chunk) →
        (∀ d ∈ deliveries batches, validateUpdate d.value targetStep = true →
          d.value.item "worker_id" = .ok (.int w) →
          d.value ∈ updateMessages codec w targetStep particles chunkSize) →
        (Key.ofNat w ∈ r.updates ↔
          ∀ m ∈ updateMessages codec w targetStep particles chunkSize,
            ∃ d ∈ deliveries r.polled, d.value = m) ∧
        (Key.ofNat w ∈ r.updates → r.updates.get? (Key.ofNat w) = some particles)) := by
  obtain ⟨r, rest, c, run, split, polled, all, final, stop⟩ :=
    stream_returns positive commits stream
  refine ⟨r, rest, run, split, stop, ?_, ?_, ?_⟩
  · rw [final]
    exact stream_keys polled all
  · intro w hw
    rw [final]
    exact ⟨stream_done_iff positive polled all hw, stream_joined positive polled all hw⟩
  · intro w particles chunkSize hw nonempty size restores framed
    rw [final]
    refine framed_worker polled restores positive all hw nonempty size ?_
    intro d hd
    apply framed d
    rw [split, deliveries_append]
    exact List.mem_append_left _ hd

/-- A codec that knows one text, that of a list of at most one particle. -/
def oneTextCodec (text : List UInt8) (particles : List (ParticleData Rat)) : Codec Rat where
  dumps _ := text
  loads data := if data = text then
      .ok (.arr (particles.map fun p => .obj (p.dict fun q => .float (.finite q))))
    else .error .valueError
  number q := .float (.finite q)
  construct _ := match particles with
    | p :: _ => .ok p
    | [] => .error .validationError

theorem one_text_restores (text : List UInt8) (particles : List (ParticleData Rat))
    (single : particles.length ≤ 1) : Restores (oneTextCodec text particles) particles where
  text := by simp [oneTextCodec, serializeParticles]
  record := by
    intro p member
    match particles, single, member with
    | [q], _, member =>
      obtain rfl := List.mem_singleton.mp member
      rfl

def sampleParticle : ParticleData Rat where
  id := "p0"
  position := [1/2, 1/2, 1/2]
  velocity := [0, 0, 0]
  acceleration := [0, 0, 0]
  mass := 1
  radius := 1

def sampleText : List UInt8 :=
  ("[\x7b\"id\": \"p0\", \"position\": [0.5, 0.5, 0.5], \"velocity\": [0.0, 0.0, 0.0], " ++
    "\"acceleration\": [0.0, 0.0, 0.0], \"mass\": 1.0, \"radius\": 1.0\x7d]").toUTF8.toList

def sampleCodec : Codec Rat := oneTextCodec sampleText [sampleParticle]

/-- One worker, one chunk, delivered twice. -/
def sampleBatch : Batch :=
  let message := updateMessage sampleCodec 0 0 0 1 [sampleParticle]
  [[⟨message, none⟩, ⟨message, none⟩]]

def sampleBatches : List Batch := [sampleBatch]

theorem sample_delivery {d : Delivery} (member : d ∈ deliveries sampleBatches) :
    d = ⟨updateMessage sampleCodec 0 0 0 1 [sampleParticle], none⟩ := by
  simpa [sampleBatches, sampleBatch, deliveries] using member

theorem sample_committed : Committed (deliveries sampleBatches) := by
  intro d member
  rw [sample_delivery member]

theorem sample_stream :
    Stream sampleCodec 1 0 (fun _ => 1) (fun _ _ => [sampleParticle])
      (deliveries sampleBatches) := by
  have chunk := update_message_chunk sampleCodec 0 0 0 1
    (one_text_restores sampleText [sampleParticle] (Nat.le_refl 1))
  intro d member
  rw [sample_delivery member]
  exact fun _ => ⟨0, 0, Nat.one_pos, Nat.one_pos, chunk⟩

/-- Three particles with the JSON texts of their chunks of one. -/
def threeParticles : List (ParticleData Rat) :=
  [sampleParticle, { sampleParticle with id := "p1" }, { sampleParticle with id := "p2" }]

def particleText (id : String) : List UInt8 :=
  ("[\x7b\"id\": \"" ++ id ++ "\", \"position\": [0.5, 0.5, 0.5], \"velocity\": " ++
    "[0.0, 0.0, 0.0], \"acceleration\": [0.0, 0.0, 0.0], \"mass\": 1.0, " ++
    "\"radius\": 1.0\x7d]").toUTF8.toList

def threeCodec : Codec Rat where
  dumps
    | .arr [.obj ((_, .str id) :: _)] => particleText id
    | _ => []
  loads data := match threeParticles.find? fun p => particleText p.id = data with
    | some p => .ok (.arr [.obj (p.dict fun q => .float (.finite q))])
    | none => .error .valueError
  number q := .float (.finite q)
  construct
    | (_, .str id) :: _ => match threeParticles.find? fun p => p.id = id with
      | some p => .ok p
      | none => .error .validationError
    | _ => .error .validationError

theorem three_restores : ∀ p ∈ threeParticles, Restores threeCodec [p] := by
  have texts : ∀ p ∈ threeParticles,
      threeParticles.find? (fun q => particleText q.id = particleText p.id) = some p := by
    decide +kernel
  have ids : ∀ p ∈ threeParticles, threeParticles.find? (fun q => q.id = p.id) = some p := by
    decide +kernel
  intro p member
  constructor
  · simp [threeCodec, serializeParticles, ParticleData.dict, texts p member]
  · intro q here
    obtain rfl := List.mem_singleton.mp here
    simp [threeCodec, ParticleData.dict, ids q member]

/-- Worker 0 sends the first two particles, worker 1 the third. -/
def threeTotal (w : Nat) : Nat := if w = 0 then 2 else 1

def threePayload (w i : Nat) : List (ParticleData Rat) :=
  [threeParticles.getD (2 * w + i) sampleParticle]

def threeDelivery (w i : Nat) : Delivery :=
  ⟨updateMessage threeCodec w 0 i (threeTotal w) (threePayload w i), none⟩

/-- Chunk 1 of worker 0 comes first, twice, and its chunk 0 in a second batch. -/
def threeBatches : List Batch :=
  [[[threeDelivery 0 1, threeDelivery 1 0], [threeDelivery 0 1]], [[threeDelivery 0 0]]]

theorem three_delivery {d : Delivery} (member : d ∈ deliveries threeBatches) :
    ∃ w i, w < 2 ∧ i < threeTotal w ∧ d = threeDelivery w i := by
  simp only [deliveries, threeBatches, List.flatten_cons, List.flatten_nil, List.append_nil,
    List.cons_append, List.nil_append, List.mem_cons, List.not_mem_nil, or_false] at member
  rcases member with rfl | rfl | rfl | rfl
  · exact ⟨0, 1, by decide, by decide, rfl⟩
  · exact ⟨1, 0, by decide, by decide, rfl⟩
  · exact ⟨0, 1, by decide, by decide, rfl⟩
  · exact ⟨0, 0, by decide, by decide, rfl⟩

theorem three_chunk {w i : Nat} (worker : w < 2) (index : i < threeTotal w) :
    IsChunk threeCodec 0 w i (threeTotal w) (threePayload w i) (threeDelivery w i).value := by
  apply update_message_chunk
  apply three_restores
  have below : 2 * w + i < threeParticles.length := by
    obtain rfl | rfl : w = 0 ∨ w = 1 := by omega
    · have two : i < 2 := index
      simp only [threeParticles, List.length_cons, List.length_nil]
      omega
    · obtain rfl := Nat.lt_one_iff.mp index
      decide
  simp [List.getD_eq_getElem?_getD, List.getElem?_eq_getElem below]

theorem three_occurs {w i : Nat} (worker : w < 2) (index : i < threeTotal w) :
    Occurs threeCodec 0 threeTotal threePayload w i (deliveries threeBatches) := by
  refine ⟨threeDelivery w i, ?_, three_chunk worker index⟩
  obtain rfl | rfl : w = 0 ∨ w = 1 := by omega
  · obtain rfl | rfl : i = 0 ∨ i = 1 := by
      have two : i < 2 := index
      omega
    · simp [deliveries, threeBatches]
    · simp [deliveries, threeBatches]
  · obtain rfl := Nat.lt_one_iff.mp index
    simp [deliveries, threeBatches]

theorem sample_round_trip :
    ∃ r, collectUpdates threeCodec 2 0 (threeBatches.map Except.ok) = .ok r ∧
      r.updates.get? (Key.ofNat 0) = some (threeParticles.take 2) ∧
      r.updates.get? (Key.ofNat 1) = some (threeParticles.drop 2) := by
  have commits : Committed (deliveries threeBatches) := by
    intro d member
    obtain ⟨w, i, _, _, rfl⟩ := three_delivery member
    rfl
  have stream : Stream threeCodec 2 0 threeTotal threePayload (deliveries threeBatches) := by
    intro d member _
    obtain ⟨w, i, worker, index, rfl⟩ := three_delivery member
    exact ⟨w, i, worker, index, three_chunk worker index⟩
  have positive : ∀ w, w < 2 → 1 ≤ threeTotal w := by decide
  obtain ⟨r, rest, run, split, stop, keys, whole, _⟩ := collect_round_trip threeCodec 2 0
    threeTotal threePayload threeBatches positive commits stream
  have entered : ∀ w, w < 2 → Key.ofNat w ∈ r.updates := by
    intro w worker
    rcases stop with enough | drained
    · have full : r.updates.keys.Perm ((List.range 2).map Key.ofNat) := by
        apply keys_perm_of_full
        · intro k member
          obtain ⟨v, below, rfl⟩ := keys k member
          exact List.mem_map_of_mem (List.mem_range.mpr below)
        · simpa using enough
      exact (mem_iff_keys ..).mpr
        (full.mem_iff.mpr (List.mem_map_of_mem (List.mem_range.mpr worker)))
    · rw [drained, List.append_nil] at split
      rw [(whole w worker).1, ← split]
      exact fun i index => three_occurs worker index
  exact ⟨r, run, (whole 0 (by decide)).2 (entered 0 (by decide)),
    (whole 1 (by decide)).2 (entered 1 (by decide))⟩

end ReassemblyRoundTrip

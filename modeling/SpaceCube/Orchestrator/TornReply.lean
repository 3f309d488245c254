import SpaceCube.Library.MixedAssembly
import SpaceCube.Orchestrator.ReassemblyRoundTrip

/- Two replies of one worker to one step. A retried step asks the worker again, and the
   chunks of both answers meet in one buffer, which knows only worker and index. -/
namespace TornReply
open InsertionDict ChunkAssembly MixedAssembly PyValue ParticleMessages CollectUpdates
open WorkerSlots ReassemblyRoundTrip
variable {F : Type}

/-- A complete reply: the particles of each chunk and the message that carries it. -/
structure Reply (codec : Codec F) (targetStep workerId : Nat) where
  chunks : List (List (ParticleData F))
  message : Nat → Json
  nonempty : 1 ≤ chunks.length
  framed : ∀ i, i < chunks.length →
    IsChunk codec targetStep workerId i chunks.length (piece chunks i) (message i)

section Replies
variable {codec : Codec F} {targetStep workerId : Nat}

def Reply.particles (reply : Reply codec targetStep workerId) : List (ParticleData F) :=
  reply.chunks.flatten

def Reply.delivery (reply : Reply codec targetStep workerId) (i : Nat) : Delivery :=
  ⟨reply.message i, none⟩

/-- A message that is not this worker's: a consistent chunk of another one, or nothing for
    the step. -/
def Other (codec : Codec F) (targetStep workerId : Nat) (T : Nat → Nat)
    (payload : Nat → Nat → List (ParticleData F)) (d : Delivery) : Prop :=
  d.commitError = none ∧ (validateUpdate d.value targetStep = true →
    ∃ w i, w ≠ workerId ∧ i < T w ∧ IsChunk codec targetStep w i (T w) (payload w i) d.value)

/-- What is polled: an entry of the order of the two replies' chunks, or something else. -/
def polledAs (first second : Reply codec targetStep workerId) :
    (Bool × Nat) ⊕ Delivery → Delivery
  | .inl (fromSecond, i) => if fromSecond then second.delivery i else first.delivery i
  | .inr d => d

/-- However the two replies interleave with each other and with the other workers, whatever
    is lost and however the polls split them: no missing index, and what is set is one of the
    two lists. -/
def NeverTorn (numWorkers : Nat) (first second : Reply codec targetStep workerId) : Prop :=
  ∀ (sent : List ((Bool × Nat) ⊕ Delivery)) (T : Nat → Nat)
    (payload : Nat → Nat → List (ParticleData F)) (batches : List Batch),
    InOrder first.chunks second.chunks (sent.filterMap Sum.getLeft?) →
    (∀ d, .inr d ∈ sent → Other codec targetStep workerId T payload d) →
    deliveries batches = sent.map (polledAs first second) →
    (∀ i, collectUpdates codec numWorkers targetStep (batches.map Except.ok) ≠
      .error (.keyError (Key.ofNat i))) ∧
    ∀ r, collectUpdates codec numWorkers targetStep (batches.map Except.ok) = .ok r →
      ∀ particles, r.updates.get? (Key.ofNat workerId) = some particles →
        particles = first.particles ∨ particles = second.particles

/-- A polled message that is one of the two replies' chunks. -/
def Carried (first second : Reply codec targetStep workerId) (d : Delivery) : Prop :=
  (∃ i, i < first.chunks.length ∧ d = first.delivery i) ∨
    ∃ i, i < second.chunks.length ∧ d = second.delivery i

theorem polled_carried {first second : Reply codec targetStep workerId}
    {sent : List ((Bool × Nat) ⊕ Delivery)} {T : Nat → Nat}
    {payload : Nat → Nat → List (ParticleData F)}
    (kept : InOrder first.chunks second.chunks (sent.filterMap Sum.getLeft?))
    (others : ∀ d, .inr d ∈ sent → Other codec targetStep workerId T payload d) :
    ∀ d ∈ sent.map (polledAs first second),
      Carried first second d ∨ Other codec targetStep workerId T payload d := by
  intro d member
  obtain ⟨e, listed, rfl⟩ := List.mem_map.mp member
  cases e with
  | inr d => exact Or.inr (others d listed)
  | inl entry =>
    obtain ⟨b, i⟩ := entry
    have below := in_order_bound kept (List.mem_filterMap.mpr ⟨_, listed, rfl⟩)
    cases b with
    | false => exact Or.inl (Or.inl ⟨i, below, rfl⟩)
    | true => exact Or.inl (Or.inr ⟨i, below, rfl⟩)

theorem reply_chunk_for (reply : Reply codec targetStep workerId) {i : Nat}
    (below : i < reply.chunks.length) (worker : Key) :
    chunkFor codec targetStep worker (reply.delivery i) =
      if Key.ofNat workerId = worker then some (chunkAt Key.ofNat reply.chunks i) else none :=
  chunk_for (reply.framed i below) worker

theorem carried_wellformed {first second : Reply codec targetStep workerId} {d : Delivery}
    (carried : Carried first second d) : Wellformed codec targetStep d := by
  rcases carried with ⟨i, below, rfl⟩ | ⟨i, below, rfl⟩
  · exact chunk_wellformed (first.framed i below) rfl
  · exact chunk_wellformed (second.framed i below) rfl

theorem carried_from {first second : Reply codec targetStep workerId} {d : Delivery}
    {worker : Key} {chunk : Chunk Key (ParticleData F)} (carried : Carried first second d)
    (sent : chunkFor codec targetStep worker d = some chunk) :
    From Key.ofNat first.chunks chunk ∨ From Key.ofNat second.chunks chunk := by
  rcases carried with ⟨i, below, rfl⟩ | ⟨i, below, rfl⟩
  · rw [reply_chunk_for first below] at sent
    split at sent
    · exact Or.inl ⟨i, below, (Option.some.inj sent).symm⟩
    · contradiction
  · rw [reply_chunk_for second below] at sent
    split at sent
    · exact Or.inr ⟨i, below, (Option.some.inj sent).symm⟩
    · contradiction

/-- Other messages reach other slots only. -/
theorem other_chunk {T : Nat → Nat} {payload : Nat → Nat → List (ParticleData F)} {d : Delivery}
    {worker : Key} {chunk : Chunk Key (ParticleData F)}
    (other : Other codec targetStep workerId T payload d)
    (sent : chunkFor codec targetStep worker d = some chunk) :
    ∃ w i, w ≠ workerId ∧ i < T w ∧ worker = Key.ofNat w ∧
      chunk = ⟨Key.ofNat i, some (T w), some (payload w i)⟩ := by
  obtain ⟨w, i, apart, below, h⟩ := other.2 (chunkFor_some sent).1
  rw [chunk_for h] at sent
  split at sent
  · rename_i same
    exact ⟨w, i, apart, below, same.symm, (Option.some.inj sent).symm⟩
  · contradiction

theorem polled_wellformed {first second : Reply codec targetStep workerId} {T : Nat → Nat}
    {payload : Nat → Nat → List (ParticleData F)} {d : Delivery}
    (sent : Carried first second d ∨ Other codec targetStep workerId T payload d) :
    Wellformed codec targetStep d := by
  rcases sent with carried | other
  · exact carried_wellformed carried
  · intro valid
    obtain ⟨_, _, _, _, h⟩ := other.2 valid
    exact chunk_wellformed h other.1 valid

section Polled
variable {first second : Reply codec targetStep workerId} {T : Nat → Nat}
  {payload : Nat → Nat → List (ParticleData F)} {ds : List Delivery}
  (sent : ∀ d ∈ ds, Carried first second d ∨ Other codec targetStep workerId T payload d)

include sent in
theorem own_chunks : ∀ chunk ∈ chunksFor codec targetStep (Key.ofNat workerId) ds,
    From Key.ofNat first.chunks chunk ∨ From Key.ofNat second.chunks chunk := by
  intro chunk member
  obtain ⟨d, hd, eq⟩ := List.mem_filterMap.mp member
  rcases sent d hd with carried | other
  · exact carried_from carried eq
  · obtain ⟨w, _, apart, _, same, _⟩ := other_chunk other eq
    exact absurd (key_ofNat_injective same).symm apart

include sent in
theorem other_chunks {worker : Key} (apart : worker ≠ Key.ofNat workerId) :
    ∀ chunk ∈ chunksFor codec targetStep worker ds, ∃ w i, i < T w ∧ worker = Key.ofNat w ∧
      chunk = ⟨Key.ofNat i, some (T w), some (payload w i)⟩ := by
  intro chunk member
  obtain ⟨d, hd, eq⟩ := List.mem_filterMap.mp member
  rcases sent d hd with (⟨i, below, rfl⟩ | ⟨i, below, rfl⟩) | other
  · rw [reply_chunk_for first below, if_neg apart.symm] at eq
    contradiction
  · rw [reply_chunk_for second below, if_neg apart.symm] at eq
    contradiction
  · obtain ⟨w, i, _, below, same, rfl⟩ := other_chunk other eq
    exact ⟨w, i, below, same, rfl⟩

include sent in
/-- With compatible replies a worker's entry is one of the two lists, in any delivery
    order, with duplicates, and with whatever the other workers send in between. -/
theorem compatible_entry (compatible : Compatible first.chunks second.chunks) {c : Collector F}
    (run : processAll codec targetStep .fresh ds = .ok c) {particles : List (ParticleData F)}
    (entry : c.updates.get? (Key.ofNat workerId) = some particles) :
    particles = first.particles ∨ particles = second.particles := by
  obtain ⟨s, assembled, inv⟩ := blended_run key_ofNat_injective compatible _ (own_chunks sent)
  rw [process_projects run] at assembled
  obtain rfl := Option.some.inj assembled
  exact inv.finished particles entry

include sent in
theorem compatible_processed (compatible : Compatible first.chunks second.chunks) :
    ∃ c, processAll codec targetStep .fresh ds = .ok c := by
  apply process_all_progress fun d hd => polled_wellformed (sent d hd)
  intro worker
  rw [slot_fresh]
  by_cases own : worker = Key.ofNat workerId
  · subst own
    obtain ⟨s, run, _⟩ := blended_run key_ofNat_injective compatible _ (own_chunks sent)
    exact ⟨s, run⟩
  · have framed := other_chunks sent own
    cases chunks : chunksFor codec targetStep worker ds with
    | nil => exact ⟨_, rfl⟩
    | cons chunk rest =>
      rw [chunks] at framed
      obtain ⟨w, i, below, rfl, _⟩ := framed chunk List.mem_cons_self
      have exactly : ∀ c ∈ chunk :: rest, Framed Key.ofNat (T w) (payload w) c := by
        intro c member
        obtain ⟨v, j, below, same, eq⟩ := framed c member
        obtain rfl := key_ofNat_injective same
        exact ⟨j, below, eq⟩
      obtain ⟨s, run, _⟩ := exact_run key_ofNat_injective (show 1 ≤ T w by omega) exactly
      exact ⟨s, run⟩

end Polled

theorem compatible_never_torn (numWorkers : Nat) {first second : Reply codec targetStep workerId}
    (compatible : Compatible first.chunks second.chunks) : NeverTorn numWorkers first second := by
  intro sent T payload batches kept others polled
  have carried : ∀ front rest, batches = front ++ rest → ∀ d ∈ deliveries front,
      Carried first second d ∨ Other codec targetStep workerId T payload d := by
    intro front rest split d hd
    apply polled_carried kept others
    rw [← polled, split, deliveries_append]
    exact List.mem_append_left _ hd
  constructor
  · intro i failed
    obtain ⟨r, run⟩ := collect_returns numWorkers fun front rest split =>
      compatible_processed (carried front rest split) compatible
    rw [run] at failed
    contradiction
  · intro r run particles entry
    obtain ⟨rest, c, split, all, final, _⟩ := collect_batches_spec run
    rw [final] at entry
    exact compatible_entry (carried _ _ split) compatible all entry

theorem polled_chunks {first second : Reply codec targetStep workerId} {order : Order}
    (kept : InOrder first.chunks second.chunks order) :
    chunksFor codec targetStep (Key.ofNat workerId)
        (order.map fun e => polledAs first second (.inl e)) =
      render Key.ofNat first.chunks second.chunks order := by
  have each : ∀ e ∈ order,
      chunkFor codec targetStep (Key.ofNat workerId) (polledAs first second (.inl e)) =
        some (chunkAt Key.ofNat (if e.1 then second.chunks else first.chunks) e.2) := by
    intro e member
    obtain ⟨b, i⟩ := e
    have below := in_order_bound kept member
    cases b with
    | false => exact (reply_chunk_for first below _).trans (if_pos rfl)
    | true => exact (reply_chunk_for second below _).trans (if_pos rfl)
  simp only [chunksFor, List.filterMap_map, Function.comp_def]
  rw [List.filterMap_congr each]
  exact congrFun List.filterMap_eq_map order

/-- A pair that never tears keeps every order of its chunks in one slot whole. -/
theorem untorn_of_never_torn {numWorkers : Nat} {first second : Reply codec targetStep workerId}
    (safe : NeverTorn numWorkers first second) (order : Order)
    (kept : InOrder first.chunks second.chunks order) :
    Untorn Key.ofNat first.chunks second.chunks order := by
  let sent : List ((Bool × Nat) ⊕ Delivery) := order.map .inl
  have kept' : InOrder first.chunks second.chunks (sent.filterMap Sum.getLeft?) := by
    have only : sent.filterMap Sum.getLeft? = order := by
      simp [sent, List.filterMap_map, Function.comp_def]
    rw [only]
    exact kept
  have none_else : ∀ d, .inr d ∈ sent →
      Other codec targetStep workerId (fun _ => 0) (fun _ _ => []) d := by
    simp [sent]
  have one_batch : deliveries [[sent.map (polledAs first second)]] =
      sent.map (polledAs first second) := by
    simp [deliveries]
  have chunks := polled_chunks kept
  rw [← Function.comp_def, ← List.map_map] at chunks
  obtain ⟨no_gap, whole⟩ := safe _ _ _ _ kept' none_else one_batch
  simp only [List.map_cons, List.map_nil, collect_single] at no_gap whole
  have formed : ∀ d ∈ sent.map (polledAs first second), Wellformed codec targetStep d :=
    fun d hd => polled_wellformed (polled_carried kept' none_else d hd)
  rcases process_all_total (c := .fresh) formed with ⟨c, run⟩ | ⟨i, failed⟩
  · refine ⟨slotOf c (Key.ofNat workerId), ?_, ?_⟩
    · rw [← chunks]
      exact process_projects run _
    · intro out done
      rw [run] at whole
      exact whole _ rfl out done
  · exact absurd (by rw [failed]; rfl) (no_gap i)

theorem compatible_of_never_torn {numWorkers : Nat}
    {first second : Reply codec targetStep workerId} (safe : NeverTorn numWorkers first second) :
    Compatible first.chunks second.chunks :=
  compatible_of_untorn key_ofNat_injective first.nonempty second.nonempty
    (untorn_of_never_torn safe)

/-- Two replies to one step cannot tear exactly when their blends cannot be told from
    them: equal totals and at most one differing chunk, or a single chunk against a reply
    that begins with it or carries nothing after its first. -/
theorem never_torn_iff (numWorkers : Nat) (first second : Reply codec targetStep workerId) :
    NeverTorn numWorkers first second ↔ Compatible first.chunks second.chunks :=
  ⟨compatible_of_never_torn, compatible_never_torn numWorkers⟩

end Replies

/-- The sample particle in chunks of one, as often as asked. -/
def sampleReply (n : Nat) (positive : 1 ≤ n) : Reply sampleCodec 0 0 where
  chunks := List.replicate n [sampleParticle]
  message i := updateMessage sampleCodec 0 0 i n [sampleParticle]
  nonempty := by simpa using positive
  framed i below := by
    have same : piece (List.replicate n [sampleParticle]) i = [sampleParticle] := by
      simp only [List.length_replicate] at below
      simp [piece, List.getD_eq_getElem?_getD, below]
    rw [same, List.length_replicate]
    exact update_message_chunk sampleCodec 0 0 i n
      (one_text_restores sampleText [sampleParticle] (Nat.le_refl 1))

theorem sample_processed (n : Nat) (positive : 1 ≤ n) (i : Nat) :
    ∃ bytes, deserializeParticles sampleCodec bytes = .ok [sampleParticle] ∧
      ∀ c, processDelivery sampleCodec 0 c ((sampleReply n positive).delivery i) =
        processUpdate sampleCodec c ⟨Key.ofNat 0, Key.ofNat i, .int n, bytes⟩ none := by
  have chunk := update_message_chunk sampleCodec 0 0 i n
    (one_text_restores sampleText [sampleParticle] (Nat.le_refl 1))
  obtain ⟨bytes, read, decoded⟩ := chunk_read chunk
  refine ⟨bytes, decoded, fun c => ?_⟩
  simp only [processDelivery, Reply.delivery, sampleReply, chunk.valid, ↓reduceIte, read]

/-- The last of three chunks, then the first of two: two chunks counted, index 1 missing. -/
theorem torn_totals :
    collectUpdates sampleCodec 2 0 [.ok [[(sampleReply 3 (by decide)).delivery 2,
      (sampleReply 2 (by decide)).delivery 0]]] = .error (.keyError (Key.ofNat 1)) ∧
    ¬ NeverTorn 2 (sampleReply 3 (by decide)) (sampleReply 2 (by decide)) := by
  have failed : collectUpdates sampleCodec 2 0 [.ok [[(sampleReply 3 (by decide)).delivery 2,
      (sampleReply 2 (by decide)).delivery 0]]] = .error (.keyError (Key.ofNat 1)) := by
    obtain ⟨bytes, decoded, late⟩ := sample_processed 3 (by decide) 2
    obtain ⟨bytes', decoded', early⟩ := sample_processed 2 (by decide) 0
    have buffered : processUpdate sampleCodec .fresh
        ⟨Key.ofNat 0, Key.ofNat 2, .int 3, bytes⟩ none =
        .ok ⟨.empty, Dict.empty.set (Key.ofNat 0)
          ⟨.int 3, Dict.empty.set (Key.ofNat 2) [sampleParticle], 1, rfl⟩⟩ := by
      simp only [processUpdate, storeChunk, decoded]
      rfl
    have counted : processUpdate sampleCodec ⟨.empty, Dict.empty.set (Key.ofNat 0)
          ⟨.int 3, Dict.empty.set (Key.ofNat 2) [sampleParticle], 1, rfl⟩⟩
        ⟨Key.ofNat 0, Key.ofNat 0, .int 2, bytes'⟩ none = .error (.keyError (Key.ofNat 1)) := by
      simp only [processUpdate, storeChunk, decoded']
      rfl
    rw [collect_single, process_cons_ok ((late _).trans buffered),
      process_cons_error ((early _).trans counted)]
    rfl
  have order : InOrder (sampleReply 3 (by decide)).chunks (sampleReply 2 (by decide)).chunks
      [(false, 2), (true, 0)] := by
    constructor <;> decide
  exact ⟨failed, fun safe => (safe [.inl (false, 2), .inl (true, 0)] (fun _ => 1)
    (fun _ _ => []) [[[_, _]]] order (by simp) rfl).1 1 failed⟩

end TornReply

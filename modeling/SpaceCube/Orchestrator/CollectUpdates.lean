import SpaceCube.Library.ChunkAssembly
import SpaceCube.Orchestrator.ParticleMessages

/- One call of _collect_updates, message by message. Its two local dictionaries refine,
   worker by worker, the chunk assembly of the library. -/
namespace CollectUpdates
open InsertionDict PyValue ParticleMessages
variable {F : Type}

/-- total is stored when the buffer is opened and never read again. -/
structure ChunkBuffer (F : Type) where
  total : Json
  chunks : Dict Key (List (ParticleData F))
  received : Nat
  counted : received = chunks.length

def ChunkBuffer.opened (total : Json) : ChunkBuffer F := ⟨total, .empty, 0, rfl⟩

structure Collector (F : Type) where
  updates : Dict Key (List (ParticleData F))
  chunksBuffer : Dict Key (ChunkBuffer F)

def Collector.fresh : Collector F := ⟨.empty, .empty⟩

/-- A polled message and what the offset commit made for it raises, if anything. -/
structure Delivery where
  value : Json
  commitError : Option PyErr

/-- The message lists of one poll, partition by partition. -/
abbrev Batch := List (List Delivery)

def ChunkBuffer.store (buffer : ChunkBuffer F) (index : Key) (particles : List (ParticleData F))
    (new : index ∉ buffer.chunks) : ChunkBuffer F where
  total := buffer.total
  chunks := buffer.chunks.set index particles
  received := buffer.received + 1
  counted := by rw [length_set, if_neg new, buffer.counted]

/-- A chunk already present is not decoded and not committed. -/
def storeChunk (codec : Codec F) (buffer : ChunkBuffer F) (u : Update)
    (commitError : Option PyErr) : Except PyErr (ChunkBuffer F) :=
  if present : u.index ∈ buffer.chunks then .ok buffer
  else match deserializeParticles codec u.data with
    | .error e => .error e
    | .ok particles => match commitError with
      | some e => .error e
      | none => .ok (buffer.store u.index particles present)

/-- The joining loop over range(total_chunks). -/
def joinChunks (chunks : Dict Key (List (ParticleData F))) :
    Nat → Except PyErr (List (ParticleData F))
  | 0 => .ok []
  | n + 1 => match joinChunks chunks n with
    | .error e => .error e
    | .ok allUpdates => match chunks.get? (Key.ofNat n) with
      | some particles => .ok (allUpdates ++ particles)
      | none => .error (.keyError (Key.ofNat n))

/-- The completeness test and what follows it. -/
def checkComplete (c : Collector F) (u : Update) (buffer : ChunkBuffer F) :
    Except PyErr (Collector F) :=
  if u.total.equalsNat buffer.received then
    match u.total.rangeStop with
    | .error e => .error e
    | .ok stop => match joinChunks buffer.chunks stop with
      | .error e => .error e
      | .ok allUpdates =>
        .ok ⟨c.updates.set u.worker allUpdates,
          (c.chunksBuffer.set u.worker buffer).erase u.worker⟩
  else .ok ⟨c.updates, c.chunksBuffer.set u.worker buffer⟩

def processUpdate (codec : Codec F) (c : Collector F) (u : Update)
    (commitError : Option PyErr) : Except PyErr (Collector F) :=
  let buffer := (c.chunksBuffer.get? u.worker).getD (.opened u.total)
  match storeChunk codec buffer u commitError with
  | .error e => .error e
  | .ok buffer => checkComplete c u buffer

def processDelivery (codec : Codec F) (targetStep : Nat) (c : Collector F) (d : Delivery) :
    Except PyErr (Collector F) :=
  if validateUpdate d.value targetStep then
    match readUpdate d.value with
    | .error e => .error e
    | .ok u => processUpdate codec c u d.commitError
  else .ok c

def processAll (codec : Codec F) (targetStep : Nat) (c : Collector F) (ds : List Delivery) :
    Except PyErr (Collector F) := ds.foldlM (processDelivery codec targetStep) c

def processBatch (codec : Codec F) (targetStep : Nat) (c : Collector F) (batch : Batch) :
    Except PyErr (Collector F) := batch.foldlM (processAll codec targetStep) c

def deliveries (batches : List Batch) : List Delivery := batches.flatten.flatten

/-- What the call returns, with the batches polled before it returned. -/
structure Collected (F : Type) where
  updates : Dict Key (List (ParticleData F))
  polled : List Batch

/-- polls lists what the successive polls give until the time is up; a poll may raise. -/
def collectLoop (codec : Codec F) (numWorkers targetStep : Nat) :
    Collector F → List Batch → List (Except PyErr Batch) → Except PyErr (Collected F)
  | c, polled, [] => .ok ⟨c.updates, polled⟩
  | _, _, .error e :: _ => .error e
  | c, polled, .ok batch :: rest =>
    match processBatch codec targetStep c batch with
    | .error e => .error e
    | .ok c =>
      if numWorkers ≤ c.updates.length then .ok ⟨c.updates, polled ++ [batch]⟩
      else collectLoop codec numWorkers targetStep c (polled ++ [batch]) rest

def collectUpdates (codec : Codec F) (numWorkers targetStep : Nat)
    (polls : List (Except PyErr Batch)) : Except PyErr (Collected F) :=
  collectLoop codec numWorkers targetStep .fresh [] polls

theorem process_nil (codec : Codec F) (targetStep : Nat) (c : Collector F) :
    processAll codec targetStep c [] = .ok c := rfl

theorem process_append (codec : Codec F) (targetStep : Nat) (c : Collector F)
    (xs ys : List Delivery) :
    processAll codec targetStep c (xs ++ ys) =
      (processAll codec targetStep c xs).bind (processAll codec targetStep · ys) := by
  simp only [processAll, List.foldlM_append]
  rfl

theorem process_append_ok {codec : Codec F} {targetStep : Nat} {c c' : Collector F}
    {xs ys : List Delivery} (front : processAll codec targetStep c xs = .ok c') :
    processAll codec targetStep c (xs ++ ys) = processAll codec targetStep c' ys := by
  rw [process_append, front]
  rfl

theorem process_cons_ok {codec : Codec F} {targetStep : Nat} {c c' : Collector F} {d : Delivery}
    {ds : List Delivery} (first : processDelivery codec targetStep c d = .ok c') :
    processAll codec targetStep c (d :: ds) = processAll codec targetStep c' ds := by
  simp only [processAll, List.foldlM_cons, first]
  rfl

theorem process_cons_error {codec : Codec F} {targetStep : Nat} {c : Collector F} {d : Delivery}
    {ds : List Delivery} {e : PyErr} (first : processDelivery codec targetStep c d = .error e) :
    processAll codec targetStep c (d :: ds) = .error e := by
  simp only [processAll, List.foldlM_cons, first]
  rfl

/-- The partitions of a batch make no difference beyond the order of its messages. -/
theorem process_batch_flatten (codec : Codec F) (targetStep : Nat) (c : Collector F)
    (batch : Batch) :
    processBatch codec targetStep c batch = processAll codec targetStep c batch.flatten := by
  induction batch generalizing c with
  | nil => rfl
  | cons messages rest ih =>
    rw [List.flatten_cons, process_append]
    simp only [processBatch, List.foldlM_cons]
    cases processAll codec targetStep c messages with
    | error e => rfl
    | ok c' => exact ih c'

theorem deliveries_append (xs ys : List Batch) :
    deliveries (xs ++ ys) = deliveries xs ++ deliveries ys := by
  simp [deliveries]

theorem deliveries_singleton (batch : Batch) : deliveries [batch] = batch.flatten := by
  simp [deliveries]

/-- Everything a successful call has done: it processed the batches it polled, in order,
    and stopped early only with at least num_workers entries. -/
theorem collect_loop_spec {codec : Codec F} {numWorkers targetStep : Nat} {c : Collector F}
    {polled : List Batch} {polls : List (Except PyErr Batch)} {r : Collected F}
    (run : collectLoop codec numWorkers targetStep c polled polls = .ok r) :
    ∃ more rest c', r.polled = polled ++ more ∧ polls = more.map Except.ok ++ rest ∧
      processAll codec targetStep c (deliveries more) = .ok c' ∧ r.updates = c'.updates ∧
      (numWorkers ≤ c'.updates.length ∨ rest = []) := by
  induction polls generalizing c polled with
  | nil =>
    simp only [collectLoop, Except.ok.injEq] at run
    subst run
    exact ⟨[], [], c, by simp, rfl, rfl, rfl, Or.inr rfl⟩
  | cons poll rest ih =>
    cases poll with
    | error e => simp [collectLoop] at run
    | ok batch =>
      simp only [collectLoop] at run
      cases step : processBatch codec targetStep c batch with
      | error e => simp [step] at run
      | ok c₁ =>
        rw [process_batch_flatten] at step
        simp only [process_batch_flatten, step] at run
        split at run
        · rename_i enough
          simp only [Except.ok.injEq] at run
          subst run
          refine ⟨[batch], rest, c₁, rfl, rfl, ?_, rfl, Or.inl enough⟩
          rw [deliveries_singleton]
          exact step
        · obtain ⟨more, later, c', eq, split, all, final, stop⟩ := ih run
          refine ⟨batch :: more, later, c', by simp [eq], by simp [split], ?_, final, stop⟩
          have front : deliveries (batch :: more) = batch.flatten ++ deliveries more := by
            simp [deliveries]
          rw [front, process_append_ok step]
          exact all

theorem collect_spec {codec : Codec F} {numWorkers targetStep : Nat}
    {polls : List (Except PyErr Batch)} {r : Collected F}
    (run : collectUpdates codec numWorkers targetStep polls = .ok r) :
    ∃ rest c, polls = r.polled.map Except.ok ++ rest ∧
      processAll codec targetStep .fresh (deliveries r.polled) = .ok c ∧
      r.updates = c.updates ∧ (numWorkers ≤ c.updates.length ∨ rest = []) := by
  obtain ⟨more, rest, c, eq, split, all, final, stop⟩ := collect_loop_spec run
  rw [List.nil_append] at eq
  subst eq
  exact ⟨rest, c, split, all, final, stop⟩

theorem collect_batches_spec {codec : Codec F} {numWorkers targetStep : Nat}
    {batches : List Batch} {r : Collected F}
    (run : collectUpdates codec numWorkers targetStep (batches.map Except.ok) = .ok r) :
    ∃ rest c, batches = r.polled ++ rest ∧
      processAll codec targetStep .fresh (deliveries r.polled) = .ok c ∧
      r.updates = c.updates ∧ (numWorkers ≤ c.updates.length ∨ rest = []) := by
  obtain ⟨later, c, split, all, final, stop⟩ := collect_spec run
  obtain ⟨front, rest, eq, hfront, hrest⟩ := List.map_eq_append_iff.mp split
  have same : front = r.polled := List.map_injective_iff.mpr (fun a b h => Except.ok.inj h) hfront
  subst same
  refine ⟨rest, c, eq, all, final, stop.imp_right fun drained => ?_⟩
  rw [drained] at hrest
  exact List.map_eq_nil_iff.mp hrest

theorem collect_loop_returns {codec : Codec F} {numWorkers targetStep : Nat}
    (ds : List Delivery) {c : Collector F} {polled batches : List Batch}
    (all : ∀ front rest, batches = front ++ rest →
      ∃ c', processAll codec targetStep .fresh (ds ++ deliveries front) = .ok c')
    (start : processAll codec targetStep .fresh ds = .ok c) :
    ∃ r, collectLoop codec numWorkers targetStep c polled (batches.map Except.ok) = .ok r := by
  induction batches generalizing ds c polled with
  | nil => exact ⟨_, rfl⟩
  | cons batch rest ih =>
    obtain ⟨c₁, step⟩ := all [batch] rest rfl
    rw [deliveries_singleton] at step
    have next : processBatch codec targetStep c batch = .ok c₁ := by
      rw [process_batch_flatten, ← process_append_ok start]
      exact step
    simp only [List.map_cons, collectLoop, next]
    split
    · exact ⟨_, rfl⟩
    · apply ih (ds ++ batch.flatten) _ step
      intro front later split
      obtain ⟨c', run⟩ := all (batch :: front) later (by rw [split]; rfl)
      refine ⟨c', ?_⟩
      have regroup : deliveries (batch :: front) = batch.flatten ++ deliveries front := by
        simp [deliveries]
      rw [regroup, ← List.append_assoc] at run
      exact run

/-- A call on batches whose messages can all be processed returns. -/
theorem collect_returns {codec : Codec F} (numWorkers : Nat) {targetStep : Nat}
    {batches : List Batch}
    (all : ∀ front rest, batches = front ++ rest →
      ∃ c, processAll codec targetStep .fresh (deliveries front) = .ok c) :
    ∃ r, collectUpdates codec numWorkers targetStep (batches.map Except.ok) = .ok r := by
  apply collect_loop_returns [] _ rfl
  intro front rest split
  obtain ⟨c, run⟩ := all front rest split
  exact ⟨c, run⟩

/-- A call that polls once returns what it has processed. -/
theorem collect_single (codec : Codec F) (numWorkers targetStep : Nat) (ds : List Delivery) :
    collectUpdates codec numWorkers targetStep [.ok [ds]] =
      (processAll codec targetStep .fresh ds).map fun c => ⟨c.updates, [[ds]]⟩ := by
  simp only [collectUpdates, collectLoop, process_batch_flatten, List.flatten_cons,
    List.flatten_nil, List.append_nil]
  cases processAll codec targetStep .fresh ds with
  | error e => rfl
  | ok c => exact ite_self _

end CollectUpdates

import SpaceCube.Library.ChunkAssembly

/- Which messages a joined list was taken from. The same assembly is run with every payload
   replaced by the message that carries it. -/
namespace TracedAssembly
open InsertionDict ChunkAssembly

variable {I A B M : Type*}

def Chunk.expand (h : A → List B) (c : Chunk I A) : Chunk I B :=
  ⟨c.index, c.total, c.payload.map (·.flatMap h)⟩

def Slot.expand (h : A → List B) (s : Slot I A) : Slot I B :=
  ⟨s.pending.mapValues (·.flatMap h), s.done.map (·.flatMap h)⟩

/-- The chunk of a message with the message itself for its payload. -/
def traced (read : M → Option (Chunk I A)) (m : M) : Option (Chunk I M) :=
  (read m).map fun c => ⟨c.index, c.total, c.payload.map fun _ => [m]⟩

def contents (read : M → Option (Chunk I A)) (m : M) : List A :=
  ((read m).bind Chunk.payload).getD []

theorem traced_expand (read : M → Option (Chunk I A)) (m : M) :
    (traced read m).map (Chunk.expand (contents read)) = read m := by
  cases got : read m with
  | none => simp [traced, got]
  | some c =>
    obtain ⟨index, total, payload⟩ := c
    cases payload with
    | none => simp [traced, Chunk.expand, got]
    | some ps => simp [traced, Chunk.expand, contents, got]

variable [DecidableEq I]

section Natural
variable (h : A → List B) (pos : Nat → I)

theorem gather_expand (pending : Dict I (List A)) (n : Nat) :
    gather pos (pending.mapValues (·.flatMap h)) n = (gather pos pending n).map (·.flatMap h) := by
  induction n with
  | zero => rfl
  | succ n ih =>
    simp only [gather, ih, get?_mapValues]
    cases gather pos pending n with
    | none => rfl
    | some xs => cases pending.get? (pos n) <;> simp

theorem keep_expand (pending : Dict I (List A)) (c : Chunk I A) :
    keep (pending.mapValues (·.flatMap h)) (Chunk.expand h c) =
      (keep pending c).map (Dict.mapValues (·.flatMap h)) := by
  simp only [keep, Chunk.expand, mem_mapValues]
  split
  · rfl
  · cases c.payload with
    | none => rfl
    | some ps => simp [mapValues_set]

theorem finish_expand (s : Slot I A) (c : Chunk I A) (pending : Dict I (List A)) :
    finish pos (Slot.expand h s) (Chunk.expand h c) (pending.mapValues (·.flatMap h)) =
      (finish pos s c pending).map (Slot.expand h) := by
  simp only [finish, Chunk.expand, length_mapValues, gather_expand]
  split
  · cases gather pos pending pending.length <;> rfl
  · rfl

theorem deliver_expand (s : Slot I A) (c : Chunk I A) :
    deliver pos (Slot.expand h s) (Chunk.expand h c) = (deliver pos s c).map (Slot.expand h) := by
  have kept := keep_expand h s.pending c
  simp only [deliver, Slot.expand] at kept ⊢
  rw [kept]
  cases keep s.pending c with
  | none => rfl
  | some pending => exact finish_expand h pos s c pending

/-- Replacing the items of all payloads commutes with the assembly. -/
theorem deliverAll_expand (s : Slot I A) (cs : List (Chunk I A)) :
    deliverAll pos (Slot.expand h s) (cs.map (Chunk.expand h)) =
      (deliverAll pos s cs).map (Slot.expand h) := by
  induction cs generalizing s with
  | nil => rfl
  | cons c cs ih =>
    rw [List.map_cons, deliverAll_cons, deliverAll_cons, deliver_expand]
    cases deliver pos s c with
    | none => rfl
    | some s' => exact ih s'

end Natural

section Sources
variable (pos : Nat → I) (read : M → Option (Chunk I A))

/-- The messages whose chunks the last joined list consists of, in order. -/
def sources (ms : List M) : List M :=
  ((deliverAll pos Slot.fresh (ms.filterMap (traced read))).bind Slot.done).getD []

theorem traced_run (ms : List M) : deliverAll pos Slot.fresh (ms.filterMap read) =
    (deliverAll pos Slot.fresh (ms.filterMap (traced read))).map
      (Slot.expand (contents read)) := by
  have fresh : Slot.expand (contents read) (Slot.fresh : Slot I M) = Slot.fresh := rfl
  have chunks : (ms.filterMap (traced read)).map (Chunk.expand (contents read)) =
      ms.filterMap read := by
    rw [List.map_filterMap]
    exact List.filterMap_congr fun m _ => traced_expand read m
  rw [← deliverAll_expand, fresh, chunks]

variable {pos read}

/-- A joined list is what its sources carry, one after another. -/
theorem joined_sources {ms : List M} {s : Slot I A} {xs : List A}
    (run : deliverAll pos Slot.fresh (ms.filterMap read) = some s) (done : s.done = some xs) :
    xs = (sources pos read ms).flatMap (contents read) := by
  rw [traced_run, Option.map_eq_some_iff] at run
  obtain ⟨t, traced, rfl⟩ := run
  obtain ⟨ms', finished, rfl⟩ := Option.map_eq_some_iff.mp done
  rw [sources, traced, Option.bind_some, finished, Option.getD_some]

/-- A source is one of the messages, and carries a chunk. -/
theorem mem_sources {ms : List M} {m : M} (source : m ∈ sources pos read ms) :
    m ∈ ms ∧ ∃ c, read m = some c := by
  unfold sources at source
  cases run : deliverAll pos Slot.fresh (ms.filterMap (traced read)) with
  | none => simp [run] at source
  | some t =>
    cases done : t.done with
    | none => simp [run, done] at source
    | some found =>
      rw [run, Option.bind_some, done, Option.getD_some] at source
      obtain ⟨T, _, _, f, backed, rfl⟩ := (backed_run run).finished found done
      obtain ⟨i, below, inside⟩ := List.mem_flatMap.mp source
      obtain ⟨c, member, _, payload⟩ := backed i (List.mem_range.mp below)
      obtain ⟨m', listed, from_message⟩ := List.mem_filterMap.mp member
      obtain ⟨c', got, rfl⟩ := Option.map_eq_some_iff.mp from_message
      obtain ⟨_, _, same⟩ := Option.map_eq_some_iff.mp payload
      rw [← same, List.mem_singleton] at inside
      subst inside
      exact ⟨listed, c', got⟩

end Sources
end TracedAssembly

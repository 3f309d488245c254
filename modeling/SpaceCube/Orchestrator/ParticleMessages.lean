import SpaceCube.Library.Base64Text
import SpaceCube.Orchestrator.PyValue

/- Particles, their framing into chunk messages, and the reading of one update message.
   Coordinates have an arbitrary type; nothing in these modules computes with them.
   The JSON text codec and the particle constructor are parameters. -/
namespace ParticleMessages
open InsertionDict PyValue
variable {F : Type}

structure ParticleData (F : Type) where
  id : String
  position : List F
  velocity : List F
  acceleration : List F
  mass : F
  radius : F
  deriving DecidableEq

/-- json.dumps and json.loads on UTF-8 bytes, the JSON number of a coordinate, and the
    validating constructor ParticleData(**p) applied to a decoded dictionary. -/
structure Codec (F : Type) where
  dumps : Json → List UInt8
  loads : List UInt8 → Except PyErr Json
  number : F → Json
  construct : List (String × Json) → Except PyErr (ParticleData F)

def ParticleData.dict (number : F → Json) (p : ParticleData F) : List (String × Json) :=
  [("id", .str p.id), ("position", .arr (p.position.map number)),
    ("velocity", .arr (p.velocity.map number)),
    ("acceleration", .arr (p.acceleration.map number)),
    ("mass", number p.mass), ("radius", number p.radius)]

def serializeParticles (codec : Codec F) (particles : List (ParticleData F)) : List UInt8 :=
  codec.dumps (.arr (particles.map fun p => .obj (p.dict codec.number)))

/-- What a for loop over a decoded JSON value visits. -/
def iterItems : Json → Except PyErr (List Json)
  | .arr items => .ok items
  | .obj fields => .ok (fields.map fun e => .str e.1)
  | .str s => .ok (s.toList.map fun c => .str (String.singleton c))
  | _ => .error .typeError

def buildParticle (codec : Codec F) : Json → Except PyErr (ParticleData F)
  | .obj fields => codec.construct fields
  | _ => .error .typeError

def deserializeParticles (codec : Codec F) (data : List UInt8) :
    Except PyErr (List (ParticleData F)) := do
  let items ← iterItems (← codec.loads data)
  items.mapM (buildParticle codec)

def b64encode (data : List UInt8) : Json := .str (String.ofList (Base64Text.encode data))

/-- Only ASCII strings are decoded; a truncated group is a binascii error. -/
def b64decode : Json → Except PyErr (List UInt8)
  | .str s =>
    if s.toList.all fun c => c.toNat < 128 then
      match Base64Text.decode s.toList with
      | some data => .ok data
      | none => .error .valueError
    else .error .valueError
  | _ => .error .typeError

theorem b64decode_b64encode (data : List UInt8) : b64decode (b64encode data) = .ok data := by
  have ascii : (Base64Text.encode data).all (fun c => c.toNat < 128) = true := by
    simpa using Base64Text.encode_ascii data
  simp only [b64encode, b64decode, String.toList_ofList, ascii, ↓reduceIte,
    Base64Text.decode_encode]

/-- The codec restores this list: its text is read back, and each dictionary in it. -/
structure Restores (codec : Codec F) (particles : List (ParticleData F)) : Prop where
  text : codec.loads (serializeParticles codec particles) =
    .ok (.arr (particles.map fun p => .obj (p.dict codec.number)))
  record : ∀ p ∈ particles, codec.construct (p.dict codec.number) = .ok p

theorem build_all (codec : Codec F) (particles : List (ParticleData F))
    (record : ∀ p ∈ particles, codec.construct (p.dict codec.number) = .ok p) :
    (particles.map fun p => Json.obj (p.dict codec.number)).mapM (buildParticle codec) =
      .ok particles := by
  induction particles with
  | nil => rfl
  | cons p rest ih =>
    have first := record p (by simp)
    have tail := ih fun q hq => record q (by simp [hq])
    simp [List.mapM_cons, buildParticle, first, tail, bind, Except.bind, pure, Except.pure]

theorem deserialize_serialize (codec : Codec F) (particles : List (ParticleData F))
    (restores : Restores codec particles) :
    deserializeParticles codec (serializeParticles codec particles) = .ok particles := by
  simp only [deserializeParticles, restores.text, bind, Except.bind, iterItems,
    build_all codec particles restores.record]

/-- range(0, stop, step). -/
def rangeStep (stop step : Nat) : List Nat :=
  (List.range ((stop + step - 1) / step)).map (· * step)

def chunkParticles (particles : List (ParticleData F)) (chunkSize : Nat) :
    List (List (ParticleData F)) :=
  (rangeStep particles.length chunkSize).map fun i => (particles.drop i).take chunkSize

theorem chunks_take (particles : List (ParticleData F)) (c k : Nat) :
    ((List.range k).map fun j => (particles.drop (j * c)).take c).flatten =
      particles.take (k * c) := by
  induction k with
  | zero => simp
  | succ k ih =>
    rw [List.range_succ, List.map_append, List.flatten_append, ih, Nat.succ_mul, List.take_add]
    simp

/-- Chunking loses, repeats and reorders nothing. -/
theorem chunkParticles_flatten (particles : List (ParticleData F)) {chunkSize : Nat}
    (positive : 1 ≤ chunkSize) : (chunkParticles particles chunkSize).flatten = particles := by
  have cover : particles.length ≤ (particles.length + chunkSize - 1) / chunkSize * chunkSize := by
    have split := Nat.div_add_mod (particles.length + chunkSize - 1) chunkSize
    have below := Nat.mod_lt (particles.length + chunkSize - 1) positive
    rw [Nat.mul_comm] at split
    omega
  have all := chunks_take particles chunkSize ((particles.length + chunkSize - 1) / chunkSize)
  rw [List.take_of_length_le cover] at all
  simpa [chunkParticles, rangeStep, Function.comp_def] using all

theorem chunkParticles_length (particles : List (ParticleData F)) (chunkSize : Nat) :
    (chunkParticles particles chunkSize).length =
      (particles.length + chunkSize - 1) / chunkSize := by
  simp [chunkParticles, rangeStep]

theorem chunkParticles_nonempty (particles : List (ParticleData F)) {chunkSize : Nat}
    (positive : 1 ≤ chunkSize) (some : particles ≠ []) :
    1 ≤ (chunkParticles particles chunkSize).length := by
  rw [chunkParticles_length]
  have size : 0 < particles.length := List.length_pos_iff.mpr some
  exact (Nat.one_le_div_iff positive).mpr (by omega)

structure KafkaSend where
  topic : String
  key : String
  partition : Nat
  value : Json

def requiredFields : List String := ["worker_id", "chunk_index", "total_chunks", "updates"]

/-- Every exception of the check is caught and counts as invalid. -/
def validateUpdate (data : Json) (targetStep : Nat) : Bool :=
  match data with
  | .obj fields =>
    match lookup fields "type" with
    | some (.str kind) =>
      if kind = "particle_update" then
        match data.item "step" with
        | .ok step => match step.toInt with
          | .ok s => decide (s = targetStep) &&
              requiredFields.all fun field => (lookup fields field).isSome
          | .error _ => false
        | .error _ => false
      else false
    | _ => false
  | _ => false

/-- A message is valid for one step only. -/
theorem validate_step {data : Json} {s t : Nat} (hs : validateUpdate data s = true)
    (ht : validateUpdate data t = true) : s = t := by
  have read : ∀ r : Nat, validateUpdate data r = true →
      (data.item "step").bind Json.toInt = .ok (r : Int) := by
    intro r valid
    unfold validateUpdate at valid
    split at valid
    · split at valid
      · split at valid
        · cases item : Json.item (.obj _) "step" with
          | error e => simp [item] at valid
          | ok j =>
            cases number : j.toInt with
            | error e => simp [item, number] at valid
            | ok n =>
              simp only [item, number, Bool.and_eq_true, decide_eq_true_eq] at valid
              simp only [Except.bind, number, valid.1]
        · contradiction
      · contradiction
    · contradiction
  have same := (read s hs).symm.trans (read t ht)
  exact Int.ofNat.inj (Except.ok.inj same)

/-- The fields of one update message, with both dictionary keys already hashed. -/
structure Update where
  worker : Key
  index : Key
  total : Json
  data : List UInt8

def readUpdate (data : Json) : Except PyErr Update := do
  let workerId ← data.item "worker_id"
  let chunkIdx ← data.item "chunk_index"
  let totalChunks ← data.item "total_chunks"
  let updatesData ← b64decode (← data.item "updates")
  let worker ← workerId.hashKey
  let index ← chunkIdx.hashKey
  return { worker, index, total := totalChunks, data := updatesData }

end ParticleMessages

import SpaceCube.Orchestrator.MergeOwnership
import SpaceCube.Orchestrator.StepMachine
import SpaceCube.Orchestrator.AttemptBuffers

/- At which index a particle stands in the frames. The merged list follows the order in which
   the workers' replies were completed. -/
namespace FrameOrder
open InsertionDict PyValue ParticleMessages CollectUpdates MergeAndFrame MergeOwnership
open ReassemblyRoundTrip RunSimulation AttemptCollection StepMachine

section Merged
variable {F : Type}

def ids (particles : List (ParticleData F)) : List String := particles.map ParticleData.id

/-- The replies one after another, in the order in which they were completed. -/
def replied (updates : Dict Key (List (ParticleData F))) : List (ParticleData F) :=
  updates.entries.flatMap Prod.snd

/-- The replies have disjoint ids that together are those distributed. -/
structure SharedOut (particles : List (ParticleData F))
    (updates : Dict Key (List (ParticleData F))) : Prop where
  disjoint : (ids (replied updates)).Nodup
  together : ∀ id, id ∈ ids (replied updates) ↔ id ∈ ids particles

def InOrder (particles : List (ParticleData F))
    (updates : Dict Key (List (ParticleData F))) : Prop :=
  ids (replied updates) = ids particles

/-- Whatever the order of completion, the merged list is the same. -/
def OrderFree (grid : WorkerBounds.GridManager F)
    (updates : Dict Key (List (ParticleData F))) : Prop :=
  ∀ other merged merged', Reordered updates other →
    mergeWithBoundsCheck grid updates = .ok merged →
    mergeWithBoundsCheck grid other = .ok merged' → merged' = merged

def OneReply (updates : Dict Key (List (ParticleData F))) : Prop :=
  ∀ e ∈ updates.entries, ∀ e' ∈ updates.entries, e.2 ≠ [] → e'.2 ≠ [] → e = e'

theorem reordered_replied {updates other : Dict Key (List (ParticleData F))}
    (reordered : Reordered updates other) : (replied other).Perm (replied updates) :=
  reordered.flatMap_right Prod.snd

theorem reordered_disjoint {updates other : Dict Key (List (ParticleData F))}
    (reordered : Reordered updates other) (disjoint : (ids (replied updates)).Nodup) :
    (ids (replied other)).Nodup :=
  ((reordered_replied reordered).map ParticleData.id).nodup_iff.mpr disjoint

/-- Empty replies add nothing. -/
theorem replied_nonempty (updates : Dict Key (List (ParticleData F))) :
    replied updates = (updates.entries.filter fun e => !e.2.isEmpty).flatMap Prod.snd := by
  unfold replied
  induction updates.entries with
  | nil => rfl
  | cons e rest ih =>
    cases empty : e.2 with
    | nil => simp [empty, ih]
    | cons p others => simp [empty, ih]

theorem one_reply_same {updates other : Dict Key (List (ParticleData F))}
    (reordered : Reordered updates other) (one : OneReply updates) :
    replied other = replied updates := by
  have perm := reordered.filter fun e => !e.2.isEmpty
  have nodup : (updates.entries.filter fun e => !e.2.isEmpty).Nodup :=
    (List.Nodup.of_map Prod.fst updates.distinct).filter _
  have nonempty : ∀ e ∈ updates.entries.filter (fun e => !e.2.isEmpty),
      e ∈ updates.entries ∧ e.2 ≠ [] := by
    intro e member
    obtain ⟨entry, some⟩ := List.mem_filter.mp member
    exact ⟨entry, by simpa using some⟩
  rw [replied_nonempty, replied_nonempty]
  cases some : updates.entries.filter fun e => !e.2.isEmpty with
  | nil =>
    rw [some] at perm
    rw [perm.eq_nil]
  | cons e rest =>
    cases rest with
    | nil =>
      rw [some] at perm
      rw [List.perm_singleton.mp perm]
    | cons e' rest =>
      rw [some] at nodup nonempty
      obtain ⟨entry, full⟩ := nonempty e List.mem_cons_self
      obtain ⟨entry', full'⟩ := nonempty e' (List.mem_cons_of_mem e List.mem_cons_self)
      rw [one e entry e' entry' full full'] at nodup
      exact absurd List.mem_cons_self (List.nodup_cons.mp nodup).1

/-- Some order of completion begins with a given worker. -/
theorem worker_first {updates : Dict Key (List (ParticleData F))}
    {e : Key × List (ParticleData F)} (member : e ∈ updates.entries) :
    ∃ other rest, Reordered updates other ∧ other.entries = e :: rest := by
  obtain ⟨front, back, split⟩ := List.append_of_mem member
  have perm : (e :: (front ++ back)).Perm updates.entries := by
    rw [split]
    exact List.perm_middle.symm
  refine ⟨⟨e :: (front ++ back), ?_⟩, front ++ back, perm, rfl⟩
  exact (perm.map Prod.fst).nodup_iff.mpr updates.distinct

/-- Two replies that are not empty show which of them came first. -/
theorem order_free_iff {grid : WorkerBounds.GridManager F}
    {updates : Dict Key (List (ParticleData F))} {merged : List (ParticleData F)}
    (run : mergeWithBoundsCheck grid updates = .ok merged)
    (disjoint : (ids (replied updates)).Nodup) : OrderFree grid updates ↔ OneReply updates := by
  have concat : ∀ other merged', Reordered updates other →
      mergeWithBoundsCheck grid other = .ok merged' → merged' = replied other :=
    fun other merged' reordered ran => merged_concat ran (reordered_disjoint reordered disjoint)
  have known := ((merge_ok_iff grid updates merged).mp run).1
  constructor
  · intro free e member e' member' full full'
    have first : ∀ e ∈ updates.entries, ∃ rest, merged = e.2 ++ rest ∧
        ∀ e' ∈ updates.entries, e' ≠ e → ∀ p ∈ e'.2, p ∈ rest := by
      intro e member
      obtain ⟨other, rest, reordered, split⟩ := worker_first member
      obtain ⟨merged', ran⟩ := merge_reordered reordered known
      refine ⟨rest.flatMap Prod.snd, ?_, fun e' member' distinct p sent => ?_⟩
      · rw [← free other merged merged' reordered run ran, concat other merged' reordered ran,
          replied, split, List.flatMap_cons]
      · have later : e' ∈ e :: rest := split ▸ reordered.mem_iff.mpr member'
        exact List.mem_flatMap.mpr ⟨e', (List.mem_cons.mp later).resolve_left distinct, sent⟩
    by_contra distinct
    obtain ⟨rest, front, others⟩ := first e member
    obtain ⟨rest', front', _⟩ := first e' member'
    obtain ⟨p, tail, head⟩ := List.exists_cons_of_ne_nil full
    obtain ⟨p', tail', head'⟩ := List.exists_cons_of_ne_nil full'
    have heads := front.symm.trans front'
    rw [head, head', List.cons_append, List.cons_append] at heads
    obtain ⟨rfl, _⟩ := List.cons.inj heads
    have again : p ∈ rest := others e' member' (Ne.symm distinct) p (head' ▸ List.mem_cons_self)
    have nodup : (ids merged).Nodup := concat updates merged (List.Perm.refl _) run ▸ disjoint
    rw [front, ids, List.map_append] at nodup
    have own : p.id ∈ e.2.map ParticleData.id :=
      List.mem_map_of_mem (head ▸ List.mem_cons_self)
    exact (List.nodup_append.mp nodup).2.2 p.id own p.id (List.mem_map_of_mem again) rfl
  · intro one other merged₁ merged₂ reordered run₁ run₂
    rw [concat other merged₂ reordered run₂, concat updates merged₁ (List.Perm.refl _) run₁]
    exact one_reply_same reordered one

/-- Entry i of a frame is that of entry i of the merged list. -/
theorem frame_items_at {particles : List (ParticleData F)} {items : List (FrameParticle F)}
    (built : particles.mapM frameParticle = .ok items) (i : Nat) {p : ParticleData F}
    (here : particles[i]? = some p) :
    ∃ shown, items[i]? = some shown ∧ frameParticle p = .ok shown := by
  induction particles generalizing items i with
  | nil => simp at here
  | cons q rest ih =>
    rw [List.mapM_cons] at built
    cases first : frameParticle q with
    | error e => simp [first, bind, Except.bind] at built
    | ok shown =>
      cases others : rest.mapM frameParticle with
      | error e => simp [first, others, bind, Except.bind] at built
      | ok tail =>
        simp only [first, others, bind, Except.bind, pure, Except.pure, Except.ok.injEq] at built
        subst built
        cases i with
        | zero =>
          obtain rfl := Option.some.inj here
          exact ⟨shown, rfl, first⟩
        | succ i => exact ih others i here

end Merged

section Runs
variable {F : Type} [Field F]

/-- Entry i of frame k is that of a particle with the id. -/
def ShowsAt (st : State F) (k i : Nat) (id : String) : Prop :=
  ∃ merged frame p shown, st.merges[k]? = some merged ∧ st.produced[k]? = some frame ∧
    merged[i]? = some p ∧ frame.particles[i]? = some shown ∧ frameParticle p = .ok shown ∧
    p.id = id

def StablePositions (st : State F) : Prop :=
  ∀ k l i id, k < st.produced.length → l < st.produced.length →
    ShowsAt st k i id → ShowsAt st l i id

/-- The event returns the updates of an attempt, and they complete the step. -/
structure CompletedWith (o : Orchestrator F) (st : State F) (event : Event) (st' : State F)
    (updates : Dict Key (List (ParticleData F))) : Prop where
  ran : step o st event = some st'
  advanced : st'.currentStep = st.currentStep + 1
  returned : ∃ polled, Returns o st event updates polled
  merged : mergeWithBoundsCheck o.grid updates = .ok st'.particles

/-- A step that completes an attempt with such updates only. -/
def CompletesOnly (o : Orchestrator F)
    (allowed : State F → Dict Key (List (ParticleData F)) → Prop) (st st' : State F) : Prop :=
  ∃ event, step o st event = some st' ∧
    ∀ updates, CompletedWith o st event st' updates → allowed st updates

def SharedStep (o : Orchestrator F) : State F → State F → Prop :=
  CompletesOnly o fun st updates => SharedOut st.particles updates

/-- The replies were moreover completed in an order that lists the ids as the distributed
    list does. The first step has no frame before it. -/
def OrderedStep (o : Orchestrator F) : State F → State F → Prop :=
  CompletesOnly o fun st updates => SharedOut st.particles updates ∧
    (1 ≤ st.currentStep → InOrder st.particles updates)

omit [Field F] in
theorem merged_in_order {grid : WorkerBounds.GridManager F}
    {updates : Dict Key (List (ParticleData F))} {merged particles : List (ParticleData F)}
    (run : mergeWithBoundsCheck grid updates = .ok merged)
    (shared : SharedOut particles updates) :
    ids merged = ids particles ↔ InOrder particles updates := by
  rw [merged_concat run shared.disjoint]
  exact Iff.rfl

section History
variable {o : Orchestrator F} {initial : List (ParticleData F)} {st st' : State F}

theorem shows_at_iff (inv : History o initial st) {k : Nat} {merged : List (ParticleData F)}
    (here : st.merges[k]? = some merged) (i : Nat) (id : String) :
    ShowsAt st k i id ↔ (ids merged)[i]? = some id := by
  rw [ids, List.getElem?_map, Option.map_eq_some_iff]
  constructor
  · rintro ⟨list, frame, p, shown, listed, _, entry, _, _, same⟩
    obtain rfl := Option.some.inj (here.symm.trans listed)
    exact ⟨p, entry, same⟩
  · rintro ⟨p, entry, same⟩
    have below : k < st.currentStep := by
      rw [← inv.count]
      exact (List.getElem?_eq_some_iff.mp here).1
    obtain ⟨list, frame, listed, produced, _, built⟩ := inv.framed k below
    obtain rfl := Option.some.inj (here.symm.trans listed)
    unfold buildFrameData at built
    cases items : merged.mapM frameParticle with
    | error e => simp [items, bind, Except.bind] at built
    | ok shownItems =>
      simp only [items, bind, Except.bind, pure, Except.pure, Except.ok.injEq] at built
      obtain ⟨shown, at_index, drawn⟩ := frame_items_at items i entry
      refine ⟨merged, frame, p, shown, here, produced, entry, ?_, drawn, same⟩
      rw [← built]
      exact at_index

theorem stable_iff (inv : History o initial st) : StablePositions st ↔
    ∀ xs ∈ st.merges, ∀ ys ∈ st.merges, ids xs = ids ys := by
  have frames : st.produced.length = st.merges.length := inv.frames.trans inv.count.symm
  constructor
  · intro stable xs first ys second
    obtain ⟨k, below, rfl⟩ := List.mem_iff_getElem.mp first
    obtain ⟨l, below', rfl⟩ := List.mem_iff_getElem.mp second
    have shows := shows_at_iff inv (List.getElem?_eq_getElem below)
    have shows' := shows_at_iff inv (List.getElem?_eq_getElem below')
    apply List.ext_getElem?
    intro i
    apply Option.ext
    intro id
    rw [← shows, ← shows']
    constructor
    · exact stable k l i id (frames ▸ below) (frames ▸ below')
    · exact stable l k i id (frames ▸ below') (frames ▸ below)
  · intro same k l i id below below' shown
    rw [frames] at below below'
    have first := List.getElem?_eq_getElem below
    have second := List.getElem?_eq_getElem below'
    rw [shows_at_iff inv first] at shown
    rw [shows_at_iff inv second, ← same _ (List.getElem_mem below) _ (List.getElem_mem below')]
    exact shown

/-- A merged list joins the others; positions stay if it has the ids of the list before. -/
theorem stable_grown (inv : History o initial st) (inv' : History o initial st')
    (grown : st'.merges = st.merges ++ [st'.particles]) : StablePositions st' ↔
      StablePositions st ∧ (1 ≤ st.currentStep → ids st'.particles = ids st.particles) := by
  have last : 1 ≤ st.currentStep → st.particles ∈ st.merges := by
    intro later
    have entry := inv.list
    obtain ⟨k, made⟩ := Nat.exists_eq_add_of_le' later
    rw [made, List.getElem?_cons_succ] at entry
    exact List.mem_of_getElem? entry
  rw [stable_iff inv, stable_iff inv', grown]
  constructor
  · intro same
    refine ⟨fun xs first ys second => same xs (List.mem_append_left _ first) ys
      (List.mem_append_left _ second), fun later => ?_⟩
    exact same _ (List.mem_append_right _ (List.mem_singleton_self _)) _
      (List.mem_append_left _ (last later))
  · rintro ⟨same, next⟩
    have new : ∀ xs ∈ st.merges ++ [st'.particles], ids xs = ids st'.particles := by
      intro xs member
      rcases List.mem_append.mp member with old | added
      · have later : 1 ≤ st.currentStep := by
          rw [← inv.count]
          exact List.length_pos_of_mem old
        rw [next later]
        exact same xs old _ (last later)
      · rw [List.mem_singleton.mp added]
    intro xs first ys second
    rw [new xs first, new ys second]

theorem completed_grown {event : Event} {updates : Dict Key (List (ParticleData F))}
    (completed : CompletedWith o st event st' updates) :
    st'.merges = st.merges ++ [st'.particles] := by
  rcases step_untouched completed.ran with same | ⟨_, _, merged, frame, _, _, _, _, rfl⟩
  · have kept := completed.advanced
    rw [same.currentStep] at kept
    omega
  · rfl

theorem stable_completed (reached : Reachable o initial st) {event : Event}
    {updates : Dict Key (List (ParticleData F))}
    (completed : CompletedWith o st event st' updates)
    (shared : SharedOut st.particles updates) : StablePositions st' ↔
      StablePositions st ∧ (1 ≤ st.currentStep → InOrder st.particles updates) := by
  rw [← merged_in_order completed.merged shared]
  exact stable_grown (history_reachable reached)
    (history_reachable (reachable_step reached completed.ran)) (completed_grown completed)

theorem stable_step (reached : Reachable o initial st) (stable : StablePositions st)
    (ordered : OrderedStep o st st') : StablePositions st' := by
  obtain ⟨event, ran, kept⟩ := ordered
  rcases step_untouched ran with same | ⟨updates, polled, merged, frame, returned, _, merge, _, rfl⟩
  · unfold StablePositions ShowsAt at stable ⊢
    rw [same.merges, same.produced]
    exact stable
  · have completed : CompletedWith o st event _ updates :=
      ⟨ran, rfl, ⟨polled, returned⟩, merge⟩
    obtain ⟨shared, inOrder⟩ := kept updates completed
    exact (stable_completed reached completed shared).mpr ⟨stable, inOrder⟩

theorem completes_reachable {allowed : State F → Dict Key (List (ParticleData F)) → Prop}
    (ran : Relation.ReflTransGen (CompletesOnly o allowed) (.initial initial) st) :
    Reachable o initial st := by
  induction ran with
  | refl => exact ⟨[], rfl⟩
  | tail _ moved ih =>
    obtain ⟨event, ran, _⟩ := moved
    exact reachable_step ih ran

theorem stable_run (ran : Relation.ReflTransGen (OrderedStep o) (.initial initial) st) :
    StablePositions st := by
  induction ran with
  | refl =>
    intro k l i id below
    simp [State.initial] at below
  | tail before moved ih => exact stable_step (completes_reachable before) ih moved

end History

/-- Index i of the frames refers to one particle along every run whose completed steps
    after the first list the replies' ids in the order of the list distributed; a completed
    step with disjoint replies keeps the positions in no other way, and its merged list
    depends on the order of completion unless at most one reply has particles in it. -/
theorem stable_positions (o : Orchestrator F) (initial : List (ParticleData F)) :
    (∀ st, Relation.ReflTransGen (OrderedStep o) (.initial initial) st → StablePositions st) ∧
    ∀ st event st' updates, Reachable o initial st → CompletedWith o st event st' updates →
      SharedOut st.particles updates →
      (StablePositions st' ↔
        StablePositions st ∧ (1 ≤ st.currentStep → InOrder st.particles updates)) ∧
      (OrderFree o.grid updates ↔ OneReply updates) := by
  refine ⟨fun st => stable_run, ?_⟩
  intro st event st' updates reached completed shared
  exact ⟨stable_completed reached completed shared,
    order_free_iff completed.merged shared.disjoint⟩

end Runs

/-- The sample particle under another id. -/
def named (id : String) : ParticleData Rat := { sampleParticle with id := id }

def recordText (id : String) : String :=
  "\x7b\"id\": \"" ++ id ++ "\", \"position\": [0.5, 0.5, 0.5], \"velocity\": [0.0, 0.0, 0.0], " ++
    "\"acceleration\": [0.0, 0.0, 0.0], \"mass\": 1.0, \"radius\": 1.0\x7d"

def recordId : Json → String
  | .obj fields => match lookup fields "id" with
    | some (.str id) => id
    | _ => ""
  | _ => ""

def listText (ids : List String) : List UInt8 :=
  ("[" ++ String.intercalate ", " (ids.map recordText) ++ "]").toUTF8.data.toList

def listJson (ids : List String) : Json :=
  .arr (ids.map fun id => .obj ((named id).dict fun q => .float (.finite q)))

/-- Lists of the sample particle under other ids; it reads back the lists of one, a or b. -/
def namedCodec : Codec Rat where
  dumps j := match j with
    | .arr items => listText (items.map recordId)
    | _ => []
  loads data :=
    if data = listText ["a"] then .ok (listJson ["a"])
    else if data = listText ["b"] then .ok (listJson ["b"])
    else .error .valueError
  number q := .float (.finite q)
  construct fields := .ok (named (recordId (.obj fields)))

theorem text_differ : listText ["b"] ≠ listText ["a"] := by
  intro same
  have texts := String.toByteArray_inj.mp (ByteArray.ext (Array.toList_inj.mp same))
  revert texts
  decide

theorem named_loads {id : String} (either : id = "a" ∨ id = "b") :
    namedCodec.loads (listText [id]) = .ok (listJson [id]) := by
  rcases either with rfl | rfl
  · simp [namedCodec]
  · simp [namedCodec, text_differ]

theorem named_restores {id : String} (either : id = "a" ∨ id = "b") :
    Restores namedCodec [named id] where
  text := named_loads either
  record p member := by
    rw [List.mem_singleton.mp member]
    rfl

def twoNamed : Orchestrator Rat := { AttemptBuffers.twoWorkers with codec := namedCodec }

/-- The whole reply of a worker that keeps one particle. -/
def namedReply (step w : Nat) (id : String) : Delivery :=
  ⟨updateMessage namedCodec w step 0 1 [named id], none⟩

def listed (swapped : Bool) : List (ParticleData Rat) :=
  if swapped then [named "b", named "a"] else [named "a", named "b"]

def answers (step : Nat) (swapped : Bool) : Batch :=
  if swapped then [[namedReply step 1 "b", namedReply step 0 "a"]]
  else [[namedReply step 0 "a", namedReply step 1 "b"]]

def answered (swapped : Bool) : Dict Key (List (ParticleData Rat)) :=
  if swapped then (Dict.empty.set (Key.ofNat 1) [named "b"]).set (Key.ofNat 0) [named "a"]
  else (Dict.empty.set (Key.ofNat 0) [named "a"]).set (Key.ofNat 1) [named "b"]

theorem answers_processed (step : Nat) (swapped : Bool) :
    processBatch namedCodec step .fresh (answers step swapped) =
      .ok ⟨answered swapped, .empty⟩ := by
  have reply : ∀ (w : Nat) (id : String), id = "a" ∨ id = "b" → ∀ updates,
      processDelivery namedCodec step ⟨updates, .empty⟩ (namedReply step w id) =
        .ok ⟨updates.set (Key.ofNat w) [named id], .empty⟩ := fun w id either updates =>
    whole_reply (update_message_chunk namedCodec w step 0 1 (named_restores either)) rfl updates
  rw [process_batch_flatten]
  cases swapped with
  | false =>
    exact (process_cons_ok (reply 0 "a" (Or.inl rfl) _)).trans
      (process_cons_ok (reply 1 "b" (Or.inr rfl) _))
  | true =>
    exact (process_cons_ok (reply 1 "b" (Or.inr rfl) _)).trans
      (process_cons_ok (reply 0 "a" (Or.inl rfl) _))

theorem answers_merged (swapped : Bool) :
    mergeWithBoundsCheck twoNamed.grid (answered swapped) = .ok (listed swapped) := by
  cases swapped with
  | false => rfl
  | true => rfl

theorem answers_complete {st : State Rat} (here : st.phase = .collecting .fresh [])
    (swapped : Bool) : ∃ frame, CompletedWith twoNamed st
      (.poll (.ok (answers st.currentStep swapped)))
      (advance { st with retryCount := 0 } (listed swapped) frame) (answered swapped) := by
  have each : ∀ id, Frameable (named id) := fun id =>
    ⟨sample_frameable.position, sample_frameable.velocity, sample_frameable.acceleration⟩
  have showable : ∀ p ∈ listed swapped, Frameable p := by
    cases swapped <;> simp [listed, each]
  obtain ⟨frame, built⟩ :=
    (build_frame_ok_iff twoNamed.dt (listed swapped) st.currentStep).mpr showable
  have full : twoNamed.numWorkers ≤ (answered swapped).length := by cases swapped <;> decide
  have processed : processBatch twoNamed.codec st.currentStep .fresh
      (answers st.currentStep swapped) = .ok ⟨answered swapped, .empty⟩ :=
    answers_processed st.currentStep swapped
  refine ⟨frame, ?_, rfl, ⟨_, .enough here processed full⟩, answers_merged swapped⟩
  simp only [step, here, pollOnce, processed, finishAttempt, full, Nat.not_lt.mpr full,
    answers_merged, built, ↓reduceIte]

/-- One round from the head of the loop to the next: distribution, then the two replies. -/
theorem round_moves (allowed : State Rat → Dict Key (List (ParticleData Rat)) → Prop)
    (st : State Rat) (swapped : Bool) (head : st.phase = .head) (running : st.running = true)
    (present : st.particles ≠ [])
    (permitted : allowed (startAttempt st none) (answered swapped)) : ∃ frame,
    Relation.ReflTransGen (CompletesOnly twoNamed allowed) st
      (advance { startAttempt st none with retryCount := 0 } (listed swapped) frame) := by
  have here : (startAttempt st none).phase = .collecting .fresh [] := by
    simp [startAttempt, running, present]
  have same : (startAttempt st none).currentStep = st.currentStep := by
    simp [startAttempt, running, present]
  obtain ⟨frame, completed⟩ := answers_complete here swapped
  refine ⟨frame, .tail (.single ⟨.distribute none, ?_, ?_⟩) ⟨_, completed.ran, ?_⟩⟩
  · simp only [step, head]
  · intro updates wrong
    have advanced := wrong.advanced
    omega
  · intro updates other
    obtain ⟨polled, returned⟩ := other.returned
    cases returned with
    | enough at_poll processed complete =>
      rw [here] at at_poll
      obtain ⟨rfl, rfl⟩ := Phase.collecting.inj at_poll
      obtain rfl := Except.ok.inj ((answers_processed _ swapped).symm.trans processed)
      exact permitted

theorem answered_replied (swapped : Bool) :
    ids (replied (answered swapped)) = ids (listed swapped) := by
  cases swapped with
  | false => rfl
  | true => rfl

theorem answered_shared (order swapped : Bool) : SharedOut (listed order) (answered swapped) where
  disjoint := by
    rw [answered_replied]
    cases swapped <;> decide
  together id := by
    rw [answered_replied]
    cases swapped <;> cases order <;> simp [listed, ids, or_comm]

/-- Two rounds, the second with the replies in a given order of completion. -/
theorem two_rounds (allowed : State Rat → Dict Key (List (ParticleData Rat)) → Prop)
    (swapped : Bool)
    (start : ∀ st, st.particles = listed false → st.currentStep = 0 → allowed st (answered false))
    (next : ∀ st, st.particles = listed false → allowed st (answered swapped)) : ∃ st,
    Relation.ReflTransGen (CompletesOnly twoNamed allowed) (.initial (listed false)) st ∧
      st.merges = [listed false, listed swapped] := by
  have present : listed false ≠ [] := by simp [listed]
  obtain ⟨frame, first⟩ := round_moves allowed (.initial (listed false)) false rfl rfl present
    (start _ rfl rfl)
  let st : State Rat := advance { startAttempt (.initial (listed false)) none with retryCount := 0 }
    (listed false) frame
  obtain ⟨frame', second⟩ := round_moves allowed st swapped rfl rfl present (next _ rfl)
  exact ⟨_, first.trans second, rfl⟩

/-- In the second step the replies complete in the other order: index 0 is a, then b. -/
theorem completion_order_shown : ∃ st,
    Relation.ReflTransGen (SharedStep twoNamed) (.initial (listed false)) st ∧
      ¬ StablePositions st := by
  obtain ⟨st, ran, merges⟩ := two_rounds (fun st updates => SharedOut st.particles updates) true
    (fun st same _ => same ▸ answered_shared false false)
    (fun st same => same ▸ answered_shared false true)
  refine ⟨st, ran, fun stable => ?_⟩
  rw [stable_iff (history_reachable (completes_reachable ran)), merges] at stable
  exact absurd (stable _ List.mem_cons_self _ (List.mem_cons_of_mem _ List.mem_cons_self))
    (by decide)

/-- With the same order of completion twice, index i stays; the first step's merged list
    still depends on the order. -/
theorem sample_stable_positions :
    (∃ st, st.merges = [listed false, listed false] ∧ StablePositions st) ∧
      ¬ OrderFree twoNamed.grid (answered false) := by
  constructor
  · obtain ⟨st, ran, merges⟩ := two_rounds
      (fun st updates => SharedOut st.particles updates ∧
        (1 ≤ st.currentStep → InOrder st.particles updates)) false
      (fun st same start => ⟨same ▸ answered_shared false false, by omega⟩)
      (fun st same => ⟨same ▸ answered_shared false false,
        fun _ => by rw [InOrder, answered_replied, same]⟩)
    exact ⟨st, merges, (stable_positions twoNamed (listed false)).1 st ran⟩
  · have reached : Reachable twoNamed (listed false)
        (startAttempt (.initial (listed false)) none) := ⟨[.distribute none], rfl⟩
    obtain ⟨frame, completed⟩ := answers_complete
      (rfl : (startAttempt (.initial (listed false)) none).phase = .collecting .fresh []) false
    rw [((stable_positions twoNamed (listed false)).2 _ _ _ _ reached completed
      (answered_shared false false)).2]
    intro one
    have same := one (Key.ofNat 0, [named "a"]) List.mem_cons_self (Key.ofNat 1, [named "b"])
      (List.mem_cons_of_mem _ List.mem_cons_self) (by simp) (by simp)
    exact absurd (congrArg Prod.fst same) (by decide)

end FrameOrder

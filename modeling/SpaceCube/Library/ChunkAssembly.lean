import SpaceCube.Library.InsertionDict

/- Reassembly of numbered chunks from one sender. The first payload of an index is
   kept, completeness is a count compared with the total of the chunk at hand, and a
   completed message empties the buffer, so late duplicates open a new one.
   An index is any key; pos names the keys that stand for positions 0, 1, 2, ... -/
namespace ChunkAssembly
open InsertionDict

variable {I A : Type*}

/- total is none when the announced total is no count; payload is none when it cannot
   be decoded. -/
structure Chunk (I A : Type*) where
  index : I
  total : Option Nat
  payload : Option (List A)

structure Slot (I A : Type*) where
  pending : Dict I (List A)
  done : Option (List A)

def Slot.fresh : Slot I A := ⟨.empty, none⟩

def joined (f : Nat → List A) (n : Nat) : List A := (List.range n).flatMap f

theorem joined_succ (f : Nat → List A) (n : Nat) : joined f (n + 1) = joined f n ++ f n := by
  simp [joined, List.range_succ]

theorem joined_congr (f g : Nat → List A) (n : Nat) (same : ∀ i, i < n → f i = g i) :
    joined f n = joined g n := by
  induction n with
  | zero => rfl
  | succ n ih =>
    rw [joined_succ, joined_succ, ih fun i hi => same i (by omega), same n (by omega)]

theorem joined_getD (xs : List (List A)) :
    joined (fun i => xs.getD i []) xs.length = xs.flatten := by
  induction xs using List.reverseRecOn with
  | nil => rfl
  | append_singleton xs x ih =>
    rw [List.length_append, List.length_singleton, joined_succ, List.flatten_append, ← ih]
    have last : (xs ++ [x]).getD xs.length [] = x := by simp
    rw [last, List.flatten_singleton]
    congr 1
    apply joined_congr
    intro i hi
    simp [List.getD_eq_getElem?_getD, List.getElem?_append_left hi]

variable [DecidableEq I]

def keep (pending : Dict I (List A)) (c : Chunk I A) : Option (Dict I (List A)) :=
  if c.index ∈ pending then some pending else c.payload.map (pending.set c.index)

def gather (pos : Nat → I) (pending : Dict I (List A)) : Nat → Option (List A)
  | 0 => some []
  | n + 1 => (gather pos pending n).bind fun xs => (pending.get? (pos n)).map (xs ++ ·)

def finish (pos : Nat → I) (s : Slot I A) (c : Chunk I A) (pending : Dict I (List A)) :
    Option (Slot I A) :=
  if c.total = some pending.length then
    (gather pos pending pending.length).map fun xs => ⟨.empty, some xs⟩
  else some ⟨pending, s.done⟩

/- none when the payload of a new index cannot be decoded, or when the count is
   reached with a position missing. -/
def deliver (pos : Nat → I) (s : Slot I A) (c : Chunk I A) : Option (Slot I A) :=
  (keep s.pending c).bind (finish pos s c)

def deliverAll (pos : Nat → I) (s : Slot I A) (cs : List (Chunk I A)) : Option (Slot I A) :=
  cs.foldlM (deliver pos) s

theorem gather_full (pos : Nat → I) (pending : Dict I (List A)) (f : Nat → List A) (n : Nat)
    (full : ∀ i, i < n → pending.get? (pos i) = some (f i)) :
    gather pos pending n = some (joined f n) := by
  induction n with
  | zero => rfl
  | succ n ih =>
    simp [gather, ih fun i hi => full i (by omega), full n (by omega), joined_succ]

theorem gather_some (pos : Nat → I) (pending : Dict I (List A)) (n : Nat) (xs : List A)
    (run : gather pos pending n = some xs) :
    ∃ f : Nat → List A, (∀ i, i < n → pending.get? (pos i) = some (f i)) ∧ xs = joined f n := by
  have present : ∀ n xs, gather pos pending n = some xs →
      ∀ i, i < n → ∃ v, pending.get? (pos i) = some v := by
    intro n
    induction n with
    | zero => intro xs _ i hi; omega
    | succ n ih =>
      intro xs run i hi
      simp only [gather, Option.bind_eq_some_iff, Option.map_eq_some_iff] at run
      obtain ⟨ys, front, v, last, _⟩ := run
      by_cases old : i < n
      · exact ih ys front i old
      · exact ⟨v, by rwa [show i = n by omega]⟩
  refine ⟨fun i => (pending.get? (pos i)).getD [], ?_, ?_⟩
  · intro i hi
    obtain ⟨v, hv⟩ := present n xs run i hi
    simp [hv]
  · have all := gather_full pos pending (fun i => (pending.get? (pos i)).getD []) n (by
      intro i hi
      obtain ⟨v, hv⟩ := present n xs run i hi
      simp [hv])
    exact Option.some.inj (run.symm.trans all)

theorem gather_missing (pos : Nat → I) (pending : Dict I (List A)) (n i : Nat) (below : i < n)
    (missing : pos i ∉ pending) : gather pos pending n = none := by
  cases run : gather pos pending n with
  | none => rfl
  | some xs =>
    obtain ⟨f, all, _⟩ := gather_some pos pending n xs run
    exact absurd ((mem_iff_get? _ _).mpr ⟨_, all i below⟩) missing

theorem keep_present {pending : Dict I (List A)} {c : Chunk I A} (h : c.index ∈ pending) :
    keep pending c = some pending := by
  simp [keep, h]

theorem keep_new {pending : Dict I (List A)} {c : Chunk I A} {ps : List A}
    (h : c.index ∉ pending) (decoded : c.payload = some ps) :
    keep pending c = some (pending.set c.index ps) := by
  simp [keep, h, decoded]

/- Everything a kept chunk can do to the buffer. -/
theorem keep_cases {pending pending' : Dict I (List A)} {c : Chunk I A}
    (h : keep pending c = some pending') :
    (c.index ∈ pending ∧ pending' = pending) ∨
    (c.index ∉ pending ∧ ∃ ps, c.payload = some ps ∧ pending' = pending.set c.index ps) := by
  unfold keep at h
  split at h
  · rename_i present
    exact Or.inl ⟨present, (Option.some.inj h).symm⟩
  · rename_i absent
    obtain ⟨ps, decoded, eq⟩ := Option.map_eq_some_iff.mp h
    exact Or.inr ⟨absent, ps, decoded, eq.symm⟩

theorem keep_get? {pending pending' : Dict I (List A)} {c : Chunk I A}
    (h : keep pending c = some pending') {k : I} {v : List A} (got : pending'.get? k = some v) :
    pending.get? k = some v ∨ (k = c.index ∧ c.payload = some v) := by
  rcases keep_cases h with ⟨_, rfl⟩ | ⟨_, ps, decoded, rfl⟩
  · exact Or.inl got
  · rw [get?_set] at got
    split at got
    · rename_i same
      exact Or.inr ⟨same, by rw [decoded]; exact got⟩
    · exact Or.inl got

theorem mem_keep {pending pending' : Dict I (List A)} {c : Chunk I A}
    (h : keep pending c = some pending') (k : I) : k ∈ pending' ↔ k = c.index ∨ k ∈ pending := by
  rcases keep_cases h with ⟨present, rfl⟩ | ⟨_, ps, _, rfl⟩
  · constructor
    · exact Or.inr
    · rintro (rfl | old)
      · exact present
      · exact old
  · exact mem_set _ _ _ _

/- Everything a delivery can do: the buffer grows without completing, or it completes
   with every position below its size present and is emptied. -/
theorem deliver_cases {pos : Nat → I} {s s' : Slot I A} {c : Chunk I A}
    (h : deliver pos s c = some s') :
    ∃ pending, keep s.pending c = some pending ∧
      ((c.total ≠ some pending.length ∧ s' = ⟨pending, s.done⟩) ∨
       (c.total = some pending.length ∧ ∃ f : Nat → List A,
          (∀ i, i < pending.length → pending.get? (pos i) = some (f i)) ∧
          s' = ⟨.empty, some (joined f pending.length)⟩)) := by
  obtain ⟨pending, kept, ended⟩ := Option.bind_eq_some_iff.mp h
  refine ⟨pending, kept, ?_⟩
  unfold finish at ended
  split at ended
  · rename_i reached
    obtain ⟨xs, gathered, eq⟩ := Option.map_eq_some_iff.mp ended
    obtain ⟨f, all, rfl⟩ := gather_some pos pending _ xs gathered
    exact Or.inr ⟨reached, f, all, eq.symm⟩
  · rename_i short
    exact Or.inl ⟨short, (Option.some.inj ended).symm⟩

theorem deliver_short {pos : Nat → I} {s : Slot I A} {c : Chunk I A} {pending : Dict I (List A)}
    (kept : keep s.pending c = some pending) (short : c.total ≠ some pending.length) :
    deliver pos s c = some ⟨pending, s.done⟩ := by
  simp [deliver, kept, finish, short]

theorem deliver_full (pos : Nat → I) {s : Slot I A} {c : Chunk I A} {pending : Dict I (List A)}
    {f : Nat → List A} (kept : keep s.pending c = some pending)
    (reached : c.total = some pending.length)
    (full : ∀ i, i < pending.length → pending.get? (pos i) = some (f i)) :
    deliver pos s c = some ⟨.empty, some (joined f pending.length)⟩ := by
  simp [deliver, kept, finish, reached, gather_full pos pending f _ full]

theorem deliver_gap {pos : Nat → I} {s : Slot I A} {c : Chunk I A} {pending : Dict I (List A)}
    {i : Nat} (kept : keep s.pending c = some pending) (reached : c.total = some pending.length)
    (below : i < pending.length) (missing : pos i ∉ pending) : deliver pos s c = none := by
  simp [deliver, kept, finish, reached, gather_missing pos pending _ i below missing]

theorem deliverAll_append (pos : Nat → I) (s : Slot I A) (xs ys : List (Chunk I A)) :
    deliverAll pos s (xs ++ ys) = (deliverAll pos s xs).bind (deliverAll pos · ys) := by
  simp [deliverAll, List.foldlM_append]

theorem deliverAll_singleton (pos : Nat → I) (s : Slot I A) (c : Chunk I A) :
    deliverAll pos s [c] = deliver pos s c := by
  simp only [deliverAll, List.foldlM_cons, List.foldlM_nil]
  cases deliver pos s c <;> rfl

theorem deliverAll_cons (pos : Nat → I) (s : Slot I A) (c : Chunk I A) (cs : List (Chunk I A)) :
    deliverAll pos s (c :: cs) = (deliver pos s c).bind (deliverAll pos · cs) := rfl

/-- What an assembled list rests on: an announced total and one decoded chunk for each
    position below it. -/
def Assembled (pos : Nat → I) (seen : List (Chunk I A)) (xs : List A) : Prop :=
  ∃ T, 1 ≤ T ∧ (∃ c ∈ seen, c.total = some T) ∧ ∃ f : Nat → List A,
    (∀ i, i < T → ∃ c ∈ seen, c.index = pos i ∧ c.payload = some (f i)) ∧ xs = joined f T

omit [DecidableEq I] in
theorem assembled_mono {pos : Nat → I} {seen more : List (Chunk I A)} {xs : List A}
    (h : Assembled pos seen xs) : Assembled pos (seen ++ more) xs := by
  obtain ⟨T, positive, ⟨c, member, total⟩, f, backed, eq⟩ := h
  refine ⟨T, positive, ⟨c, List.mem_append_left more member, total⟩, f, ?_, eq⟩
  intro i hi
  obtain ⟨d, hd, index, payload⟩ := backed i hi
  exact ⟨d, List.mem_append_left more hd, index, payload⟩

structure Backed (pos : Nat → I) (seen : List (Chunk I A)) (s : Slot I A) : Prop where
  held : ∀ k v, s.pending.get? k = some v → ∃ c ∈ seen, c.index = k ∧ c.payload = some v
  finished : ∀ xs, s.done = some xs → Assembled pos seen xs

theorem backed_fresh (pos : Nat → I) : Backed pos [] (Slot.fresh : Slot I A) where
  held := by simp [Slot.fresh]
  finished := by simp [Slot.fresh]

theorem backed_step {pos : Nat → I} {seen : List (Chunk I A)} {s s' : Slot I A} {c : Chunk I A}
    (inv : Backed pos seen s) (run : deliver pos s c = some s') :
    Backed pos (seen ++ [c]) s' := by
  obtain ⟨pending, kept, outcome⟩ := deliver_cases run
  have held : ∀ k v, pending.get? k = some v →
      ∃ d ∈ seen ++ [c], d.index = k ∧ d.payload = some v := by
    intro k v got
    rcases keep_get? kept got with old | ⟨same, decoded⟩
    · obtain ⟨d, member, index, payload⟩ := inv.held k v old
      exact ⟨d, List.mem_append_left _ member, index, payload⟩
    · exact ⟨c, by simp, same.symm, decoded⟩
  rcases outcome with ⟨_, rfl⟩ | ⟨reached, f, full, rfl⟩
  · exact ⟨held, fun xs done => assembled_mono (inv.finished xs done)⟩
  · refine ⟨by simp, ?_⟩
    intro xs eq
    have positive : 1 ≤ pending.length :=
      length_pos_of_mem ((mem_keep kept c.index).mpr (Or.inl rfl))
    refine ⟨pending.length, positive, ⟨c, by simp, reached⟩, f, ?_, (Option.some.inj eq).symm⟩
    intro i hi
    exact held _ _ (full i hi)

theorem backed_run {pos : Nat → I} {cs : List (Chunk I A)} {s : Slot I A}
    (run : deliverAll pos .fresh cs = some s) : Backed pos cs s := by
  induction cs using List.reverseRecOn generalizing s with
  | nil =>
    obtain rfl : Slot.fresh = s := Option.some.inj run
    exact backed_fresh pos
  | append_singleton front c ih =>
    rw [deliverAll_append] at run
    obtain ⟨middle, before, last⟩ := Option.bind_eq_some_iff.mp run
    rw [deliverAll_singleton] at last
    exact backed_step (ih before) last

/-- One sender, one fixed total and one fixed payload for each position. -/
def Framed (pos : Nat → I) (T : Nat) (f : Nat → List A) (c : Chunk I A) : Prop :=
  ∃ i, i < T ∧ c = ⟨pos i, some T, some (f i)⟩

omit [DecidableEq I] in
/-- A buffer of T chunks at positions below T holds every position. -/
theorem full_of_length {pos : Nat → I} {T : Nat} {pending : Dict I (List A)}
    (held : ∀ k, k ∈ pending → ∃ i, i < T ∧ k = pos i) (full : T ≤ pending.length) (i : Nat)
    (hi : i < T) : pos i ∈ pending := by
  apply (mem_iff_of_full pending ((List.range T).map pos) _ _ (pos i)).mpr
  · exact List.mem_map_of_mem (by simpa using hi)
  · intro k member
    obtain ⟨j, hj, rfl⟩ := held k member
    exact List.mem_map_of_mem (by simpa using hj)
  · simpa using full

omit [DecidableEq I] in
theorem length_le_of_held {pos : Nat → I} {T : Nat} {pending : Dict I (List A)}
    (held : ∀ k, k ∈ pending → ∃ i, i < T ∧ k = pos i) : pending.length ≤ T := by
  have bound := length_le_of_subset pending ((List.range T).map pos) (by
    intro k member
    obtain ⟨i, hi, rfl⟩ := held k member
    exact List.mem_map_of_mem (by simpa using hi))
  simpa using bound

/-- Every buffered payload is the fixed one of its position and has been sent. -/
structure Held (pos : Nat → I) (T : Nat) (f : Nat → List A) (seen : List (Chunk I A))
    (pending : Dict I (List A)) : Prop where
  valued : ∀ k v, pending.get? k = some v → ∃ i, i < T ∧ k = pos i ∧ v = f i
  sent : ∀ k, k ∈ pending → ∃ c ∈ seen, c.index = k

structure Exact (pos : Nat → I) (T : Nat) (f : Nat → List A) (seen : List (Chunk I A))
    (s : Slot I A) : Prop where
  held : Held pos T f seen s.pending
  short : s.pending.length < T
  waiting : s.done = none → ∀ c ∈ seen, c.index ∈ s.pending
  finished : ∀ xs, s.done = some xs →
    xs = joined f T ∧ ∀ i, i < T → ∃ c ∈ seen, c.index = pos i

theorem held_empty (pos : Nat → I) (T : Nat) (f : Nat → List A) (seen : List (Chunk I A)) :
    Held pos T f seen .empty where
  valued := by simp
  sent := fun k member => absurd member (not_mem_empty k)

theorem exact_fresh (pos : Nat → I) (T : Nat) (f : Nat → List A) (positive : 1 ≤ T) :
    Exact pos T f [] (Slot.fresh : Slot I A) where
  held := held_empty pos T f []
  short := positive
  waiting := by simp
  finished := by simp [Slot.fresh]

theorem held_position {pos : Nat → I} {T : Nat} {f : Nat → List A} {seen : List (Chunk I A)}
    {pending : Dict I (List A)} (h : Held pos T f seen pending) :
    ∀ k, k ∈ pending → ∃ i, i < T ∧ k = pos i := by
  intro k member
  obtain ⟨v, got⟩ := (mem_iff_get? _ _).mp member
  obtain ⟨i, hi, eq, _⟩ := h.valued k v got
  exact ⟨i, hi, eq⟩

theorem held_keep {pos : Nat → I} {T : Nat} {f : Nat → List A} {seen : List (Chunk I A)}
    {pending : Dict I (List A)} {c : Chunk I A} (h : Held pos T f seen pending)
    (framed : Framed pos T f c) :
    ∃ pending', keep pending c = some pending' ∧ Held pos T f (seen ++ [c]) pending' := by
  obtain ⟨i, hi, rfl⟩ := framed
  have some_kept : ∃ pending', keep pending ⟨pos i, some T, some (f i)⟩ = some pending' := by
    by_cases present : pos i ∈ pending
    · exact ⟨_, keep_present present⟩
    · exact ⟨_, keep_new present rfl⟩
  obtain ⟨pending', kept⟩ := some_kept
  refine ⟨pending', kept, ?_, ?_⟩
  · intro k v got
    rcases keep_get? kept got with old | ⟨same, decoded⟩
    · exact h.valued k v old
    · exact ⟨i, hi, same, (Option.some.inj decoded).symm⟩
  · intro k member
    rcases (mem_keep kept k).mp member with new | old
    · exact ⟨_, by simp, new.symm⟩
    · obtain ⟨d, hd, index⟩ := h.sent k old
      exact ⟨d, List.mem_append_left _ hd, index⟩

section Positions
variable {pos : Nat → I} (inj : Function.Injective pos)
include inj

omit [DecidableEq I] in
theorem positions_nodup (T : Nat) : ((List.range T).map pos).Nodup := List.nodup_range.map inj

omit [DecidableEq I] in
theorem length_ge_of_full {T : Nat} {pending : Dict I (List A)}
    (full : ∀ i, i < T → pos i ∈ pending) : T ≤ pending.length := by
  have sub : (List.range T).map pos ⊆ pending.keys := by
    intro k member
    obtain ⟨i, hi, rfl⟩ := List.mem_map.mp member
    exact full i (by simpa using hi)
  have bound := (positions_nodup inj T).length_le_of_subset sub
  simpa [length_keys] using bound

theorem held_full {T : Nat} {f : Nat → List A} {seen : List (Chunk I A)}
    {pending : Dict I (List A)} (h : Held pos T f seen pending) (full : T ≤ pending.length)
    (i : Nat) (hi : i < T) : pending.get? (pos i) = some (f i) := by
  obtain ⟨v, got⟩ := (mem_iff_get? _ _).mp (full_of_length (held_position h) full i hi)
  obtain ⟨j, _, same, eq⟩ := h.valued _ _ got
  rw [got, eq, inj same]

/-- A framed chunk never fails. It completes the buffer exactly when it brings the last
    missing position, and a duplicate changes nothing that is already finished. -/
theorem exact_step {T : Nat} {f : Nat → List A} {seen : List (Chunk I A)} {s : Slot I A}
    {c : Chunk I A} (inv : Exact pos T f seen s) (framed : Framed pos T f c) :
    ∃ s', deliver pos s c = some s' ∧ Exact pos T f (seen ++ [c]) s' := by
  obtain ⟨pending, kept, held⟩ := held_keep inv.held framed
  have total : c.total = some T := by
    obtain ⟨i, _, rfl⟩ := framed
    rfl
  have bound := length_le_of_held (held_position held)
  by_cases last : pending.length = T
  · have full : ∀ i, i < T → pending.get? (pos i) = some (f i) :=
      held_full inj held (by omega)
    have run := deliver_full pos kept (by rw [total, last]) (by rwa [last])
    rw [last] at run
    refine ⟨_, run, held_empty pos T f _, ?_, by simp, ?_⟩
    · have short := inv.short
      simp only [length_empty]
      omega
    · intro xs done
      refine ⟨(Option.some.inj done).symm, fun i hi => ?_⟩
      exact held.sent _ ((mem_iff_get? _ _).mpr ⟨_, full i hi⟩)
  · have below : pending.length < T := by omega
    refine ⟨_, deliver_short kept ?_, held, below, ?_, ?_⟩
    · rw [total]
      simp only [ne_eq, Option.some.injEq]
      omega
    · intro waiting d member
      apply (mem_keep kept d.index).mpr
      rcases List.mem_append.mp member with old | new
      · exact Or.inr (inv.waiting waiting d old)
      · exact Or.inl (by rw [List.mem_singleton.mp new])
    · intro xs done
      obtain ⟨eq, all⟩ := inv.finished xs done
      refine ⟨eq, fun i hi => ?_⟩
      obtain ⟨d, member, index⟩ := all i hi
      exact ⟨d, List.mem_append_left _ member, index⟩

theorem exact_run {T : Nat} {f : Nat → List A} (positive : 1 ≤ T) {cs : List (Chunk I A)}
    (framed : ∀ c ∈ cs, Framed pos T f c) :
    ∃ s, deliverAll pos .fresh cs = some s ∧ Exact pos T f cs s := by
  induction cs using List.reverseRecOn with
  | nil => exact ⟨_, rfl, exact_fresh pos T f positive⟩
  | append_singleton front c ih =>
    obtain ⟨middle, before, inv⟩ := ih fun d hd => framed d (by simp [hd])
    obtain ⟨s, last, inv'⟩ := exact_step inj inv (framed c (by simp))
    refine ⟨s, ?_, inv'⟩
    rw [deliverAll_append, before, Option.bind_some, deliverAll_singleton]
    exact last

theorem exact_done_iff {T : Nat} {f : Nat → List A} {seen : List (Chunk I A)} {s : Slot I A}
    (inv : Exact pos T f seen s) :
    (∃ xs, s.done = some xs) ↔ ∀ i, i < T → ∃ c ∈ seen, c.index = pos i := by
  constructor
  · rintro ⟨xs, done⟩
    exact (inv.finished xs done).2
  · intro all
    cases state : s.done with
    | some xs => exact ⟨xs, rfl⟩
    | none =>
      have full : ∀ i, i < T → pos i ∈ s.pending := by
        intro i hi
        obtain ⟨c, member, index⟩ := all i hi
        rw [← index]
        exact inv.waiting state c member
      have count := length_ge_of_full inj full
      have short := inv.short
      omega

end Positions

end ChunkAssembly

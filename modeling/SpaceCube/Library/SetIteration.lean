import Mathlib.Data.List.ReduceOption

/- A hash set as a table of slots, and an iteration over it that other code may interrupt.
   An insertion takes a free slot or rebuilds the table in any order, a removal empties its
   slot, and every step of the iteration first compares the size with that at its start. -/
namespace SetIteration
variable {C : Type*}

structure Table (C : Type*) where
  slots : List (Option C)
  distinct : slots.reduceOption.Nodup

def Table.empty : Table C := ⟨[], List.nodup_nil⟩

def Table.members (t : Table C) : List C := t.slots.reduceOption

def Table.size (t : Table C) : Nat := t.members.length

instance : Membership C (Table C) := ⟨fun t c => c ∈ t.members⟩

theorem mem_slots (t : Table C) (c : C) : c ∈ t ↔ some c ∈ t.slots := List.reduceOption_mem_iff

theorem mem_at (t : Table C) (c : C) : c ∈ t ↔ ∃ i : Nat, t.slots[i]? = some (some c) := by
  rw [mem_slots, List.mem_iff_getElem?]

theorem slots_unique {slots : List (Option C)} (distinct : slots.reduceOption.Nodup) {i j : Nat}
    {c : C} (first : slots[i]? = some (some c)) (second : slots[j]? = some (some c)) : i = j := by
  induction slots generalizing i j with
  | nil => simp at first
  | cons slot rest ih =>
    have later : ∀ k : Nat, rest[k]? = some (some c) → c ∈ rest.reduceOption := fun k here =>
      List.reduceOption_mem_iff.mpr (List.mem_of_getElem? here)
    have apart : rest.reduceOption.Nodup ∧ (slot = some c → c ∉ rest.reduceOption) := by
      cases slot with
      | none => exact ⟨by simpa using distinct, by simp⟩
      | some d =>
        rw [List.reduceOption_cons_of_some] at distinct
        obtain ⟨absent, unique⟩ := List.nodup_cons.mp distinct
        exact ⟨unique, fun same => Option.some.inj same ▸ absent⟩
    cases i with
    | zero =>
      cases j with
      | zero => rfl
      | succ j => exact absurd (later j second) (apart.2 (Option.some.inj first))
    | succ i =>
      cases j with
      | zero => exact absurd (later i first) (apart.2 (Option.some.inj second))
      | succ j => exact congrArg Nat.succ (ih apart.1 first second)

/-- Whoever has a slot keeps it. -/
def SlotsKept (t t' : Table C) : Prop :=
  ∀ (i : Nat) (c : C), t.slots[i]? = some (some c) → t'.slots[i]? = some (some c)

/-- The results that an insertion may have. -/
inductive Added (t : Table C) (c : C) : Table C → Prop where
  | present (here : c ∈ t) : Added t c t
  | placed {i : Nat} {t' : Table C} (absent : c ∉ t) (free : t.slots[i]? = some none)
    (slots : t'.slots = t.slots.set i (some c)) : Added t c t'
  | rebuilt {t' : Table C} (absent : c ∉ t) (members : t'.members.Perm (c :: t.members)) :
    Added t c t'

theorem placed_kept {t t' : Table C} {c : C} {i : Nat} (free : t.slots[i]? = some none)
    (slots : t'.slots = t.slots.set i (some c)) : SlotsKept t t' := by
  intro j d held
  have other : i ≠ j := by
    rintro rfl
    cases Option.some.inj (free.symm.trans held)
  rw [slots, List.getElem?_set_ne other]
  exact held

theorem mem_added {t t' : Table C} {c : C} (added : Added t c t') (d : C) :
    d ∈ t' ↔ d = c ∨ d ∈ t := by
  cases added with
  | present here =>
    constructor
    · exact Or.inr
    · rintro (rfl | member)
      · exact here
      · exact member
  | @placed i _ absent free slots =>
    obtain ⟨below, _⟩ := List.getElem?_eq_some_iff.mp free
    constructor
    · intro member
      rw [mem_slots, slots] at member
      rcases List.mem_or_eq_of_mem_set member with old | new
      · exact Or.inr ((mem_slots t d).mpr old)
      · exact Or.inl (Option.some.inj new)
    · rintro (rfl | member)
      · rw [mem_at, slots]
        exact ⟨i, List.getElem?_set_self below⟩
      · obtain ⟨j, held⟩ := (mem_at t d).mp member
        exact (mem_at t' d).mpr ⟨j, placed_kept free slots j d held⟩
  | rebuilt absent members => exact members.mem_iff.trans List.mem_cons

section Removal
variable [DecidableEq C]

instance (t : Table C) (c : C) : Decidable (c ∈ t) := inferInstanceAs (Decidable (c ∈ t.members))

def clearSlot (c : C) (slot : Option C) : Option C := if slot = some c then none else slot

theorem clear_slots (slots : List (Option C)) (c : C) :
    (slots.map (clearSlot c)).reduceOption = slots.reduceOption.filter fun d => decide (d ≠ c) := by
  induction slots with
  | nil => rfl
  | cons slot rest ih =>
    cases slot with
    | none => simpa [clearSlot] using ih
    | some d =>
      by_cases same : d = c
      · simpa [clearSlot, same] using ih
      · simpa [clearSlot, same] using ih

def Table.discard (t : Table C) (c : C) : Table C :=
  ⟨t.slots.map (clearSlot c), by
    rw [clear_slots]
    exact t.distinct.filter _⟩

theorem mem_discard (t : Table C) (c d : C) : d ∈ t.discard c ↔ d ∈ t ∧ d ≠ c := by
  have members : (t.discard c).members = t.members.filter fun d => decide (d ≠ c) :=
    clear_slots t.slots c
  change d ∈ (t.discard c).members ↔ d ∈ t.members ∧ d ≠ c
  rw [members, List.mem_filter, decide_eq_true_eq]

theorem discard_slot {t : Table C} {c d : C} (other : d ≠ c) {i : Nat}
    (held : t.slots[i]? = some (some d)) : (t.discard c).slots[i]? = some (some d) := by
  simp [Table.discard, List.getElem?_map, held, clearSlot, other]

def Table.discardAll (t : Table C) (cs : List C) : Table C := cs.foldl Table.discard t

theorem mem_discardAll (t : Table C) (cs : List C) (d : C) :
    d ∈ t.discardAll cs ↔ d ∈ t ∧ d ∉ cs := by
  induction cs generalizing t with
  | nil => simp [Table.discardAll]
  | cons c cs ih =>
    rw [show t.discardAll (c :: cs) = (t.discard c).discardAll cs from rfl, ih, mem_discard,
      List.mem_cons, not_or, and_assoc]

theorem discardAll_slot {t : Table C} {cs : List C} {d : C} (other : d ∉ cs) {i : Nat}
    (held : t.slots[i]? = some (some d)) : (t.discardAll cs).slots[i]? = some (some d) := by
  induction cs generalizing t with
  | nil => exact held
  | cons c cs ih =>
    rw [List.mem_cons, not_or] at other
    exact ih other.2 (discard_slot other.1 held)

end Removal

/-- used is the size at the start, pos the slot to look at next. -/
structure Iter where
  used : Nat
  pos : Nat

def Table.iter (t : Table C) : Iter := ⟨t.size, 0⟩

inductive Next (C : Type*) where
  | changed
  | stop
  | item (c : C) (rest : Iter)

/-- The first occupied slot, and the position after it. -/
def scan : List (Option C) → Nat → Option (C × Nat)
  | [], _ => none
  | none :: rest, pos => scan rest (pos + 1)
  | some c :: _, pos => some (c, pos + 1)

def Iter.next (it : Iter) (t : Table C) : Next C :=
  if t.size = it.used then
    match scan (t.slots.drop it.pos) it.pos with
    | some (c, pos) => .item c ⟨it.used, pos⟩
    | none => .stop
  else .changed

theorem next_changed_iff (it : Iter) (t : Table C) :
    it.next t = .changed ↔ t.size ≠ it.used := by
  unfold Iter.next
  split
  · rename_i same
    split <;> simp [same]
  · rename_i differs
    simp [differs]

theorem scan_some {slots : List (Option C)} {pos next : Nat} {c : C}
    (found : scan slots pos = some (c, next)) : ∃ k, next = pos + k + 1 ∧
      slots[k]? = some (some c) ∧ ∀ (j : Nat) (d : C), j < k → slots[j]? ≠ some (some d) := by
  induction slots generalizing pos with
  | nil => contradiction
  | cons slot rest ih =>
    cases slot with
    | none =>
      obtain ⟨k, after, here, before⟩ := ih found
      refine ⟨k + 1, by omega, here, fun j d below => ?_⟩
      cases j with
      | zero => simp
      | succ j => exact before j d (by omega)
    | some d =>
      obtain ⟨rfl, rfl⟩ := Prod.mk.inj (Option.some.inj found)
      exact ⟨0, rfl, rfl, fun j _ below => absurd below (Nat.not_lt_zero j)⟩

theorem scan_none {slots : List (Option C)} {pos : Nat} (missing : scan slots pos = none)
    (j : Nat) (d : C) : slots[j]? ≠ some (some d) := by
  induction slots generalizing pos j with
  | nil => simp
  | cons slot rest ih =>
    cases slot with
    | none =>
      cases j with
      | zero => simp
      | succ j => exact ih missing j
    | some c => contradiction

/-- An item is the first that is left in the slots not yet passed. -/
theorem next_item {it rest : Iter} {t : Table C} {c : C} (next : it.next t = .item c rest) :
    ∃ k, rest = ⟨it.used, it.pos + k + 1⟩ ∧ t.slots[it.pos + k]? = some (some c) ∧
      ∀ (j : Nat) (d : C), j < k → t.slots[it.pos + j]? ≠ some (some d) := by
  unfold Iter.next at next
  split at next
  · cases found : scan (t.slots.drop it.pos) it.pos with
    | none => simp [found] at next
    | some result =>
      obtain ⟨c', pos⟩ := result
      simp only [found, Next.item.injEq] at next
      obtain ⟨rfl, rfl⟩ := next
      obtain ⟨k, rfl, here, before⟩ := scan_some found
      rw [List.getElem?_drop] at here
      refine ⟨k, rfl, here, fun j d below => ?_⟩
      rw [← List.getElem?_drop]
      exact before j d below
  · contradiction

/-- An iteration stops when no item is left. -/
theorem next_stop {it : Iter} {t : Table C} (next : it.next t = .stop) (j : Nat) (d : C) :
    t.slots[it.pos + j]? ≠ some (some d) := by
  unfold Iter.next at next
  split at next
  · cases found : scan (t.slots.drop it.pos) it.pos with
    | some result => simp [found] at next
    | none =>
      rw [← List.getElem?_drop]
      exact scan_none found j d
  · contradiction

theorem item_mem {it rest : Iter} {t : Table C} {c : C} (next : it.next t = .item c rest) :
    c ∈ t := by
  obtain ⟨k, _, here, _⟩ := next_item next
  exact (mem_at t c).mpr ⟨_, here⟩

/-- The iteration has been at every slot of these items that it has passed. -/
def Covers (t : Table C) (it : Iter) (visited staying : List C) : Prop :=
  ∀ c ∈ staying, ∃ i : Nat, t.slots[i]? = some (some c) ∧ (i < it.pos → c ∈ visited)

theorem covers_start (t : Table C) : Covers t t.iter [] t.members := by
  intro c member
  obtain ⟨i, held⟩ := (mem_at t c).mp member
  exact ⟨i, held, fun below => absurd below (Nat.not_lt_zero i)⟩

theorem covers_mono {t : Table C} {it : Iter} {visited visited' staying : List C}
    (covers : Covers t it visited staying) (more : ∀ c ∈ visited, c ∈ visited') :
    Covers t it visited' staying := by
  intro c member
  obtain ⟨i, held, passed⟩ := covers c member
  exact ⟨i, held, fun below => more c (passed below)⟩

theorem covers_item {t : Table C} {it rest : Iter} {visited staying : List C} {c : C}
    (covers : Covers t it visited staying) (next : it.next t = .item c rest) :
    Covers t rest (visited ++ [c]) staying := by
  obtain ⟨k, rfl, here, before⟩ := next_item next
  intro d member
  obtain ⟨i, held, passed⟩ := covers d member
  refine ⟨i, held, fun below => ?_⟩
  by_cases old : i < it.pos
  · exact List.mem_append_left _ (passed old)
  · obtain ⟨j, rfl⟩ := Nat.exists_eq_add_of_le (Nat.le_of_not_lt old)
    have last : j = k := by
      by_contra other
      exact before j d (by dsimp only at below; omega) held
    rw [last, here, Option.some.injEq, Option.some.injEq] at held
    exact List.mem_append_right _ (held ▸ List.mem_singleton_self _)

/-- An iteration that stops has visited all who kept their slots. -/
theorem covers_stop {t : Table C} {it : Iter} {visited staying : List C}
    (covers : Covers t it visited staying) (next : it.next t = .stop) :
    ∀ c ∈ staying, c ∈ visited := by
  intro c member
  obtain ⟨i, held, passed⟩ := covers c member
  apply passed
  by_contra later
  obtain ⟨j, rfl⟩ := Nat.exists_eq_add_of_le (Nat.le_of_not_lt later)
  exact next_stop next j c held

end SetIteration

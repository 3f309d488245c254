import SpaceCube.Library.ChunkAssembly

/- Two messages of one sender sharing one assembly slot. Nothing in a chunk tells the
   messages apart, so the slot can blend them; the question is when that cannot show. -/
namespace MixedAssembly
open InsertionDict ChunkAssembly
variable {I A : Type*}

def piece (xs : List (List A)) (i : Nat) : List A := xs.getD i []

def chunkAt (pos : Nat → I) (xs : List (List A)) (i : Nat) : Chunk I A :=
  ⟨pos i, some xs.length, some (piece xs i)⟩

def From (pos : Nat → I) (xs : List (List A)) (c : Chunk I A) : Prop :=
  ∃ i, i < xs.length ∧ c = chunkAt pos xs i

/-- A delivery order: each entry says which message it is of (true for the second) and
    which of its chunks it carries. -/
abbrev Order := List (Bool × Nat)

def Order.indices (order : Order) (second : Bool) : List Nat :=
  (order.filter fun e => e.1 == second).map Prod.snd

@[simp] theorem indices_nil (c : Bool) : Order.indices [] c = [] := rfl

@[simp] theorem indices_cons (b c : Bool) (i : Nat) (order : Order) :
    Order.indices ((b, i) :: order) c =
      if b = c then i :: order.indices c else order.indices c := by
  cases b <;> cases c <;> rfl

@[simp] theorem indices_part (b c : Bool) (is : List Nat) :
    Order.indices (is.map fun i => (b, i)) c = if b = c then is else [] := by
  induction is with
  | nil => cases b <;> cases c <;> rfl
  | cons i is ih =>
    rw [List.map_cons, indices_cons, ih]
    split <;> rfl

/-- An interleaving with losses: each message's chunks come in order, at most once. -/
def InOrder (xs ys : List (List A)) (order : Order) : Prop :=
  (order.indices false).Sublist (List.range xs.length) ∧
    (order.indices true).Sublist (List.range ys.length)

theorem in_order_bound {xs ys : List (List A)} {order : Order} (kept : InOrder xs ys order)
    {b : Bool} {i : Nat} (member : (b, i) ∈ order) :
    i < (if b then ys else xs).length := by
  have listed : i ∈ order.indices b :=
    List.mem_map.mpr ⟨(b, i), List.mem_filter.mpr ⟨member, by simp⟩, rfl⟩
  cases b with
  | false => exact List.mem_range.mp (kept.1.subset listed)
  | true => exact List.mem_range.mp (kept.2.subset listed)

def render (pos : Nat → I) (xs ys : List (List A)) (order : Order) : List (Chunk I A) :=
  order.map fun e => chunkAt pos (if e.1 then ys else xs) e.2

/-- The two messages cannot be told apart by their blends: they have as many chunks and
    differ in at most one, or one is a single chunk and the other starts with that chunk
    or carries nothing after its first. -/
def Compatible (xs ys : List (List A)) : Prop :=
  (xs.length = ys.length ∧ ∀ i j, i < xs.length → j < xs.length →
    piece xs i ≠ piece ys i → piece xs j ≠ piece ys j → i = j) ∨
  (xs.length = 1 ∧ (piece xs 0 = piece ys 0 ∨ ys.tail.flatten = [])) ∨
  (ys.length = 1 ∧ (piece xs 0 = piece ys 0 ∨ xs.tail.flatten = []))

theorem compatible_swap {xs ys : List (List A)} (h : Compatible xs ys) : Compatible ys xs := by
  rcases h with ⟨same, one⟩ | ⟨single, shown⟩ | ⟨single, shown⟩
  · refine Or.inl ⟨same.symm, fun i j hi hj di dj => ?_⟩
    exact one i j (by omega) (by omega) (Ne.symm di) (Ne.symm dj)
  · exact Or.inr (Or.inr ⟨single, shown.imp_left Eq.symm⟩)
  · exact Or.inr (Or.inl ⟨single, shown.imp_left Eq.symm⟩)

theorem joined_add (f : Nat → List A) (m k : Nat) :
    joined f (m + k) = joined f m ++ joined (fun t => f (m + t)) k := by
  induction k with
  | zero => simp [joined]
  | succ k ih => rw [← Nat.add_assoc, joined_succ, ih, joined_succ, List.append_assoc]

theorem joined_piece (xs : List (List A)) : joined (piece xs) xs.length = xs.flatten :=
  joined_getD xs

theorem joined_split (f : Nat → List A) {j n : Nat} (below : j < n) :
    joined f n = joined f j ++ (f j ++ joined (fun t => f (j + 1 + t)) (n - (j + 1))) := by
  obtain ⟨k, rfl⟩ : ∃ k, n = j + 1 + k := ⟨n - (j + 1), by omega⟩
  rw [joined_add f (j + 1) k, joined_succ, List.append_assoc, Nat.add_sub_cancel_left]

/-- Two joins that agree off one position are equal only if they agree there too. -/
theorem joined_cancel {f g : Nat → List A} {j n : Nat} (below : j < n)
    (agree : ∀ i, i < n → i ≠ j → f i = g i) (same : joined f n = joined g n) : f j = g j := by
  rw [joined_split f below, joined_split g below,
    joined_congr f g j fun i hi => agree i (by omega) (by omega),
    joined_congr (fun t => f (j + 1 + t)) (fun t => g (j + 1 + t)) (n - (j + 1))
      fun t ht => agree (j + 1 + t) (by omega) (by omega)] at same
  exact List.append_cancel_right (List.append_cancel_left same)

theorem joined_length_change {f g : Nat → List A} {j n : Nat} (below : j < n)
    (agree : ∀ i, i < n → i ≠ j → f i = g i) :
    (joined f n).length + (g j).length = (joined g n).length + (f j).length := by
  rw [joined_split f below, joined_split g below,
    joined_congr f g j fun i hi => agree i (by omega) (by omega),
    joined_congr (fun t => f (j + 1 + t)) (fun t => g (j + 1 + t)) (n - (j + 1))
      fun t ht => agree (j + 1 + t) (by omega) (by omega)]
  simp only [List.length_append]
  omega

/-- Joins with equal pieces below i and pieces of one length at i agree at i. -/
theorem joined_first_difference {f g : Nat → List A} {i n : Nat} (below : i < n)
    (agree : ∀ k, k < i → f k = g k) (size : (f i).length = (g i).length)
    (same : joined f n = joined g n) : f i = g i := by
  rw [joined_split f below, joined_split g below, joined_congr f g i agree] at same
  exact (List.append_inj (List.append_cancel_left same) size).1

def pick (xs ys : List (List A)) (second : Nat → Bool) (i : Nat) : List A :=
  if second i then piece ys i else piece xs i

theorem pick_agree {xs ys : List (List A)} {s t : Nat → Bool} {i : Nat} (same : s i = t i) :
    pick xs ys s i = pick xs ys t i := by
  simp [pick, same]

/-- If every choice of pieces joins to one of the two messages, they differ in at most one
    piece: two differences at i and j give three joins whose lengths cannot fit. -/
theorem one_difference {xs ys : List (List A)}
    (blends : ∀ second : Nat → Bool, joined (pick xs ys second) xs.length = xs.flatten ∨
      joined (pick xs ys second) xs.length = ys.flatten) {i j : Nat}
    (hi : i < j) (hj : j < xs.length) (di : piece xs i ≠ piece ys i)
    (dj : piece xs j ≠ piece ys j) : False := by
  obtain ⟨n, n_def⟩ : ∃ n, n = xs.length := ⟨_, rfl⟩
  rw [← n_def] at blends hj
  let first : Nat → Bool := fun k => decide (k = i)
  let last : Nat → Bool := fun k => decide (k = j)
  let both : Nat → Bool := fun k => decide (k = i) || decide (k = j)
  have none_join : joined (pick xs ys fun _ => false) n = xs.flatten := by
    rw [n_def]
    exact joined_piece xs
  have at_i : ∀ k, k < n → k ≠ i → pick xs ys (fun _ => false) k = pick xs ys first k :=
    fun k _ other => pick_agree (by simp [first, other])
  have at_j : ∀ k, k < n → k ≠ j → pick xs ys (fun _ => false) k = pick xs ys last k :=
    fun k _ other => pick_agree (by simp [last, other])
  have both_j : ∀ k, k < n → k ≠ j → pick xs ys first k = pick xs ys both k :=
    fun k _ other => pick_agree (by simp [first, both, other])
  have first_second : joined (pick xs ys first) n = ys.flatten := by
    refine (blends first).resolve_left fun eq => di ?_
    have same := joined_cancel (by omega) at_i (none_join.trans eq.symm)
    simpa [pick, first] using same
  have last_second : joined (pick xs ys last) n = ys.flatten := by
    refine (blends last).resolve_left fun eq => dj ?_
    have same := joined_cancel hj at_j (none_join.trans eq.symm)
    simpa [pick, last] using same
  have both_first : joined (pick xs ys both) n = xs.flatten := by
    refine (blends both).resolve_right fun eq => dj ?_
    have same := joined_cancel hj both_j (first_second.trans eq.symm)
    simpa [pick, first, both, show ¬ j = i by omega] using same
  have len_i := joined_length_change (by omega : i < n) at_i
  have len_j := joined_length_change hj at_j
  have len_both := joined_length_change hj both_j
  rw [none_join, first_second] at len_i
  rw [none_join, last_second] at len_j
  rw [first_second, both_first] at len_both
  simp only [pick, first, last, both, decide_true, Bool.or_true, show ¬ j = i by omega,
    decide_false, ↓reduceIte, Bool.false_eq_true] at len_i len_j len_both
  apply di
  have same := joined_first_difference (f := pick xs ys last) (g := pick xs ys first)
    (i := i) (n := n) (by omega)
    (fun k hk => pick_agree (by simp [last, first, show ¬ k = j by omega, show ¬ k = i by omega]))
    (by simp [pick, first, last, show ¬ i = j by omega]; omega)
    (last_second.trans first_second.symm)
  simpa [pick, first, last, show ¬ i = j by omega] using same

theorem flatten_head {xs : List (List A)} (nonempty : 0 < xs.length) :
    xs.flatten = piece xs 0 ++ xs.tail.flatten := by
  cases xs with
  | nil => simp at nonempty
  | cons x xs => simp [piece]

theorem flatten_single {xs : List (List A)} (single : xs.length = 1) : xs.flatten = piece xs 0 := by
  obtain ⟨x, rfl⟩ := List.length_eq_one_iff.mp single
  simp [piece]

theorem joined_head (f : Nat → List A) (m : Nat) :
    joined f (m + 1) = f 0 ++ joined (fun t => f (1 + t)) m := by
  rw [Nat.add_comm, joined_add, joined_succ]
  simp [joined]

theorem joined_tail {ys : List (List A)} {m : Nat} (size : m + 1 = ys.length) :
    joined (fun t => piece ys (1 + t)) m = ys.tail.flatten := by
  have whole := joined_piece ys
  rw [← size, joined_head, flatten_head (by omega)] at whole
  exact List.append_cancel_left whole

/-- A single chunk blends harmlessly into a message that starts with it or carries nothing
    after its first chunk. -/
theorem single_blend {xs ys : List (List A)} (single : xs.length = 1)
    (shown : piece xs 0 = piece ys 0 ∨ ys.tail.flatten = []) {T : Nat}
    (size : T = xs.length ∨ T = ys.length) {f : Nat → List A}
    (blend : ∀ i, i < T →
      (i < xs.length ∧ f i = piece xs i) ∨ (i < ys.length ∧ f i = piece ys i)) :
    joined f T = xs.flatten ∨ joined f T = ys.flatten := by
  rw [flatten_single single]
  cases T with
  | zero =>
    have empty : ys = [] := List.length_eq_zero_iff.mp (by omega)
    simp [empty, joined]
  | succ m =>
    have later : ∀ t, t < m → f (1 + t) = piece ys (1 + t) := by
      intro t ht
      rcases blend (1 + t) (by omega) with ⟨below, _⟩ | ⟨_, eq⟩
      · omega
      · exact eq
    rw [joined_head, joined_congr _ _ m later]
    rcases size with one | whole
    · obtain rfl : m = 0 := by omega
      have empty : joined (fun t => piece ys (1 + t)) 0 = [] := rfl
      rw [empty, List.append_nil]
      rcases blend 0 (by omega) with ⟨_, eq⟩ | ⟨below, eq⟩
      · exact Or.inl eq
      · rcases shown with heads | silent
        · exact Or.inl (eq.trans heads.symm)
        · right
          rw [flatten_head below, silent, List.append_nil, eq]
    · rw [joined_tail whole, flatten_head (show 0 < ys.length by omega)]
      rcases blend 0 (by omega) with ⟨_, eq⟩ | ⟨_, eq⟩
      · rcases shown with heads | silent
        · exact Or.inr (by rw [eq, heads])
        · exact Or.inl (by rw [silent, List.append_nil, eq])
      · exact Or.inr (by rw [eq])

/-- A blend of the two messages below T that is as long as one of them joins to one of
    them, if they are compatible. -/
theorem compatible_blend {xs ys : List (List A)} (h : Compatible xs ys) {T : Nat}
    (size : T = xs.length ∨ T = ys.length) {f : Nat → List A}
    (blend : ∀ i, i < T →
      (i < xs.length ∧ f i = piece xs i) ∨ (i < ys.length ∧ f i = piece ys i)) :
    joined f T = xs.flatten ∨ joined f T = ys.flatten := by
  have second : (∀ i, i < T → f i = piece ys i) → T = ys.length → joined f T = ys.flatten := by
    intro all eq
    rw [joined_congr f (piece ys) T all, eq, joined_piece]
  have first : (∀ i, i < T → f i = piece xs i) → T = xs.length → joined f T = xs.flatten := by
    intro all eq
    rw [joined_congr f (piece xs) T all, eq, joined_piece]
  rcases h with ⟨same, one⟩ | ⟨single, shown⟩ | ⟨single, shown⟩
  · by_cases all : ∀ i, i < T → f i = piece ys i
    · exact Or.inr (second all (by omega))
    · push Not at all
      obtain ⟨i, hi, differs⟩ := all
      left
      refine first ?_ (by omega)
      intro j hj
      rcases blend j hj with ⟨_, eq⟩ | ⟨_, eq⟩
      · exact eq
      · by_contra other
        have here : f i = piece xs i := by
          rcases blend i hi with ⟨_, eq⟩ | ⟨_, eq⟩
          · exact eq
          · exact absurd eq differs
        have j_differs : piece xs j ≠ piece ys j := fun same => other (eq.trans same.symm)
        have i_differs : piece xs i ≠ piece ys i := fun same => differs (here.trans same)
        have same_place := one i j (by omega) (by omega) i_differs j_differs
        exact differs (same_place ▸ eq)
  · exact single_blend single shown size blend
  · refine (single_blend single (shown.imp_left Eq.symm) size.symm ?_).symm
    intro i hi
    exact (blend i hi).symm

section Slots
variable [DecidableEq I] {pos : Nat → I}

/-- The slot never fails on this order and only ever completes with one of the two. -/
def Untorn (pos : Nat → I) (xs ys : List (List A)) (order : Order) : Prop :=
  ∃ s, deliverAll pos .fresh (render pos xs ys order) = some s ∧
    ∀ out, s.done = some out → out = xs.flatten ∨ out = ys.flatten

structure Blended (pos : Nat → I) (xs ys : List (List A)) (s : Slot I A) : Prop where
  held : ∀ k v, s.pending.get? k = some v → ∃ i, k = pos i ∧
    ((i < xs.length ∧ v = piece xs i) ∨ (i < ys.length ∧ v = piece ys i))
  finished : ∀ out, s.done = some out → out = xs.flatten ∨ out = ys.flatten

theorem blended_fresh (pos : Nat → I) (xs ys : List (List A)) :
    Blended pos xs ys (.fresh : Slot I A) where
  held := by simp [Slot.fresh]
  finished := by simp [Slot.fresh]

theorem blended_swap {xs ys : List (List A)} {s : Slot I A} (h : Blended pos xs ys s) :
    Blended pos ys xs s where
  held := by
    intro k v got
    obtain ⟨i, eq, value⟩ := h.held k v got
    exact ⟨i, eq, value.symm⟩
  finished := fun out done => (h.finished out done).symm

omit [DecidableEq I] in
/-- A chunk of the first message never finds a gap: the count it is compared with is the
    larger of the two totals, or it is the one chunk of its message. -/
theorem blended_full {xs ys : List (List A)} (h : Compatible xs ys)
    {pending : Dict I (List A)} {i : Nat} (below : i < xs.length) (present : pos i ∈ pending)
    (held : ∀ k, k ∈ pending → ∃ j, k = pos j ∧ (j < xs.length ∨ j < ys.length))
    (size : pending.length = xs.length) : ∀ j, j < xs.length → pos j ∈ pending := by
  intro j hj
  by_cases larger : ys.length ≤ xs.length
  · refine full_of_length ?_ (Nat.le_of_eq size.symm) j hj
    intro k member
    obtain ⟨t, eq, bound⟩ := held k member
    exact ⟨t, by omega, eq⟩
  · have single : xs.length = 1 := by
      rcases h with ⟨same, _⟩ | ⟨single, _⟩ | ⟨single, _⟩
      · omega
      · exact single
      · omega
    obtain rfl : j = i := by omega
    exact present

section Positions
variable (inj : Function.Injective pos)
include inj

theorem blended_step {xs ys : List (List A)} (h : Compatible xs ys) {s : Slot I A}
    {c : Chunk I A} (inv : Blended pos xs ys s) (sent : From pos xs c) :
    ∃ s', deliver pos s c = some s' ∧ Blended pos xs ys s' := by
  obtain ⟨i, below, rfl⟩ := sent
  obtain ⟨pending, kept⟩ : ∃ pending, keep s.pending (chunkAt pos xs i) = some pending := by
    by_cases present : pos i ∈ s.pending
    · exact ⟨_, keep_present present⟩
    · exact ⟨_, keep_new present rfl⟩
  have held : ∀ k v, pending.get? k = some v → ∃ j, k = pos j ∧
      ((j < xs.length ∧ v = piece xs j) ∨ (j < ys.length ∧ v = piece ys j)) := by
    intro k v got
    rcases keep_get? kept got with old | ⟨same, decoded⟩
    · exact inv.held k v old
    · exact ⟨i, same, Or.inl ⟨below, (Option.some.inj decoded).symm⟩⟩
  by_cases size : pending.length = xs.length
  · have all := blended_full h below ((mem_keep kept _).mpr (Or.inl rfl)) (by
      intro k member
      obtain ⟨v, got⟩ := (mem_iff_get? _ _).mp member
      obtain ⟨j, eq, value⟩ := held k v got
      exact ⟨j, eq, value.imp And.left And.left⟩) size
    let f := fun j => (pending.get? (pos j)).getD []
    have full : ∀ j, j < xs.length → pending.get? (pos j) = some (f j) := by
      intro j hj
      obtain ⟨v, got⟩ := (mem_iff_get? _ _).mp (all j hj)
      simp [f, got]
    have run := deliver_full pos kept (by rw [size]; rfl) (by rwa [size])
    refine ⟨_, run, by simp, ?_⟩
    intro out done
    obtain rfl := Option.some.inj done
    refine compatible_blend h (Or.inl size) ?_
    intro j hj
    obtain ⟨t, eq, value⟩ := held _ _ (full j (by omega))
    obtain rfl := inj eq
    exact value
  · refine ⟨_, deliver_short kept ?_, held, inv.finished⟩
    simpa [chunkAt] using Ne.symm size

/-- Compatible messages never tear, whatever is lost, repeated or reordered. -/
theorem blended_run {xs ys : List (List A)} (h : Compatible xs ys) (cs : List (Chunk I A))
    (sent : ∀ c ∈ cs, From pos xs c ∨ From pos ys c) :
    ∃ s, deliverAll pos .fresh cs = some s ∧ Blended pos xs ys s := by
  induction cs using List.reverseRecOn with
  | nil => exact ⟨_, rfl, blended_fresh pos xs ys⟩
  | append_singleton front c ih =>
    obtain ⟨middle, before, inv⟩ := ih fun d hd => sent d (by simp [hd])
    have last : ∃ s, deliver pos middle c = some s ∧ Blended pos xs ys s := by
      rcases sent c (by simp) with first | second
      · exact blended_step inj h inv first
      · obtain ⟨s, run, inv'⟩ := blended_step inj (compatible_swap h) (blended_swap inv) second
        exact ⟨s, run, blended_swap inv'⟩
    obtain ⟨s, run, inv'⟩ := last
    refine ⟨s, ?_, inv'⟩
    rw [deliverAll_append, before, Option.bind_some, deliverAll_singleton]
    exact run

omit [DecidableEq I] inj in
theorem chosen_in_order {xs ys : List (List A)} (size : xs.length = ys.length)
    (second : Nat → Bool) :
    InOrder xs ys ((List.range xs.length).map fun i => (second i, i)) := by
  have part : ∀ b, (Order.indices ((List.range xs.length).map fun i => (second i, i)) b).Sublist
      (List.range xs.length) := by
    intro b
    simp only [Order.indices, List.filter_map, List.map_map, Function.comp_def, List.map_id']
    exact List.filter_sublist
  exact ⟨part false, by rw [← size]; exact part true⟩

/-- Messages of one size that never tear differ in at most one chunk. -/
theorem equal_sizes_compatible {xs ys : List (List A)} (size : xs.length = ys.length)
    (positive : 1 ≤ xs.length) (safe : ∀ order, InOrder xs ys order → Untorn pos xs ys order) :
    Compatible xs ys := by
  have blends : ∀ second : Nat → Bool, joined (pick xs ys second) xs.length = xs.flatten ∨
      joined (pick xs ys second) xs.length = ys.flatten := by
    intro second
    obtain ⟨s, run, whole⟩ := safe _ (chosen_in_order size second)
    have framed : ∀ c ∈ render pos xs ys ((List.range xs.length).map fun i => (second i, i)),
        Framed pos xs.length (pick xs ys second) c := by
      intro c member
      obtain ⟨e, sent, rfl⟩ := List.mem_map.mp member
      obtain ⟨i, below, rfl⟩ := List.mem_map.mp sent
      refine ⟨i, by simpa using below, ?_⟩
      simp only [pick, chunkAt]
      split <;> simp only [size]
    obtain ⟨t, run', inv⟩ := exact_run inj positive framed
    obtain rfl : t = s := Option.some.inj (run'.symm.trans run)
    have all : ∀ i, i < xs.length →
        ∃ c ∈ render pos xs ys ((List.range xs.length).map fun i => (second i, i)),
          c.index = pos i := by
      intro i below
      refine ⟨_, List.mem_map_of_mem (List.mem_map_of_mem (List.mem_range.mpr below)), rfl⟩
    obtain ⟨out, done⟩ := (exact_done_iff inj inv).mpr all
    rw [← (inv.finished out done).1]
    exact whole out done
  left
  refine ⟨size, fun i j hi hj di dj => ?_⟩
  rcases Nat.lt_trichotomy i j with less | same | more
  · exact (one_difference blends less hj di dj).elim
  · exact same
  · exact (one_difference blends more hi dj di).elim

/-- A chunk beyond the shorter message, then its first k chunks: one short of the count,
    with every position from k on still missing. -/
structure Overfull (pos : Nat → I) (xs ys : List (List A)) (k : Nat)
    (pending : Dict I (List A)) : Prop where
  run : deliverAll pos .fresh (render pos xs ys
    ((true, xs.length) :: (List.range k).map fun i => (false, i))) = some ⟨pending, none⟩
  size : pending.length = k + 1
  held : ∀ key, key ∈ pending → key = pos xs.length ∨ ∃ i, i < k ∧ key = pos i

omit inj in
theorem overfull_start {xs ys : List (List A)} (longer : xs.length < ys.length)
    (room : 2 ≤ xs.length) :
    Overfull pos xs ys 0 (Dict.empty.set (pos xs.length) (piece ys xs.length)) where
  run := by
    have kept : keep (Slot.fresh : Slot I A).pending (chunkAt pos ys xs.length) =
        some (Dict.empty.set (pos xs.length) (piece ys xs.length)) :=
      keep_new (not_mem_empty _) rfl
    simp only [render, List.range_zero, List.map_nil, List.map_cons, ↓reduceIte,
      deliverAll_singleton]
    refine deliver_short kept ?_
    rw [length_set]
    simp [chunkAt, not_mem_empty]
    omega
  size := by simp [length_set, not_mem_empty]
  held := by
    intro key member
    rcases (mem_set _ _ _ _).mp member with here | nowhere
    · exact Or.inl here
    · exact absurd nowhere (not_mem_empty key)

theorem overfull_absent {xs ys : List (List A)} {k j : Nat} {pending : Dict I (List A)}
    (inv : Overfull pos xs ys k pending) (late : k ≤ j) (below : j < xs.length) :
    pos j ∉ pending := by
  intro member
  rcases inv.held _ member with here | ⟨i, early, here⟩
  · have same := inj here
    omega
  · have same := inj here
    omega

theorem overfull_step {xs ys : List (List A)} {k : Nat} {pending : Dict I (List A)}
    (inv : Overfull pos xs ys k pending) (room : k + 2 < xs.length) :
    Overfull pos xs ys (k + 1) (pending.set (pos k) (piece xs k)) := by
  have absent := overfull_absent inj inv (Nat.le_refl k) (by omega)
  have size : (pending.set (pos k) (piece xs k)).length = k + 2 := by
    simp [length_set, absent, inv.size]
  refine ⟨?_, size, ?_⟩
  · have run := inv.run
    simp only [render, List.map_cons] at run
    simp only [render, List.range_succ, List.map_append, List.map_cons, List.map_nil,
      ← List.cons_append, deliverAll_append]
    rw [run, Option.bind_some, deliverAll_singleton]
    refine deliver_short (keep_new absent rfl) ?_
    rw [size]
    simp [chunkAt]
    omega
  · intro key member
    rcases (mem_set _ _ _ _).mp member with here | old
    · exact Or.inr ⟨k, by omega, here⟩
    · rcases inv.held key old with here | ⟨i, below, here⟩
      · exact Or.inl here
      · exact Or.inr ⟨i, by omega, here⟩

theorem overfull {xs ys : List (List A)} (longer : xs.length < ys.length) {k : Nat}
    (room : k + 2 ≤ xs.length) : ∃ pending, Overfull pos xs ys k pending := by
  induction k with
  | zero => exact ⟨_, overfull_start longer room⟩
  | succ k ih =>
    obtain ⟨pending, inv⟩ := ih (by omega)
    exact ⟨_, overfull_step inj inv (by omega)⟩

omit [DecidableEq I] inj in
theorem overfull_in_order {xs ys : List (List A)} (longer : xs.length < ys.length) {k : Nat}
    (below : k ≤ xs.length) :
    InOrder xs ys ((true, xs.length) :: (List.range k).map fun i => (false, i)) := by
  constructor
  · simpa using List.range_sublist.mpr below
  · simpa using longer

/-- A shorter message of two or more chunks can meet its count with a position missing. -/
theorem shorter_single {xs ys : List (List A)} (longer : xs.length < ys.length)
    (positive : 1 ≤ xs.length) (safe : ∀ order, InOrder xs ys order → Untorn pos xs ys order) :
    xs.length = 1 := by
  by_contra several
  obtain ⟨k, size⟩ : ∃ k, xs.length = k + 2 := ⟨xs.length - 2, by omega⟩
  obtain ⟨pending, inv⟩ := overfull inj longer (k := k) (by omega)
  obtain ⟨s, whole, _⟩ := safe _ (overfull_in_order longer (k := k + 1) (by omega))
  have absent : ∀ j, k ≤ j → j < xs.length → pos j ∉ pending :=
    fun j late below => overfull_absent inj inv late below
  have run := inv.run
  have full : (pending.set (pos k) (piece xs k)).length = xs.length := by
    simp [length_set, absent k (by omega) (by omega), inv.size, size]
  have gap : deliver pos ⟨pending, none⟩ (chunkAt pos xs k) = none := by
    refine deliver_gap (i := k + 1) (keep_new (absent k (by omega) (by omega)) rfl)
      (congrArg some full.symm) (by simp only [chunkAt]; omega) ?_
    intro member
    rcases (mem_set _ _ _ _).mp member with here | old
    · have := inj here
      omega
    · exact absent (k + 1) (by omega) (by omega) old
  simp only [render, List.range_succ, List.map_append, List.map_cons, List.map_nil,
    ← List.cons_append, deliverAll_append] at whole
  simp only [render, List.map_cons] at run
  rw [run, Option.bind_some, deliverAll_singleton] at whole
  exact absurd (whole.symm.trans gap) (by simp)

omit inj in
/-- The one chunk of the shorter message completes whatever first chunk is buffered. -/
theorem single_shown {xs ys : List (List A)} (single : xs.length = 1)
    (longer : xs.length < ys.length)
    (safe : ∀ order, InOrder xs ys order → Untorn pos xs ys order) :
    piece xs 0 = piece ys 0 ∨ ys.tail.flatten = [] := by
  have order : InOrder xs ys [(true, 0), (false, 0)] := by
    constructor <;> simp <;> omega
  obtain ⟨s, whole, known⟩ := safe _ order
  let first : Dict I (List A) := Dict.empty.set (pos 0) (piece ys 0)
  have size : first.length = 1 := by simp [first, length_set, not_mem_empty]
  have one : deliver pos .fresh (chunkAt pos ys 0) = some ⟨first, none⟩ := by
    refine deliver_short (keep_new (not_mem_empty _) rfl) ?_
    rw [size]
    simp [chunkAt]
    omega
  have two : deliver pos ⟨first, none⟩ (chunkAt pos xs 0) = some ⟨.empty, some (piece ys 0)⟩ := by
    have run := deliver_full pos (s := ⟨first, none⟩) (c := chunkAt pos xs 0)
      (f := fun _ => piece ys 0) (keep_present ((mem_set _ _ _ _).mpr (Or.inl rfl)))
      (by rw [size, ← single]; rfl) (by
        intro i below
        obtain rfl : i = 0 := by
          simp only [size] at below
          omega
        simp [first])
    rw [run, size]
    simp [joined]
  have both : deliverAll pos .fresh (render pos xs ys [(true, 0), (false, 0)]) =
      some ⟨.empty, some (piece ys 0)⟩ := by
    simp only [render, List.map_cons, List.map_nil, ↓reduceIte, Bool.false_eq_true,
      deliverAll_cons, one, Option.bind_some, two]
    rfl
  obtain rfl := Option.some.inj (whole.symm.trans both)
  rcases known _ rfl with old | new
  · exact Or.inl (by rw [old, flatten_single single])
  · right
    rw [flatten_head (by omega)] at new
    exact List.self_eq_append_right.mp new

theorem shorter_compatible {xs ys : List (List A)} (longer : xs.length < ys.length)
    (positive : 1 ≤ xs.length) (safe : ∀ order, InOrder xs ys order → Untorn pos xs ys order) :
    Compatible xs ys := by
  have single := shorter_single inj longer positive safe
  exact Or.inr (Or.inl ⟨single, single_shown single longer safe⟩)

omit inj

def Order.flip (order : Order) : Order := order.map fun e => (!e.1, e.2)

omit [DecidableEq I] in
theorem indices_flip (order : Order) (b : Bool) : order.flip.indices b = order.indices (!b) := by
  simp only [Order.indices, Order.flip, List.filter_map, List.map_map, Function.comp_def]
  congr 1
  apply List.filter_congr
  intro e _
  cases e.1 <;> cases b <;> rfl

omit [DecidableEq I] in
theorem render_flip (pos : Nat → I) (xs ys : List (List A)) (order : Order) :
    render pos xs ys order.flip = render pos ys xs order := by
  simp only [render, Order.flip, List.map_map]
  apply List.map_congr_left
  intro e _
  cases h : e.1 <;> simp [h]

theorem safe_flip {xs ys : List (List A)}
    (safe : ∀ order, InOrder xs ys order → Untorn pos xs ys order) :
    ∀ order, InOrder ys xs order → Untorn pos ys xs order := by
  intro order kept
  obtain ⟨s, run, whole⟩ := safe order.flip ⟨by rw [indices_flip]; exact kept.2,
    by rw [indices_flip]; exact kept.1⟩
  rw [render_flip] at run
  exact ⟨s, run, fun out done => (whole out done).symm⟩

/-- No in-order interleaving with losses tears the two messages exactly when they are
    compatible. -/
theorem compatible_of_untorn (inj : Function.Injective pos) {xs ys : List (List A)}
    (positive : 1 ≤ xs.length) (positive' : 1 ≤ ys.length)
    (safe : ∀ order, InOrder xs ys order → Untorn pos xs ys order) : Compatible xs ys := by
  rcases Nat.lt_trichotomy xs.length ys.length with less | same | more
  · exact shorter_compatible inj less positive safe
  · exact equal_sizes_compatible inj same positive safe
  · exact compatible_swap (shorter_compatible inj more positive' (safe_flip safe))

end Positions
end Slots

end MixedAssembly

import SpaceCube.Library.PiecewiseReader
import SpaceCube.Wire.Hybi13

/- However the bytes of a connection are cut into reads, the processor comes to the same
   messages and the same end. -/
namespace ReadPieces
open MachineWord Masking FrameHeader HeaderChecks Utf8Validator Hybi13
variable {m : Machine} {s : Settings} {p q : Processor m} {buf xs ys : List Byte}

/-- What holds of a processor between two turns. -/
structure Live (p : Processor m) : Prop where
  known : p.state ≠ .extension ∧ p.state ≠ .fatalError
  basic : p.state = .headerBasic → p.bytesNeeded = 1 ∨ p.bytesNeeded = 2
  extended : p.state = .headerExtended → p.cursor + p.bytesNeeded ≤ maxExtendedHeaderLength
  array : p.extendedHeader.bytes.length = maxExtendedHeaderLength
  current : p.state = .application ∨ p.state = .ready → p.current.msgPtr.isSome = true
  key : p.state = .application → ∃ key start, StandsAt m key start p.current.preparedKey

theorem copyAt_length {bytes source : List Byte} {offset : Nat}
    (inside : offset + source.length ≤ bytes.length) :
    (copyAt bytes offset source).length = bytes.length := by
  simp only [copyAt, List.length_append, List.length_take, List.length_drop]
  omega

theorem copyAt_append {bytes : List Byte} {offset : Nat} (u v : List Byte)
    (inside : offset ≤ bytes.length) :
    copyAt (copyAt bytes offset u) (offset + u.length) v = copyAt bytes offset (u ++ v) := by
  have early : (bytes.take offset ++ u).length = offset + u.length := by
    rw [List.length_append, List.length_take]
    omega
  have first : (copyAt bytes offset u).take (offset + u.length) = bytes.take offset ++ u := by
    rw [copyAt, List.take_left' early]
  have last : (copyAt bytes offset u).drop (offset + u.length + v.length) =
      bytes.drop (offset + (u ++ v).length) := by
    rw [copyAt, ← List.drop_drop, List.drop_left' early, List.drop_drop, List.length_append,
      Nat.add_assoc]
  rw [copyAt, first, last, copyAt, List.append_assoc (bytes.take offset)]

theorem stands_same {key : MaskingKey} {start : Nat} {k k' : m.Word}
    (first : StandsAt m key start k) (second : StandsAt m key start k') : k = k' :=
  word_ext m.order rfl fun i below => (first i below).trans (second i below).symm

/-- Unmasking in two pieces is unmasking the whole, and leaves the same key. -/
theorem mask_append {key : MaskingKey} {start : Nat} {preparedKey : m.Word}
    (stands : StandsAt m key start preparedKey) (u v : List Byte) :
    byteMaskCirc m preparedKey (u ++ v) =
      ((byteMaskCirc m preparedKey u).1 ++
          (byteMaskCirc m (byteMaskCirc m preparedKey u).2 v).1,
        (byteMaskCirc m (byteMaskCirc m preparedKey u).2 v).2) := by
  obtain ⟨first, stands₁⟩ := byteMaskCirc_masked stands u
  obtain ⟨second, stands₂⟩ := byteMaskCirc_masked stands₁ v
  obtain ⟨whole, stands₃⟩ := byteMaskCirc_masked stands (u ++ v)
  rw [List.length_append, ← Nat.add_assoc] at stands₃
  refine Prod.ext ?_ (stands_same stands₃ stands₂)
  rw [whole, first, second, masked_append]

@[simp] theorem current_setCurrent (p : Processor m) (metadata : MsgMetadata m) :
    (p.setCurrent metadata).current = metadata := by
  unfold Processor.setCurrent Processor.current
  cases p.currentMsg with
  | data => rfl
  | control => rfl

@[simp] theorem setCurrent_basicHeader (p : Processor m) (metadata : MsgMetadata m) :
    (p.setCurrent metadata).basicHeader = p.basicHeader := by
  unfold Processor.setCurrent
  split <;> rfl

@[simp] theorem setCurrent_bytesNeeded (p : Processor m) (metadata : MsgMetadata m) :
    (p.setCurrent metadata).bytesNeeded = p.bytesNeeded := by
  unfold Processor.setCurrent
  split <;> rfl

@[simp] theorem setCurrent_state (p : Processor m) (metadata : MsgMetadata m) :
    (p.setCurrent metadata).state = p.state := by
  unfold Processor.setCurrent
  split <;> rfl

@[simp] theorem setCurrent_extendedHeader (p : Processor m) (metadata : MsgMetadata m) :
    (p.setCurrent metadata).extendedHeader = p.extendedHeader := by
  unfold Processor.setCurrent
  split <;> rfl

theorem unmask_append (h : BasicHeader) {key : MaskingKey} {start : Nat} {preparedKey : m.Word}
    (stands : StandsAt m key start preparedKey) (u v : List Byte) :
    unmask h preparedKey (u ++ v) =
      ((unmask h preparedKey u).1 ++ (unmask h (unmask h preparedKey u).2 v).1,
        (unmask h (unmask h preparedKey u).2 v).2) := by
  unfold unmask
  split
  · exact mask_append stands u v
  · rfl

theorem fill_append (h : BasicHeader) {metadata : MsgMetadata m} {key : MaskingKey} {start : Nat}
    (stands : StandsAt m key start metadata.preparedKey) (u v : List Byte) :
    metadata.fill h (u ++ v) = (metadata.fill h u).bind fun metadata => metadata.fill h v := by
  have whole := unmask_append h stands u v
  unfold MsgMetadata.fill
  rw [whole]
  generalize unmask h metadata.preparedKey u = first
  dsimp only
  rw [decode_append]
  split
  · rename_i text
    cases metadata.validator.decode first.1 with
    | mk valid validator =>
      cases valid with
      | false => simp [Except.bind]
      | true => simp [Except.bind, Option.map_map, Function.comp_def, text]
  · rename_i other
    simp [Except.bind, Option.map_map, Function.comp_def, other]

/-- How a turn on a piece goes on in the turn on a longer one: it is the same turn, or it takes
    the whole piece and the rest is for the turn after it. -/
inductive Extends (s : Settings) (p : Processor m) (xs : List Byte) : Prop where
  | same (alike : ∀ ys, turn s p (xs ++ ys) =
      (turn s p xs).map fun (q, rest) => (q, rest ++ ys))
  | hungry {q : Processor m} (taken : turn s p xs = .ok (q, [])) (needs : 0 < q.bytesNeeded)
    (reading : q.state = p.state) (later : ∀ ys, ys ≠ [] → turn s p (xs ++ ys) = turn s q ys)

theorem map_left {q : Except ProcessorError (Processor m)} {rest ys : List Byte} :
    (q.map (·, rest ++ ys)) =
      (q.map (·, rest)).map fun (q, rest) => (q, rest ++ ys) := by
  cases q with
  | error ec => rfl
  | ok q => rfl

theorem basic_one (here : p.state = .headerBasic) (needs : p.bytesNeeded = 1) (x : Byte) :
    turn s p (x :: buf) =
      (finishBasicHeader s
        { p with basicHeader := ⟨p.basicHeader.b0, x⟩, bytesNeeded := 0 }).map (·, buf) := by
  unfold turn
  cases buf with
  | nil => simp [copyBasicHeaderBytes, needs, here]
  | cons y buf => simp [copyBasicHeaderBytes, needs, here]

theorem basic_first (here : p.state = .headerBasic) (needs : p.bytesNeeded = 2) (x : Byte) :
    turn s p [x] =
      .ok ({ p with basicHeader := ⟨x, p.basicHeader.b1⟩, bytesNeeded := 1 }, []) := by
  unfold turn
  simp [copyBasicHeaderBytes, needs, here]

theorem basic_both (here : p.state = .headerBasic) (needs : p.bytesNeeded = 2) (x y : Byte) :
    turn s p (x :: y :: buf) =
      (finishBasicHeader s { p with basicHeader := ⟨x, y⟩, bytesNeeded := 0 }).map (·, buf) := by
  unfold turn
  simp [copyBasicHeaderBytes, needs, here]

theorem basic_extends (here : p.state = .headerBasic)
    (needs : p.bytesNeeded = 1 ∨ p.bytesNeeded = 2) (some : xs ≠ []) : Extends s p xs := by
  cases xs with
  | nil => contradiction
  | cons x xs =>
    rcases needs with one | two
    · refine .same fun ys => ?_
      rw [List.cons_append, basic_one here one, basic_one here one, map_left]
    · cases xs with
      | nil =>
        refine .hungry (basic_first here two x) Nat.one_pos rfl fun ys more => ?_
        cases ys with
        | nil => contradiction
        | cons y ys =>
          have second : turn s
              { p with basicHeader := ⟨x, p.basicHeader.b1⟩, bytesNeeded := 1 } (y :: ys) =
              (finishBasicHeader s { p with basicHeader := ⟨x, y⟩, bytesNeeded := 0 }).map
                (·, ys) :=
            basic_one (p := { p with basicHeader := ⟨x, p.basicHeader.b1⟩, bytesNeeded := 1 })
              here rfl y
          rw [List.singleton_append, basic_both here two, second]
      | cons y xs =>
        refine .same fun ys => ?_
        rw [List.cons_append, List.cons_append, basic_both here two, basic_both here two, map_left]

/-- The header of a frame after some of its bytes have come. -/
def partExtended (p : Processor m) (xs : List Byte) : Processor m :=
  { p with
    extendedHeader := ⟨copyAt p.extendedHeader.bytes p.cursor xs⟩
    cursor := p.cursor + xs.length
    bytesNeeded := p.bytesNeeded - xs.length }

theorem part_part (array : p.cursor ≤ p.extendedHeader.bytes.length) (xs ys : List Byte) :
    partExtended (partExtended p xs) ys = partExtended p (xs ++ ys) := by
  simp only [partExtended, copyAt_append xs ys array, List.length_append, Nat.sub_sub,
    Nat.add_assoc]

theorem extended_enough (here : p.state = .headerExtended) (enough : p.bytesNeeded ≤ buf.length) :
    turn s p buf = (finishExtendedHeader s (partExtended p (buf.take p.bytesNeeded))).map
      (·, buf.drop p.bytesNeeded) := by
  unfold turn
  simp [copyExtendedHeaderBytes, partExtended, Nat.min_eq_left enough, here]

theorem extended_short (here : p.state = .headerExtended) (short : buf.length < p.bytesNeeded) :
    turn s p buf = .ok (partExtended p buf, []) := by
  unfold turn
  simp [copyExtendedHeaderBytes, partExtended, Nat.min_eq_right short.le, short, here]

theorem take_across {n : Nat} (more : xs.length ≤ n) :
    (xs ++ ys).take n = xs ++ ys.take (n - xs.length) := by
  rw [List.take_append, List.take_of_length_le more]

theorem drop_across {n : Nat} (more : xs.length ≤ n) :
    (xs ++ ys).drop n = ys.drop (n - xs.length) := by
  rw [List.drop_append, List.drop_of_length_le more, List.nil_append]

theorem extended_extends (here : p.state = .headerExtended)
    (array : p.cursor ≤ p.extendedHeader.bytes.length) (xs : List Byte) : Extends s p xs := by
  by_cases enough : p.bytesNeeded ≤ xs.length
  · refine .same fun ys => ?_
    have more : p.bytesNeeded ≤ (xs ++ ys).length := by
      rw [List.length_append]
      omega
    rw [extended_enough here enough, extended_enough here more,
      List.take_append_of_le_length enough, List.drop_append_of_le_length enough, map_left]
  · have short : xs.length < p.bytesNeeded := Nat.lt_of_not_le enough
    refine .hungry (extended_short here short) (Nat.sub_pos_of_lt short) rfl fun ys _ => ?_
    have here' : (partExtended p xs).state = .headerExtended := here
    have total : (xs ++ ys).length = xs.length + ys.length := List.length_append
    by_cases more : p.bytesNeeded ≤ (xs ++ ys).length
    · have rest : (partExtended p xs).bytesNeeded ≤ ys.length := by
        dsimp only [partExtended]
        omega
      rw [extended_enough here more, extended_enough here' rest, part_part array,
        take_across short.le, drop_across short.le]
      rfl
    · have rest : ys.length < (partExtended p xs).bytesNeeded := by
        dsimp only [partExtended]
        omega
      rw [extended_short here (Nat.lt_of_not_le more), extended_short here' rest, part_part array]

/-- The processor with other metadata of its frame and another count of bytes. -/
def filled (p : Processor m) (metadata : MsgMetadata m) (n : Nat) : Processor m :=
  { p.setCurrent metadata with bytesNeeded := n }

theorem filled_current (p : Processor m) (metadata : MsgMetadata m) (n : Nat) :
    (filled p metadata n).current = metadata := by
  unfold filled Processor.setCurrent Processor.current
  cases p.currentMsg <;> simp

theorem filled_header (p : Processor m) (metadata : MsgMetadata m) (n : Nat) :
    (filled p metadata n).basicHeader = p.basicHeader := setCurrent_basicHeader p metadata

theorem filled_state (p : Processor m) (metadata : MsgMetadata m) (n : Nat) :
    (filled p metadata n).state = p.state := setCurrent_state p metadata

theorem filled_array (p : Processor m) (metadata : MsgMetadata m) (n : Nat) :
    (filled p metadata n).extendedHeader = p.extendedHeader := setCurrent_extendedHeader p metadata

theorem filled_filled (p : Processor m) (first second : MsgMetadata m) (n k : Nat) :
    filled (filled p first n) second k = filled p second k := by
  unfold filled Processor.setCurrent
  cases p.currentMsg <;> simp

theorem process_filled (p : Processor m) (xs : List Byte) : processPayloadBytes p xs =
    (p.current.fill p.basicHeader xs).map (filled p · (p.bytesNeeded - xs.length)) := rfl

theorem process_append {key : MaskingKey} {start : Nat}
    (stands : StandsAt m key start p.current.preparedKey) (xs ys : List Byte) :
    processPayloadBytes p (xs ++ ys) =
      (processPayloadBytes p xs).bind fun q => processPayloadBytes q ys := by
  rw [process_filled, process_filled, fill_append p.basicHeader stands, List.length_append]
  cases p.current.fill p.basicHeader xs with
  | error ec => rfl
  | ok metadata =>
    simp only [Except.bind, Except.map, process_filled, filled_current, filled_header,
      filled_filled]
    cases metadata.fill p.basicHeader ys with
    | error ec => rfl
    | ok metadata' => simp only [filled, Nat.sub_sub]

/-- process_payload_bytes where there is something to process. -/
def processed (p : Processor m) (xs : List Byte) : Except ProcessorError (Processor m) :=
  if xs = [] then .ok p else processPayloadBytes p xs

theorem processed_needed {q : Processor m} (taken : processed p xs = .ok q) :
    q.bytesNeeded = p.bytesNeeded - xs.length ∧ q.state = p.state := by
  unfold processed at taken
  split at taken
  · rename_i none
    obtain rfl := Except.ok.inj taken
    exact ⟨by rw [none]; rfl, rfl⟩
  · rw [process_filled] at taken
    cases filling : p.current.fill p.basicHeader xs with
    | error ec => rw [filling] at taken; contradiction
    | ok metadata =>
      rw [filling] at taken
      obtain rfl := Except.ok.inj taken
      exact ⟨rfl, filled_state ..⟩

theorem application_turn (here : p.state = .application) (buf : List Byte) :
    turn s p buf = (processed p (buf.take p.bytesNeeded)).bind fun q =>
      if 0 < q.bytesNeeded then .ok (q, buf.drop p.bytesNeeded)
      else (finishFrame q).map (·, buf.drop p.bytesNeeded) := by
  have taken : buf.take (min p.bytesNeeded buf.length) = buf.take p.bytesNeeded := by
    rw [List.take_eq_take_iff]
    omega
  have left : buf.drop (min p.bytesNeeded buf.length) = buf.drop p.bytesNeeded := by
    rw [List.drop_eq_drop_iff]
    omega
  have empty : 0 < min p.bytesNeeded buf.length ↔ ¬ buf.take p.bytesNeeded = [] := by
    rw [← List.length_eq_zero_iff, List.length_take]
    omega
  unfold turn processed
  rw [here]
  dsimp only
  rw [taken, left]
  by_cases none : buf.take p.bytesNeeded = []
  · rw [if_neg (fun some => empty.mp some none), if_pos none]
    rfl
  · rw [if_pos (empty.mpr none), if_neg none]
    cases processPayloadBytes p (buf.take p.bytesNeeded) <;> rfl

theorem application_enough (here : p.state = .application) (enough : p.bytesNeeded ≤ buf.length) :
    turn s p buf = ((processed p (buf.take p.bytesNeeded)).bind finishFrame).map
      (·, buf.drop p.bytesNeeded) := by
  rw [application_turn here]
  cases taken : processed p (buf.take p.bytesNeeded) with
  | error ec => rfl
  | ok q =>
    have needed := (processed_needed taken).1
    rw [List.length_take, Nat.min_eq_left enough, Nat.sub_self] at needed
    simp [Except.bind, needed]

theorem application_short (here : p.state = .application) (some : buf ≠ [])
    (short : buf.length < p.bytesNeeded) :
    turn s p buf = (processPayloadBytes p buf).map (·, []) := by
  have whole : processed p (buf.take p.bytesNeeded) = processPayloadBytes p buf := by
    rw [List.take_of_length_le short.le, processed, if_neg some]
  rw [application_turn here, whole]
  cases taken : processPayloadBytes p buf with
  | error ec => rfl
  | ok q =>
    have needed := (processed_needed (whole.trans taken)).1
    rw [List.length_take, Nat.min_eq_right short.le] at needed
    have more : 0 < q.bytesNeeded := by omega
    simp [Except.bind, Except.map, more, short.le]

theorem application_extends (here : p.state = .application) {key : MaskingKey} {start : Nat}
    (stands : StandsAt m key start p.current.preparedKey)
    (wants : xs ≠ [] ∨ p.bytesNeeded = 0) : Extends s p xs := by
  by_cases enough : p.bytesNeeded ≤ xs.length
  · refine .same fun ys => ?_
    have more : p.bytesNeeded ≤ (xs ++ ys).length := by
      rw [List.length_append]
      omega
    rw [application_enough here enough, application_enough here more,
      List.take_append_of_le_length enough, List.drop_append_of_le_length enough, map_left]
  · have short : xs.length < p.bytesNeeded := Nat.lt_of_not_le enough
    have some : xs ≠ [] := wants.resolve_right (by omega)
    have longer : ∀ ys, turn s p (xs ++ ys) =
        (processPayloadBytes p xs).bind fun q =>
          (processPayloadBytes q (ys.take (p.bytesNeeded - xs.length))).bind fun r =>
            if 0 < r.bytesNeeded then .ok (r, ys.drop (p.bytesNeeded - xs.length))
            else (finishFrame r).map (·, ys.drop (p.bytesNeeded - xs.length)) := by
      intro ys
      rw [application_turn here, take_across short.le, drop_across short.le, processed,
        if_neg (by simp [some]), process_append stands]
      cases processPayloadBytes p xs <;> rfl
    have now := application_short (s := s) here some short
    cases taken : processPayloadBytes p xs with
    | error ec =>
      refine .same fun ys => ?_
      rw [longer, now, taken]
      rfl
    | ok q =>
      have whole : processed p xs = .ok q := by rw [processed, if_neg some, taken]
      obtain ⟨needed, state⟩ := processed_needed whole
      refine .hungry (now.trans (by rw [taken]; rfl)) (by omega) state fun ys more => ?_
      have part : ys.take (p.bytesNeeded - xs.length) ≠ [] := by
        rw [Ne, List.take_eq_nil_iff, not_or]
        exact ⟨by omega, more⟩
      rw [longer, taken, application_turn (state.trans here), needed, processed, if_neg part]
      rfl

theorem header_len_bound (h : BasicHeader) : getHeaderLen h ≤ basicHeaderLength + 12 := by
  have offset : getMaskingKeyOffset h ≤ 8 := by
    unfold getMaskingKeyOffset
    split
    · decide
    · split
      · decide
      · decide
  unfold getHeaderLen
  dsimp only
  split
  · omega
  · omega

theorem live_reset (p : Processor m) : Live (resetHeaders p) where
  known := ⟨by simp [resetHeaders], by simp [resetHeaders]⟩
  basic := fun _ => Or.inr rfl
  extended := fun here => by simp [resetHeaders] at here
  array := rfl
  current := fun here => by simp [resetHeaders] at here
  key := fun here => by simp [resetHeaders] at here

theorem live_initial : Live (Processor.initial m) := live_reset _

theorem live_finish_basic (live : Live p) (done : finishBasicHeader s p = .ok q) : Live q := by
  unfold finishBasicHeader at done
  split at done
  · contradiction
  · obtain rfl := Except.ok.inj done
    have bound := header_len_bound p.basicHeader
    refine ⟨by simp, by simp, fun _ => ?_, live.array, by simp, by simp⟩
    simp only [maxExtendedHeaderLength]
    omega

/-- A frame begins with a buffer and a key of its own. -/
structure Begun (p q : Processor m) : Prop where
  state : q.state = p.state
  header : q.basicHeader = p.basicHeader
  array : q.extendedHeader = p.extendedHeader
  needs : q.bytesNeeded = p.bytesNeeded
  some : q.current.msgPtr.isSome = true
  key : ∃ key start, StandsAt m key start q.current.preparedKey

theorem begin_payload (begun : beginPayload s p = .ok q) : Begun p q := by
  unfold beginPayload at begun
  dsimp only at begun
  split at begun
  · obtain rfl := Except.ok.inj begun
    exact ⟨rfl, rfl, rfl, rfl, rfl, _, _, prepared_stands m _⟩
  · split at begun
    · split at begun
      · contradiction
      · obtain rfl := Except.ok.inj begun
        exact ⟨rfl, rfl, rfl, rfl, rfl, _, _, prepared_stands m _⟩
    · rename_i out held
      split at begun
      · contradiction
      · obtain rfl := Except.ok.inj begun
        refine ⟨rfl, rfl, rfl, rfl, ?_, _, _, prepared_stands m _⟩
        simp [Processor.current, held]

theorem live_finish_extended (live : Live p) (done : finishExtendedHeader s p = .ok q) :
    Live q := by
  unfold finishExtendedHeader at done
  split at done
  · contradiction
  · have begun := begin_payload done
    have state : q.state = .application := begun.state
    refine ⟨by simp [state], by simp [state], by simp [state], ?_, fun _ => begun.some,
      fun _ => begun.key⟩
    rw [begun.array]
    exact live.array

theorem live_finish_frame (live : Live p) (here : p.state = .application)
    (done : finishFrame p = .ok q) : Live q := by
  have some := live.current (Or.inl here)
  have ready : Live { p with state := State.ready } :=
    ⟨by simp, by simp, by simp, live.array, fun _ => some, by simp⟩
  unfold finishFrame finalizeMessage at done
  split at done
  · split at done
    · split at done
      · obtain rfl := Except.ok.inj done
        exact ready
      · contradiction
    · obtain rfl := Except.ok.inj done
      exact ready
  · obtain rfl := Except.ok.inj done
    exact live_reset p

/-- Filling a message keeps its buffer and moves its key on. -/
theorem fill_keeps {h : BasicHeader} {metadata metadata' : MsgMetadata m} {key : MaskingKey}
    {start : Nat} (stands : StandsAt m key start metadata.preparedKey)
    (filled : metadata.fill h xs = .ok metadata') :
    metadata'.msgPtr.isSome = metadata.msgPtr.isSome ∧
      ∃ start, StandsAt m key start metadata'.preparedKey := by
  have moved : ∃ start, StandsAt m key start (unmask h metadata.preparedKey xs).2 := by
    unfold unmask
    split
    · exact ⟨_, (byteMaskCirc_masked stands xs).2⟩
    · exact ⟨start, stands⟩
  unfold MsgMetadata.fill at filled
  dsimp only at filled
  split at filled
  · split at filled
    · obtain rfl := Except.ok.inj filled
      exact ⟨Option.isSome_map .., moved⟩
    · contradiction
  · obtain rfl := Except.ok.inj filled
    exact ⟨Option.isSome_map .., moved⟩

theorem live_processed (live : Live p) (here : p.state = .application)
    (taken : processed p xs = .ok q) : Live q ∧ q.state = .application := by
  have state := (processed_needed taken).2.trans here
  refine ⟨?_, state⟩
  unfold processed at taken
  split at taken
  · exact Except.ok.inj taken ▸ live
  · obtain ⟨key, start, stands⟩ := live.key here
    rw [process_filled] at taken
    cases filling : p.current.fill p.basicHeader xs with
    | error ec => rw [filling] at taken; contradiction
    | ok metadata =>
      rw [filling] at taken
      obtain rfl := Except.ok.inj taken
      obtain ⟨some, moved⟩ := fill_keeps stands filling
      refine ⟨by simp [state], by simp [state], by simp [state], ?_, fun _ => ?_, fun _ => ?_⟩
      · rw [filled_array]
        exact live.array
      · rw [filled_current, some]
        exact live.current (Or.inl here)
      · rw [filled_current]
        exact ⟨key, moved⟩

theorem live_part (live : Live p) (here : p.state = .headerExtended)
    (inside : xs.length ≤ p.bytesNeeded) : Live (partExtended p xs) := by
  have bound := live.extended here
  have state : (partExtended p xs).state = .headerExtended := here
  refine ⟨by simp [state], by simp [state], fun _ => ?_, ?_, by simp [state], by simp [state]⟩
  · dsimp only [partExtended]
    omega
  · have array := live.array
    dsimp only [partExtended]
    rw [copyAt_length (by omega), array]

/-- The work that is left: every byte counts more than the fields that come after it. -/
def work (p : Processor m) (buf : List Byte) : Nat :=
  7 * buf.length + match p.state with
    | .headerBasic => 1
    | .headerExtended => 5
    | .application => 3
    | _ => 0

/-- What a turn does to a live processor: it stays live, has less work left and, where bytes
    were needed, takes one. -/
structure Turned (p q : Processor m) (buf rest : List Byte) : Prop where
  live : Live q
  less : work q rest < work p buf
  shorter : rest.length ≤ buf.length
  takes : 0 < p.bytesNeeded → rest.length < buf.length

theorem map_ok {result : Except ProcessorError (Processor m)} {rest : List Byte}
    (ran : result.map (·, buf) = .ok (q, rest)) : result = .ok q ∧ buf = rest := by
  cases result with
  | error ec => contradiction
  | ok p =>
    obtain ⟨rfl, rfl⟩ := Prod.mk.inj (Except.ok.inj ran)
    exact ⟨rfl, rfl⟩

theorem finish_basic_state (done : finishBasicHeader s p = .ok q) :
    q.state = .headerExtended := by
  unfold finishBasicHeader at done
  split at done
  · contradiction
  · exact Except.ok.inj done ▸ rfl

theorem finish_extended_state (done : finishExtendedHeader s p = .ok q) :
    q.state = .application := by
  unfold finishExtendedHeader at done
  split at done
  · contradiction
  · exact (begin_payload done).state

theorem finish_frame_state (done : finishFrame p = .ok q) :
    q.state = .ready ∨ q.state = .headerBasic := by
  unfold finishFrame finalizeMessage at done
  split at done
  · split at done
    · split at done
      · exact Or.inl (Except.ok.inj done ▸ rfl)
      · contradiction
    · exact Or.inl (Except.ok.inj done ▸ rfl)
  · exact Or.inr (Except.ok.inj done ▸ rfl)

theorem turned_basic {rest : List Byte} (live : Live p) (here : p.state = .headerBasic)
    (some : buf ≠ []) (ran : turn s p buf = .ok (q, rest)) : Turned p q buf rest := by
  have part : ∀ h : BasicHeader, ∀ n, n = 1 ∨ n = 2 →
      Live { p with basicHeader := h, bytesNeeded := n } := fun h n count =>
    ⟨live.known, fun _ => count, fun ext => by simp [here] at ext, live.array,
      fun app => by simp [here] at app, fun app => by simp [here] at app⟩
  have finished : ∀ (h : BasicHeader) (xs : List Byte), xs.length < buf.length →
      (finishBasicHeader s { p with basicHeader := h, bytesNeeded := 0 }).map (·, xs) =
        .ok (q, rest) → Turned p q buf rest := by
    intro h xs shorter ran
    obtain ⟨done, rfl⟩ := map_ok ran
    have state := finish_basic_state done
    have live' : Live q := by
      unfold finishBasicHeader at done
      exact live_finish_basic (part h 1 (Or.inl rfl)) done
    refine ⟨live', ?_, by omega, fun _ => shorter⟩
    rw [work, work, state, here]
    dsimp only
    omega
  cases buf with
  | nil => contradiction
  | cons x buf =>
    rcases live.basic here with one | two
    · rw [basic_one here one] at ran
      exact finished _ _ (Nat.lt_succ_self _) ran
    · cases buf with
      | nil =>
        rw [basic_first here two] at ran
        obtain ⟨rfl, rfl⟩ := Prod.mk.inj (Except.ok.inj ran)
        refine ⟨part _ 1 (Or.inl rfl), ?_, Nat.zero_le _, fun _ => Nat.one_pos⟩
        simp [work, here]
      | cons y buf =>
        rw [basic_both here two] at ran
        exact finished _ _ (Nat.lt_succ_of_lt (Nat.lt_succ_self _)) ran

theorem turned_extended {rest : List Byte} (live : Live p) (here : p.state = .headerExtended)
    (wants : buf ≠ [] ∨ p.bytesNeeded = 0) (ran : turn s p buf = .ok (q, rest)) :
    Turned p q buf rest := by
  by_cases enough : p.bytesNeeded ≤ buf.length
  · rw [extended_enough here enough] at ran
    obtain ⟨done, rfl⟩ := map_ok ran
    have state := finish_extended_state done
    have inside : (buf.take p.bytesNeeded).length ≤ p.bytesNeeded := List.length_take_le ..
    have left : (buf.drop p.bytesNeeded).length = buf.length - p.bytesNeeded := List.length_drop
    refine ⟨live_finish_extended (live_part live here inside) done, ?_, by omega, by omega⟩
    rw [work, work, state, here]
    dsimp only
    omega
  · have short : buf.length < p.bytesNeeded := Nat.lt_of_not_le enough
    rw [extended_short here short] at ran
    obtain ⟨rfl, rfl⟩ := Prod.mk.inj (Except.ok.inj ran)
    have positive := List.length_pos_of_ne_nil (wants.resolve_right (by omega))
    have state : (partExtended p buf).state = .headerExtended := here
    refine ⟨live_part live here short.le, ?_, Nat.zero_le _, fun _ => positive⟩
    rw [work, work, state, here]
    dsimp only
    rw [List.length_nil]
    omega

theorem turned_application {rest : List Byte} (live : Live p) (here : p.state = .application)
    (wants : buf ≠ [] ∨ p.bytesNeeded = 0) (ran : turn s p buf = .ok (q, rest)) :
    Turned p q buf rest := by
  rw [application_turn here] at ran
  cases taken : processed p (buf.take p.bytesNeeded) with
  | error ec => rw [taken] at ran; contradiction
  | ok r =>
    rw [taken] at ran
    obtain ⟨live', state⟩ := live_processed live here taken
    have needed := (processed_needed taken).1
    have left : (buf.drop p.bytesNeeded).length = buf.length - p.bytesNeeded := List.length_drop
    have positive : 0 < p.bytesNeeded → 0 < buf.length := fun more =>
      List.length_pos_of_ne_nil (wants.resolve_right (by omega))
    simp only [Except.bind] at ran
    split at ran
    · rename_i more
      obtain ⟨rfl, rfl⟩ := Prod.mk.inj (Except.ok.inj ran)
      rw [List.length_take] at needed
      refine ⟨live', ?_, by omega, fun more => ?_⟩
      · rw [work, work, state, here]
        dsimp only
        omega
      · have some := positive more
        omega
    · obtain ⟨done, rfl⟩ := map_ok ran
      refine ⟨live_finish_frame live' state done, ?_, by omega, fun more => ?_⟩
      · rcases finish_frame_state done with ready | basic
        · rw [work, work, ready, here]
          dsimp only
          omega
        · rw [work, work, basic, here]
          dsimp only
          omega
      · have some := positive more
        omega

theorem turned {rest : List Byte} (live : Live p) (unready : p.state ≠ .ready)
    (wants : buf ≠ [] ∨ p.bytesNeeded = 0) (ran : turn s p buf = .ok (q, rest)) :
    Turned p q buf rest := by
  cases here : p.state with
  | headerBasic =>
    have some : buf ≠ [] := wants.resolve_right fun none => by
      have needs := live.basic here
      omega
    exact turned_basic live here some ran
  | headerExtended => exact turned_extended live here wants ran
  | extension => exact absurd here live.known.1
  | application => exact turned_application live here wants ran
  | ready => exact absurd here unready
  | fatalError => exact absurd here live.known.2

theorem extends_live (live : Live p) (unready : p.state ≠ .ready)
    (wants : xs ≠ [] ∨ p.bytesNeeded = 0) : Extends s p xs := by
  cases here : p.state with
  | headerBasic =>
    have needs := live.basic here
    exact basic_extends here needs (wants.resolve_right (by omega))
  | headerExtended =>
    have bound := live.extended here
    have array := live.array
    exact extended_extends here (by omega) xs
  | extension => exact absurd here live.known.1
  | application =>
    obtain ⟨key, start, stands⟩ := live.key here
    exact application_extends here stands wants
  | ready => exact absurd here unready
  | fatalError => exact absurd here live.known.2

/-- The two loops as one reader: a message that is ready is taken out, and else the loop of
    consume turns as long as it goes on. -/
def readerTurn (s : Settings) (p : Processor m) (buf : List Byte) :
    PiecewiseReader.Turn (Processor m) Byte Message ProcessorError :=
  if p.state = .ready then .goes (getMessage p).2 buf (getMessage p).1
  else if p.wants buf then match turn s p buf with
    | .error ec => .fails ec
    | .ok (q, rest) => .goes q rest none
  else .waits

theorem wants_iff (live : Live p) (unready : p.state ≠ .ready) :
    p.wants buf = true ↔ buf ≠ [] ∨ p.bytesNeeded = 0 := by
  simp [Processor.wants, unready, live.known.2]

theorem live_message (ready : p.state = .ready) : Live (getMessage p).2 := by
  unfold getMessage
  rw [if_pos ready]
  exact live_reset _

theorem reader_working (live : Live p) (unready : p.state ≠ .ready)
    (wants : buf ≠ [] ∨ p.bytesNeeded = 0) : readerTurn s p buf = match turn s p buf with
      | .error ec => .fails ec
      | .ok (q, rest) => .goes q rest none := by
  rw [readerTurn, if_neg unready, if_pos ((wants_iff live unready).mpr wants)]

/-- The processor waits for bytes exactly where it needs some and has no message to give. -/
theorem reader_waits_iff (live : Live p) :
    readerTurn s p buf = .waits ↔ p.state ≠ .ready ∧ buf = [] ∧ p.bytesNeeded ≠ 0 := by
  unfold readerTurn
  split
  · rename_i ready
    simp [ready]
  · rename_i unready
    split
    · rename_i wants
      have going := (wants_iff live unready).mp wants
      refine iff_of_false ?_ fun ⟨_, empty, more⟩ => going.elim (· empty) more
      cases turn s p buf with
      | error ec => simp
      | ok result => simp
    · rename_i idle
      rw [wants_iff live unready, not_or, not_not] at idle
      exact iff_of_true rfl ⟨unready, idle⟩

theorem reader_splits : PiecewiseReader.Splits (readerTurn (m := m) s) Live where
  waits := fun p xs live waits => ((reader_waits_iff live).mp waits).2.1
  fails := by
    intro p xs ys ec live fails
    unfold readerTurn at fails
    split at fails
    · contradiction
    · rename_i unready
      split at fails
      · rename_i wants
        have going := (wants_iff live unready).mp wants
        have longer : xs ++ ys ≠ [] ∨ p.bytesNeeded = 0 :=
          going.imp_left fun some none => some (List.append_eq_nil_iff.mp none).1
        rw [reader_working live unready longer]
        cases extends_live (s := s) live unready going with
        | same alike =>
          rw [alike]
          cases result : turn s p xs with
          | error ec' => rw [result] at fails; exact fails
          | ok taken => rw [result] at fails; contradiction
        | hungry taken => rw [taken] at fails; contradiction
      · contradiction
  goes := by
    intro p xs q rest out live goes
    unfold readerTurn at goes
    split at goes
    · rename_i ready
      obtain ⟨rfl, rfl, rfl⟩ := PiecewiseReader.Turn.goes.inj goes
      refine ⟨live_message ready, Or.inl fun ys => ?_⟩
      rw [readerTurn, if_pos ready]
    · rename_i unready
      split at goes
      · rename_i wants
        have going := (wants_iff live unready).mp wants
        have longer : ∀ ys, xs ++ ys ≠ [] ∨ p.bytesNeeded = 0 := fun ys =>
          going.imp_left fun some none => some (List.append_eq_nil_iff.mp none).1
        cases result : turn s p xs with
        | error ec => rw [result] at goes; contradiction
        | ok pair =>
          obtain ⟨q', rest'⟩ := pair
          rw [result] at goes
          obtain ⟨rfl, rfl, rfl⟩ := PiecewiseReader.Turn.goes.inj goes
          have live' := (turned live unready going result).live
          refine ⟨live', ?_⟩
          cases extends_live (s := s) live unready going with
          | same alike =>
            refine Or.inl fun ys => ?_
            rw [reader_working live unready (longer ys), alike, result]
            rfl
          | @hungry r taken' needs reading later =>
            obtain ⟨rfl, rfl⟩ := Prod.mk.inj (Except.ok.inj (result.symm.trans taken'))
            have unready' : q'.state ≠ .ready := reading ▸ unready
            refine Or.inr ⟨rfl, rfl, ?_, fun ys some => ?_⟩
            · exact (reader_waits_iff live').mpr ⟨unready', rfl, by omega⟩
            · rw [reader_working live unready (longer ys),
                reader_working live' unready' (Or.inl some), later ys some]
      · contradiction

abbrev Reads (s : Settings) := PiecewiseReader.Reads (readerTurn (m := m) s)

abbrev ReadsAll (s : Settings) := PiecewiseReader.ReadsAll (readerTurn (m := m) s)

/-- What consume has done when it returns. -/
structure Consumed (s : Settings) (p q : Processor m) (buf rest : List Byte) : Prop where
  live : Live q
  shorter : rest.length ≤ buf.length
  stopped : q.state = .ready ∨ readerTurn s q rest = .waits
  reads : ∀ outs last, Reads s q rest outs last → Reads s p buf outs last

theorem consume_loop (live : Live p) {fuel : Nat} (enough : work p buf < fuel) :
    match consumeLoop s fuel p buf with
    | .error ec => Reads s p buf [] (.error ec)
    | .ok (q, rest) => Consumed s p q buf rest := by
  induction fuel generalizing p buf with
  | zero => exact absurd enough (Nat.not_lt_zero _)
  | succ fuel ih =>
    rw [consumeLoop]
    by_cases ready : p.state = .ready
    · have stops : ¬ p.wants buf = true := by simp [Processor.wants, ready]
      rw [if_neg stops]
      exact ⟨live, Nat.le_refl _, Or.inl ready, fun _ _ reads => reads⟩
    · by_cases wants : p.wants buf = true
      · rw [if_pos wants]
        have going := (wants_iff live ready).mp wants
        have working := reader_working (s := s) live ready going
        cases result : turn s p buf with
        | error ec => exact .fails (working.trans (by rw [result]))
        | ok taken =>
          obtain ⟨q, rest⟩ := taken
          rw [result] at working
          have step := turned live ready going result
          have less : work q rest < fuel := by
            have less := step.less
            omega
          have further := ih step.live less
          dsimp only
          cases ends : consumeLoop s fuel q rest with
          | error ec =>
            rw [ends] at further
            exact .goes working further
          | ok last =>
            rw [ends] at further
            refine ⟨further.live, further.shorter.trans step.shorter, further.stopped, ?_⟩
            exact fun outs last reads => .goes working (further.reads outs last reads)
      · rw [if_neg wants]
        have idle : readerTurn s p buf = .waits := by
          rw [readerTurn, if_neg ready, if_neg wants]
        exact ⟨live, Nat.le_refl _, Or.inr idle, fun _ _ reads => reads⟩

/-- Between two reads a processor waits for bytes. -/
structure Settled (p : Processor m) : Prop where
  live : Live p
  unready : p.state ≠ .ready
  needs : p.bytesNeeded ≠ 0

theorem settled_waits (settled : Settled p) : readerTurn s p [] = .waits :=
  (reader_waits_iff settled.live).mpr ⟨settled.unready, rfl, settled.needs⟩

theorem settled_reset (p : Processor m) : Settled (resetHeaders p) :=
  ⟨live_reset p, by simp [resetHeaders], by simp [resetHeaders, basicHeaderLength]⟩

theorem work_bound (p : Processor m) (buf : List Byte) : work p buf ≤ 7 * buf.length + 5 := by
  unfold work
  cases p.state <;> simp

/-- A settled processor that is given bytes takes one at least. -/
theorem consume_settled (settled : Settled p) (some : buf ≠ []) :
    match consume s p buf with
    | .error ec => Reads s p buf [] (.error ec)
    | .ok (q, rest) => Consumed s p q buf rest ∧ rest.length < buf.length := by
  have wants : p.wants buf = true := (wants_iff settled.live settled.unready).mpr (Or.inl some)
  have working := reader_working (s := s) settled.live settled.unready (Or.inl some)
  have bound := work_bound p buf
  unfold consume
  rw [show 7 * buf.length + 7 = (7 * buf.length + 6) + 1 from rfl, consumeLoop, if_pos wants]
  cases result : turn s p buf with
  | error ec => exact .fails (working.trans (by rw [result]))
  | ok taken =>
    obtain ⟨q, rest⟩ := taken
    rw [result] at working
    have step := turned settled.live settled.unready (Or.inl some) result
    have less : work q rest < 7 * buf.length + 6 := by
      have less := step.less
      omega
    have taking := step.takes (Nat.pos_of_ne_zero settled.needs)
    have further := consume_loop (s := s) step.live less
    dsimp only
    cases ends : consumeLoop s (7 * buf.length + 6) q rest with
    | error ec =>
      rw [ends] at further
      exact .goes working further
    | ok last =>
      rw [ends] at further
      have shorter := further.shorter
      refine ⟨⟨further.live, shorter.trans step.shorter, further.stopped, ?_⟩, by omega⟩
      exact fun outs last reads => .goes working (further.reads outs last reads)

theorem read_loop (settled : Settled p) {fuel : Nat} (enough : buf.length < fuel) :
    Reads s p buf (readLoop s fuel p buf).1 (readLoop s fuel p buf).2 := by
  induction fuel generalizing p buf with
  | zero => exact absurd enough (Nat.not_lt_zero _)
  | succ fuel ih =>
    cases buf with
    | nil => exact .waits (settled_waits settled)
    | cons x buf =>
      have consumed := consume_settled (s := s) settled (List.cons_ne_nil x buf)
      rw [readLoop, if_neg (by simp)]
      cases result : consume s p (x :: buf) with
      | error ec =>
        rw [result] at consumed
        exact consumed
      | ok taken =>
        obtain ⟨q, rest⟩ := taken
        rw [result] at consumed
        obtain ⟨done, shorter⟩ := consumed
        dsimp only
        by_cases ready : q.state = .ready
        · rw [if_pos ready]
          have settled' : Settled (getMessage q).2 := by
            unfold getMessage
            rw [if_pos ready]
            exact settled_reset _
          have enough' : rest.length < fuel := by omega
          have further := ih settled' enough'
          have giving : readerTurn s q rest = .goes (getMessage q).2 rest (getMessage q).1 := by
            rw [readerTurn, if_pos ready]
          exact done.reads _ _ (.goes giving further)
        · rw [if_neg ready]
          have idle := done.stopped.resolve_left ready
          obtain ⟨_, rfl, _⟩ := (reader_waits_iff done.live).mp idle
          have ended : readLoop s fuel q [] = ([], .ok q) := by
            cases fuel with
            | zero => rfl
            | succ fuel => rfl
          rw [ended]
          exact done.reads _ _ (.waits idle)

theorem handle_reads (settled : Settled p) (buf : List Byte) :
    Reads s p buf (handleReadFrame s p buf).1 (handleReadFrame s p buf).2 :=
  read_loop settled (Nat.lt_succ_self _)

theorem settled_after (settled : Settled p) {outs : List Message}
    (reads : Reads s p buf outs (.ok q)) : Settled q := by
  have live := PiecewiseReader.reads_keeps reader_splits settled.live reads
  have waiting := PiecewiseReader.reads_waiting reader_splits settled.live reads
  obtain ⟨unready, _, needs⟩ := (reader_waits_iff live).mp waiting
  exact ⟨live, unready, needs⟩

theorem all_reads (settled : Settled p) (bufs : List (List Byte)) :
    ReadsAll s p bufs (readAll s p bufs).1 (readAll s p bufs).2 := by
  induction bufs generalizing p with
  | nil => exact .done
  | cons buf bufs ih =>
    have here := handle_reads (s := s) settled buf
    rw [readAll]
    generalize handleReadFrame s p buf = result at here
    obtain ⟨msgs, last⟩ := result
    cases last with
    | error ec => exact .fails here
    | ok q => exact .goes here (ih (settled_after settled here))

/-- However the bytes are cut into reads, the processor dispatches the messages and comes to the
    end that reading them at once gives. -/
theorem all_at_once (settled : Settled p) (bufs : List (List Byte)) :
    readAll s p bufs = handleReadFrame s p bufs.flatten := by
  have pieces := PiecewiseReader.reads_flatten reader_splits settled.live (settled_waits settled)
    (all_reads (s := s) settled bufs)
  obtain ⟨msgs, last⟩ := PiecewiseReader.reads_same pieces (handle_reads settled bufs.flatten)
  exact Prod.ext msgs last

theorem settled_initial : Settled (Processor.initial m) := settled_reset _

/-- Reading a connection in pieces dispatches the messages and comes to the end that reading all
    its bytes at once gives, from the first byte on and from every point that is reached. At
    such a point no header byte is still to be written past the end of its array. -/
theorem cut_free (m : Machine) (s : Settings) (bufs : List (List Byte)) :
    readAll s (.initial m) bufs = handleReadFrame s (.initial m) bufs.flatten ∧
      ∀ (msgs : List Message) (p : Processor m), readAll s (.initial m) bufs = (msgs, .ok p) →
        Settled p ∧ ∀ more, readAll s p more = handleReadFrame s p more.flatten := by
  refine ⟨all_at_once settled_initial bufs, fun msgs p reached => ?_⟩
  have whole := PiecewiseReader.reads_flatten reader_splits live_initial
    (settled_waits settled_initial) (all_reads (s := s) (settled_initial (m := m)) bufs)
  rw [reached] at whole
  have settled := settled_after settled_initial whole
  exact ⟨settled, all_at_once settled⟩

end ReadPieces

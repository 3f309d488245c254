import SpaceCube.Wire.FrameMachine

/- What a processor makes of any stream of bytes: the whole frames at its beginning, and nothing
   more once no frame that is accepted follows. -/
namespace FrameStream
open MachineWord Masking FrameHeader HeaderChecks Utf8Validator Utf8Text Hybi13 ReadPieces
  FrameMachine

variable {m : Machine} {s : Settings} {p q : Processor m} {pending : Option Message}
  {f : WireFrame} {buf rest : List Byte}

/-- The length of the payload is one that the machine can hold. -/
def Fits (m : Machine) (f : WireFrame) : Prop := f.payload.length < 2 ^ (8 * m.sizeT)

/-- Reading puts no message out. -/
def Quiet (s : Settings) (p : Processor m) (buf : List Byte) : Prop :=
  ∃ last, Reads s p buf [] last

theorem waits_here (unready : q.state ≠ .ready) (needs : 0 < q.bytesNeeded) :
    readerTurn s q [] = .waits := by
  have stops : ¬ q.wants [] = true := by simp [Processor.wants, Nat.ne_of_gt needs]
  rw [readerTurn, if_neg unready, if_neg stops]

theorem quiet_waits (unready : q.state ≠ .ready) (needs : 0 < q.bytesNeeded) :
    Quiet s q [] := ⟨_, .waits (waits_here unready needs)⟩

theorem quiet_turn (reading : p.state ≠ .ready ∧ p.state ≠ .fatalError)
    (wants : buf ≠ [] ∨ p.bytesNeeded = 0) (ran : turn s p buf = .ok (q, rest))
    (more : Quiet s q rest) : Quiet s p buf := by
  obtain ⟨last, reads⟩ := more
  exact ⟨last, reads_turn reading wants ran reads⟩

theorem quiet_error {ec : ProcessorError} (reading : p.state ≠ .ready ∧ p.state ≠ .fatalError)
    (wants : buf ≠ [] ∨ p.bytesNeeded = 0) (ran : turn s p buf = .error ec) : Quiet s p buf :=
  ⟨_, reads_error reading wants ran⟩

/-- The frame that a header and the bytes of its payload are. -/
def received (m : Machine) (h : BasicHeader) (e : ExtendedHeader) (bytes : List Byte) :
    WireFrame where
  op := getOpcode h
  fin := getFin h
  rsv1 := getRsv1 h
  rsv2 := getRsv2 h
  rsv3 := getRsv3 h
  masked := getMasked h
  key := getMaskingKey m h e
  payload := if getMasked h then byteMask m (getMaskingKey m h e) 0 bytes else bytes

theorem received_masked (h : BasicHeader) (e : ExtendedHeader) (bytes : List Byte) :
    maskedPayload m (received m h e bytes) = bytes := by
  unfold maskedPayload received
  cases getMasked h with
  | false => rfl
  | true =>
    show byteMask m _ 0 (byteMask m _ 0 bytes) = bytes
    rw [byteMask_masked, byteMask_masked, masked_twice]

theorem received_fields {h : BasicHeader} {e : ExtendedHeader} {bytes : List Byte}
    (sized : bytes.length = getPayloadSize m h e) :
    (received m h e bytes).fields = Fields.read m h e := by
  have length : (received m h e bytes).payload.length = bytes.length := by
    rw [← masked_payload_length m, received_masked]
  unfold WireFrame.fields Fields.read
  rw [length, sized]
  rfl

theorem received_bytes_whole {h : BasicHeader} {header bytes : List Byte}
    (whole : 2 + header.length = getHeaderLen h)
    (valid : validateIncomingExtendedHeader m h (receivedExtended header) = none)
    (sized : bytes.length = getPayloadSize m h (receivedExtended header)) :
    (received m h (receivedExtended header) bytes).bytes m =
      h.b0 :: h.b1 :: (header ++ bytes) := by
  rw [WireFrame.bytes, received_fields sized, accepted_written whole valid, received_masked]
  rfl

/-- The payload of a frame whose header has been read, or as much as has come of it. -/
theorem payload_whole_or_quiet (here : q.state = .application) (buf : List Byte) :
    q.bytesNeeded ≤ buf.length ∨ Quiet s q buf := by
  have reading : q.state ≠ .ready ∧ q.state ≠ .fatalError := by simp [here]
  by_cases enough : q.bytesNeeded ≤ buf.length
  · exact Or.inl enough
  · right
    have short := Nat.not_le.mp enough
    cases buf with
    | nil => exact quiet_waits reading.1 short
    | cons x buf =>
      have ran := application_short (s := s) here (List.cons_ne_nil x buf) short
      cases done : processPayloadBytes q (x :: buf) with
      | error ec =>
        rw [done] at ran
        exact quiet_error reading (Or.inl (List.cons_ne_nil x buf)) ran
      | ok r =>
        rw [done] at ran
        have taken : processed q (x :: buf) = .ok r := done
        obtain ⟨needs, state⟩ := processed_needed taken
        have waiting : Quiet s r [] := quiet_waits (by rw [state]; exact reading.1) (by omega)
        exact quiet_turn reading (Or.inl (List.cons_ne_nil x buf)) ran waiting

/-- What finishing an extended header that is accepted says. -/
theorem finished_extended (done : finishExtendedHeader s p = .ok q) :
    validateIncomingExtendedHeader m p.basicHeader p.extendedHeader = none ∧
      q.state = .application ∧
      q.bytesNeeded = getPayloadSize m p.basicHeader p.extendedHeader := by
  have state := finish_extended_state done
  unfold finishExtendedHeader at done
  split at done
  · contradiction
  · rename_i valid
    have begun := begin_payload done
    have needs := begun.needs
    dsimp only at needs
    rw [Nat.mod_eq_of_lt (accepted_form valid).bound] at needs
    exact ⟨valid, state, needs⟩

/-- A processor that has read the two bytes of a basic header. -/
structure Headed (h : BasicHeader) (p : Processor m) : Prop where
  state : p.state = .headerExtended
  header : p.basicHeader = h
  start : p.cursor = 0
  clear : p.extendedHeader = .zero
  needs : p.bytesNeeded = getHeaderLen h - basicHeaderLength

theorem header_len_least (h : BasicHeader) : basicHeaderLength ≤ getHeaderLen h := by
  unfold getHeaderLen
  dsimp only
  split
  · omega
  · omega

/-- After its first two bytes a frame comes whole, or nothing is put out. -/
theorem rest_whole_or_quiet {h : BasicHeader} (headed : Headed h p) (buf : List Byte) :
    (∃ f rest, Fits m f ∧ h.b0 :: h.b1 :: buf = f.bytes m ++ rest) ∨ Quiet s p buf := by
  have reading : p.state ≠ .ready ∧ p.state ≠ .fatalError := by simp [headed.state]
  by_cases enough : p.bytesNeeded ≤ buf.length
  · have wants : buf ≠ [] ∨ p.bytesNeeded = 0 := by
      cases buf with
      | nil => exact Or.inr (Nat.le_zero.mp enough)
      | cons x buf => exact Or.inl (List.cons_ne_nil x buf)
    have ran := extended_enough (s := s) headed.state enough
    let header := buf.take p.bytesNeeded
    have length : header.length = p.bytesNeeded := List.length_take_of_le enough
    have array : (partExtended p header).extendedHeader = receivedExtended header := by
      rw [partExtended, headed.start, headed.clear]
      rfl
    have basic : (partExtended p header).basicHeader = h := headed.header
    cases done : finishExtendedHeader s (partExtended p header) with
    | error ec =>
      rw [done] at ran
      exact Or.inr (quiet_error reading wants ran)
    | ok q =>
      rw [done] at ran
      obtain ⟨valid, state, needs⟩ := finished_extended done
      rw [basic, array] at valid needs
      have bound := (accepted_form valid).bound
      rcases payload_whole_or_quiet (s := s) state (buf.drop p.bytesNeeded) with whole | quiet
      · left
        let payload := (buf.drop p.bytesNeeded).take q.bytesNeeded
        have sized : payload.length = getPayloadSize m h (receivedExtended header) :=
          (List.length_take_of_le whole).trans needs
        have least := header_len_least h
        have whole' : 2 + header.length = getHeaderLen h := by
          rw [length, headed.needs]
          simp only [basicHeaderLength] at least ⊢
          omega
        have bytes := received_bytes_whole whole' valid sized
        refine ⟨received m h (receivedExtended header) payload,
          (buf.drop p.bytesNeeded).drop q.bytesNeeded, ?_, ?_⟩
        · have same := masked_payload_length m (received m h (receivedExtended header) payload)
          rw [received_masked, sized] at same
          unfold Fits
          omega
        · rw [bytes]
          simp only [List.cons_append, List.append_assoc, header, payload,
            List.take_append_drop]
      · exact Or.inr (quiet_turn reading wants ran quiet)
  · right
    have short := Nat.not_le.mp enough
    have ran := extended_short (s := s) headed.state short
    have waiting : Quiet s (partExtended p buf) [] :=
      quiet_waits reading.1 (Nat.sub_pos_of_lt short)
    cases buf with
    | nil => exact quiet_waits reading.1 short
    | cons x buf => exact quiet_turn reading (Or.inl (List.cons_ne_nil x buf)) ran waiting

/-- A processor between two frames is given a whole frame, or it puts nothing out. -/
theorem whole_or_quiet (s : Settings) (idle : Idle pending p) (buf : List Byte) :
    (∃ f rest, Fits m f ∧ buf = f.bytes m ++ rest) ∨ Quiet s p buf := by
  have reading : p.state ≠ .ready ∧ p.state ≠ .fatalError := by simp [idle.state]
  match buf with
  | [] => exact Or.inr (quiet_waits reading.1 (by rw [idle.needs]; decide))
  | [x] =>
    right
    have ran := basic_first (s := s) idle.state idle.needs x
    exact quiet_turn reading (Or.inl (List.cons_ne_nil x [])) ran
      (quiet_waits (by simp [idle.state]) Nat.one_pos)
  | x :: y :: buf =>
    have some := List.cons_ne_nil x (y :: buf)
    have ran : turn s p (x :: y :: buf) = _ := basic_both idle.state idle.needs x y
    cases checked : finishBasicHeader s { p with basicHeader := ⟨x, y⟩, bytesNeeded := 0 } with
    | error ec =>
      rw [checked] at ran
      exact Or.inr (quiet_error reading (Or.inl some) ran)
    | ok q =>
      rw [checked] at ran
      have headed : Headed ⟨x, y⟩ q := by
        unfold finishBasicHeader at checked
        split at checked
        · contradiction
        · obtain rfl := Except.ok.inj checked
          exact ⟨rfl, rfl, rfl, idle.clear, rfl⟩
      rcases rest_whole_or_quiet (s := s) headed buf with whole | quiet
      · exact Or.inl whole
      · exact Or.inr (quiet_turn reading (Or.inl some) ran quiet)

theorem frame_bytes_pos (m : Machine) (f : WireFrame) : 0 < (f.bytes m).length := by
  have whole := frame_bytes m f []
  rw [List.append_nil] at whole
  rw [whole]
  exact Nat.succ_pos _

/-- What a stream of bytes is made of: whole frames that are accepted, and a tail that does not
    begin with another one. -/
structure Parsed (s : Settings) (pending : Option Message) (buf : List Byte)
    (msgs : List Message) (last : ReadEnd m) (frames : List WireFrame)
    (tail : List Byte) (after : Option Message) : Prop where
  whole : buf = frames.flatMap (·.bytes m) ++ tail
  fits : ∀ f ∈ frames, Fits m f
  accepted : acceptAll m s pending frames = (msgs, .ok after)
  refused : ∀ f rest, Fits m f → tail = f.bytes m ++ rest →
    ∃ ec, accept m s after f = .error ec ∧ last = .error ec

/-- Every stream is read as what it is made of. -/
theorem reads_parsed (s : Settings) (idle : Idle pending p) (buf : List Byte) :
    ∃ msgs last frames tail after, Reads s p buf msgs last ∧
      Parsed s pending buf msgs last frames tail after := by
  induction size : buf.length using Nat.strongRecOn generalizing buf p pending with
  | ind n ih =>
    by_cases here : ∃ f rest r, Fits m f ∧ buf = f.bytes m ++ rest ∧ accept m s pending f = .ok r
    · obtain ⟨f, rest, ⟨next, out⟩, fits, rfl, accepted⟩ := here
      have frame := reads_frame (s := s) idle fits rest
      rw [accepted] at frame
      obtain ⟨q, idle', through⟩ := frame
      have pos := frame_bytes_pos m f
      have shorter : rest.length < n := by
        rw [List.length_append] at size
        omega
      obtain ⟨msgs, last, frames, tail, after, reads, parsed⟩ := ih _ shorter idle' rest rfl
      refine ⟨out.toList ++ msgs, last, f :: frames, tail, after, through _ _ reads, ?_, ?_, ?_,
        parsed.refused⟩
      · rw [List.flatMap_cons, List.append_assoc, ← parsed.whole]
      · intro g mem
        rcases List.mem_cons.mp mem with rfl | mem
        · exact fits
        · exact parsed.fits g mem
      · rw [acceptAll, accepted]
        dsimp only
        rw [parsed.accepted]
    · have refusing : ∀ f rest, Fits m f → buf = f.bytes m ++ rest →
          ∃ ec, accept m s pending f = .error ec ∧ Reads s p buf [] (.error ec) := by
        intro f rest fits whole
        have frame := reads_frame (s := s) idle fits rest
        cases result : accept m s pending f with
        | error ec =>
          rw [result] at frame
          exact ⟨ec, rfl, whole ▸ frame⟩
        | ok r => exact (here ⟨f, rest, r, fits, whole, result⟩).elim
      have quiet : Quiet s p buf := by
        rcases whole_or_quiet s idle buf with ⟨f, rest, fits, whole⟩ | quiet
        · obtain ⟨ec, _, reads⟩ := refusing f rest fits whole
          exact ⟨_, reads⟩
        · exact quiet
      obtain ⟨last, reads⟩ := quiet
      refine ⟨[], last, [], buf, pending, reads, rfl, by simp, rfl, ?_⟩
      intro f rest fits whole
      obtain ⟨ec, refused, reads'⟩ := refusing f rest fits whole
      exact ⟨ec, refused, (PiecewiseReader.reads_same reads reads').2⟩

/-- Whatever bytes come and however they are cut, the messages dispatched are exactly the ones
    completed by whole frames at the beginning of the stream, each of them accepted; and if
    another whole frame follows them, the reading has ended with the error it is refused with. -/
theorem dispatched_frames_exact (m : Machine) (s : Settings) (bufs : List (List Byte)) :
    ∃ frames tail after, Parsed s none bufs.flatten (readAll s (.initial m) bufs).1
      (readAll s (.initial m) bufs).2 frames tail after := by
  obtain ⟨msgs, last, frames, tail, after, reads, parsed⟩ :=
    reads_parsed s (idle_initial (m := m)) bufs.flatten
  have done := handle_reads (s := s) (settled_initial (m := m)) bufs.flatten
  obtain ⟨rfl, rfl⟩ := PiecewiseReader.reads_same reads done
  rw [all_at_once settled_initial]
  exact ⟨frames, tail, after, parsed⟩

/-- What every message dispatched is. A data message may only be too long where its size is none
    that the machine can hold: the size of a continued message is a sum of machine words. -/
structure Sound (m : Machine) (s : Settings) (msg : Message) : Prop where
  defined : msg.opcode.reserved = false
  begins : msg.opcode ≠ .continuation
  control : msg.opcode.isControl = true → msg.payload.length ≤ payloadSizeBasic
  bounded : msg.opcode.isControl = false → msg.payload.length < 2 ^ (8 * m.sizeT) →
    msg.payload.length ≤ s.maxMessageSize
  text : msg.opcode = .text → ∃ more text, encode text = msg.payload ++ more

/-- The message that a data frame begins, before its payload. -/
theorem sound_begun {op : Opcode} (defined : op.reserved = false)
    (begins : op ≠ .continuation) : Sound m s ⟨op, []⟩ where
  defined := defined
  begins := begins
  control := fun _ => Nat.zero_le _
  bounded := fun _ _ => Nat.zero_le _
  text := fun _ => ⟨[], [], rfl⟩

/-- What a data frame leaves or completes is the message with the frame's payload. -/
theorem extend_cases {msg : Message} {next out : Option Message}
    (extended : extend f msg = .ok (next, out)) :
    (msg.opcode = .text →
        (Validator.fresh.decode (msg.payload ++ f.payload)).1 = true) ∧
      (f.fin = true ∧ next = none ∧ out = some { msg with payload := msg.payload ++ f.payload } ∧
          (f.op = .text →
            (Validator.fresh.decode (msg.payload ++ f.payload)).2.complete = true) ∨
        f.fin = false ∧ next = some { msg with payload := msg.payload ++ f.payload } ∧
          out = none) := by
  unfold extend at extended
  dsimp only at extended
  split at extended
  · contradiction
  · rename_i accepts
    have valid : msg.opcode = .text →
        (Validator.fresh.decode (msg.payload ++ f.payload)).1 = true := by
      intro text
      cases here : (Validator.fresh.decode (msg.payload ++ f.payload)).1 with
      | true => rfl
      | false => exact (accepts ⟨text, by rw [here]; rfl⟩).elim
    refine ⟨valid, ?_⟩
    split at extended
    · rename_i fin
      split at extended
      · contradiction
      · rename_i ends
        obtain ⟨rfl, rfl⟩ := Prod.mk.inj (Except.ok.inj extended)
        refine Or.inl ⟨fin, rfl, rfl, fun text => ?_⟩
        cases here : (Validator.fresh.decode (msg.payload ++ f.payload)).2.complete with
        | true => rfl
        | false => exact (ends ⟨text, by rw [here]; rfl⟩).elim
    · rename_i more
      obtain ⟨rfl, rfl⟩ := Prod.mk.inj (Except.ok.inj extended)
      exact Or.inr ⟨by simpa using more, rfl, rfl⟩

theorem sound_extended {msg : Message} (sound : Sound m s msg)
    (valid : msg.opcode = .text →
      (Validator.fresh.decode (msg.payload ++ f.payload)).1 = true)
    (data : msg.opcode.isControl = false)
    (small : (msg.payload.length + f.payload.length) % 2 ^ (8 * m.sizeT) ≤ s.maxMessageSize) :
    Sound m s { msg with payload := msg.payload ++ f.payload } where
  defined := sound.defined
  begins := sound.begins
  control := fun control => absurd (data.symm.trans control) Bool.false_ne_true
  bounded := by
    intro _ held
    rw [List.length_append] at held ⊢
    rwa [Nat.mod_eq_of_lt held] at small
  text := fun text => (decode_iff rfl).mp (valid text)

theorem control_small {f : WireFrame} (control : f.op.isControl = true)
    (small : f.op.isControl = true → (getBasicSize f.fields.basic).toNat ≤ payloadSizeBasic) :
    f.payload.length ≤ payloadSizeBasic := by
  have bound := small control
  rw [show getBasicSize f.fields.basic = basicValue f.payload.length from made_basic_size ..]
    at bound
  cases size_form f.payload.length with
  | basic fits value none => exact fits
  | extended large fits code two =>
    rw [code] at bound
    exact absurd bound (by decide)
  | jumbo large code eight =>
    rw [code] at bound
    exact absurd bound (by decide)

/-- A message that is open is a data message. -/
def Open (m : Machine) (s : Settings) (pending : Option Message) : Prop :=
  ∀ msg, pending = some msg → Sound m s msg ∧ msg.opcode.isControl = false

theorem extend_sound {msg : Message} {next out : Option Message} (sound : Sound m s msg)
    (data : msg.opcode.isControl = false) (extended : extend f msg = .ok (next, out))
    (small : (msg.payload.length + f.payload.length) % 2 ^ (8 * m.sizeT) ≤ s.maxMessageSize) :
    Open m s next ∧ ∀ whole, out = some whole → Sound m s whole := by
  obtain ⟨valid, ⟨_, rfl, rfl, _⟩ | ⟨_, rfl, rfl⟩⟩ := extend_cases extended
  · refine ⟨fun whole none => by contradiction, fun whole same => ?_⟩
    exact Option.some.inj same ▸ sound_extended sound valid data small
  · refine ⟨fun whole same => ?_, fun whole none => by contradiction⟩
    exact Option.some.inj same ▸ ⟨sound_extended sound valid data small, data⟩

/-- One frame. -/
theorem accept_sound {next out : Option Message} (fits : Fits m f) (opened : Open m s pending)
    (accepted : accept m s pending f = .ok (next, out)) :
    Open m s next ∧ ∀ whole, out = some whole → Sound m s whole := by
  unfold accept at accepted
  split at accepted
  · contradiction
  · rename_i checked
    have facts := (valid_basic_iff ..).mp checked
    have op := frame_opcode f
    split at accepted
    · rename_i control
      obtain ⟨rfl, rfl⟩ := Prod.mk.inj (Except.ok.inj accepted)
      refine ⟨opened, fun whole same => ?_⟩
      obtain rfl := Option.some.inj same
      refine ⟨op ▸ facts.defined, ?_, fun _ => ?_, ?_, fun text => ?_⟩
      · rintro continued
        rw [show f.op = .continuation from continued] at control
        contradiction
      · exact control_small control (op ▸ facts.controlSmall)
      · intro data
        exact absurd (data.symm.trans control) Bool.false_ne_true
      · exact absurd text (control_not_text control)
    · rename_i control
      have data : f.op.isControl = false := by simpa using control
      cases pending with
      | none =>
        dsimp only at accepted
        split at accepted
        · contradiction
        · rename_i small
          have begun : Sound m s ⟨f.op, []⟩ :=
            sound_begun (op ▸ facts.defined) (op ▸ facts.begins rfl)
          refine extend_sound begun data accepted ?_
          rw [List.length_nil, Nat.zero_add, Nat.mod_eq_of_lt fits]
          exact Nat.not_lt.mp small
      | some msg =>
        dsimp only at accepted
        split at accepted
        · contradiction
        · rename_i small
          obtain ⟨sound, data⟩ := opened msg rfl
          exact extend_sound sound data accepted (Nat.not_lt.mp small)

theorem accept_all_sound {frames : List WireFrame} {msgs : List Message} {after : Option Message}
    (fits : ∀ f ∈ frames, Fits m f) (opened : Open m s pending)
    (accepted : acceptAll m s pending frames = (msgs, .ok after)) :
    ∀ msg ∈ msgs, Sound m s msg := by
  induction frames generalizing pending msgs with
  | nil =>
    obtain ⟨rfl, _⟩ := Prod.mk.inj accepted
    simp
  | cons f frames ih =>
    rw [acceptAll] at accepted
    cases here : accept m s pending f with
    | error ec =>
      rw [here] at accepted
      obtain ⟨_, failed⟩ := Prod.mk.inj accepted
      contradiction
    | ok result =>
      obtain ⟨next, out⟩ := result
      rw [here] at accepted
      dsimp only at accepted
      obtain ⟨opened', sound⟩ := accept_sound (fits f (by simp)) opened here
      obtain ⟨rfl, last⟩ := Prod.mk.inj accepted
      have more := ih (fun g mem => fits g (List.mem_cons_of_mem _ mem)) opened'
        (Prod.ext rfl last)
      intro msg mem
      rcases List.mem_append.mp mem with first | later
      · exact sound msg (Option.mem_toList.mp first)
      · exact more msg later

/-- Every message dispatched is sound, whatever bytes have come. -/
theorem delivered_sound (m : Machine) (s : Settings) (bufs : List (List Byte)) :
    ∀ msg ∈ (readAll s (.initial m) bufs).1, Sound m s msg := by
  obtain ⟨msgs, last, frames, tail, after, reads, parsed⟩ :=
    reads_parsed s (idle_initial (m := m)) bufs.flatten
  have done := handle_reads (s := s) (settled_initial (m := m)) bufs.flatten
  obtain ⟨rfl, rfl⟩ := PiecewiseReader.reads_same reads done
  rw [all_at_once settled_initial]
  exact accept_all_sound parsed.fits (fun msg none => by contradiction) parsed.accepted

theorem broken_text_sound :
    Sound littleEndian64 ⟨true, 3⟩ ⟨.text, [0x68, 0xC3, 0xA9]⟩ :=
  delivered_sound littleEndian64 ⟨true, 3⟩ brokenTextBytes ⟨.text, [0x68, 0xC3, 0xA9]⟩
    (by decide +kernel)

end FrameStream

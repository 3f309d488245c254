import SpaceCube.Wire.ClosingSettles

/- What a clean close promises to the end that reports it. -/
namespace ClosingHandshake
open MachineWord Masking HeaderChecks Utf8Validator PreparedFrames Runs
open FrameMachine (littleEndian64)

section Ends
variable {m : Machine} {cfg : Config} {event : Event} {side : Side} {e e' : End}

/-- What goes on whoever reads it: one close at the most, and behind it only what was being
    sent when it went. -/
structure Told (m : Machine) (e : End) : Prop where
  silent : e.state = .opened → ∀ msg ∈ e.pushed, msg.isClose = false
  cut : ∀ before payload terminal late, e.pushed = before ++ .close payload terminal :: late →
    (∀ msg ∈ before ++ late, msg.isClose = false) ∧ (late ++ e.sending).Perm e.overtaken ∧
      ∃ code reason, Sendable code reason ∧ validate reason = true ∧
        payload = closePayload m code reason ∧
        (e.localCode = code ∧ e.localReason = reason ∨
          e.state = .closed ∧ e.localCode = abnormalClose)

theorem split_snoc {α : Type} {xs before late : List α} {x y : α}
    (same : xs ++ [x] = before ++ y :: late) : (before = xs ∧ y = x ∧ late = []) ∨
      ∃ earlier, late = earlier ++ [x] ∧ xs = before ++ y :: earlier := by
  rcases List.eq_nil_or_concat' late with rfl | ⟨earlier, last, rfl⟩
  · obtain ⟨rfl, ends⟩ := List.append_inj' same rfl
    exact Or.inl ⟨rfl, (List.singleton_inj.mp ends).symm, rfl⟩
  · have longer : xs ++ [x] = (before ++ y :: earlier) ++ [last] := by simpa using same
    obtain ⟨rfl, ends⟩ := List.append_inj' longer rfl
    obtain rfl := List.singleton_inj.mp ends
    exact Or.inr ⟨earlier, rfl, rfl⟩

/-- An open end has no close to cut at. -/
theorem Told.uncut (told : Told m e) (opened : e.state = .opened) {before late : List Message}
    {payload : List Byte} {terminal : Bool} :
    e.pushed ≠ before ++ .close payload terminal :: late := by
  intro cut
  have plain := told.silent opened (.close payload terminal) (by rw [cut]; simp)
  exact absurd plain (by simp [Message.isClose])

theorem terminate_told (told : Told m e) (error : Option (List Byte)) :
    Told m (terminate e error) := by
  refine ⟨by simp, ?_⟩
  intro before payload terminal late cut
  obtain ⟨plain, overtaken, code, reason, sendable, text, same, here⟩ :=
    told.cut before payload terminal late (by simpa using cut)
  refine ⟨plain, by simpa using overtaken, code, reason, sendable, text, same, ?_⟩
  rcases terminate_local e error with ⟨localCode, localReason⟩ | abnormal
  · rw [localCode, localReason, terminate_state]
    exact here.imp_right fun closed => ⟨rfl, closed.2⟩
  · exact Or.inr ⟨terminate_state e error, abnormal⟩

theorem closing_told (told : Told m e) (opened : e.state = .opened)
    {pair : CloseCode × List Byte} (sendable : Sendable pair.1 pair.2)
    (text : validate pair.2 = true) (ack terminal : Bool) :
    Told m (closing m cfg e pair ack terminal) := by
  refine ⟨?_, ?_⟩
  · intro state
    simp [closing, End.push] at state
  · intro before payload last late cut
    rcases split_snoc cut with ⟨rfl, close, rfl⟩ | ⟨earlier, _, sooner⟩
    · obtain ⟨rfl, _⟩ := Message.close.inj close
      refine ⟨?_, List.Perm.refl _, pair.1, pair.2, sendable, text, rfl, Or.inl ⟨rfl, rfl⟩⟩
      rw [List.append_nil]
      exact told.silent opened
    · exact absurd sooner (told.uncut opened)

/-- A call that comes to its push behind the close was under way when the close went. -/
theorem arrives_told (told : Told m e) (calls : ∀ msg ∈ e.sending, msg.isClose = false)
    {call : Nat} {msg : Message} (here : e.sending[call]? = some msg) :
    Told m (e.arrives call msg) := by
  have plain : msg.isClose = false := calls msg (List.mem_of_getElem? here)
  refine ⟨?_, ?_⟩
  · intro opened other mem
    rcases List.mem_append.mp mem with before | last
    · exact told.silent opened other before
    · rw [List.mem_singleton.mp last]
      exact plain
  · intro before payload terminal late cut
    rcases split_snoc cut with ⟨_, rfl, _⟩ | ⟨earlier, rfl, sooner⟩
    · contradiction
    · obtain ⟨others, overtaken, closed⟩ := told.cut before payload terminal earlier sooner
      refine ⟨?_, ?_, closed⟩
      · intro other mem
        rw [← List.append_assoc] at mem
        rcases List.mem_append.mp mem with known | last
        · exact others other known
        · rw [List.mem_singleton.mp last]
          exact plain
      · obtain ⟨below, found⟩ := List.getElem?_eq_some_iff.mp here
        have arrived : (msg :: e.sending.eraseIdx call).Perm e.sending :=
          found ▸ List.getElem_cons_eraseIdx_perm below
        rw [List.append_assoc]
        exact (arrived.append_left earlier).trans overtaken

theorem local_told (told : Told m e) (calls : ∀ msg ∈ e.sending, msg.isClose = false)
    (moved : Local m cfg event e e')
    (texts : ∀ side code reason, event = .close side code reason →
      validate (reason.take closeReasonSize) = true) : Told m e' := by
  cases moved with
  | kept code reason same =>
    refine ⟨told.silent, ?_⟩
    intro before payload terminal late cut
    by_cases opened : e.state = .opened
    · exact absurd cut (told.uncut opened)
    · obtain ⟨rfl, rfl⟩ := same opened
      exact told.cut before payload terminal late cut
  | closed t code reason asked opened sendable terminal =>
    refine closing_told told opened sendable ?_ false terminal
    have text := texts t code reason asked
    unfold closeWith
    split
    · decide
    · split
      · exact text
      · exact (by decide : validate [] = true)
  | called msg opened plain =>
    refine ⟨told.silent, ?_⟩
    intro before payload terminal late cut
    exact absurd cut (told.uncut opened)
  | pushed here => exact arrives_told told calls here
  | wrote here plain => exact ⟨told.silent, told.cut⟩
  | last here =>
    refine terminate_told ?_ none
    exact ⟨told.silent, told.cut⟩
  | terminated error => exact terminate_told told error

theorem answered_told {code : CloseCode} {reason : List Byte} (told : Told m e)
    (text : validate reason = true) (answered : Answered m cfg side e code reason e') :
    Told m e' := by
  have noted : Told m { e with remoteCode := code, remoteReason := reason } :=
    ⟨told.silent, told.cut⟩
  cases answered with
  | refused bad error =>
    rw [text] at bad
    contradiction
  | acked pair sendable good echo => exact closing_told noted (echo text).1 sendable good true _
  | ended first valid server closing =>
    refine terminate_told ?_ none
    exact ⟨told.silent, told.cut⟩
  | finished first valid client closing => exact ⟨told.silent, told.cut⟩
  | spurious again closing => exact ⟨told.silent, told.cut⟩

/-- What an end has learnt it keeps, and it does not open again. -/
theorem local_frame (moved : Local m cfg event e e') :
    e'.heard = e.heard ∧ e'.handled = e.handled ∧ e'.wasClean = e.wasClean ∧
      e'.answered = e.answered ∧ e'.remoteCode = e.remoteCode ∧
      e'.remoteReason = e.remoteReason ∧ (e'.state = .opened → e.state = .opened) := by
  cases moved with
  | kept code reason same => simp
  | closed t code reason asked opened sendable terminal => simp [closing, End.push]
  | called msg opened plain => simp
  | pushed here => simp [End.arrives, End.push]
  | wrote here plain => simp [End.written]
  | last here => simp [End.written]
  | terminated error => simp

/-- The first close with a text for a reason. -/
theorem answered_learns {code : CloseCode} {reason : List Byte}
    (answered : Answered m cfg side e code reason e') (text : validate reason = true)
    (first : e.wasClean = false) (unanswered : e.answered = false) :
    e'.state ≠ .opened ∧ e'.remoteCode = code ∧ e'.remoteReason = reason ∧
      e'.handled = e.handled ∧ (e'.answered = true → e'.wasClean = true ∧ e.state = .opened) := by
  cases answered with
  | refused bad error =>
    rw [text] at bad
    contradiction
  | acked pair sendable good echo =>
    refine ⟨by simp [closing, End.push], rfl, rfl, rfl, fun _ => ⟨?_, (echo text).1⟩⟩
    simp [closing, End.push]
  | ended first valid server closing => simp [unanswered]
  | finished first valid client closing => simp [unanswered, closing]
  | spurious again closing =>
    rw [first] at again
    contradiction

/-- What an end knows that has closed cleanly. -/
def Learnt (m : Machine) (e : End) : Prop :=
  ∃ before code reason terminal read, Sendable code reason ∧
    e.heard = before ++ .close (closePayload m code reason) terminal :: read ∧
    e.remoteCode = code ∧ e.remoteReason = reason ∧
    (e.answered = true → e.handled = before.filterMap Message.data)

/-- What an end knows of the other one. -/
structure Known (m : Machine) (e : End) : Prop where
  told : Told m e
  served : e.state = .opened → e.handled = e.heard.filterMap Message.data
  learnt : e.wasClean = true → Learnt m e
  answered : e.answered = true → e.wasClean = true

theorem known_local (known : Known m e) (calls : ∀ msg ∈ e.sending, msg.isClose = false)
    (texts : ∀ side code reason, event = .close side code reason →
      validate (reason.take closeReasonSize) = true) (moved : Local m cfg event e e') :
    Known m e' := by
  obtain ⟨heard, handled, clean, answered, code, reason, opens⟩ := local_frame moved
  refine ⟨local_told known.told calls moved texts, ?_, ?_, ?_⟩
  · rw [heard, handled]
    exact fun opened => known.served (opens opened)
  · unfold Learnt
    rw [heard, handled, clean, answered, code, reason]
    exact known.learnt
  · rw [clean, answered]
    exact known.answered

/-- What is heard later does not change what a close has told. -/
theorem learnt_later {msg : Message} (learnt : Learnt m e) (heard : e'.heard = e.heard ++ [msg])
    (remote : e'.remoteCode = e.remoteCode ∧ e'.remoteReason = e.remoteReason)
    (handled : e'.handled = e.handled) (answered : e'.answered = e.answered) :
    Learnt m e' := by
  obtain ⟨before, code, reason, terminal, read, sendable, cut, known⟩ := learnt
  refine ⟨before, code, reason, terminal, read ++ [msg], sendable, ?_, ?_⟩
  · rw [heard, cut, List.append_assoc, List.cons_append]
  · rw [remote.1, remote.2, handled, answered]
    exact known

end Ends

section Worlds
variable {m : Machine} {cfg : Side → Config} {w w' : World} {event : Event} {events : List Event}

theorem payload_inj {code code' : CloseCode} {reason reason' : List Byte}
    (sendable : Sendable code reason) (sendable' : Sendable code' reason')
    (same : closePayload m code reason = closePayload m code' reason') :
    code = code' ∧ reason = reason' := by
  have codes := extract_code_written (m := m) sendable
  have reasons := extract_reason_written (m := m) sendable
  rw [same, extract_code_written sendable'] at codes
  rw [same, extract_reason_written sendable'] at reasons
  exact ⟨(congrArg Prod.fst codes).symm, (congrArg Prod.fst reasons).symm⟩

/-- A close that is read is the first one, and its reason is a text. -/
theorem first_close (linked : Linked m w) (known : ∀ t, Known m (w t)) {side : Side}
    {rest : List Message} {code : CloseCode} {reason : List Byte} {terminal : Bool}
    (sendable : Sendable code reason)
    (here : (w side.other).wire = .close (closePayload m code reason) terminal :: rest) :
    (w side).wasClean = false ∧ (w side).answered = false ∧ validate reason = true := by
  obtain ⟨plain, _, code', reason', sendable', text, same, _⟩ :=
    (known side.other).told.cut _ _ _ _ (on_the_wire linked here)
  have first : (w side).wasClean = false := by
    by_contra clean
    obtain ⟨msg, mem, isClose⟩ :=
      (linked.tidy side).clean (Bool.eq_true_of_not_eq_false clean)
    rw [plain msg (List.mem_append_left _ mem)] at isClose
    contradiction
  refine ⟨first, ?_, ?_⟩
  · by_contra answered
    have clean := (known side).answered (Bool.eq_true_of_not_eq_false answered)
    rw [first] at clean
    contradiction
  · rw [(payload_inj sendable sendable' same).2]
    exact text

/-- What an end makes of the next message of the other one. -/
theorem read_known (linked : Linked m w) (known : ∀ t, Known m (w t)) {side : Side}
    {msg : Message} {rest : List Message} (here : (w side.other).wire = msg :: rest) {e : End}
    (processed : Processed m (cfg side) side (w side) msg e) : Known m e := by
  have mine := known side
  have told : Told m ((w side).hear msg) := ⟨mine.told.silent, mine.told.cut⟩
  have rejecting : Told m { (w side).hear msg with deaf := true } := ⟨told.silent, told.cut⟩
  cases processed with
  | ignored why =>
    refine ⟨told, fun opened => ?_, fun clean => ?_, mine.answered⟩
    · rcases why with closed | ⟨idle, _⟩
      · exact absurd (closed.symm.trans opened) (by decide)
      · exact absurd opened idle
    · exact learnt_later (mine.learnt clean) rfl ⟨rfl, rfl⟩ rfl rfl
  | taken opened data plain replies pongs cheap =>
    have unclean : (w side).wasClean ≠ true :=
      fun clean => (linked.tidy side).heard ((linked.tidy side).clean clean) opened
    refine ⟨⟨mine.told.silent, ?_⟩, fun _ => ?_, fun clean => absurd clean unclean,
      mine.answered⟩
    · intro before payload terminal late cut
      exact absurd cut (mine.told.uncut opened)
    · rename_i payload _
      have handler : [msg].filterMap Message.data = [payload] := by simp [data]
      rw [End.hear, List.filterMap_append, handler, mine.served opened]
  | @answered code reason terminal e live sendable answer =>
    obtain ⟨first, unanswered, text⟩ := first_close linked known sendable here
    obtain ⟨_, _, heard⟩ := answered_sends answer
    obtain ⟨idle, remoteCode, remoteReason, handled, answers⟩ :=
      answered_learns answer text first unanswered
    refine ⟨answered_told told text answer, fun opened => absurd opened idle, fun _ => ?_,
      fun answered => (answers answered).1⟩
    refine ⟨(w side).heard, code, reason, terminal, [], sendable, heard, remoteCode,
      remoteReason, fun answered => ?_⟩
    rw [handled]
    exact mine.served (answers answered).2
  | dropped plain error =>
    refine ⟨terminate_told rejecting (some error), by simp, fun clean => ?_, ?_⟩
    · have before : (w side).wasClean = true := by simpa [End.hear] using clean
      have heard : (terminate { (w side).hear msg with deaf := true } (some error)).heard =
          (w side).heard ++ [msg] := by simp [End.hear]
      exact learnt_later (mine.learnt before) heard (by simp [End.hear]) (by simp [End.hear])
        (by simp [End.hear])
    · simpa [End.hear] using mine.answered
  | reported plain opened pair sendable text =>
    refine ⟨closing_told rejecting opened sendable text false true, ?_, fun clean => ?_, ?_⟩
    · simp [closing, End.push]
    · have before : (w side).wasClean = true := by
        simpa [closing, End.push, End.hear] using clean
      exact learnt_later (mine.learnt before) rfl ⟨rfl, rfl⟩ rfl
        (by simp [closing, End.push, End.hear])
    · simpa [closing, End.push, End.hear] using mine.answered

theorem known_step (linked : Linked m w) (known : ∀ t, Known m (w t))
    (texts : ∀ side code reason, event = .close side code reason →
      validate (reason.take closeReasonSize) = true)
    (fires : step m cfg w event = some w') (t : Side) : Known m (w' t) := by
  cases step_cases fires with
  | own side moved =>
    rcases same_or_other side t with rfl | rfl
    · rw [Function.update_self]
      exact known_local (known t) (linked.tidy t).calls texts moved
    · rw [Function.update_of_ne (other_ne side)]
      exact known side.other
  | received side here reads =>
    rcases same_or_other side t with rfl | rfl
    · rw [Function.update_self]
      exact read_known linked known here (read_processed linked here reads)
    · have there := known side.other
      rw [Function.update_of_ne (other_ne side), Function.update_self]
      exact ⟨⟨there.told.silent, there.told.cut⟩, there.served, there.learnt, there.answered⟩

theorem run_known
    (texts : ∀ side code reason, .close side code reason ∈ events →
      validate (reason.take closeReasonSize) = true)
    (ran : run (step m cfg) start events = some w) : Linked m w ∧ ∀ t, Known m (w t) := by
  refine run_invariant_where (fun event => ∀ side code reason, event = .close side code reason →
    validate (reason.take closeReasonSize) = true)
    (fun w => Linked m w ∧ ∀ t, Known m (w t)) ?_ ?_ ⟨linked_start m, ?_⟩ ran
  · intro v event v' text fires ⟨linked, known⟩
    exact ⟨linked_step linked fires, known_step linked known text fires⟩
  · intro event mem side code reason same
    exact texts side code reason (same ▸ mem)
  · intro t
    refine ⟨⟨?_, ?_⟩, ?_, ?_, ?_⟩ <;> simp [start, End.opened]

/-- A close that was clean on one end lost nothing of what went before it. Each end sends one
    close at the most, and behind it only what was being sent when it went. An end whose close
    was clean has read the other's close with all that was sent before it, and holds the code
    and the reason that the other one closed with; an end that answered a close had handed all
    those messages over.
    The reasons must be texts: close may cut one in the middle of a character, and the other end
    then answers as if nothing had been closed before. -/
theorem closing_agrees (m : Machine) (cfg : Side → Config) {events : List Event} {w : World}
    (texts : ∀ side code reason, .close side code reason ∈ events →
      validate (reason.take closeReasonSize) = true)
    (ran : run (step m cfg) start events = some w) (side : Side) :
    let e := w side
    let other := w side.other
    (∀ before payload terminal late, e.pushed = before ++ .close payload terminal :: late →
      (∀ msg ∈ before ++ late, msg.isClose = false) ∧ (late ++ e.sending).Perm e.overtaken) ∧
    (e.wasClean = true → ∃ before code reason terminal read late,
      other.pushed = before ++ .close (closePayload m code reason) terminal :: late ∧
      e.heard = before ++ .close (closePayload m code reason) terminal :: read ∧
      read <+: late ∧ e.remoteCode = code ∧ e.remoteReason = reason ∧
      (other.localCode = code ∧ other.localReason = reason ∨
        other.state = .closed ∧ other.localCode = abnormalClose) ∧
      (e.answered = true → e.handled = before.filterMap Message.data)) ∧
    (e.answered = true → e.wasClean = true) := by
  obtain ⟨linked, known⟩ := run_known texts ran
  refine ⟨fun before payload terminal late cut => ?_, fun clean => ?_, (known side).answered⟩
  · obtain ⟨plain, overtaken, _⟩ := (known side).told.cut before payload terminal late cut
    exact ⟨plain, overtaken⟩
  · obtain ⟨before, code, reason, terminal, read, sendable, heard, remoteCode, remoteReason,
      handled⟩ := (known side).learnt clean
    have pushed : (w side.other).pushed =
        before ++ .close (closePayload m code reason) terminal ::
          (read ++ (w side.other).flight) := by
      rw [linked.fifo side.other, other_other, heard]
      simp
    obtain ⟨_, _, code', reason', sendable', _, same, closed⟩ :=
      (known side.other).told.cut _ _ _ _ pushed
    obtain ⟨rfl, rfl⟩ := payload_inj sendable sendable' same
    exact ⟨before, code, reason, terminal, read, _, pushed, heard, List.prefix_append _ _,
      remoteCode, remoteReason, closed, handled⟩

/-- The client answers the close of the server with a call under way that pushes behind it. -/
theorem goodbye_agrees : ∃ w,
    run (step littleEndian64 usual) start (goodbye ++ goodbyeMoves) = some w ∧
    (w .client).wasClean = true ∧ (w .client).answered = true ∧
    (w .client).overtaken = [.plain [72, 105]] ∧
    ∃ before code reason terminal read,
      (w .client).heard = before ++ .close (closePayload littleEndian64 code reason) terminal ::
        read ∧ (w .client).remoteCode = code ∧
      (w .client).handled = before.filterMap Message.data := by
  obtain ⟨w, ran⟩ : ∃ w, run (step littleEndian64 usual) start (goodbye ++ goodbyeMoves) = some w :=
    Option.isSome_iff_exists.mp (by decide +kernel)
  have ends : (run (step littleEndian64 usual) start (goodbye ++ goodbyeMoves)).map (fun w =>
      ((w .client).wasClean, (w .client).answered, (w .client).overtaken)) =
      some (true, true, [.plain [72, 105]]) := by decide +kernel
  rw [ran, Option.map_some, Option.some.injEq, Prod.mk.injEq, Prod.mk.injEq] at ends
  obtain ⟨clean, answered, overtaken⟩ := ends
  obtain ⟨_, learns, _⟩ := closing_agrees littleEndian64 usual (by
    intro side code reason asked
    simp only [goodbye, goodbyeMoves, List.cons_append, List.nil_append, List.mem_cons,
      List.not_mem_nil, or_false, reduceCtorEq, false_or, Event.close.injEq] at asked
    obtain ⟨_, _, rfl⟩ := asked
    decide +kernel) ran .client
  obtain ⟨before, code, reason, terminal, read, late, _, heard, _, remote, _, _, handled⟩ :=
    learns clean
  exact ⟨w, ran, clean, answered, overtaken, before, code, reason, terminal, read, heard, remote,
    handled answered⟩

end Worlds
end ClosingHandshake

import SpaceCube.Library.Traces
import SpaceCube.WebSocket.WebSocketServer

/- The set of clients over whole runs: who enters it, who takes a client out of it, and
   that nobody comes back. -/
namespace ClientSet
open SetIteration Traces WebSocketServer
variable {C : Type} [DecidableEq C]

/-- Whom a step of a broadcast or of a shutdown takes out, if they are still there. -/
def dropped (st : State C) : Event C → List C
  | .sendEnds index works => match st.broadcasts[index]? with
    | some (.sending client b) =>
      match Broadcast.loop st.clients (b.afterSend client works) with
      | .returned b' => b'.dead
      | _ => []
    | _ => []
  | .closesEnd _ => st.clients.members
  | _ => []

/-- Everything a step can do to the set and to the handlers. -/
inductive SetCase (st st' : State C) : Event C → Prop where
  | joined {client : C} (outside : st.handlers client = .outside)
    (handlers : st'.handlers = Function.update st.handlers client .waiting)
    (clients : ∀ d, d ∈ st'.clients ↔ d = client ∨ d ∈ st.clients) :
    SetCase st st' (.connect client)
  | closed {client : C} (waiting : st.handlers client = .waiting)
    (handlers : st'.handlers = Function.update st.handlers client
      (if client ∈ st.clients then .ended else .raisedKeyError))
    (clients : ∀ d, d ∈ st'.clients ↔ d ∈ st.clients ∧ d ≠ client) :
    SetCase st st' (.closed client)
  | other {event : Event C} (handlers : st'.handlers = st.handlers)
    (clients : ∀ d, d ∈ st'.clients ↔ d ∈ st.clients ∧ d ∉ dropped st event) :
    SetCase st st' event

theorem proceed_handlers (st : State C) (index : Nat) (phase : BroadcastPhase C) :
    (st.proceed index phase).handlers = st.handlers := by
  unfold State.proceed
  cases phase <;> rfl

theorem proceed_clients (st : State C) (index : Nat) (phase : BroadcastPhase C) (d : C) :
    d ∈ (st.proceed index phase).clients ↔
      d ∈ st.clients ∧ ∀ b, phase = .returned b → d ∉ b.dead := by
  unfold State.proceed
  cases phase with
  | sending client b => simp
  | raised b => simp
  | returned b =>
    dsimp only [State.withClients]
    rw [mem_discardAll]
    simp

theorem set_cases {st st' : State C} {event : Event C} (ran : Step st event st') :
    SetCase st st' event := by
  cases ran with
  | @connect client clients outside added => exact .joined outside rfl (mem_added added)
  | @closed client waiting => exact .closed waiting rfl (mem_discard _ _)
  | broadcast => exact .other rfl (by simp [dropped])
  | @sendEnds index client b works here =>
    refine .other (proceed_handlers _ _ _) fun d => ?_
    rw [proceed_clients]
    simp only [dropped, here]
    cases Broadcast.loop st.clients (b.afterSend client works) <;> simp
  | shutdown => exact .other rfl (by simp [dropped])
  | closesEnd here =>
    refine .other rfl fun d => ?_
    have absent : ¬ d ∈ (Table.empty : Table C) := List.not_mem_nil
    exact iff_of_false absent fun both => both.2 both.1

/-- Only clients whose handler waits are in the set. -/
def Entered (st : State C) : Prop := ∀ c ∈ st.clients, st.handlers c = .waiting

omit [DecidableEq C] in
theorem entered_initial : Entered (State.initial C) :=
  fun _ member => absurd member List.not_mem_nil

theorem entered_step {st st' : State C} {event : Event C} (ran : Step st event st')
    (entered : Entered st) : Entered st' := by
  intro c member
  cases set_cases ran with
  | @joined client outside handlers clients =>
    rw [handlers]
    by_cases new : c = client
    · rw [new, Function.update_self]
    · rw [Function.update_of_ne new]
      exact entered c (((clients c).mp member).resolve_left new)
  | @closed client waiting handlers clients =>
    obtain ⟨stayed, other⟩ := (clients c).mp member
    rw [handlers, Function.update_of_ne other]
    exact entered c stayed
  | other handlers clients =>
    rw [handlers]
    exact entered c ((clients c).mp member).1

theorem entered_run {st : State C} {moves : List (Move (State C) (Event C))}
    (ran : Trace Step (.initial C) moves st) : Entered st :=
  trace_keeps Entered (fun _ _ _ => entered_step) entered_initial ran

/-- The client has been in the set and is in it no more. -/
def Gone (c : C) (st : State C) : Prop := c ∉ st.clients ∧ st.handlers c ≠ .outside

theorem gone_step {c : C} {st st' : State C} {event : Event C} (ran : Step st event st')
    (gone : Gone c st) : Gone c st' := by
  obtain ⟨absent, met⟩ := gone
  cases set_cases ran with
  | @joined client outside handlers clients =>
    have other : c ≠ client := fun same => met (same ▸ outside)
    refine ⟨fun member => ?_, ?_⟩
    · exact absent (((clients c).mp member).resolve_left other)
    · rw [handlers, Function.update_of_ne other]
      exact met
  | @closed client waiting handlers clients =>
    refine ⟨fun member => absent ((clients c).mp member).1, ?_⟩
    rw [handlers]
    by_cases same : c = client
    · rw [same, Function.update_self]
      split <;> simp
    · rw [Function.update_of_ne same]
      exact met
  | other handlers clients =>
    exact ⟨fun member => absent ((clients c).mp member).1, handlers ▸ met⟩

/-- The move takes the client out of the set. -/
def Removes (m : Move (State C) (Event C)) (c : C) : Prop :=
  c ∈ m.before.clients ∧ c ∉ m.after.clients

instance (m : Move (State C) (Event C)) (c : C) : Decidable (Removes m c) :=
  inferInstanceAs (Decidable (_ ∧ _))

theorem removes_gone {st st' : State C} {event : Event C} {c : C} (ran : Step st event st')
    (entered : Entered st) (here : c ∈ st.clients) (absent : c ∉ st'.clients) : Gone c st' := by
  have waiting := entered c here
  refine ⟨absent, ?_⟩
  cases set_cases ran with
  | @joined client outside handlers clients =>
    exact absurd ((clients c).mpr (Or.inr here)) absent
  | @closed client _ handlers clients =>
    rw [handlers]
    by_cases same : c = client
    · rw [same, Function.update_self]
      split <;> simp
    · rw [Function.update_of_ne same, waiting]
      simp
  | other handlers clients =>
    rw [handlers, waiting]
    simp

/-- A client once taken out of the set never comes back. -/
theorem removed_gone {st st' : State C} {moves : List (Move (State C) (Event C))}
    (entered : Entered st) (ran : Trace Step st moves st') {m : Move (State C) (Event C)} {c : C}
    (member : m ∈ moves) (removes : Removes m c) : Gone c st' := by
  obtain ⟨_, _, _, first, here, _⟩ := trace_at ran member
  have before := trace_keeps Entered (fun _ _ _ => entered_step) entered first
  exact trace_after (Gone c) (fun _ _ _ => gone_step) ran member
    (removes_gone here before removes.1 removes.2)

def timesRemoved (c : C) (moves : List (Move (State C) (Event C))) : Nat :=
  moves.countP fun m => decide (Removes m c)

theorem times_snoc (c : C) (moves : List (Move (State C) (Event C)))
    (m : Move (State C) (Event C)) :
    timesRemoved c (moves ++ [m]) = timesRemoved c moves + if Removes m c then 1 else 0 := by
  unfold timesRemoved
  rw [List.countP_append, List.countP_singleton]
  by_cases removes : Removes m c <;> simp [removes]

/-- Every client that has come is in the set or has been taken out of it once. -/
theorem removed_once {st : State C} {moves : List (Move (State C) (Event C))}
    (ran : Trace Step (.initial C) moves st) (c : C) :
    timesRemoved c moves = if st.handlers c ≠ .outside ∧ c ∉ st.clients then 1 else 0 := by
  induction ran with
  | start => simp [timesRemoved, State.initial]
  | @move t u e moves before last ih =>
    have entered := entered_run before
    rw [times_snoc, ih]
    simp only [Removes]
    by_cases here : c ∈ t.clients
    · have waiting := entered c here
      by_cases stays : c ∈ u.clients
      · simp [here, stays]
      · have gone := removes_gone last entered here stays
        simp [here, stays, gone.2]
    · by_cases met : t.handlers c = .outside
      · have fresh : u.handlers c = .outside ∨ c ∈ u.clients := by
          cases set_cases last with
          | @joined client outside handlers clients =>
            by_cases same : c = client
            · exact Or.inr ((clients c).mpr (Or.inl same))
            · exact Or.inl (by rw [handlers, Function.update_of_ne same, met])
          | @closed client waiting handlers clients =>
            have other : c ≠ client := by
              rintro rfl
              simp [met] at waiting
            exact Or.inl (by rw [handlers, Function.update_of_ne other, met])
          | other handlers clients => exact Or.inl (by rw [handlers, met])
        rcases fresh with outside | member
        · simp [here, met, outside]
        · simp [here, met, member]
      · have gone := gone_step last ⟨here, met⟩
        simp [here, met, gone.1, gone.2]

section Sample

def alone : Table Nat := ⟨[some 0], by decide⟩

/-- Client 0 has come. -/
def come : State Nat := { State.initial Nat with
  clients := alone
  handlers := Function.update (fun _ => .outside) 0 .waiting }

theorem comes : Trace Step (.initial Nat) [⟨.initial Nat, .connect 0, come⟩] come :=
  trace_single (.connect rfl (.rebuilt List.not_mem_nil (by decide)))

/-- A broadcast is at its send to client 0. -/
def onlySend : State Nat :=
  { come with broadcasts := [.sending 0 ⟨⟨1, 1⟩, [], [], [0]⟩] }

end Sample
end ClientSet

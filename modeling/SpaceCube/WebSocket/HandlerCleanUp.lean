import SpaceCube.WebSocket.ClientSet

/- The finally block of _handler. It removes its client without asking whether the client is
   still in the set, which broadcast does ask. -/
namespace HandlerCleanUp
open SetIteration Traces WebSocketServer ClientSet
variable {C : Type} [DecidableEq C]

/-- No finally block has raised, and none of those to come would raise now. -/
def NeverFails (st : State C) : Prop :=
  ∀ c, st.handlers c ≠ .raisedKeyError ∧
    ∀ st', Step st (.closed c) st' → st'.handlers c ≠ .raisedKeyError

/-- The step does not take out a client before its handler has. -/
def Spares (st : State C) (event : Event C) : Prop := ∀ c ∈ dropped st event, c ∉ st.clients

/-- The finally block of this client has raised or is going to. -/
def Failing (c : C) (st : State C) : Prop :=
  st.handlers c = .raisedKeyError ∨ (st.handlers c = .waiting ∧ c ∉ st.clients)

theorem never_fails_iff (st : State C) : NeverFails st ↔ ∀ c, ¬ Failing c st := by
  constructor
  · rintro safe c (raised | ⟨waiting, absent⟩)
    · exact (safe c).1 raised
    · refine (safe c).2 _ (.closed waiting) ?_
      simp [absent]
  · intro sound c
    refine ⟨fun raised => sound c (Or.inl raised), ?_⟩
    intro st' ran
    cases ran with
    | closed waiting =>
      have member : c ∈ st.clients := by
        by_contra absent
        exact sound c (Or.inr ⟨waiting, absent⟩)
      simp [member]

theorem failing_step {c : C} {st st' : State C} {event : Event C} (ran : Step st event st')
    (failing : Failing c st) : Failing c st' := by
  cases set_cases ran with
  | @joined client outside handlers clients =>
    have other : c ≠ client := by
      rintro rfl
      simp [Failing, outside] at failing
    have same : c ∈ st'.clients ↔ c ∈ st.clients := by simp [clients, other]
    rw [Failing, handlers, Function.update_of_ne other, same]
    exact failing
  | @closed client waiting handlers clients =>
    by_cases own : c = client
    · subst own
      have absent := (failing.resolve_left (by simp [waiting])).2
      left
      rw [handlers, Function.update_self, if_neg absent]
    · have same : c ∈ st'.clients ↔ c ∈ st.clients := by simp [clients, own]
      rw [Failing, handlers, Function.update_of_ne own, same]
      exact failing
  | other handlers clients =>
    rw [Failing, handlers]
    exact failing.imp_right fun ⟨waiting, absent⟩ =>
      ⟨waiting, fun member => absent ((clients c).mp member).1⟩

theorem sound_step {st st' : State C} {event : Event C} (ran : Step st event st')
    (spared : Spares st event) (sound : ∀ c, ¬ Failing c st) : ∀ c, ¬ Failing c st' := by
  intro c failing
  apply sound c
  cases set_cases ran with
  | @joined client outside handlers clients =>
    by_cases own : c = client
    · simp [Failing, handlers, own, clients] at failing
    · simpa [Failing, handlers, own, clients] using failing
  | @closed client waiting handlers clients =>
    by_cases own : c = client
    · subst own
      by_cases member : c ∈ st.clients
      · simp [Failing, handlers, member] at failing
      · exact Or.inr ⟨waiting, member⟩
    · simpa [Failing, handlers, own, clients] using failing
  | other handlers clients =>
    have same : c ∈ st'.clients ↔ c ∈ st.clients := by
      rw [clients]
      exact ⟨And.left, fun member => ⟨member, fun out => spared c out member⟩⟩
    simpa [Failing, handlers, same] using failing

/-- A client taken out by a broadcast or a shutdown leaves its handler failing. -/
theorem dropped_failing {st st' : State C} {event : Event C} (ran : Step st event st')
    (entered : Entered st) {c : C} (out : c ∈ dropped st event) (here : c ∈ st.clients) :
    Failing c st' := by
  have waiting := entered c here
  cases set_cases ran with
  | joined => exact absurd out List.not_mem_nil
  | closed => exact absurd out List.not_mem_nil
  | other handlers clients =>
    refine Or.inr ⟨by rw [handlers, waiting], fun member => ?_⟩
    exact ((clients c).mp member).2 out

theorem spared_iff {st : State C} {moves : List (Move (State C) (Event C))}
    (ran : Trace Step (.initial C) moves st) :
    (∀ c, ¬ Failing c st) ↔ ∀ m ∈ moves, Spares m.before m.event := by
  constructor
  · intro sound m member c out here
    obtain ⟨_, _, _, first, step, _⟩ := trace_at ran member
    refine sound c (trace_after (Failing c) (fun _ _ _ => failing_step) ran member ?_)
    exact dropped_failing step (entered_run first) out here
  · intro spared
    refine trace_invariant (fun s => ∀ c, ¬ Failing c s) Spares (fun _ _ _ => sound_step) ?_
      ran spared
    simp [Failing, State.initial]

/-- Over every run: the finally blocks all succeed exactly when no broadcast and no shutdown
    takes out a client; and whoever comes first, a client is taken out once. -/
theorem clean_up_iff {st : State C} {moves : List (Move (State C) (Event C))}
    (ran : Trace Step (.initial C) moves st) :
    (NeverFails st ↔ ∀ m ∈ moves, Spares m.before m.event) ∧
      ∀ c, timesRemoved c moves = if st.handlers c ≠ .outside ∧ c ∉ st.clients then 1 else 0 :=
  ⟨(never_fails_iff st).trans (spared_iff ran), removed_once ran⟩

section Sample

/-- It leaves again, with nothing else going on. -/
theorem sample_clean_up : ∃ moves st, Trace Step (.initial Nat) moves st ∧
    st.handlers 0 = .ended ∧ NeverFails st ∧ timesRemoved 0 moves = 1 := by
  have leaves : Step come (.closed 0) _ := .closed rfl
  have ran := comes.move leaves
  have result := clean_up_iff ran
  refine ⟨_, _, ran, rfl, result.1.mpr ?_, (result.2 0).trans (by decide)⟩
  simp [Spares, dropped]

/-- A broadcast whose send fails, or a shutdown, takes the client out first. Then its
    finally block raises. -/
theorem removed_before_handler :
    (∃ moves st, Trace Step (.initial Nat) moves st ∧ st.handlers 0 = .raisedKeyError ∧
      Event.sendEnds 0 false ∈ moves.map Move.event) ∧
    ∃ moves st, Trace Step (.initial Nat) moves st ∧ st.handlers 0 = .raisedKeyError ∧
      Event.closesEnd 0 ∈ moves.map Move.event := by
  constructor
  · have sends : Step come .broadcast onlySend := .broadcast
    have fails : Step onlySend (.sendEnds 0 false) _ := .sendEnds rfl
    have out := (comes.move sends).move fails
    exact ⟨_, _, out.move (@Step.closed _ _ _ 0 rfl), rfl, by simp⟩
  · have begins : Step come .shutdown _ := .shutdown
    have out := (comes.move begins).move (@Step.closesEnd _ _ _ 0 rfl)
    exact ⟨_, _, out.move (@Step.closed _ _ _ 0 rfl), rfl, by simp⟩

end Sample
end HandlerCleanUp

import Mathlib.Data.List.Induction
import SpaceCube.Library.Runs

/- Runs of a labelled transition relation with every move recorded, for statements about
   what happened on the way and not only about the state reached. -/
namespace Traces
variable {S E : Type*}

structure Move (S E : Type*) where
  before : S
  event : E
  after : S

/-- The moves of a run, oldest first. -/
inductive Trace (step : S → E → S → Prop) (s : S) : List (Move S E) → S → Prop where
  | start : Trace step s [] s
  | move {t u : S} {e : E} {moves : List (Move S E)} (ran : Trace step s moves t)
    (last : step t e u) : Trace step s (moves ++ [⟨t, e, u⟩]) u

variable {step : S → E → S → Prop}

theorem trace_single {s t : S} {e : E} (ran : step s e t) : Trace step s [⟨s, e, t⟩] t :=
  .move .start ran

/-- A run divides at each of its moves. -/
theorem trace_split {s u : S} {front back : List (Move S E)} {m : Move S E}
    (ran : Trace step s (front ++ m :: back) u) :
    Trace step s front m.before ∧ step m.before m.event m.after ∧ Trace step m.after back u := by
  generalize whole : front ++ m :: back = moves at ran
  induction ran generalizing back with
  | start => simp at whole
  | @move t u e moves before last ih =>
    rcases List.eq_nil_or_concat back with rfl | ⟨rest, latest, rfl⟩
    · obtain ⟨rfl, same⟩ := List.append_inj' whole rfl
      obtain rfl := List.singleton_inj.mp same
      exact ⟨before, last, .start⟩
    · rw [List.concat_eq_append, ← List.cons_append, ← List.append_assoc] at whole
      obtain ⟨shorter, same⟩ := List.append_inj' whole rfl
      obtain rfl := List.singleton_inj.mp same
      obtain ⟨first, here, after⟩ := ih shorter
      rw [List.concat_eq_append]
      exact ⟨first, here, .move after last⟩

/-- Every move of a run is a step, between what ran before it and what ran after it. -/
theorem trace_at {s u : S} {moves : List (Move S E)} (ran : Trace step s moves u)
    {m : Move S E} (member : m ∈ moves) : ∃ front back, moves = front ++ m :: back ∧
      Trace step s front m.before ∧ step m.before m.event m.after ∧
      Trace step m.after back u := by
  obtain ⟨front, back, split⟩ := List.append_of_mem member
  exact ⟨front, back, split, trace_split (split ▸ ran)⟩

/-- What every allowed step keeps holds after every run of allowed steps. -/
theorem trace_invariant (Inv : S → Prop) (Allowed : S → E → Prop)
    (kept : ∀ s e t, step s e t → Allowed s e → Inv s → Inv t) {s t : S}
    {moves : List (Move S E)} (start : Inv s) (ran : Trace step s moves t)
    (allowed : ∀ m ∈ moves, Allowed m.before m.event) : Inv t := by
  induction ran with
  | start => exact start
  | @move t u e moves _ last ih =>
    obtain ⟨earlier, here⟩ := List.forall_mem_append.mp allowed
    exact kept t e u last (here _ (List.mem_singleton_self _)) (ih earlier)

theorem trace_keeps (Inv : S → Prop) (kept : ∀ s e t, step s e t → Inv s → Inv t) {s t : S}
    {moves : List (Move S E)} (start : Inv s) (ran : Trace step s moves t) : Inv t :=
  trace_invariant Inv (fun _ _ => True) (fun s e t moved _ => kept s e t moved) start ran
    fun _ _ => trivial

/-- What one move of a run brings about and every step keeps holds at its end. -/
theorem trace_after (Inv : S → Prop) (kept : ∀ s e t, step s e t → Inv s → Inv t) {s u : S}
    {moves : List (Move S E)} (ran : Trace step s moves u) {m : Move S E} (member : m ∈ moves)
    (brought : Inv m.after) : Inv u := by
  obtain ⟨_, _, _, _, _, rest⟩ := trace_at ran member
  exact trace_keeps Inv kept brought rest

/-- A run of a machine with its moves recorded. -/
theorem run_traced {step : S → E → Option S} {s t : S} {events : List E}
    (ran : Runs.run step s events = some t) :
    ∃ moves, Trace (fun a e b => step a e = some b) s moves t ∧ moves.map Move.event = events := by
  induction events using List.reverseRecOn generalizing t with
  | nil =>
    obtain rfl := Option.some.inj ran
    exact ⟨[], .start, rfl⟩
  | append_singleton events e ih =>
    rw [Runs.run_append] at ran
    obtain ⟨u, first, last⟩ := Option.bind_eq_some_iff.mp ran
    rw [Runs.run_cons] at last
    obtain ⟨v, here, rest⟩ := Option.bind_eq_some_iff.mp last
    obtain rfl := Option.some.inj rest
    obtain ⟨moves, before, named⟩ := ih first
    exact ⟨_, .move before here, by rw [List.map_append, named]; rfl⟩

end Traces

import Mathlib.Data.List.Basic

/- Runs of a machine whose step may be disabled, and the rule that lifts what every step
   keeps to what every run keeps. -/
namespace Runs
variable {S E : Type*}

def run (step : S → E → Option S) (s : S) (events : List E) : Option S := events.foldlM step s

theorem run_nil (step : S → E → Option S) (s : S) : run step s [] = some s := rfl

theorem run_cons (step : S → E → Option S) (s : S) (e : E) (events : List E) :
    run step s (e :: events) = (step s e).bind fun t => run step t events := rfl

theorem run_append (step : S → E → Option S) (s : S) (xs ys : List E) :
    run step s (xs ++ ys) = (run step s xs).bind fun t => run step t ys := by
  simp only [run, List.foldlM_append]
  rfl

theorem run_snoc {step : S → E → Option S} {s t u : S} {events : List E} {e : E}
    (ran : run step s events = some t) (last : step t e = some u) :
    run step s (events ++ [e]) = some u := by
  rw [run_append, ran, Option.bind_some, run_cons, last]
  rfl

/-- What holds at the start and is kept by every step holds after every run. -/
theorem run_invariant {step : S → E → Option S} (Inv : S → Prop)
    (kept : ∀ s e t, step s e = some t → Inv s → Inv t) {s t : S} {events : List E}
    (start : Inv s) (ran : run step s events = some t) : Inv t := by
  induction events generalizing s with
  | nil =>
    rw [run_nil, Option.some.injEq] at ran
    rwa [← ran]
  | cons e events ih =>
    rw [run_cons] at ran
    obtain ⟨u, first, rest⟩ := Option.bind_eq_some_iff.mp ran
    exact ih (kept s e u first start) rest

/-- The same where only some events are asked for. -/
theorem run_invariant_where {step : S → E → Option S} (Ok : E → Prop) (Inv : S → Prop)
    (kept : ∀ s e t, Ok e → step s e = some t → Inv s → Inv t) {s t : S} {events : List E}
    (all : ∀ e ∈ events, Ok e) (start : Inv s) (ran : run step s events = some t) : Inv t := by
  induction events generalizing s with
  | nil =>
    rw [run_nil, Option.some.injEq] at ran
    rwa [← ran]
  | cons e events ih =>
    rw [run_cons] at ran
    obtain ⟨u, first, rest⟩ := Option.bind_eq_some_iff.mp ran
    have here := kept s e u (all e (by simp)) first start
    exact ih (fun e' mem => all e' (List.mem_cons_of_mem e mem)) here rest

/-- No run is disabled when an invariant lets every step go on. -/
theorem run_defined {step : S → E → Option S} (Inv : S → Prop)
    (fires : ∀ s e, Inv s → ∃ t, step s e = some t ∧ Inv t) {s : S} (start : Inv s)
    (events : List E) : ∃ t, run step s events = some t := by
  induction events generalizing s with
  | nil => exact ⟨s, run_nil step s⟩
  | cons e events ih =>
    obtain ⟨u, first, kept⟩ := fires s e start
    obtain ⟨t, rest⟩ := ih kept
    exact ⟨t, by rw [run_cons, first, Option.bind_some, rest]⟩

/-- Two machines that can follow each other step by step can do so along a run. -/
theorem run_related {step : S → E → Option S} (Related : S → S → Prop)
    (follow : ∀ s s' e t, Related s s' → step s e = some t →
      ∃ t', step s' e = some t' ∧ Related t t') {s s' t : S} {events : List E}
    (start : Related s s') (ran : run step s events = some t) :
    ∃ t', run step s' events = some t' ∧ Related t t' := by
  induction events generalizing s s' with
  | nil =>
    rw [run_nil, Option.some.injEq] at ran
    exact ⟨s', run_nil step s', ran ▸ start⟩
  | cons e events ih =>
    rw [run_cons] at ran
    obtain ⟨u, first, rest⟩ := Option.bind_eq_some_iff.mp ran
    obtain ⟨u', second, kept⟩ := follow s s' e u start first
    obtain ⟨t', last, related⟩ := ih kept rest
    exact ⟨t', by rw [run_cons, second, Option.bind_some, last], related⟩

/-- A map of states that goes through every step goes through every run. -/
theorem run_map {step : S → E → Option S} (f : S → S)
    (through : ∀ s e, step (f s) e = (step s e).map f) (s : S) (events : List E) :
    run step (f s) events = (run step s events).map f := by
  induction events generalizing s with
  | nil => rfl
  | cons e events ih =>
    rw [run_cons, run_cons, through]
    cases step s e with
    | none => rfl
    | some t => exact ih t

end Runs

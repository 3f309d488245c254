import Mathlib.Logic.Basic

/- Programs that change a state and may raise, with rules for sequence, except and finally.
   What a program has done to the state stays done when it raises. -/
namespace FallibleState
variable {E S A B : Type}

abbrev Fallible (E S A : Type) := ExceptT E (StateM S) A

/-- From s the program ends with this result and leaves this state. -/
def Ran (x : Fallible E S A) (s : S) (result : Except E A) (s' : S) : Prop :=
  x.run.run s = (result, s')

theorem ran_throw (e : E) (s : S) : Ran (throw e : Fallible E S A) s (.error e) s := rfl

theorem ran_bind_ok {x : Fallible E S A} {f : A → Fallible E S B} {s s' s'' : S} {a : A}
    {result : Except E B} (first : Ran x s (.ok a) s') (second : Ran (f a) s' result s'') :
    Ran (x >>= f) s result s'' := by
  unfold Ran at *
  simp only [ExceptT.run_bind, StateT.run_bind, first]
  exact second

theorem ran_bind_error {x : Fallible E S A} (f : A → Fallible E S B) {s s' : S} {e : E}
    (first : Ran x s (.error e) s') : Ran (x >>= f) s (.error e) s' := by
  unfold Ran at *
  simp only [ExceptT.run_bind, StateT.run_bind, first]
  rfl

theorem ran_catch_ok {x : Fallible E S A} (handler : E → Fallible E S A) {s s' : S} {a : A}
    (body : Ran x s (.ok a) s') : Ran (tryCatch x handler) s (.ok a) s' := by
  unfold Ran at *
  simp only [ExceptT.run_tryCatch, StateT.run_bind, body]
  rfl

theorem ran_catch_error {x : Fallible E S A} {handler : E → Fallible E S A} {s s' s'' : S}
    {e : E} {result : Except E A} (body : Ran x s (.error e) s')
    (handled : Ran (handler e) s' result s'') : Ran (tryCatch x handler) s result s'' := by
  unfold Ran at *
  simp only [ExceptT.run_tryCatch, StateT.run_bind, body]
  exact handled

/-- The final block runs whatever the body does, and then the body's result stands. -/
def withFinally (x : Fallible E S A) (last : Fallible E S Unit) : Fallible E S A := do
  let a ← tryCatch x fun e => do
    last
    throw e
  last
  return a

theorem ran_finally_ok {x : Fallible E S A} {last : Fallible E S Unit} {s s' s'' : S} {a : A}
    (body : Ran x s (.ok a) s') (closed : Ran last s' (.ok ()) s'') :
    Ran (withFinally x last) s (.ok a) s'' :=
  ran_bind_ok (ran_catch_ok _ body) (ran_bind_ok closed rfl)

theorem ran_finally_error {x : Fallible E S A} {last : Fallible E S Unit} {s s' s'' : S} {e : E}
    (body : Ran x s (.error e) s') (closed : Ran last s' (.ok ()) s'') :
    Ran (withFinally x last) s (.error e) s'' :=
  ran_bind_error _ (ran_catch_error body (ran_bind_ok closed rfl))

end FallibleState

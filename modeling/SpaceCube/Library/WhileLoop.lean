import Mathlib.Logic.Function.Iterate
import Mathlib.Order.Basic

/- A while loop told by its passes: how often the body ran, what held before each pass and
   what stopped it. -/
namespace WhileLoop
variable {S : Type*}

/-- From x the loop makes k passes, each on a state that passes the test, and stops at y. -/
structure Passes (test : S → Prop) (body : S → S) (x : S) (k : Nat) (y : S) : Prop where
  result : body^[k] x = y
  went : ∀ i < k, test (body^[i] x)
  stopped : ¬ test y

variable {test : S → Prop} {body : S → S} {x y : S} {k : Nat}

theorem passes_none (stopped : ¬ test x) : Passes test body x 0 x where
  result := rfl
  went := fun i below => absurd below (Nat.not_lt_zero i)
  stopped := stopped

theorem passes_more (goes : test x) (rest : Passes test body (body x) k y) :
    Passes test body x (k + 1) y where
  result := rest.result
  went := by
    intro i below
    cases i with
    | zero => exact goes
    | succ i => exact rest.went i (Nat.lt_of_succ_lt_succ below)
  stopped := rest.stopped

/-- What holds at first and is kept by a pass holds before and after every pass. -/
theorem passes_keep (Inv : S → Prop) (kept : ∀ s, test s → Inv s → Inv (body s))
    (start : Inv x) (run : Passes test body x k y) : ∀ i ≤ k, Inv (body^[i] x) := by
  intro i
  induction i with
  | zero => exact fun _ => start
  | succ i before =>
    intro below
    rw [Function.iterate_succ_apply']
    exact kept _ (run.went i below) (before (Nat.le_of_succ_le below))

/-- Before the last pass the test still held. -/
theorem passes_last (run : Passes test body x (k + 1) y) :
    body (body^[k] x) = y ∧ test (body^[k] x) :=
  ⟨(Function.iterate_succ_apply' body k x).symm.trans run.result, run.went k (Nat.lt_succ_self k)⟩

end WhileLoop

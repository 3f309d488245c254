import Mathlib.Algebra.Order.Field.Basic

/- Divisions and roots that fail outside their domain, and loops of steps that may fail. -/
namespace CheckedArithmetic
variable {F : Type*} [Field F] [LinearOrder F]

def checkedDiv (a b : F) : Option F := if b = 0 then none else some (a / b)

def checkedRoot (sqrtf : F → F) (v : F) : Option F := if v < 0 then none else some (sqrtf v)

theorem checked_div {b : F} (nonzero : b ≠ 0) (a : F) : checkedDiv a b = some (a / b) :=
  if_neg nonzero

theorem checked_root {v : F} (nonneg : 0 ≤ v) (sqrtf : F → F) :
    checkedRoot sqrtf v = some (sqrtf v) := if_neg (not_lt.mpr nonneg)

section Loops
variable {S E : Type*} {step : S → E → Option S} {plain : S → E → S}

/-- When no step fails the loop is the plain one. -/
theorem checked_loop {events : List E} (agree : ∀ s, ∀ e ∈ events, step s e = some (plain s e))
    (s : S) : events.foldlM step s = some (events.foldl plain s) := by
  induction events generalizing s with
  | nil => simp
  | cons e events ih =>
    have first := agree s e List.mem_cons_self
    have rest := ih (fun t f member => agree t f (List.mem_cons_of_mem e member)) (plain s e)
    rw [List.foldlM_cons, first, List.foldl_cons, ← rest]
    exact Option.bind_some _ _

end Loops
end CheckedArithmetic

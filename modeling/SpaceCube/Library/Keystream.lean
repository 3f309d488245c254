import Mathlib.Data.List.Basic

/- A list combined with a stream of keys, place by place: what follows from cutting the
   list, from changing the stream and from doing it twice. -/
namespace Keystream
variable {α K : Type*}

/-- The first element meets the key at place start, the next the key after it. -/
def applyFrom (op : α → K → α) (key : Nat → K) : Nat → List α → List α
  | _, [] => []
  | start, x :: xs => op x (key start) :: applyFrom op key (start + 1) xs

variable (op : α → K → α) (key : Nat → K)

theorem applyFrom_length (start : Nat) (xs : List α) :
    (applyFrom op key start xs).length = xs.length := by
  induction xs generalizing start with
  | nil => rfl
  | cons x xs ih => simp [applyFrom, ih]

theorem applyFrom_append (start : Nat) (xs ys : List α) :
    applyFrom op key start (xs ++ ys) =
      applyFrom op key start xs ++ applyFrom op key (start + xs.length) ys := by
  induction xs generalizing start with
  | nil => rfl
  | cons x xs ih =>
    have places : start + (x :: xs).length = start + 1 + xs.length := by
      rw [List.length_cons]
      omega
    rw [places, List.cons_append, applyFrom, ih]
    rfl

theorem applyFrom_get (start : Nat) (xs : List α) (i : Nat) :
    (applyFrom op key start xs)[i]? = xs[i]?.map (op · (key (start + i))) := by
  induction xs generalizing start i with
  | nil => rfl
  | cons x xs ih =>
    cases i with
    | zero => rfl
    | succ i =>
      rw [applyFrom, List.getElem?_cons_succ, List.getElem?_cons_succ, ih]
      rw [show start + 1 + i = start + (i + 1) by omega]

variable {op key}

/-- Only the keys at the places of the list count. -/
theorem applyFrom_congr {key' : Nat → K} {start start' : Nat} {xs : List α}
    (same : ∀ i < xs.length, key (start + i) = key' (start' + i)) :
    applyFrom op key start xs = applyFrom op key' start' xs := by
  refine List.ext_getElem? fun i => ?_
  rw [applyFrom_get, applyFrom_get]
  by_cases below : i < xs.length
  · rw [same i below]
  · rw [List.getElem?_eq_none (by omega)]
    rfl

/-- Where each key undoes itself, so does the stream. -/
theorem applyFrom_twice (undoes : ∀ x k, op (op x k) k = x) (start : Nat) (xs : List α) :
    applyFrom op key start (applyFrom op key start xs) = xs := by
  induction xs generalizing start with
  | nil => rfl
  | cons x xs ih => rw [applyFrom, applyFrom, undoes, ih]

end Keystream

import Mathlib.Data.List.Basic

/- The first place where a word stands in a text, as std::search looks for it, and what more
   text behind it changes. -/
namespace TextSearch
variable {α : Type*}

def begins (same : α → α → Bool) : List α → List α → Bool
  | [], _ => true
  | _ :: _, [] => false
  | w :: word, x :: xs => same x w && begins same word xs

/-- What stands before the first place where the word begins, and the text from there on. -/
def search (same : α → α → Bool) (word : List α) : List α → Option (List α × List α)
  | [] => if begins same word [] then some ([], []) else none
  | x :: xs =>
    if begins same word (x :: xs) then some ([], x :: xs)
    else (search same word xs).map fun (before, found) => (x :: before, found)

variable {same : α → α → Bool} {word xs before found : List α}

theorem begins_length (here : begins same word xs = true) : word.length ≤ xs.length := by
  induction word generalizing xs with
  | nil => exact Nat.zero_le _
  | cons w word ih =>
    cases xs with
    | nil => simp [begins] at here
    | cons x xs =>
      simp only [begins, Bool.and_eq_true] at here
      simpa using ih here.2

/-- Whether a word begins a text that is long enough is not changed by more text. -/
theorem begins_append (long : word.length ≤ xs.length) (ys : List α) :
    begins same word (xs ++ ys) = begins same word xs := by
  induction word generalizing xs with
  | nil => simp only [begins]
  | cons w word ih =>
    cases xs with
    | nil => simp at long
    | cons x xs =>
      simp only [List.cons_append, begins]
      rw [ih (by simpa using long)]

theorem search_found (here : search same word xs = some (before, found)) :
    xs = before ++ found ∧ begins same word found = true := by
  induction xs generalizing before with
  | nil =>
    rw [search] at here
    split at here
    · rename_i empty
      obtain ⟨rfl, rfl⟩ := Prod.ext_iff.mp (Option.some.inj here)
      exact ⟨rfl, empty⟩
    · cases here
  | cons x xs ih =>
    rw [search] at here
    split at here
    · rename_i first
      obtain ⟨rfl, rfl⟩ := Prod.ext_iff.mp (Option.some.inj here)
      exact ⟨rfl, first⟩
    · obtain ⟨⟨before', found'⟩, inner, eq⟩ := Option.map_eq_some_iff.mp here
      obtain ⟨rfl, rfl⟩ := Prod.ext_iff.mp eq
      obtain ⟨rfl, begun⟩ := ih inner
      exact ⟨rfl, begun⟩

/-- A word that is not found begins nowhere. -/
theorem search_none (nowhere : search same word (before ++ found) = none) :
    begins same word found = false := by
  induction before with
  | nil =>
    cases found with
    | nil =>
      rw [List.nil_append, search] at nowhere
      split at nowhere
      · cases nowhere
      · rename_i empty
        exact eq_false_of_ne_true empty
    | cons x found =>
      rw [List.nil_append, search] at nowhere
      split at nowhere
      · cases nowhere
      · rename_i first
        exact eq_false_of_ne_true first
  | cons x before ih =>
    rw [List.cons_append, search] at nowhere
    split at nowhere
    · cases nowhere
    · exact ih (Option.map_eq_none_iff.mp nowhere)

/-- A word that stands in a text ends in the part behind one where it is not found. -/
theorem found_late {ys : List α} (nowhere : search same word xs = none)
    (split : xs ++ ys = before ++ found) (here : begins same word found = true) :
    found.length < ys.length + word.length := by
  by_contra long
  have lengths := congrArg List.length split
  rw [List.length_append, List.length_append] at lengths
  have inside : before.length ≤ xs.length := by omega
  have start : before = xs.take before.length := by
    have taken := congrArg (List.take before.length) split
    rwa [List.take_append_of_le_length inside, List.take_left, eq_comm] at taken
  have rest : found = xs.drop before.length ++ ys := by
    have dropped := congrArg (List.drop before.length) split
    rwa [List.drop_append_of_le_length inside, List.drop_left, eq_comm] at dropped
  have enough : word.length ≤ (xs.drop before.length).length := by
    rw [List.length_drop]
    omega
  rw [rest, begins_append enough] at here
  have cut : search same word (xs.take before.length ++ xs.drop before.length) = none := by
    rwa [List.take_append_drop]
  rw [search_none cut] at here
  cases here

/-- A word that is found is found at the same place when more text follows. -/
theorem search_append (here : search same word xs = some (before, found)) (ys : List α) :
    search same word (xs ++ ys) = some (before, found ++ ys) := by
  induction xs generalizing before with
  | nil =>
    obtain ⟨nothing, begun⟩ := search_found here
    obtain ⟨rfl, rfl⟩ := List.append_eq_nil_iff.mp nothing.symm
    have begun' := begins_append (begins_length begun) ys ▸ begun
    cases ys with
    | nil => exact here
    | cons y ys => rw [List.nil_append, search, if_pos (by simpa using begun')]
  | cons x xs ih =>
    have begun := (search_found here).2
    have split := (search_found here).1
    have long : word.length ≤ (x :: xs).length := by
      rw [split, List.length_append]
      exact Nat.le_trans (begins_length begun) (Nat.le_add_left _ _)
    rw [search] at here
    have still : begins same word (x :: (xs ++ ys)) = begins same word (x :: xs) :=
      begins_append long ys
    rw [List.cons_append, search, still]
    split at here
    · rename_i first
      obtain ⟨rfl, rfl⟩ := Prod.ext_iff.mp (Option.some.inj here)
      rw [if_pos first, List.cons_append]
    · rename_i later
      obtain ⟨⟨before', found'⟩, inner, eq⟩ := Option.map_eq_some_iff.mp here
      obtain ⟨rfl, rfl⟩ := Prod.ext_iff.mp eq
      rw [if_neg later, ih inner]
      rfl

end TextSearch

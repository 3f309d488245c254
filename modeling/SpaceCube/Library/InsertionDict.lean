import Mathlib.Data.List.Perm.Lattice
import Mathlib.Data.Fintype.Card

/- Insertion-ordered dictionaries. Overwriting a present key keeps its place, a new
   key goes to the end, and the listing order is the order of first insertion.
   Keys are compared by decidable equality; hashing is external. -/
namespace InsertionDict

variable {K V : Type*}

structure Dict (K V : Type*) where
  entries : List (K × V)
  distinct : (entries.map Prod.fst).Nodup

def Dict.keys (d : Dict K V) : List K := d.entries.map Prod.fst

def Dict.values (d : Dict K V) : List V := d.entries.map Prod.snd

def Dict.length (d : Dict K V) : Nat := d.entries.length

def Dict.empty : Dict K V := ⟨[], by simp⟩

instance : Membership K (Dict K V) := ⟨fun d k => k ∈ d.keys⟩

theorem mem_iff_keys (d : Dict K V) (k : K) : k ∈ d ↔ k ∈ d.keys := Iff.rfl

@[simp] theorem keys_empty : (Dict.empty : Dict K V).keys = [] := rfl

@[simp] theorem length_empty : (Dict.empty : Dict K V).length = 0 := rfl

theorem not_mem_empty (k : K) : k ∉ (Dict.empty : Dict K V) := by
  simp [mem_iff_keys]

theorem length_keys (d : Dict K V) : d.keys.length = d.length := List.length_map ..

theorem length_pos_of_mem {d : Dict K V} {k : K} (h : k ∈ d) : 0 < d.length := by
  rw [← length_keys]
  exact List.length_pos_of_mem h

/- At least as many keys as there are names, all of them among the names, and every
   name is a key. This is the pigeonhole step of a completeness count. -/
theorem keys_perm_of_full (d : Dict K V) (names : List K)
    (inside : ∀ k ∈ d, k ∈ names) (full : names.length ≤ d.length) : d.keys.Perm names := by
  have sub : d.keys.Subperm names := d.distinct.subperm fun a ha => inside a ha
  apply sub.perm_of_length_le
  rw [length_keys]
  exact full

theorem mem_iff_of_full (d : Dict K V) (names : List K)
    (inside : ∀ k ∈ d, k ∈ names) (full : names.length ≤ d.length) (k : K) :
    k ∈ d ↔ k ∈ names :=
  (keys_perm_of_full d names inside full).mem_iff

theorem length_le_of_subset (d : Dict K V) (names : List K)
    (inside : ∀ k ∈ d, k ∈ names) : d.length ≤ names.length := by
  rw [← length_keys]
  exact d.distinct.length_le_of_subset inside

variable [DecidableEq K]

instance (d : Dict K V) (k : K) : Decidable (k ∈ d) := inferInstanceAs (Decidable (k ∈ d.keys))

def lookup : List (K × V) → K → Option V
  | [], _ => none
  | (a, v) :: rest, k => if a = k then some v else lookup rest k

def write : List (K × V) → K → V → List (K × V)
  | [], k, v => [(k, v)]
  | (a, u) :: rest, k, v => if a = k then (a, v) :: rest else (a, u) :: write rest k v

theorem write_keys (xs : List (K × V)) (k : K) (v : V) :
    (write xs k v).map Prod.fst =
      if k ∈ xs.map Prod.fst then xs.map Prod.fst else xs.map Prod.fst ++ [k] := by
  induction xs with
  | nil => simp [write]
  | cons pair rest ih =>
    obtain ⟨a, u⟩ := pair
    by_cases same : a = k
    · simp [write, same]
    · simp only [write, same, ↓reduceIte, List.map_cons, ih, List.mem_cons, Ne.symm same, false_or]
      split <;> simp

theorem write_distinct (xs : List (K × V)) (k : K) (v : V) (h : (xs.map Prod.fst).Nodup) :
    ((write xs k v).map Prod.fst).Nodup := by
  rw [write_keys]
  split
  · exact h
  · rename_i absent
    exact List.nodup_append.mpr ⟨h, by simp, by
      intro a ha b hb eq
      rw [List.mem_singleton] at hb
      exact absent (hb ▸ eq ▸ ha)⟩

namespace Dict

def get? (d : Dict K V) (k : K) : Option V := lookup d.entries k

def set (d : Dict K V) (k : K) (v : V) : Dict K V :=
  ⟨write d.entries k v, write_distinct d.entries k v d.distinct⟩

def erase (d : Dict K V) (k : K) : Dict K V :=
  ⟨d.entries.filter fun e => !decide (e.1 = k),
    d.distinct.sublist (List.filter_sublist.map Prod.fst)⟩

end Dict

theorem lookup_eq_none_iff (xs : List (K × V)) (k : K) :
    lookup xs k = none ↔ k ∉ xs.map Prod.fst := by
  induction xs with
  | nil => simp [lookup]
  | cons pair rest ih =>
    obtain ⟨a, v⟩ := pair
    by_cases same : a = k
    · simp [lookup, same]
    · simp [lookup, same, ih, Ne.symm same]

theorem lookup_eq_some_iff (xs : List (K × V)) (h : (xs.map Prod.fst).Nodup) (k : K) (v : V) :
    lookup xs k = some v ↔ (k, v) ∈ xs := by
  induction xs with
  | nil => simp [lookup]
  | cons pair rest ih =>
    obtain ⟨a, u⟩ := pair
    simp only [List.map_cons, List.nodup_cons] at h
    by_cases same : a = k
    · subst same
      simp only [lookup, ↓reduceIte, Option.some.injEq, List.mem_cons, Prod.mk.injEq, true_and]
      constructor
      · intro eq; exact Or.inl eq.symm
      · rintro (eq | later)
        · exact eq.symm
        · exact absurd (List.mem_map_of_mem (f := Prod.fst) later) h.1
    · simp [lookup, same, ih h.2, Ne.symm same]

theorem lookup_write (xs : List (K × V)) (k j : K) (v : V) :
    lookup (write xs k v) j = if j = k then some v else lookup xs j := by
  induction xs with
  | nil =>
    by_cases same : k = j
    · simp [write, lookup, same]
    · simp [write, lookup, same, Ne.symm same]
  | cons pair rest ih =>
    obtain ⟨a, u⟩ := pair
    by_cases ak : a = k
    · subst ak
      by_cases ja : j = a
      · simp [write, lookup, ja]
      · simp [write, lookup, ja, Ne.symm ja]
    · by_cases aj : a = j
      · subst aj; simp [write, lookup, ak]
      · simp [write, lookup, ak, aj, ih]

theorem lookup_filter_ne (xs : List (K × V)) (k j : K) :
    lookup (xs.filter fun e => !decide (e.1 = k)) j = if j = k then none else lookup xs j := by
  induction xs with
  | nil => simp [lookup]
  | cons pair rest ih =>
    obtain ⟨a, u⟩ := pair
    by_cases ak : a = k
    · subst ak
      by_cases ja : j = a
      · simp only [ja, ↓reduceIte] at ih
        simp [ja, ih]
      · simp only [ja, ↓reduceIte] at ih
        simp [lookup, ja, Ne.symm ja, ih]
    · by_cases aj : a = j
      · subst aj; simp [lookup, ak]
      · simp [lookup, ak, aj, ih]

theorem get?_eq_none_iff (d : Dict K V) (k : K) : d.get? k = none ↔ k ∉ d :=
  lookup_eq_none_iff d.entries k

theorem get?_eq_some_iff (d : Dict K V) (k : K) (v : V) :
    d.get? k = some v ↔ (k, v) ∈ d.entries :=
  lookup_eq_some_iff d.entries d.distinct k v

theorem mem_iff_get? (d : Dict K V) (k : K) : k ∈ d ↔ ∃ v, d.get? k = some v := by
  rw [← not_iff_not, ← get?_eq_none_iff]
  cases d.get? k <;> simp

@[simp] theorem get?_empty (k : K) : (Dict.empty : Dict K V).get? k = none := rfl

theorem get?_set (d : Dict K V) (k j : K) (v : V) :
    (d.set k v).get? j = if j = k then some v else d.get? j := lookup_write d.entries k j v

@[simp] theorem get?_set_self (d : Dict K V) (k : K) (v : V) : (d.set k v).get? k = some v := by
  simp [get?_set]

theorem get?_set_ne (d : Dict K V) {k j : K} (v : V) (other : j ≠ k) :
    (d.set k v).get? j = d.get? j := by
  simp [get?_set, other]

theorem get?_erase (d : Dict K V) (k j : K) :
    (d.erase k).get? j = if j = k then none else d.get? j := lookup_filter_ne d.entries k j

@[simp] theorem get?_erase_self (d : Dict K V) (k : K) : (d.erase k).get? k = none := by
  simp [get?_erase]

theorem get?_erase_ne (d : Dict K V) {k j : K} (other : j ≠ k) :
    (d.erase k).get? j = d.get? j := by
  simp [get?_erase, other]

theorem keys_set (d : Dict K V) (k : K) (v : V) :
    (d.set k v).keys = if k ∈ d then d.keys else d.keys ++ [k] := write_keys d.entries k v

theorem mem_set (d : Dict K V) (k j : K) (v : V) : j ∈ d.set k v ↔ j = k ∨ j ∈ d := by
  simp only [mem_iff_get?, get?_set]
  by_cases same : j = k <;> simp [same]

theorem length_set (d : Dict K V) (k : K) (v : V) :
    (d.set k v).length = if k ∈ d then d.length else d.length + 1 := by
  rw [← length_keys, keys_set]
  split <;> simp [length_keys]

/- A batch of values, each written under its own key. -/
def Dict.setAll (d : Dict K V) (key : V → K) (xs : List V) : Dict K V :=
  xs.foldl (fun e x => e.set (key x) x) d

@[simp] theorem setAll_nil (d : Dict K V) (key : V → K) : d.setAll key [] = d := rfl

theorem setAll_cons (d : Dict K V) (key : V → K) (x : V) (xs : List V) :
    d.setAll key (x :: xs) = (d.set (key x) x).setAll key xs := rfl

theorem setAll_append (d : Dict K V) (key : V → K) (xs ys : List V) :
    d.setAll key (xs ++ ys) = (d.setAll key xs).setAll key ys := List.foldl_append

theorem mem_setAll (d : Dict K V) (key : V → K) (xs : List V) (k : K) :
    k ∈ d.setAll key xs ↔ k ∈ d ∨ k ∈ xs.map key := by
  induction xs generalizing d with
  | nil => simp
  | cons x xs ih =>
    rw [setAll_cons, ih, mem_set, List.map_cons, List.mem_cons]
    tauto

/- The last value of a batch under a key is the one that stays. -/
theorem get?_setAll (d : Dict K V) (key : V → K) (xs : List V) (k : K) :
    (d.setAll key xs).get? k =
      ((xs.filter fun x => decide (key x = k)).getLast?).or (d.get? k) := by
  induction xs generalizing d with
  | nil => rfl
  | cons x xs ih =>
    rw [setAll_cons, ih, get?_set, List.filter_cons]
    by_cases same : key x = k
    · simp only [same, ↓reduceIte, decide_true, List.getLast?_cons]
      cases (xs.filter fun x => decide (key x = k)).getLast? <;> rfl
    · simp only [same, Ne.symm same, ↓reduceIte, decide_false, Bool.false_eq_true]

/- Keys and the value of each determine the entries up to order. -/
theorem entries_perm {A : Type*} {d : Dict K V} {names : List A} {key : A → K} {f : A → V}
    (keys : d.keys.Perm (names.map key)) (values : ∀ a ∈ names, d.get? (key a) = some (f a)) :
    d.entries.Perm (names.map fun a => (key a, f a)) := by
  have left : d.entries.Nodup := List.Nodup.of_map Prod.fst d.distinct
  have right : (names.map fun a => (key a, f a)).Nodup := by
    apply List.Nodup.of_map Prod.fst
    rw [List.map_map]
    exact keys.nodup_iff.mp d.distinct
  rw [List.perm_ext_iff_of_nodup left right]
  rintro ⟨k, v⟩
  rw [← get?_eq_some_iff, List.mem_map]
  constructor
  · intro got
    have member := keys.mem_iff.mp ((mem_iff_keys d k).mp ((mem_iff_get? d k).mpr ⟨v, got⟩))
    obtain ⟨a, named, rfl⟩ := List.mem_map.mp member
    rw [values a named, Option.some.injEq] at got
    exact ⟨a, named, by rw [got]⟩
  · rintro ⟨a, named, same⟩
    rw [← (Prod.mk.inj same).1, ← (Prod.mk.inj same).2]
    exact values a named

theorem mem_values_iff (d : Dict K V) (v : V) : v ∈ d.values ↔ ∃ k, d.get? k = some v := by
  simp only [Dict.values, List.mem_map, Prod.exists, exists_eq_right, get?_eq_some_iff]

theorem mem_values_setAll {d : Dict K V} {key : V → K} {xs : List V} {v : V}
    (member : v ∈ (d.setAll key xs).values) : v ∈ d.values ∨ v ∈ xs := by
  induction xs generalizing d with
  | nil => exact Or.inl member
  | cons x xs ih =>
    rw [setAll_cons] at member
    rcases ih member with old | new
    · obtain ⟨k, got⟩ := (mem_values_iff _ _).mp old
      rw [get?_set] at got
      split at got
      · exact Or.inr (by simp [Option.some.inj got])
      · exact Or.inl ((mem_values_iff _ _).mpr ⟨k, got⟩)
    · exact Or.inr (List.mem_cons_of_mem x new)

def SelfKeyed (key : V → K) (d : Dict K V) : Prop := ∀ e ∈ d.entries, key e.2 = e.1

omit [DecidableEq K] in
theorem empty_self_keyed (key : V → K) : SelfKeyed key Dict.empty := by
  intro e he
  simp [Dict.empty] at he

theorem set_self_keyed (key : V → K) (d : Dict K V) (x : V) (h : SelfKeyed key d) :
    SelfKeyed key (d.set (key x) x) := by
  rintro ⟨k, v⟩ member
  rw [← get?_eq_some_iff, get?_set] at member
  split at member
  · rename_i same
    simp_all
  · exact h (k, v) ((get?_eq_some_iff d k v).mp member)

theorem setAll_self_keyed (key : V → K) (d : Dict K V) (xs : List V) (h : SelfKeyed key d) :
    SelfKeyed key (d.setAll key xs) := by
  induction xs generalizing d with
  | nil => exact h
  | cons x xs ih => exact ih _ (set_self_keyed key d x h)

omit [DecidableEq K] in
theorem self_keyed_values (key : V → K) (d : Dict K V) (h : SelfKeyed key d) :
    d.values.map key = d.keys := by
  simp only [Dict.values, Dict.keys, List.map_map]
  exact List.map_congr_left fun e he => h e he

theorem find_lookup (key : V → K) (xs : List (K × V)) (own : ∀ e ∈ xs, key e.2 = e.1) (k : K) :
    (xs.map Prod.snd).find? (fun v => decide (key v = k)) = lookup xs k := by
  induction xs with
  | nil => rfl
  | cons pair rest ih =>
    obtain ⟨a, v⟩ := pair
    have first : key v = a := own (a, v) List.mem_cons_self
    have later := ih fun e member => own e (List.mem_cons_of_mem (a, v) member)
    by_cases same : a = k
    · simp [lookup, first, same]
    · simp [lookup, first, same, later]

/- The listing of a self-keyed dictionary can be searched by key. -/
theorem find_values (key : V → K) (d : Dict K V) (h : SelfKeyed key d) (k : K) :
    d.values.find? (fun v => decide (key v = k)) = d.get? k :=
  find_lookup key d.entries h k

theorem write_absent (xs : List (K × V)) (k : K) (v : V) (absent : k ∉ xs.map Prod.fst) :
    write xs k v = xs ++ [(k, v)] := by
  induction xs with
  | nil => rfl
  | cons pair rest ih =>
    obtain ⟨a, u⟩ := pair
    simp only [List.map_cons, List.mem_cons, not_or] at absent
    simp [write, Ne.symm absent.1, ih absent.2]

theorem values_set_absent (d : Dict K V) (k : K) (v : V) (absent : k ∉ d) :
    (d.set k v).values = d.values ++ [v] := by
  simp only [Dict.values, Dict.set, write_absent d.entries k v absent, List.map_append,
    List.map_cons, List.map_nil]

theorem erase_set_absent (d : Dict K V) (k : K) (v : V) (absent : k ∉ d) :
    (d.set k v).erase k = d := by
  have others : ∀ e ∈ d.entries, (!decide (e.1 = k)) = true := by
    intro e member
    have differs : e.1 ≠ k := fun same => absent (same ▸ List.mem_map_of_mem member)
    simpa using differs
  simp only [Dict.set, Dict.erase, write_absent d.entries k v absent, List.filter_append,
    List.filter_eq_self.mpr others]
  simp

/- The values replaced one by one, the keys and their order kept. -/
def Dict.mapValues {W : Type*} (f : V → W) (d : Dict K V) : Dict K W :=
  ⟨d.entries.map fun e => (e.1, f e.2), by
    rw [List.map_map]
    exact d.distinct⟩

omit [DecidableEq K] in
theorem length_mapValues {W : Type*} (f : V → W) (d : Dict K V) :
    (d.mapValues f).length = d.length := List.length_map ..

omit [DecidableEq K] in
theorem mem_mapValues {W : Type*} (f : V → W) (d : Dict K V) (k : K) :
    k ∈ d.mapValues f ↔ k ∈ d := by
  rw [mem_iff_keys, mem_iff_keys, Dict.keys, Dict.keys, Dict.mapValues, List.map_map]
  exact Iff.rfl

theorem get?_mapValues {W : Type*} (f : V → W) (d : Dict K V) (k : K) :
    (d.mapValues f).get? k = (d.get? k).map f := by
  simp only [Dict.get?, Dict.mapValues]
  induction d.entries with
  | nil => rfl
  | cons e rest ih =>
    simp only [List.map_cons, lookup]
    split
    · rfl
    · exact ih

theorem mapValues_set {W : Type*} (f : V → W) (d : Dict K V) (k : K) (v : V) :
    (d.set k v).mapValues f = (d.mapValues f).set k (f v) := by
  have entries : ((write d.entries k v).map fun e => (e.1, f e.2)) =
      write (d.entries.map fun e => (e.1, f e.2)) k (f v) := by
    induction d.entries with
    | nil => rfl
    | cons e rest ih =>
      simp only [List.map_cons, write]
      split
      · rfl
      · rw [List.map_cons, ih]
  simp only [Dict.mapValues, Dict.set, entries]

/- With no key repeated, nothing is overwritten and the listing is the batch itself. -/
theorem values_setAll (d : Dict K V) (key : V → K) (xs : List V)
    (fresh : ∀ x ∈ xs, key x ∉ d) (nodup : (xs.map key).Nodup) :
    (d.setAll key xs).values = d.values ++ xs := by
  induction xs generalizing d with
  | nil => simp
  | cons x xs ih =>
    simp only [List.map_cons, List.nodup_cons] at nodup
    rw [setAll_cons, ih _ _ nodup.2, values_set_absent d _ x (fresh x (by simp))]
    · simp
    · intro y hy member
      rw [mem_set] at member
      rcases member with same | old
      · exact nodup.1 (List.mem_map.mpr ⟨y, hy, same⟩)
      · exact fresh y (by simp [hy]) old

end InsertionDict

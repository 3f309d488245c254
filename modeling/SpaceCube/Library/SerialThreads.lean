import Mathlib.Data.List.Induction
import Mathlib.Data.List.Perm.Basic
import Mathlib.Logic.Relation

/- Threads that run one after another on one state, each atomic. -/
namespace SerialThreads
variable {State Thread : Type*} {thread : State → Thread → State}
  {apart : State → Thread → Thread → Prop}

/-- Two neighbours change places that are apart where the first of them starts. -/
inductive Exchange (thread : State → Thread → State)
    (apart : State → Thread → Thread → Prop) (s : State) : List Thread → List Thread → Prop where
  | swap (before : List Thread) (i j : Thread) (after : List Thread)
      (distant : apart (before.foldl thread s) i j) :
      Exchange thread apart s (before ++ i :: j :: after) (before ++ j :: i :: after)

/-- Any number of exchanges, in either direction. -/
abbrev Exchanges (thread : State → Thread → State)
    (apart : State → Thread → Thread → Prop) (s : State) : List Thread → List Thread → Prop :=
  Relation.EqvGen (Exchange thread apart s)

theorem exchange_run
    (commute : ∀ s i j, apart s i j → thread (thread s i) j = thread (thread s j) i)
    {s : State} {order other : List Thread} (exchange : Exchange thread apart s order other) :
    order.foldl thread s = other.foldl thread s := by
  cases exchange with
  | swap before i j after distant =>
      simp only [List.foldl_append, List.foldl_cons]
      rw [commute _ i j distant]

theorem exchanges_run
    (commute : ∀ s i j, apart s i j → thread (thread s i) j = thread (thread s j) i)
    {s : State} {order other : List Thread} (linked : Exchanges thread apart s order other) :
    order.foldl thread s = other.foldl thread s := by
  induction linked with
  | rel order other exchange => exact exchange_run commute exchange
  | refl order => rfl
  | symm order other _ same => exact same.symm
  | trans order middle other _ _ first second => exact first.trans second

theorem exchanges_cons {s : State} {i : Thread} {order other : List Thread}
    (linked : Exchanges thread apart (thread s i) order other) :
    Exchanges thread apart s (i :: order) (i :: other) := by
  induction linked with
  | rel order other exchange =>
      cases exchange with
      | swap before j k after distant =>
          exact .rel _ _ (Exchange.swap (i :: before) j k after distant)
  | refl order => exact .refl _
  | symm order other _ same => exact same.symm
  | trans order middle other _ _ first second => exact first.trans _ _ _ second

/-- What each thread of an order keeps where it starts holds before every thread. -/
theorem invariant_before {P : State → Prop} {s : State} {order : List Thread} (start : P s)
    (keep : ∀ front i back, order = front ++ i :: back → P (front.foldl thread s) →
      P (thread (front.foldl thread s) i)) {front : List Thread} (before : front <+: order) :
    P (front.foldl thread s) := by
  induction front using List.reverseRecOn with
  | nil => exact start
  | append_singleton front i earlier =>
      obtain ⟨back, split⟩ := before
      rw [List.append_assoc, List.singleton_append] at split
      rw [List.foldl_append]
      exact keep front i back split.symm (earlier ⟨i :: back, split⟩)

section Calm
variable {calm : State → Thread → Prop}
  (keep : ∀ s i j, calm s i → calm s j → j ≠ i → calm (thread s i) j)
include keep

theorem calm_later {i : Thread} {rest : List Thread} (nodup : (i :: rest).Nodup) {s : State}
    (all : ∀ j ∈ i :: rest, calm s j) : ∀ j ∈ rest, calm (thread s i) j := by
  intro j member
  refine keep s i j (all i List.mem_cons_self) (all j (List.mem_cons_of_mem i member)) ?_
  rintro rfl
  exact (List.nodup_cons.mp nodup).1 member

/-- Where distinct calm threads are apart, any order of calm threads leads to any other. -/
theorem exchanges_of_perm (distant : ∀ s i j, calm s i → calm s j → j ≠ i → apart s i j)
    {order other : List Thread} (same : order.Perm other) (nodup : order.Nodup) {s : State}
    (all : ∀ i ∈ order, calm s i) : Exchanges thread apart s order other := by
  induction same generalizing s with
  | nil => exact .refl _
  | cons i _ rest =>
      exact exchanges_cons (rest (List.nodup_cons.mp nodup).2 (calm_later keep nodup all))
  | swap i j tail =>
      have ij : i ≠ j := fun equal => (List.nodup_cons.mp nodup).1 (equal ▸ List.mem_cons_self)
      have left := all j List.mem_cons_self
      have right := all i (List.mem_cons_of_mem j List.mem_cons_self)
      exact .rel _ _ (Exchange.swap [] j i tail (distant s j i left right ij))
  | trans front _ first second =>
      exact (first nodup all).trans _ _ _ (second (front.nodup_iff.mp nodup)
        fun i member => all i (front.mem_iff.mpr member))

end Calm
end SerialThreads

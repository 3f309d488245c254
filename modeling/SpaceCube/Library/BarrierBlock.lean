import Mathlib.Algebra.Order.BigOperators.Group.Finset
import Mathlib.Logic.Relation

/- A block of threads over shared slots. In each round every live thread stores its own
   slot, waits, reads all slots in order and waits again. A thread that is not live takes no
   part and stores nothing, so its slot keeps what it held before. -/
namespace BarrierBlock
open Relation
variable {V A : Type*}

inductive Stage where
  | loading
  | arrived
  | reading (i : Nat)
  | passed
  | finished

structure Thread (A : Type*) where
  round : Nat
  stage : Stage
  acc : A

structure Block (V A : Type*) where
  shared : Nat → V
  threads : Nat → Thread A

/-- What each thread stores in a round, and how it folds in the slot it reads. -/
structure Program (V A : Type*) where
  size : Nat
  rounds : Nat
  live : Nat → Prop
  zero : A
  data : Nat → Nat → V
  read : Nat → Nat → Nat → V → A → A

def Program.Active (p : Program V A) (tid : Nat) : Prop := tid < p.size ∧ p.live tid

def Program.entry (p : Program V A) (round : Nat) : Stage :=
  if round < p.rounds then .loading else .finished

def Program.start (p : Program V A) (init : Nat → V) : Block V A :=
  ⟨init, fun _ => ⟨0, p.entry 0, p.zero⟩⟩

inductive Step (p : Program V A) (b : Block V A) : Block V A → Prop where
  | load {tid : Nat} (active : p.Active tid) (here : (b.threads tid).stage = .loading) :
    Step p b
      ⟨Function.update b.shared tid (p.data (b.threads tid).round tid),
        Function.update b.threads tid { b.threads tid with stage := .arrived }⟩
  | release {someone : Nat} (active : p.Active someone)
    (all : ∀ tid, p.Active tid → (b.threads tid).stage = .arrived) :
    Step p b ⟨b.shared, fun tid => { b.threads tid with stage := .reading 0 }⟩
  | read {tid i : Nat} (active : p.Active tid) (here : (b.threads tid).stage = .reading i)
    (more : i < p.size) :
    Step p b ⟨b.shared, Function.update b.threads tid
      { b.threads tid with
        stage := .reading (i + 1)
        acc := p.read tid (b.threads tid).round i (b.shared i) (b.threads tid).acc }⟩
  | pass {tid : Nat} (active : p.Active tid) (here : (b.threads tid).stage = .reading p.size) :
    Step p b ⟨b.shared, Function.update b.threads tid { b.threads tid with stage := .passed }⟩
  | next {someone : Nat} (active : p.Active someone)
    (all : ∀ tid, p.Active tid → (b.threads tid).stage = .passed) :
    Step p b ⟨b.shared, fun tid =>
      { b.threads tid with
        round := (b.threads tid).round + 1
        stage := p.entry ((b.threads tid).round + 1) }⟩

open Classical in
/-- What slot i holds in a round once the live threads have stored. -/
noncomputable def Program.slot (p : Program V A) (init : Nat → V) (round i : Nat) : V :=
  if p.Active i then p.data round i else init i

noncomputable def Program.partialRound (p : Program V A) (init : Nat → V) (tid round n : Nat)
    (acc : A) : A :=
  (List.range n).foldl (fun a i => p.read tid round i (p.slot init round i) a) acc

noncomputable def Program.total (p : Program V A) (init : Nat → V) (tid rounds : Nat) : A :=
  (List.range rounds).foldl (fun a round => p.partialRound init tid round p.size a) p.zero

theorem slot_active {p : Program V A} {i : Nat} (active : p.Active i) (init : Nat → V)
    (round : Nat) : p.slot init round i = p.data round i := if_pos active

theorem slot_idle {p : Program V A} {i : Nat} (idle : ¬ p.Active i) (init : Nat → V)
    (round : Nat) : p.slot init round i = init i := if_neg idle

theorem partial_succ (p : Program V A) (init : Nat → V) (tid round n : Nat) (acc : A) :
    p.partialRound init tid round (n + 1) acc =
      p.read tid round n (p.slot init round n) (p.partialRound init tid round n acc) := by
  simp [Program.partialRound, List.range_succ]

theorem total_succ (p : Program V A) (init : Nat → V) (tid rounds : Nat) :
    p.total init tid (rounds + 1) =
      p.partialRound init tid rounds p.size (p.total init tid rounds) := by
  simp [Program.total, List.range_succ]

theorem foldl_past {B : Type*} {n m : Nat} (le : n ≤ m) {f : B → Nat → B}
    (idle : ∀ b j, n ≤ j → f b j = b) (start : B) :
    (List.range m).foldl f start = (List.range n).foldl f start := by
  obtain ⟨extra, rfl⟩ := Nat.exists_eq_add_of_le le
  induction extra with
  | zero => rfl
  | succ extra before =>
      rw [← Nat.add_assoc, List.range_succ, List.foldl_append, before (by omega)]
      exact idle _ _ (by omega)

theorem round_quotient {size i : Nat} (round : Nat) (slot : i < size) :
    (round * size + i) / size = round := by
  have positive : 0 < size := Nat.zero_lt_of_lt slot
  rw [Nat.mul_comm, Nat.mul_add_div positive, Nat.div_eq_of_lt slot, Nat.add_zero]

theorem round_remainder {size i : Nat} (round : Nat) (slot : i < size) :
    (round * size + i) % size = i := by
  rw [Nat.mul_comm, Nat.mul_add_mod, Nat.mod_eq_of_lt slot]

/-- The slots of all rounds, numbered on, are a range. -/
theorem range_rounds (rounds size : Nat) :
    (List.range rounds).flatMap (fun round => (List.range size).map fun i => round * size + i) =
      List.range (rounds * size) := by
  induction rounds with
  | zero => simp
  | succ rounds before =>
      rw [List.range_succ, List.flatMap_append, before, List.flatMap_singleton, Nat.succ_mul,
        List.range_add]

/-- Rounds of slots read in order are one pass over all of them. -/
theorem total_linear (p : Program V A) (init : Nat → V) (tid rounds : Nat) :
    p.total init tid rounds = (List.range (rounds * p.size)).foldl (fun a j =>
      p.read tid (j / p.size) (j % p.size) (p.slot init (j / p.size) (j % p.size)) a)
      p.zero := by
  rw [← range_rounds, List.foldl_flatMap]
  refine List.foldl_ext _ _ _ fun total round _ => ?_
  rw [List.foldl_map]
  refine List.foldl_ext _ _ _ fun a i member => ?_
  have slot : i < p.size := List.mem_range.mp member
  rw [round_quotient round slot, round_remainder round slot]

/-- All live threads are in one round, and either none of them has read in it, or all have
    stored and some have read. -/
inductive Inv (p : Program V A) (init : Nat → V) (b : Block V A) : Prop where
  | loading (t : Nat) (more : t < p.rounds)
    (threads : ∀ tid, p.Active tid → (b.threads tid).round = t ∧
      (b.threads tid).acc = p.total init tid t ∧
      ((b.threads tid).stage = .loading ∨ (b.threads tid).stage = .arrived))
    (stored : ∀ tid, p.Active tid → (b.threads tid).stage = .arrived →
      b.shared tid = p.data t tid)
    (idle : ∀ i, ¬ p.Active i → b.shared i = init i)
  | reading (t : Nat) (more : t < p.rounds)
    (threads : ∀ tid, p.Active tid → (b.threads tid).round = t ∧
      ((∃ i, i ≤ p.size ∧ (b.threads tid).stage = .reading i ∧
        (b.threads tid).acc = p.partialRound init tid t i (p.total init tid t)) ∨
      ((b.threads tid).stage = .passed ∧ (b.threads tid).acc = p.total init tid (t + 1))))
    (shared : ∀ i, b.shared i = p.slot init t i)
  | finished (threads : ∀ tid, p.Active tid → (b.threads tid).stage = .finished ∧
      (b.threads tid).acc = p.total init tid p.rounds)

theorem inv_start (p : Program V A) (init : Nat → V) : Inv p init (p.start init) := by
  by_cases more : 0 < p.rounds
  · refine .loading 0 more (fun tid _ => ⟨rfl, rfl, Or.inl ?_⟩) ?_ fun i _ => rfl
    · simp [Program.start, Program.entry, more]
    · intro tid _ here
      simp [Program.start, Program.entry, more] at here
  · refine .finished fun tid _ => ⟨?_, ?_⟩
    · simp [Program.start, Program.entry, more]
    · rw [show p.rounds = 0 by omega]
      rfl

theorem inv_load {p : Program V A} {init : Nat → V} {b : Block V A} (inv : Inv p init b)
    {tid : Nat} (active : p.Active tid) (here : (b.threads tid).stage = .loading) :
    Inv p init
      ⟨Function.update b.shared tid (p.data (b.threads tid).round tid),
        Function.update b.threads tid { b.threads tid with stage := .arrived }⟩ := by
  cases inv with
  | loading t more threads stored idle =>
      refine .loading t more ?_ ?_ ?_
      · intro other live
        by_cases same : other = tid
        · subst same
          have before := threads other live
          simp [before.1, before.2.1]
        · simpa [same] using threads other live
      · intro other live arrived
        by_cases same : other = tid
        · subst same
          simp [(threads other live).1]
        · simp only [Function.update_of_ne same] at arrived ⊢
          exact stored other live arrived
      · intro i notActive
        have apart : i ≠ tid := fun same => notActive (same ▸ active)
        simpa [apart] using idle i notActive
  | reading t more threads shared =>
      rcases (threads tid active).2 with ⟨i, _, stage, _⟩ | ⟨stage, _⟩ <;> simp [stage] at here
  | finished threads => simp [(threads tid active).1] at here

theorem inv_release {p : Program V A} {init : Nat → V} {b : Block V A} (inv : Inv p init b)
    {someone : Nat} (active : p.Active someone)
    (all : ∀ tid, p.Active tid → (b.threads tid).stage = .arrived) :
    Inv p init ⟨b.shared, fun tid => { b.threads tid with stage := .reading 0 }⟩ := by
  have here := all someone active
  cases inv with
  | loading t more threads stored idle =>
      refine .reading t more ?_ ?_
      · intro tid live
        have before := threads tid live
        exact ⟨before.1, Or.inl ⟨0, Nat.zero_le _, rfl, before.2.1⟩⟩
      · intro i
        by_cases live : p.Active i
        · rw [slot_active live]
          exact stored i live (all i live)
        · rw [slot_idle live]
          exact idle i live
  | reading t more threads shared =>
      rcases (threads someone active).2 with ⟨i, _, stage, _⟩ | ⟨stage, _⟩ <;>
        simp [stage] at here
  | finished threads => simp [(threads someone active).1] at here

/-- A thread that reads is in a round whose slots are all stored, and keeps the invariant by
    any move within that round. -/
theorem inv_turn {p : Program V A} {init : Nat → V} {b : Block V A} (inv : Inv p init b)
    {tid i : Nat} (active : p.Active tid) (here : (b.threads tid).stage = .reading i)
    {thread : Thread A}
    (turn : ∀ t, (b.threads tid).round = t → (∀ i, b.shared i = p.slot init t i) →
      (b.threads tid).acc = p.partialRound init tid t i (p.total init tid t) →
      thread.round = t ∧ ((∃ i, i ≤ p.size ∧ thread.stage = .reading i ∧
        thread.acc = p.partialRound init tid t i (p.total init tid t)) ∨
      (thread.stage = .passed ∧ thread.acc = p.total init tid (t + 1)))) :
    Inv p init ⟨b.shared, Function.update b.threads tid thread⟩ := by
  cases inv with
  | loading t _ threads _ _ =>
      rcases (threads tid active).2.2 with stage | stage <;> simp [stage] at here
  | reading t round threads shared =>
      refine .reading t round ?_ shared
      intro other live
      by_cases same : other = tid
      · subst same
        obtain ⟨sameRound, ⟨j, _, stage, acc⟩ | ⟨stage, _⟩⟩ := threads other live
        · obtain rfl : j = i := by simpa [stage] using here
          simpa only [Function.update_self] using turn t sameRound shared acc
        · simp [stage] at here
      · simpa [same] using threads other live
  | finished threads => simp [(threads tid active).1] at here

theorem inv_read {p : Program V A} {init : Nat → V} {b : Block V A} (inv : Inv p init b)
    {tid i : Nat} (active : p.Active tid) (here : (b.threads tid).stage = .reading i)
    (more : i < p.size) :
    Inv p init ⟨b.shared, Function.update b.threads tid
      { b.threads tid with
        stage := .reading (i + 1)
        acc := p.read tid (b.threads tid).round i (b.shared i) (b.threads tid).acc }⟩ := by
  refine inv_turn inv active here fun t sameRound shared acc => ?_
  refine ⟨sameRound, Or.inl ⟨i + 1, more, rfl, ?_⟩⟩
  rw [partial_succ p init tid t i (p.total init tid t), acc, shared, sameRound]

theorem inv_pass {p : Program V A} {init : Nat → V} {b : Block V A} (inv : Inv p init b)
    {tid : Nat} (active : p.Active tid) (here : (b.threads tid).stage = .reading p.size) :
    Inv p init
      ⟨b.shared, Function.update b.threads tid { b.threads tid with stage := .passed }⟩ := by
  refine inv_turn inv active here fun t sameRound _ acc => ?_
  exact ⟨sameRound, Or.inr ⟨rfl, acc.trans (total_succ p init tid t).symm⟩⟩

theorem inv_next {p : Program V A} {init : Nat → V} {b : Block V A} (inv : Inv p init b)
    {someone : Nat} (active : p.Active someone)
    (all : ∀ tid, p.Active tid → (b.threads tid).stage = .passed) :
    Inv p init ⟨b.shared, fun tid =>
      { b.threads tid with
        round := (b.threads tid).round + 1
        stage := p.entry ((b.threads tid).round + 1) }⟩ := by
  have here := all someone active
  cases inv with
  | loading t _ threads _ _ =>
      rcases (threads someone active).2.2 with stage | stage <;> simp [stage] at here
  | reading t round threads shared =>
      have after : ∀ tid, p.Active tid → (b.threads tid).round = t ∧
          (b.threads tid).acc = p.total init tid (t + 1) := by
        intro tid live
        obtain ⟨sameRound, ⟨i, _, stage, _⟩ | ⟨_, acc⟩⟩ := threads tid live
        · have passed := all tid live
          simp [stage] at passed
        · exact ⟨sameRound, acc⟩
      by_cases last : t + 1 < p.rounds
      · refine .loading (t + 1) last ?_ ?_ ?_
        · intro tid live
          simp [after tid live, Program.entry, last]
        · intro tid live arrived
          simp [after tid live, Program.entry, last] at arrived
        · intro i notActive
          exact (shared i).trans (slot_idle notActive init t)
      · have rounds : t + 1 = p.rounds := by omega
        refine .finished fun tid live => ?_
        simp [after tid live, Program.entry, rounds]
  | finished threads => simp [(threads someone active).1] at here

theorem inv_step {p : Program V A} {init : Nat → V} {b next : Block V A}
    (inv : Inv p init b) (step : Step p b next) : Inv p init next := by
  cases step with
  | load active here => exact inv_load inv active here
  | release active all => exact inv_release inv active all
  | read active here more => exact inv_read inv active here more
  | pass active here => exact inv_pass inv active here
  | next active all => exact inv_next inv active all

/-- In whatever order the threads run, the invariant holds. -/
theorem inv_reachable {p : Program V A} {init : Nat → V} {b : Block V A}
    (reached : ReflTransGen (Step p) (p.start init) b) : Inv p init b := by
  induction reached with
  | refl => exact inv_start p init
  | tail _ step inv => exact inv_step inv step

theorem finished_total {p : Program V A} {init : Nat → V} {b : Block V A}
    (inv : Inv p init b) {tid : Nat} (active : p.Active tid)
    (done : (b.threads tid).stage = .finished) :
    (b.threads tid).acc = p.total init tid p.rounds := by
  cases inv with
  | loading t _ threads _ _ =>
      rcases (threads tid active).2.2 with stage | stage <;> simp [stage] at done
  | reading t _ threads _ =>
      rcases (threads tid active).2 with ⟨i, _, stage, _⟩ | ⟨stage, _⟩ <;> simp [stage] at done
  | finished threads => exact (threads tid active).2

/-- No barrier is waited at forever: unless all live threads are finished, one can go on. -/
theorem progress {p : Program V A} {init : Nat → V} {b : Block V A} (inv : Inv p init b)
    {someone : Nat} (active : p.Active someone) :
    (∃ next, Step p b next) ∨ ∀ tid, p.Active tid → (b.threads tid).stage = .finished := by
  cases inv with
  | loading t _ threads _ _ =>
      left
      by_cases all : ∀ tid, p.Active tid → (b.threads tid).stage = .arrived
      · exact ⟨_, .release active all⟩
      · push Not at all
        obtain ⟨tid, live, notArrived⟩ := all
        have here := (threads tid live).2.2.resolve_right notArrived
        exact ⟨_, .load live here⟩
  | reading t _ threads _ =>
      left
      by_cases all : ∀ tid, p.Active tid → (b.threads tid).stage = .passed
      · exact ⟨_, .next active all⟩
      · push Not at all
        obtain ⟨tid, live, notPassed⟩ := all
        rcases (threads tid live).2 with ⟨i, bound, here, _⟩ | ⟨here, _⟩
        · rcases bound.lt_or_eq with more | last
          · exact ⟨_, .read live here more⟩
          · exact ⟨_, .pass live (last ▸ here)⟩
        · exact absurd here notPassed
  | finished threads => exact Or.inr fun tid live => (threads tid live).1

/-- Steps left to a stage within its round; a round has at most size + 3 of them. -/
def Stage.rank (size : Nat) : Stage → Nat
  | .loading => size + 3
  | .arrived => size + 2
  | .reading i => size - i + 1
  | .passed => 0
  | .finished => 0

def Program.rank (p : Program V A) (thread : Thread A) : Nat :=
  (p.rounds - thread.round) * (p.size + 4) + thread.stage.rank p.size

open Classical in
noncomputable def Program.measure (p : Program V A) (b : Block V A) : Nat :=
  ∑ tid ∈ (Finset.range p.size).filter p.live, p.rank (b.threads tid)

theorem measure_lt {p : Program V A} {b next : Block V A}
    (le : ∀ tid, p.Active tid → p.rank (next.threads tid) ≤ p.rank (b.threads tid))
    {someone : Nat} (active : p.Active someone)
    (lt : p.rank (next.threads someone) < p.rank (b.threads someone)) :
    p.measure next < p.measure b := by
  refine Finset.sum_lt_sum (fun tid mem => le tid ?_) ⟨someone, ?_, lt⟩
  · simpa [Program.Active] using mem
  · simpa [Program.Active] using active

theorem measure_update {p : Program V A} {b : Block V A} {shared : Nat → V} {tid : Nat}
    {thread : Thread A} (active : p.Active tid)
    (lt : p.rank thread < p.rank (b.threads tid)) :
    p.measure ⟨shared, Function.update b.threads tid thread⟩ < p.measure b := by
  refine measure_lt ?_ active (by simpa using lt)
  intro other _
  by_cases same : other = tid
  · subst same
    simpa using lt.le
  · simp [same]

theorem rank_next {p : Program V A} {thread : Thread A} (more : thread.round < p.rounds) :
    p.rank { thread with
        round := thread.round + 1
        stage := p.entry (thread.round + 1) } < p.rank thread := by
  have split : p.rounds - thread.round = p.rounds - (thread.round + 1) + 1 := by omega
  have entry : (p.entry (thread.round + 1)).rank p.size ≤ p.size + 3 := by
    unfold Program.entry
    split <;> simp [Stage.rank]
  simp only [Program.rank]
  rw [split, Nat.add_mul]
  omega

theorem measure_step {p : Program V A} {init : Nat → V} {b next : Block V A}
    (inv : Inv p init b) (step : Step p b next) : p.measure next < p.measure b := by
  cases step with
  | load active here =>
      refine measure_update active ?_
      simp [Program.rank, here, Stage.rank]
  | read active here more =>
      refine measure_update active ?_
      simp only [Program.rank, here, Stage.rank]
      omega
  | pass active here =>
      refine measure_update active ?_
      simp [Program.rank, here, Stage.rank]
  | release active all =>
      have lower : ∀ tid, p.Active tid →
          p.rank { b.threads tid with stage := .reading 0 } < p.rank (b.threads tid) := by
        intro tid live
        simp [Program.rank, all tid live, Stage.rank]
      exact measure_lt (fun tid live => (lower tid live).le) active (lower _ active)
  | next active all =>
      have lower : ∀ tid, p.Active tid → (b.threads tid).round < p.rounds := by
        intro tid live
        have here := all tid live
        cases inv with
        | loading t _ threads _ _ =>
            rcases (threads tid live).2.2 with stage | stage <;> simp [stage] at here
        | reading t more threads _ => exact (threads tid live).1 ▸ more
        | finished threads => simp [(threads tid live).1] at here
      exact measure_lt (fun tid live => (rank_next (lower tid live)).le) active
        (rank_next (lower _ active))

/-- From every state of a run all live threads can be brought to their end. -/
theorem completes {p : Program V A} {init : Nat → V} {b : Block V A} (inv : Inv p init b)
    {someone : Nat} (active : p.Active someone) :
    ∃ last, ReflTransGen (Step p) b last ∧
      ∀ tid, p.Active tid → (last.threads tid).stage = .finished := by
  induction size : p.measure b using Nat.strong_induction_on generalizing b with
  | _ n smaller =>
      rcases progress inv active with ⟨next, step⟩ | done
      · have less := measure_step inv step
        obtain ⟨last, rest, done⟩ :=
          smaller (p.measure next) (size ▸ less) (inv_step inv step) rfl
        exact ⟨last, rest.head step, done⟩
      · exact ⟨b, .refl, done⟩

/-- No schedule goes on forever. -/
theorem schedule_bounded {p : Program V A} {init : Nat → V} (schedule : Nat → Block V A)
    (first : schedule 0 = p.start init) (n : Nat)
    (steps : ∀ k < n, Step p (schedule k) (schedule (k + 1))) :
    p.measure (schedule n) + n ≤ p.measure (p.start init) := by
  suffices both : Inv p init (schedule n) ∧
      p.measure (schedule n) + n ≤ p.measure (p.start init) from both.2
  induction n with
  | zero => exact ⟨first ▸ inv_start p init, by rw [first, Nat.add_zero]⟩
  | succ n before =>
      obtain ⟨inv, bound⟩ := before fun k less => steps k (by omega)
      have step := steps n (by omega)
      have less := measure_step inv step
      exact ⟨inv_step inv step, by omega⟩

end BarrierBlock

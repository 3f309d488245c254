import SpaceCube.Library.FallibleState
import SpaceCube.Orchestrator.TopicCleanup

/- The admin calls of purge_topics. Which topics a run of it leaves with the low retention
   depends on where a call fails and on whether the wait between the loops is cut short. -/
namespace PurgeTopics
open FallibleState
variable {T : Type}

inductive Raised where
  | exception
  | cancelledError
  deriving DecidableEq

/-- A call of alter_configs for one topic, and whether it raised. -/
structure Call (T : Type) where
  topic : T
  retention : Nat
  raised : Bool
  deriving DecidableEq

/-- The admin client: the calls made through it, oldest first, and whether it is closed. -/
structure AdminClient (T : Type) where
  calls : List (Call T)
  closed : Bool

/-- Which calls of the two loops raise, by position, and whether run is cancelled during the
    wait. -/
structure Faults where
  lowering : Nat → Bool
  cancelled : Bool
  restoring : Nat → Bool

abbrev lowRetention : Nat := TopicCleanup.lowRetention

abbrev standardRetention : Nat := TopicCleanup.standardRetention

abbrev PurgeM (T A : Type) := Fallible Raised (AdminClient T) A

def alterConfigs (topic : T) (retention : Nat) (raises : Bool) : PurgeM T Unit := do
  modify fun a => { a with calls := a.calls ++ [⟨topic, retention, raises⟩] }
  if raises then throw .exception

def alterAll (retention : Nat) (raises : Nat → Bool) : Nat → List T → PurgeM T Unit
  | _, [] => pure ()
  | k, topic :: rest => do
    alterConfigs topic retention (raises k)
    alterAll retention raises (k + 1) rest

/-- asyncio.sleep(20). -/
def wait (cancelled : Bool) : PurgeM T Unit := if cancelled then throw .cancelledError else pure ()

/-- The body of the try. -/
def changeRetention (faults : Faults) (topicsToPurge : List T) : PurgeM T Unit := do
  alterAll lowRetention faults.lowering 0 topicsToPurge
  wait faults.cancelled
  alterAll standardRetention faults.restoring 0 topicsToPurge

/-- A cancellation is no Exception, so only the final block sees it. -/
def purgeTopics (faults : Faults) (topicsToPurge : List T) : PurgeM T Unit :=
  withFinally
    (tryCatch (changeRetention faults topicsToPurge) fun
      | .exception => pure ()
      | .cancelledError => throw .cancelledError)
    (modify fun a => { a with closed := true })

/-- The admin client when purge_topics has finished. -/
def purged (faults : Faults) (topicsToPurge : List T) : AdminClient T :=
  ((purgeTopics faults topicsToPurge).run.run ⟨[], false⟩).2

def Lowered (a : AdminClient T) (topic : T) : Prop := ⟨topic, lowRetention, false⟩ ∈ a.calls

def RestoreTried (a : AdminClient T) (topic : T) : Prop :=
  ∃ raised, ⟨topic, standardRetention, raised⟩ ∈ a.calls

/-- The retention that the last successful call for a topic has set. -/
def retentionSet [DecidableEq T] (calls : List (Call T)) (topic : T) : Option Nat :=
  ((calls.filter fun c => c.topic = topic ∧ c.raised = false).getLast?).map Call.retention

/-- No call of the next n raises if the first does not and none of the others does. -/
theorem fine_succ (raises : Nat → Bool) (k n : Nat) :
    (∀ i < n + 1, raises (k + i) = false) ↔
      raises k = false ∧ ∀ i < n, raises (k + 1 + i) = false := by
  simp only [Nat.add_assoc, Nat.add_comm 1]
  exact Nat.forall_lt_succ_left

/-- The calls that a loop makes: up to the first that raises. -/
def callsMade (retention : Nat) (raises : Nat → Bool) : Nat → List T → List (Call T)
  | _, [] => []
  | k, topic :: rest =>
    ⟨topic, retention, raises k⟩ :: if raises k then [] else callsMade retention raises (k + 1) rest

theorem made_iff (retention : Nat) (raises : Nat → Bool) (k : Nat) (topics : List T)
    (c : Call T) : c ∈ callsMade retention raises k topics ↔ ∃ i, topics[i]? = some c.topic ∧
      c.retention = retention ∧ c.raised = raises (k + i) ∧ ∀ j < i, raises (k + j) = false := by
  induction topics generalizing k with
  | nil => simp [callsMade]
  | cons topic rest ih =>
    have later : c ∈ (if raises k then [] else callsMade retention raises (k + 1) rest) ↔
        ∃ i, rest[i]? = some c.topic ∧ c.retention = retention ∧ c.raised = raises (k + (i + 1)) ∧
          ∀ j < i + 1, raises (k + j) = false := by
      simp only [fine_succ]
      cases fails : raises k with
      | true => simp
      | false =>
        have shift : ∀ j, k + 1 + j = k + (j + 1) := by omega
        simp only [Bool.false_eq_true, ↓reduceIte, ih, shift, true_and]
    rw [callsMade, List.mem_cons, later]
    constructor
    · rintro (rfl | ⟨i, found, rest⟩)
      · exact ⟨0, rfl, rfl, rfl, by simp⟩
      · exact ⟨i + 1, found, rest⟩
    · rintro ⟨i, found, kind, raised, fine⟩
      cases i with
      | zero =>
        left
        cases c
        simp_all
      | succ i => exact Or.inr ⟨i, found, kind, raised, fine⟩

theorem made_retention {retention : Nat} {raises : Nat → Bool} {k : Nat} {topics : List T}
    {c : Call T} (made : c ∈ callsMade retention raises k topics) : c.retention = retention := by
  obtain ⟨_, _, kind, _⟩ := (made_iff ..).mp made
  exact kind

/-- A loop ends by exception exactly when one of its calls raises. -/
theorem alter_all_spec (retention : Nat) (raises : Nat → Bool) (k : Nat) (topics : List T)
    (a : AdminClient T) : ∃ result, Ran (alterAll retention raises k topics) a result
        { a with calls := a.calls ++ callsMade retention raises k topics } ∧
      (result = .ok () ↔ ∀ i < topics.length, raises (k + i) = false) ∧
      (result = .ok () ∨ result = .error .exception) := by
  induction topics generalizing k a with
  | nil =>
    refine ⟨.ok (), ?_, by simp, Or.inl rfl⟩
    rw [callsMade, List.append_nil]
    rfl
  | cons topic rest ih =>
    cases fails : raises k with
    | true =>
      refine ⟨.error .exception, ran_bind_error _ ?_, ?_, Or.inr rfl⟩
      · simp only [callsMade, fails, ↓reduceIte]
        exact ran_bind_ok rfl rfl
      · rw [List.length_cons, fine_succ]
        exact iff_of_false (by simp) fun fine => by simp [fails] at fine
    | false =>
      obtain ⟨result, ran, ok, kind⟩ := ih (k + 1)
        { a with calls := a.calls ++ [⟨topic, retention, false⟩] }
      have first : Ran (alterConfigs topic retention (raises k)) a (.ok ())
          { a with calls := a.calls ++ [⟨topic, retention, false⟩] } := by
        rw [fails]
        exact ran_bind_ok rfl rfl
      refine ⟨result, ran_bind_ok first ?_, ?_, kind⟩
      · simpa [callsMade, fails] using ran
      · rw [ok, List.length_cons, fine_succ]
        exact (and_iff_right fails).symm

/-- The second loop is reached. -/
def ReachesRestoring (faults : Faults) (topics : List T) : Prop :=
  (∀ i < topics.length, faults.lowering i = false) ∧ faults.cancelled = false

/-- The restoring calls are made exactly if their loop is reached. -/
theorem change_spec (faults : Faults) (topics : List T) (a : AdminClient T) :
    ∃ result a', Ran (changeRetention faults topics) a result a' ∧
      (ReachesRestoring faults topics → a'.calls = a.calls ++
        callsMade lowRetention faults.lowering 0 topics ++
          callsMade standardRetention faults.restoring 0 topics) ∧
      (¬ ReachesRestoring faults topics →
        a'.calls = a.calls ++ callsMade lowRetention faults.lowering 0 topics) ∧
      (result = .error .cancelledError ↔
        (∀ i < topics.length, faults.lowering i = false) ∧ faults.cancelled = true) := by
  obtain ⟨result, lowering, ok, kind⟩ := alter_all_spec lowRetention faults.lowering 0 topics a
  simp only [Nat.zero_add] at ok
  rcases kind with rfl | rfl
  · have fine := ok.mp rfl
    let low : AdminClient T :=
      { a with calls := a.calls ++ callsMade lowRetention faults.lowering 0 topics }
    cases cut : faults.cancelled with
    | true =>
      have waited : Ran (wait faults.cancelled) low (.error .cancelledError) low := by
        rw [cut]
        rfl
      refine ⟨_, low, ran_bind_ok lowering (ran_bind_error _ waited), ?_, fun _ => rfl, ?_⟩
      · exact fun reaches => absurd reaches.2 (by simp [cut])
      · exact iff_of_true rfl ⟨fine, rfl⟩
    | false =>
      have waited : Ran (wait faults.cancelled) low (.ok ()) low := by
        rw [cut]
        rfl
      obtain ⟨result, restoring, _, kind⟩ :=
        alter_all_spec standardRetention faults.restoring 0 topics low
      refine ⟨_, _, ran_bind_ok lowering (ran_bind_ok waited restoring), fun _ => rfl, ?_, ?_⟩
      · exact fun misses => absurd ⟨fine, cut⟩ misses
      · rcases kind with rfl | rfl <;> simp
  · have fails : ¬ ∀ i < topics.length, faults.lowering i = false :=
      fun fine => by cases ok.mpr fine
    exact ⟨_, _, ran_bind_error _ lowering, fun reaches => absurd reaches.1 fails, fun _ => rfl,
      iff_of_false (by simp) fun both => fails both.1⟩

/-- The handler and the final block add no calls, and only a cancellation goes on to run. -/
theorem purge_spec (faults : Faults) (topics : List T) :
    ∃ result, Ran (purgeTopics faults topics) ⟨[], false⟩ result (purged faults topics) ∧
      (purged faults topics).closed = true ∧
      (ReachesRestoring faults topics → (purged faults topics).calls =
        callsMade lowRetention faults.lowering 0 topics ++
          callsMade standardRetention faults.restoring 0 topics) ∧
      (¬ ReachesRestoring faults topics →
        (purged faults topics).calls = callsMade lowRetention faults.lowering 0 topics) ∧
      (result ≠ .ok () ↔
        (∀ i < topics.length, faults.lowering i = false) ∧ faults.cancelled = true) := by
  obtain ⟨result, a, body, reached, missed, cut⟩ := change_spec faults topics ⟨[], false⟩
  rw [List.nil_append] at reached missed
  have whole : ∃ result', Ran (purgeTopics faults topics) ⟨[], false⟩ result'
      { a with closed := true } ∧ (result' ≠ .ok () ↔ result = .error .cancelledError) := by
    rcases result with (_ | _) | _
    · exact ⟨.ok (), ran_finally_ok (ran_catch_error body rfl) rfl, by simp⟩
    · exact ⟨_, ran_finally_error (ran_catch_error body (ran_throw _ _)) rfl, by simp⟩
    · exact ⟨.ok (), ran_finally_ok (ran_catch_ok _ body) rfl, by simp⟩
  obtain ⟨result', ran, raised⟩ := whole
  have last : purged faults topics = { a with closed := true } := congrArg Prod.snd ran
  rw [last]
  exact ⟨result', ran, rfl, reached, missed, raised.trans cut⟩

theorem retentions_differ : lowRetention ≠ standardRetention := by decide

theorem lowered_iff (faults : Faults) (topics : List T) (topic : T) :
    Lowered (purged faults topics) topic ↔
      ∃ i, topics[i]? = some topic ∧ ∀ j ≤ i, faults.lowering j = false := by
  obtain ⟨_, _, _, reached, missed, _⟩ := purge_spec faults topics
  have first : Call.mk topic lowRetention false ∈ callsMade lowRetention faults.lowering 0 topics ↔
      ∃ i, topics[i]? = some topic ∧ ∀ j ≤ i, faults.lowering j = false := by
    rw [made_iff]
    simp only [Nat.zero_add]
    constructor
    · rintro ⟨i, found, _, fine, before⟩
      refine ⟨i, found, fun j le => ?_⟩
      rcases Nat.lt_or_eq_of_le le with below | rfl
      · exact before j below
      · exact fine.symm
    · rintro ⟨i, found, fine⟩
      exact ⟨i, found, trivial, (fine i (Nat.le_refl i)).symm, fun j below => fine j below.le⟩
  have second : Call.mk topic lowRetention false ∉
      callsMade standardRetention faults.restoring 0 topics :=
    fun made => retentions_differ (made_retention made)
  rw [← first, Lowered]
  by_cases reaches : ReachesRestoring faults topics
  · rw [reached reaches, List.mem_append, or_iff_left second]
  · rw [missed reaches]

theorem restore_tried_iff (faults : Faults) (topics : List T) (topic : T) :
    RestoreTried (purged faults topics) topic ↔ ReachesRestoring faults topics ∧
      ∃ i, topics[i]? = some topic ∧ ∀ j < i, faults.restoring j = false := by
  obtain ⟨_, _, _, reached, missed, _⟩ := purge_spec faults topics
  have first : ∀ raised, Call.mk topic standardRetention raised ∉
      callsMade lowRetention faults.lowering 0 topics :=
    fun raised made => retentions_differ (made_retention made).symm
  unfold RestoreTried
  by_cases reaches : ReachesRestoring faults topics
  · simp only [reached reaches, List.mem_append, first, false_or, made_iff, reaches, true_and,
      Nat.zero_add]
    constructor
    · rintro ⟨_, i, found, _, fine⟩
      exact ⟨i, found, fine⟩
    · rintro ⟨i, found, fine⟩
      exact ⟨_, i, found, rfl, fine⟩
  · simp [missed reaches, first, reaches]

/-- Nothing is lowered, or the second loop is reached and, where a call of it fails, no topic
    that has not been tried comes later. -/
def Undoes (faults : Faults) (topics : List T) : Prop :=
  topics = [] ∨ faults.lowering 0 = true ∨ (ReachesRestoring faults topics ∧
    ∀ k, faults.restoring k = true → ∀ topic ∈ topics.drop (k + 1), topic ∈ topics.take (k + 1))

theorem tried_iff (faults : Faults) (topics : List T) :
    (∀ topic, Lowered (purged faults topics) topic → RestoreTried (purged faults topics) topic) ↔
      Undoes faults topics := by
  simp only [lowered_iff, restore_tried_iff]
  constructor
  · intro tried
    by_cases none_there : topics = []
    · exact Or.inl none_there
    by_cases first : faults.lowering 0 = true
    · exact Or.inr (Or.inl first)
    refine Or.inr (Or.inr ?_)
    obtain ⟨topic, rest, rfl⟩ := List.exists_cons_of_ne_nil none_there
    have reaches := (tried topic ⟨0, rfl, by simpa using first⟩).1
    refine ⟨reaches, fun k fails later member => ?_⟩
    obtain ⟨n, found⟩ := List.mem_iff_getElem?.mp member
    rw [List.getElem?_drop] at found
    obtain ⟨inside, _⟩ := List.getElem?_eq_some_iff.mp found
    obtain ⟨i, here, fine⟩ :=
      (tried later ⟨_, found, fun j le => reaches.1 j (Nat.lt_of_le_of_lt le inside)⟩).2
    have early : i < k + 1 := by
      by_contra late
      have clean := fine k (by omega)
      rw [fails] at clean
      contradiction
    rw [List.mem_iff_getElem?]
    exact ⟨i, by rw [List.getElem?_take_of_lt early, here]⟩
  · rintro (rfl | first | ⟨reaches, early⟩) topic ⟨i, found, fine⟩
    · simp at found
    · rw [fine 0 (Nat.zero_le i)] at first
      contradiction
    refine ⟨reaches, ?_⟩
    by_cases clean : ∀ j < i, faults.restoring j = false
    · exact ⟨i, found, clean⟩
    -- the first restoring call to fail comes before this topic
    push Not at clean
    obtain ⟨k, ⟨below, fails⟩, least⟩ :
        ∃ k, (k < i ∧ faults.restoring k ≠ false) ∧
          ∀ j < k, ¬ (j < i ∧ faults.restoring j ≠ false) :=
      ⟨Nat.find clean, Nat.find_spec clean, fun j lt => Nat.find_min clean lt⟩
    have later : topic ∈ topics.drop (k + 1) := by
      rw [List.mem_iff_getElem?]
      exact ⟨i - (k + 1), by rw [List.getElem?_drop, Nat.add_sub_cancel' below, found]⟩
    obtain ⟨m, here⟩ := List.mem_iff_getElem?.mp (early k (by simpa using fails) topic later)
    obtain ⟨inside, _⟩ := List.getElem?_eq_some_iff.mp here
    rw [List.length_take] at inside
    refine ⟨m, ?_, fun j lt => ?_⟩
    · rw [List.getElem?_take_of_lt (by omega)] at here
      exact here
    · by_contra raised
      exact least j (by omega) ⟨by omega, raised⟩

section Kept
variable [DecidableEq T]

/-- A topic whose restoring call was made and that is still low has had that call fail. -/
theorem kept_low {faults : Faults} {topics : List T} {topic : T}
    (tried : RestoreTried (purged faults topics) topic)
    (low : retentionSet (purged faults topics).calls topic = some lowRetention) :
    ⟨topic, standardRetention, true⟩ ∈ (purged faults topics).calls := by
  obtain ⟨raised, made⟩ := tried
  cases raised with
  | true => exact made
  | false =>
    obtain ⟨_, _, _, reached, _, _⟩ := purge_spec faults topics
    have reaches := ((restore_tried_iff faults topics topic).mp ⟨false, made⟩).1
    rw [reached reaches] at made low
    have here := (List.mem_append.mp made).resolve_left
      fun early => retentions_differ (made_retention early).symm
    have kept : Call.mk topic standardRetention false ∈ List.filter
        (fun c => decide (c.topic = topic ∧ c.raised = false))
        (callsMade standardRetention faults.restoring 0 topics) :=
      List.mem_filter.mpr ⟨here, by simp⟩
    obtain ⟨last, same⟩ := Option.isSome_iff_exists.mp
      (List.getLast?_isSome.mpr (List.ne_nil_of_mem kept))
    rw [retentionSet, List.filter_append, List.getLast?_append, same, Option.some_or,
      Option.map_some, Option.some.injEq] at low
    have member := List.mem_of_mem_filter (List.mem_of_getLast? same)
    exact absurd (low.symm.trans (made_retention member)) retentions_differ

/-- Every topic that was lowered has had its restoring call made, and stays low only if that
    call failed. -/
def RestoresEach (a : AdminClient T) : Prop := ∀ topic, Lowered a topic → RestoreTried a topic ∧
  (retentionSet a.calls topic = some lowRetention → ⟨topic, standardRetention, true⟩ ∈ a.calls)

theorem restores_each_iff (faults : Faults) (topics : List T) :
    RestoresEach (purged faults topics) ↔ Undoes faults topics := by
  rw [← tried_iff]
  constructor
  · exact fun each topic lowered => (each topic lowered).1
  · exact fun tried topic lowered => ⟨tried topic lowered, kept_low (tried topic lowered)⟩

theorem retention_append (xs ys : List (Call T)) (topic : T) :
    retentionSet (xs ++ ys) topic = (retentionSet ys topic).or (retentionSet xs topic) := by
  unfold retentionSet
  rw [List.filter_append, List.getLast?_append]
  cases (List.filter _ ys).getLast? <;> rfl

end Kept

section Broker
open TopicCleanup (Admin Broker Topic topicsConfig alterRetention)

/-- The faults of an admin client whose calls fail by topic and retention. -/
def faultsOf (a : Admin) : Faults where
  lowering k := (topicsConfig[k]?.bind (a.alter · lowRetention)).isSome
  cancelled := false
  restoring k := (topicsConfig[k]?.bind (a.alter · standardRetention)).isSome

theorem alter_agrees (a : Admin) (retention : Nat) (raises : Nat → Bool) (topics : List Topic)
    (k : Nat) (b : Broker) (same : ∀ i topic, topics[i]? = some topic →
      raises (k + i) = (a.alter topic retention).isSome) :
    ∃ result b', TopicCleanup.Ran (alterRetention a retention topics) b result b' ∧
      (result = .ok () ↔ ∀ i < topics.length, raises (k + i) = false) ∧
      b'.retention = (retentionSet (callsMade retention raises k topics)
        .particleUpdates).getD b.retention := by
  induction topics generalizing k b with
  | nil => exact ⟨.ok (), b, rfl, by simp, rfl⟩
  | cons topic rest ih =>
    have first := same 0 topic rfl
    rw [Nat.add_zero] at first
    cases raised : a.alter topic retention with
    | some e =>
      have fails : raises k = true := by rw [first, raised]; rfl
      refine ⟨.error e, b, TopicCleanup.ran_bind_error ?_, ?_, ?_⟩
      · rw [raised]
        rfl
      · rw [List.length_cons, fine_succ]
        exact iff_of_false (by simp) fun fine => by simp [fails] at fine
      · simp [callsMade, fails, retentionSet]
    | none =>
      have fine : raises k = false := by rw [first, raised]; rfl
      obtain ⟨result, b', ran, ok, left⟩ := ih (k + 1) (b.altered topic retention)
        fun i topic found => by
          rw [← same (i + 1) topic found, Nat.add_assoc, Nat.add_comm 1]
      refine ⟨result, b', TopicCleanup.ran_bind_ok ?_ ran, ?_, ?_⟩
      · rw [raised]
        rfl
      · rw [ok, List.length_cons, fine_succ]
        exact (and_iff_right fine).symm
      · rw [left, callsMade, fine, if_neg Bool.false_ne_true, ← List.singleton_append,
          retention_append]
        unfold Broker.altered
        cases retentionSet (callsMade retention raises (k + 1) rest) Topic.particleUpdates with
        | some r => rfl
        | none => by_cases own : topic = .particleUpdates <;> simp [retentionSet, own]

/-- On the topics of the orchestrator, with no cancellation, the broker is left with the
    retention that the calls set. -/
theorem purge_agrees (a : Admin) (b : Broker) :
    ((TopicCleanup.purgeTopics a).run.run b).2.retention =
      (retentionSet (purged (faultsOf a) topicsConfig).calls .particleUpdates).getD
        b.retention := by
  obtain ⟨_, _, _, reached, missed, _⟩ := purge_spec (faultsOf a) topicsConfig
  have position : ∀ retention i (topic : Topic), topicsConfig[i]? = some topic →
      ((topicsConfig[0 + i]?).bind (a.alter · retention)).isSome =
        (a.alter topic retention).isSome := by
    intro retention i topic found
    rw [Nat.zero_add, found, Option.bind_some]
  obtain ⟨result, b₁, lowering, ok, low⟩ := alter_agrees a lowRetention (faultsOf a).lowering
    topicsConfig 0 b (position lowRetention)
  simp only [Nat.zero_add] at ok
  cases result with
  | error e =>
    have fails : ¬ ReachesRestoring (faultsOf a) topicsConfig :=
      fun reaches => by cases ok.mpr reaches.1
    have whole : TopicCleanup.Ran (TopicCleanup.purgeTopics a) b (.ok ()) b₁ :=
      TopicCleanup.ran_catch_error (TopicCleanup.ran_bind_error lowering) rfl
    rw [whole, missed fails]
    exact low
  | ok =>
    obtain ⟨result, b₂, restoring, _, high⟩ := alter_agrees a standardRetention
      (faultsOf a).restoring topicsConfig 0 b₁.waited (position standardRetention)
    have body := TopicCleanup.ran_bind_ok lowering
      (TopicCleanup.ran_bind_ok (x := modify Broker.waited) rfl restoring)
    have whole : TopicCleanup.Ran (TopicCleanup.purgeTopics a) b (.ok ()) b₂ := by
      cases result with
      | error e => exact TopicCleanup.ran_catch_error body rfl
      | ok => exact TopicCleanup.ran_catch_ok body
    have kept : b₁.waited.retention = b₁.retention := by
      unfold Broker.waited
      split <;> rfl
    rw [whole, reached ⟨ok.mp rfl, rfl⟩, retention_append]
    dsimp only
    rw [high, kept, low]
    cases retentionSet (callsMade _ (faultsOf a).restoring 0 topicsConfig) _ <;> rfl

end Broker

section Sample

/-- A topic is low at the end and its own restoring call was never made. -/
def StaysLow (a : AdminClient TopicCleanup.Topic) : Prop := ∃ topic, Lowered a topic ∧
  ¬ RestoreTried a topic ∧ retentionSet a.calls topic = some lowRetention

/-- The second call of either loop fails, or the wait is cancelled. -/
theorem left_low :
    StaysLow (purged ⟨(· == 1), false, fun _ => false⟩ TopicCleanup.topicsConfig) ∧
      StaysLow (purged ⟨fun _ => false, true, fun _ => false⟩ TopicCleanup.topicsConfig) ∧
      StaysLow (purged ⟨fun _ => false, false, (· == 1)⟩ TopicCleanup.topicsConfig) := by
  have first : (purged ⟨(· == 1), false, fun _ => false⟩ TopicCleanup.topicsConfig).calls =
      [⟨.kernelUpdates, lowRetention, false⟩, ⟨.simulationControl, lowRetention, true⟩] := rfl
  have waited : (purged ⟨fun _ => false, true, fun _ => false⟩ TopicCleanup.topicsConfig).calls =
      TopicCleanup.topicsConfig.map (⟨·, lowRetention, false⟩) := rfl
  have second : (purged ⟨fun _ => false, false, (· == 1)⟩ TopicCleanup.topicsConfig).calls =
      TopicCleanup.topicsConfig.map (⟨·, lowRetention, false⟩) ++
        [⟨.kernelUpdates, standardRetention, false⟩,
          ⟨.simulationControl, standardRetention, true⟩] := rfl
  simp only [StaysLow, Lowered, RestoreTried, first, waited, second]
  exact ⟨⟨.kernelUpdates, by decide⟩, ⟨.kernelUpdates, by decide⟩, .particleUpdates, by decide⟩

end Sample
end PurgeTopics

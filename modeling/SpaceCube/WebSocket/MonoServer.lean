import Mathlib.Data.Finset.Insert
import SpaceCube.Library.Runs
import SpaceCube.Kernel.CubeSymmetry
import SpaceCube.WebSocket.WebSocketServer

/- server_mono.py: main steps the simulation and waits for one broadcast at a time, which
   hands the frame to a task for every client. What clients say is read and dropped. -/
namespace MonoServer
open UpdateParticles ThreadOrder CubeSymmetry Runs
open WebSocketServer (Handler)
variable {F C : Type}

structure ParticleRecord (F : Type) where
  x : F
  y : F
  z : F
  mass : F
  velocity : ParticleForce.Float3 F
  radius : F

/-- The dictionary that broadcast dumps. -/
structure Frame (F : Type) where
  type : String
  t : Int
  particles : List (ParticleRecord F)

/-- get_frame and what main makes of it. -/
def frame (a : Args F) (s : Arrays F) : Frame F where
  type := "frame"
  t := 0
  particles := (List.range a.N).map fun i =>
    ⟨(s.positions i).x, (s.positions i).y, (s.positions i).z, a.masses i, s.velocities i,
      a.radii i⟩

/-- main at the head of its loop, in broadcast, in sleep or past the loop. The tasks of a
    broadcast that are not done have not started their send or are in it. -/
inductive Main (C : Type) where
  | head
  | gathering (unstarted underway : Finset C)
  | asleep
  | left

/-- rounds records with which order of its threads each step was made and who was in clients
    then, calls which frame each call of send was given. -/
structure State (F C : Type) where
  arrays : Arrays F
  clients : Finset C
  handlers : C → Handler
  running : Bool
  main : Main C
  rounds : List (List Nat × Finset C)
  calls : List (Frame F × C)

def State.initial (C : Type) (arrays : Arrays F) : State F C :=
  ⟨arrays, ∅, fun _ => .outside, true, .head, [], []⟩

/-- After a signal the loop is stopped and every task is cancelled. A cancelled handler ends
    as one whose connection is closed. -/
inductive Event (C : Type) where
  | connect (client : C)
  | closed (client : C)
  | signal
  | round (order : List Nat)
  | starts (client : C)
  | ends (client : C)
  | gathered
  | resumed
  | cancelled (client : C)
  | mainCancelled

def Main.unstarted : Main C → Finset C
  | .gathering unstarted _ => unstarted
  | _ => ∅

def Main.underway : Main C → Finset C
  | .gathering _ underway => underway
  | _ => ∅

section Server
variable [DecidableEq C] [Field F] [LinearOrder F]

def step (sqrtf : F → F) (a : Args F) (st : State F C) : Event C → Option (State F C)
  | .connect client =>
      if st.handlers client = .outside then
        some { st with
          clients := insert client st.clients
          handlers := Function.update st.handlers client .waiting }
      else none
  | .closed client =>
      if st.handlers client = .waiting then
        some { st with
          clients := st.clients.erase client
          handlers := Function.update st.handlers client
            (if client ∈ st.clients then .ended else .raisedKeyError) }
      else none
  | .signal => some { st with running := false }
  | .round order => match st.main with
    | .head =>
        if st.running then
          some { st with
            arrays := inlineLaunch sqrtf a order st.arrays
            main := if st.clients = ∅ then .asleep else .gathering st.clients ∅
            rounds := st.rounds ++ [(order, st.clients)] }
        else some { st with main := .left }
    | _ => none
  | .starts client => match st.main with
    | .gathering unstarted underway =>
        if client ∈ unstarted then
          some { st with
            main := .gathering (unstarted.erase client) (insert client underway)
            calls := st.calls ++ [(frame a st.arrays, client)] }
        else none
    | _ => none
  | .ends client => match st.main with
    | .gathering unstarted underway =>
        if client ∈ underway then
          some { st with main := .gathering unstarted (underway.erase client) }
        else none
    | _ => none
  | .gathered => match st.main with
    | .gathering unstarted underway =>
        if unstarted = ∅ ∧ underway = ∅ then some { st with main := .asleep } else none
    | _ => none
  | .resumed => match st.main with
    | .asleep => some { st with main := .head }
    | _ => none
  | .cancelled client => match st.main with
    | .gathering unstarted underway =>
        if ¬ st.running ∧ client ∈ unstarted ∪ underway then
          some { st with
            main := .gathering (unstarted.erase client) (underway.erase client) }
        else none
    | _ => none
  | .mainCancelled => match st.main with
    | .gathering unstarted underway =>
        if ¬ st.running ∧ unstarted = ∅ ∧ underway = ∅ then some { st with main := .left }
        else none
    | .asleep => if ¬ st.running then some { st with main := .left } else none
    | _ => none

/-- Everything an event can do. -/
inductive Case (sqrtf : F → F) (a : Args F) (st : State F C) : State F C → Prop where
  | joined {client : C} (outside : st.handlers client = .outside) : Case sqrtf a st
      { st with
        clients := insert client st.clients
        handlers := Function.update st.handlers client .waiting }
  | parted {client : C} (waiting : st.handlers client = .waiting) : Case sqrtf a st
      { st with
        clients := st.clients.erase client
        handlers := Function.update st.handlers client
          (if client ∈ st.clients then .ended else .raisedKeyError) }
  | signalled : Case sqrtf a st { st with running := false }
  | stepped {order : List Nat} (here : st.main = .head) (running : st.running = true) :
      Case sqrtf a st
        { st with
          arrays := inlineLaunch sqrtf a order st.arrays
          main := if st.clients = ∅ then .asleep else .gathering st.clients ∅
          rounds := st.rounds ++ [(order, st.clients)] }
  | called {client : C} {unstarted underway : Finset C}
      (here : st.main = .gathering unstarted underway) (member : client ∈ unstarted) :
      Case sqrtf a st
        { st with
          main := .gathering (unstarted.erase client) (insert client underway)
          calls := st.calls ++ [(frame a st.arrays, client)] }
  | settled {main : Main C} (same : main.unstarted = st.main.unstarted)
      (fewer : main.underway ⊆ st.main.underway) : Case sqrtf a st { st with main := main }
  | dropped {main : Main C} (halted : st.running = false)
      (less : main.unstarted ⊆ st.main.unstarted)
      (fewer : main.underway ⊆ st.main.underway) : Case sqrtf a st { st with main := main }

theorem step_cases {sqrtf : F → F} {a : Args F} {st st' : State F C} {event : Event C}
    (fires : step sqrtf a st event = some st') : Case sqrtf a st st' := by
  cases event with
  | connect client =>
    simp only [step, Option.ite_none_right_eq_some, Option.some.injEq] at fires
    obtain ⟨outside, rfl⟩ := fires
    exact .joined outside
  | closed client =>
    simp only [step, Option.ite_none_right_eq_some, Option.some.injEq] at fires
    obtain ⟨waiting, rfl⟩ := fires
    exact .parted waiting
  | signal =>
    obtain rfl := Option.some.inj fires
    exact .signalled
  | round order =>
    cases here : st.main with
    | head =>
      by_cases running : st.running = true
      · simp only [step, here, if_pos running, Option.some.injEq] at fires
        exact fires ▸ .stepped here running
      · simp only [step, here, if_neg running, Option.some.injEq] at fires
        exact fires ▸ .settled (by rw [here]; rfl) (by rw [here]; rfl)
    | gathering u w => simp [step, here] at fires
    | asleep => simp [step, here] at fires
    | left => simp [step, here] at fires
  | starts client =>
    cases here : st.main with
    | gathering u w =>
      simp only [step, here, Option.ite_none_right_eq_some, Option.some.injEq] at fires
      obtain ⟨member, rfl⟩ := fires
      exact .called here member
    | head => simp [step, here] at fires
    | asleep => simp [step, here] at fires
    | left => simp [step, here] at fires
  | ends client =>
    cases here : st.main with
    | gathering u w =>
      simp only [step, here, Option.ite_none_right_eq_some, Option.some.injEq] at fires
      obtain ⟨_, rfl⟩ := fires
      exact .settled (by rw [here]; rfl) (by rw [here]; exact w.erase_subset client)
    | head => simp [step, here] at fires
    | asleep => simp [step, here] at fires
    | left => simp [step, here] at fires
  | gathered =>
    cases here : st.main with
    | gathering u w =>
      simp only [step, here, Option.ite_none_right_eq_some, Option.some.injEq] at fires
      obtain ⟨⟨rfl, rfl⟩, rfl⟩ := fires
      exact .settled (by rw [here]; rfl) (by rw [here]; rfl)
    | head => simp [step, here] at fires
    | asleep => simp [step, here] at fires
    | left => simp [step, here] at fires
  | resumed =>
    cases here : st.main with
    | asleep =>
      simp only [step, here, Option.some.injEq] at fires
      exact fires ▸ .settled (by rw [here]; rfl) (by rw [here]; rfl)
    | head => simp [step, here] at fires
    | gathering u w => simp [step, here] at fires
    | left => simp [step, here] at fires
  | cancelled client =>
    cases here : st.main with
    | gathering u w =>
      simp only [step, here, Option.ite_none_right_eq_some, Option.some.injEq] at fires
      obtain ⟨⟨halted, _⟩, rfl⟩ := fires
      refine .dropped (Bool.eq_false_of_not_eq_true halted) ?_ ?_
      · rw [here]
        exact u.erase_subset client
      · rw [here]
        exact w.erase_subset client
    | head => simp [step, here] at fires
    | asleep => simp [step, here] at fires
    | left => simp [step, here] at fires
  | mainCancelled =>
    cases here : st.main with
    | gathering u w =>
      simp only [step, here, Option.ite_none_right_eq_some, Option.some.injEq] at fires
      obtain ⟨⟨_, rfl, rfl⟩, rfl⟩ := fires
      exact .settled (by rw [here]; rfl) (by rw [here]; rfl)
    | asleep =>
      simp only [step, here, Option.ite_none_right_eq_some, Option.some.injEq] at fires
      obtain ⟨_, rfl⟩ := fires
      exact .settled (by rw [here]; rfl) (by rw [here]; rfl)
    | head => simp [step, here] at fires
    | left => simp [step, here] at fires

/-- The frames that a client was sent, in the order of the calls. -/
def framesTo (calls : List (Frame F × C)) (client : C) : List (Frame F) :=
  (calls.filter fun call => decide (call.2 = client)).map Prod.fst

/-- What an unstarted task will still send. -/
def owed (a : Args F) (st : State F C) (client : C) : List (Frame F) :=
  if client ∈ st.main.unstarted then [frame a st.arrays] else []

/-- The frames of the rounds that found the client in clients, each after all steps so far. -/
def due (sqrtf : F → F) (a : Args F) (start : Arrays F) (rounds : List (List Nat × Finset C))
    (client : C) : List (Frame F) :=
  ((List.range rounds.length).filter fun k =>
      rounds[k]?.any fun round => decide (client ∈ round.2)).map fun k =>
    frame a (inlineRun sqrtf a ((rounds.take (k + 1)).map Prod.fst) start)

theorem due_snoc (sqrtf : F → F) (a : Args F) (start : Arrays F)
    (rounds : List (List Nat × Finset C)) (round : List Nat × Finset C) (client : C) :
    due sqrtf a start (rounds ++ [round]) client = due sqrtf a start rounds client ++
      if client ∈ round.2 then
        [frame a (inlineRun sqrtf a ((rounds ++ [round]).map Prod.fst) start)]
      else [] := by
  have earlier : ∀ k < rounds.length, (rounds ++ [round])[k]? = rounds[k]? ∧
      (rounds ++ [round]).take (k + 1) = rounds.take (k + 1) := fun k below =>
    ⟨List.getElem?_append_left below, List.take_append_of_le_length below⟩
  have old : (List.range rounds.length).filter (fun k =>
      (rounds ++ [round])[k]?.any fun round => decide (client ∈ round.2)) =
        (List.range rounds.length).filter fun k =>
        rounds[k]?.any fun round => decide (client ∈ round.2) := by
    apply List.filter_congr
    intro k member
    rw [(earlier k (List.mem_range.mp member)).1]
  unfold due
  rw [List.length_append, List.length_singleton, List.range_succ, List.filter_append, old,
    List.map_append]
  congr 1
  · apply List.map_congr_left
    intro k member
    rw [(earlier k (List.mem_range.mp (List.mem_of_mem_filter member))).2]
  · by_cases present : client ∈ round.2
    · simp [present, List.take_of_length_le]
    · simp [present]

/-- clients are those whose handlers wait and no handler ever fails; a client has at most one
    send under way. It has been sent frames of the rounds that found it there, in their
    order and each once; unless a signal came, all of them, apart from the one it is owed. -/
structure Served (sqrtf : F → F) (a : Args F) (start : Arrays F) (st : State F C) : Prop where
  simulated : st.arrays = inlineRun sqrtf a (st.rounds.map Prod.fst) start
  members : ∀ c, c ∈ st.clients ↔ st.handlers c = .waiting
  clean : ∀ c, st.handlers c ≠ .raisedKeyError
  apart : Disjoint st.main.unstarted st.main.underway
  sent : ∀ c, (framesTo st.calls c ++ owed a st c).Sublist (due sqrtf a start st.rounds c)
  whole : st.running = true →
    ∀ c, framesTo st.calls c ++ owed a st c = due sqrtf a start st.rounds c

variable {sqrtf : F → F} {a : Args F} {start : Arrays F} {st st' : State F C}

theorem initial_served : Served sqrtf a start (State.initial C start) where
  simulated := rfl
  members c := by simp [State.initial]
  clean c := by simp [State.initial]
  apart := Finset.disjoint_empty_left _
  sent c := by simp [State.initial, framesTo, owed, Main.unstarted]
  whole _ c := by simp [State.initial, framesTo, owed, due, Main.unstarted]

omit [Field F] [LinearOrder F] in
/-- A call turns what is owed into what is sent. -/
theorem called_owed {client : C} {unstarted underway : Finset C}
    (here : st.main = .gathering unstarted underway) (member : client ∈ unstarted) (c : C) :
    framesTo (st.calls ++ [(frame a st.arrays, client)]) c ++
      (if c ∈ unstarted.erase client then [frame a st.arrays] else []) =
    framesTo st.calls c ++ owed a st c := by
  have waits : st.main.unstarted = unstarted := by rw [here]; rfl
  unfold framesTo owed
  rw [waits, List.filter_append, List.map_append, List.append_assoc]
  congr 1
  by_cases own : client = c
  · subst own
    simp [member]
  · have other : c ≠ client := fun same => own same.symm
    simp [own, other]

omit [Field F] [LinearOrder F] in
/-- The tasks of a round are for the clients it finds. -/
theorem round_tasks (clients : Finset C) :
    (if clients = ∅ then Main.asleep else .gathering clients ∅).unstarted = clients ∧
      (if clients = ∅ then Main.asleep else .gathering clients ∅).underway = ∅ := by
  by_cases none : clients = ∅
  · rw [if_pos none, none]
    exact ⟨rfl, rfl⟩
  · rw [if_neg none]
    exact ⟨rfl, rfl⟩

omit [DecidableEq C] in
theorem stepped_arrays (order : List Nat)
    (simulated : st.arrays = inlineRun sqrtf a (st.rounds.map Prod.fst) start) :
    inlineLaunch sqrtf a order st.arrays =
      inlineRun sqrtf a ((st.rounds ++ [(order, st.clients)]).map Prod.fst) start := by
  rw [simulated, inlineRun, inlineRun, List.map_append, List.foldl_append]
  rfl

/-- A round adds the same to what is due and to what is owed. -/
theorem stepped_owed (here : st.main = .head) (order : List Nat) (c : C)
    (simulated : st.arrays = inlineRun sqrtf a (st.rounds.map Prod.fst) start) :
    let st' : State F C := { st with
      arrays := inlineLaunch sqrtf a order st.arrays
      main := if st.clients = ∅ then .asleep else .gathering st.clients ∅
      rounds := st.rounds ++ [(order, st.clients)] }
    ∀ sent : List (Frame F),
      ((sent ++ owed a st' c).Sublist (due sqrtf a start st'.rounds c) ↔
        (sent ++ owed a st c).Sublist (due sqrtf a start st.rounds c)) ∧
      (sent ++ owed a st' c = due sqrtf a start st'.rounds c ↔
        sent ++ owed a st c = due sqrtf a start st.rounds c) := by
  have idle : owed a st c = [] := by
    simp [owed, here, Main.unstarted]
  intro st' sent
  have last : owed a st' c = if c ∈ st.clients then
      [frame a (inlineRun sqrtf a (st'.rounds.map Prod.fst) start)] else [] := by
    simp only [owed, st', (round_tasks st.clients).1, stepped_arrays order simulated]
  rw [last, due_snoc, idle, List.append_nil]
  exact ⟨List.append_sublist_append_right _, List.append_left_inj _⟩

theorem step_served {event : Event C} (fires : step sqrtf a st event = some st')
    (served : Served sqrtf a start st) : Served sqrtf a start st' := by
  obtain ⟨simulated, members, clean, apart, sent, whole⟩ := served
  cases step_cases fires with
  | @joined client outside =>
    refine ⟨simulated, fun c => ?_, fun c => ?_, apart, sent, whole⟩
    · by_cases own : c = client
      · simp [own]
      · simpa [own] using members c
    · by_cases own : c = client
      · simp [own]
      · simpa [own] using clean c
  | @parted client waiting =>
    have present := (members client).mpr waiting
    refine ⟨simulated, fun c => ?_, fun c => ?_, apart, sent, whole⟩
    · by_cases own : c = client
      · simp [own, present]
      · simpa [own] using members c
    · by_cases own : c = client
      · simp [own, present]
      · simpa [own] using clean c
  | signalled => exact ⟨simulated, members, clean, apart, sent, fun running => by contradiction⟩
  | @stepped order here running =>
    have owes := fun c => stepped_owed here order c simulated
    refine ⟨stepped_arrays order simulated, members, clean, ?_, fun c => ?_,
      fun running c => ?_⟩
    · rw [(round_tasks st.clients).2]
      exact Finset.disjoint_empty_right _
    · exact (owes c _).1.mpr (sent c)
    · exact (owes c _).2.mpr (whole running c)
  | @called client unstarted underway here member =>
    refine ⟨simulated, members, clean, ?_, fun c => ?_, fun running c => ?_⟩
    · rw [here] at apart
      have others : Disjoint (unstarted.erase client) underway :=
        apart.mono_left (unstarted.erase_subset client)
      exact Finset.disjoint_insert_right.mpr ⟨unstarted.notMem_erase client, others⟩
    · exact (called_owed here member c).symm ▸ sent c
    · exact (called_owed here member c).trans (whole running c)
  | @settled main same fewer =>
    have owes : ∀ c, owed a { st with main := main } c = owed a st c := by
      intro c
      simp only [owed, same]
    refine ⟨simulated, members, clean, ?_, fun c => ?_, fun running c => ?_⟩
    · exact same ▸ apart.mono_right fewer
    · exact (owes c).symm ▸ sent c
    · exact (owes c).symm ▸ whole running c
  | @dropped main halted less fewer =>
    refine ⟨simulated, members, clean, apart.mono less fewer, fun c => ?_, fun running => ?_⟩
    · refine List.Sublist.trans (List.Sublist.append (List.Sublist.refl _) ?_) (sent c)
      unfold owed
      by_cases waits : c ∈ main.unstarted
      · rw [if_pos waits, if_pos (less waits)]
      · rw [if_neg waits]
        exact List.nil_sublist _
    · exact absurd (running.symm.trans halted) (by simp)

/-- What the server has done after any events. -/
theorem mono_serves {events : List (Event C)}
    (ran : run (step sqrtf a) (State.initial C start) events = some st) :
    Served sqrtf a start st :=
  run_invariant (Served sqrtf a start) (fun _ _ _ fires served => step_served fires served)
    initial_served ran

end Server

/-- Client 0 comes and is sent one frame of two bodies; a signal comes in the next step. -/
def sampleEvents : List (Event Nat) :=
  [.connect 0, .round [0, 1], .starts 0, .ends 0, .gathered, .resumed, .round [1, 0], .signal,
    .cancelled 0, .closed 0]

theorem sample_served : ∃ st,
    run (step Real.sqrt (sampleArgs 1)) (State.initial Nat sampleArrays) sampleEvents = some st ∧
      Served Real.sqrt (sampleArgs 1) sampleArrays st := by
  obtain ⟨st, ran⟩ : ∃ st, run (step Real.sqrt (sampleArgs 1))
      (State.initial Nat sampleArrays) sampleEvents = some st := ⟨_, rfl⟩
  exact ⟨st, ran, mono_serves ran⟩

end MonoServer

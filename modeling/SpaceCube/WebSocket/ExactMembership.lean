import SpaceCube.WebSocket.ClientSet

/- What one broadcast takes out of the set between its beginning and its return, while the
   other coroutines go on. -/
namespace ExactMembership
open SetIteration Traces WebSocketServer ClientSet
variable {C : Type} [DecidableEq C]

def OfBroadcast (index : Nat) : Event C → Prop
  | .sendEnds i _ => i = index
  | _ => False

/-- In one of these moves the broadcast's send to this client failed. -/
def SendFailed (index : Nat) (moves : List (Move (State C) (Event C))) (c : C) : Prop :=
  ∃ m ∈ moves, m.event = .sendEnds index false ∧
    ∃ b, m.before.broadcasts[index]? = some (.sending c b)

def RemovedBy (index : Nat) (moves : List (Move (State C) (Event C))) (c : C) : Prop :=
  ∃ m ∈ moves, OfBroadcast index m.event ∧ Removes m c

def RemovedByOther (index : Nat) (moves : List (Move (State C) (Event C))) (c : C) : Prop :=
  ∃ m ∈ moves, ¬ OfBroadcast index m.event ∧ Removes m c

/-- Of those whom nobody else has taken out, the broadcast has taken out exactly the clients
    whose send failed. -/
structure TakesFailed (index : Nat) (moves : List (Move (State C) (Event C))) (st : State C) :
    Prop where
  removed : ∀ c, RemovedBy index moves c ↔ SendFailed index moves c ∧ ¬ RemovedByOther index moves c
  gone : ∀ c, SendFailed index moves c → Gone c st

section Snoc
variable {index : Nat} {moves : List (Move (State C) (Event C))} {m : Move (State C) (Event C)}

omit [DecidableEq C] in
theorem failed_snoc (c : C) : SendFailed index (moves ++ [m]) c ↔ SendFailed index moves c ∨
    (m.event = .sendEnds index false ∧ ∃ b, m.before.broadcasts[index]? = some (.sending c b)) := by
  simp only [SendFailed, List.mem_append, List.mem_singleton, or_and_right, exists_or,
    exists_eq_left]

omit [DecidableEq C] in
theorem removed_snoc (c : C) : RemovedBy index (moves ++ [m]) c ↔
    RemovedBy index moves c ∨ (OfBroadcast index m.event ∧ Removes m c) := by
  simp only [RemovedBy, List.mem_append, List.mem_singleton, or_and_right, exists_or,
    exists_eq_left]

omit [DecidableEq C] in
theorem other_snoc (c : C) : RemovedByOther index (moves ++ [m]) c ↔
    RemovedByOther index moves c ∨ (¬ OfBroadcast index m.event ∧ Removes m c) := by
  simp only [RemovedByOther, List.mem_append, List.mem_singleton, or_and_right, exists_or,
    exists_eq_left]

end Snoc

/-- The phase is at the same point, apart from who has stayed. -/
def SamePoint : BroadcastPhase C → BroadcastPhase C → Prop
  | .sending c b, .sending c' b' => c' = c ∧ b'.dead = b.dead
  | .returned b, .returned b' => b' = b
  | .raised b, .raised b' => b' = b
  | _, _ => False

omit [DecidableEq C] in
theorem same_point_refl (p : BroadcastPhase C) : SamePoint p p := by
  cases p with
  | sending c b => exact ⟨rfl, rfl⟩
  | returned b => exact rfl
  | raised b => exact rfl

theorem same_point_watch (clients : Table C) (p : BroadcastPhase C) :
    SamePoint p (p.watch clients) := by
  cases p with
  | sending c b => exact ⟨rfl, rfl⟩
  | returned b => exact rfl
  | raised b => exact rfl

theorem with_clients_point {st : State C} (clients : Table C) {index : Nat}
    {p : BroadcastPhase C} (here : st.broadcasts[index]? = some p) :
    ∃ p', (st.withClients clients).broadcasts[index]? = some p' ∧ SamePoint p p' := by
  refine ⟨p.watch clients, ?_, same_point_watch clients p⟩
  simp [State.withClients, here]

/-- A broadcast moves on only by its own sends. -/
theorem point_kept {st st' : State C} {event : Event C} (ran : Step st event st') {index : Nat}
    (other : ¬ OfBroadcast index event) {p : BroadcastPhase C}
    (here : st.broadcasts[index]? = some p) :
    ∃ p', st'.broadcasts[index]? = some p' ∧ SamePoint p p' := by
  cases ran with
  | @connect client clients outside added => exact with_clients_point clients here
  | closed waiting => exact with_clients_point _ here
  | broadcast =>
    obtain ⟨below, _⟩ := List.getElem?_eq_some_iff.mp here
    refine ⟨p, ?_, same_point_refl p⟩
    rw [List.getElem?_append_left below, here]
  | @sendEnds index' client b works at' =>
    have away : index' ≠ index := other
    have moved : ∀ phase, (st.broadcasts.set index' phase)[index]? = some p := fun phase => by
      rw [List.getElem?_set_ne away, here]
    unfold State.proceed
    cases Broadcast.loop st.clients (b.afterSend client works) with
    | sending => exact ⟨p, moved _, same_point_refl p⟩
    | raised => exact ⟨p, moved _, same_point_refl p⟩
    | returned => exact with_clients_point _ (moved _)
  | shutdown => exact ⟨p, here, same_point_refl p⟩
  | closesEnd => exact with_clients_point _ here

/-- The dead clients are those whose send failed, each still there or taken out by another,
    and the broadcast has taken out nobody yet. -/
structure Tally (index : Nat) (moves : List (Move (State C) (Event C))) (st : State C)
    (dead : List C) : Prop where
  failed : ∀ c, c ∈ dead ↔ SendFailed index moves c
  met : ∀ c ∈ dead, c ∈ st.clients ∨ RemovedByOther index moves c
  spared : ∀ c, ¬ RemovedBy index moves c

def Accounted (index : Nat) (moves : List (Move (State C) (Event C))) (st : State C) :
    BroadcastPhase C → Prop
  | .sending c b => Tally index moves st b.dead ∧
      (c ∈ st.clients ∨ RemovedByOther index moves c)
  | .returned _ => TakesFailed index moves st
  | .raised b => Tally index moves st b.dead

section Other
variable {index : Nat} {moves : List (Move (State C) (Event C))} {st st' : State C}
  {event : Event C}

omit [DecidableEq C] in
theorem met_kept (other : ¬ OfBroadcast index event) {c : C}
    (met : c ∈ st.clients ∨ RemovedByOther index moves c) :
    c ∈ st'.clients ∨ RemovedByOther index (moves ++ [⟨st, event, st'⟩]) c := by
  rw [other_snoc]
  by_cases stays : c ∈ st'.clients
  · exact Or.inl stays
  · exact Or.inr (met.symm.imp_right fun here => ⟨other, here, stays⟩)

omit [DecidableEq C] in
theorem failed_other (other : ¬ OfBroadcast index event) (c : C) :
    SendFailed index (moves ++ [⟨st, event, st'⟩]) c ↔ SendFailed index moves c := by
  rw [failed_snoc]
  refine or_iff_left fun ⟨own, _⟩ => other ?_
  dsimp only at own
  subst own
  exact rfl

omit [DecidableEq C] in
theorem removed_other (other : ¬ OfBroadcast index event) (c : C) :
    RemovedBy index (moves ++ [⟨st, event, st'⟩]) c ↔ RemovedBy index moves c := by
  rw [removed_snoc]
  exact or_iff_left fun own => other own.1

omit [DecidableEq C] in
theorem tally_other (other : ¬ OfBroadcast index event) {dead : List C}
    (tally : Tally index moves st dead) :
    Tally index (moves ++ [⟨st, event, st'⟩]) st' dead where
  failed := fun c => by rw [failed_other other, tally.failed]
  met := fun c member => met_kept other (tally.met c member)
  spared := fun c => by
    rw [removed_other other]
    exact tally.spared c

theorem takes_other (other : ¬ OfBroadcast index event) (ran : Step st event st')
    (takes : TakesFailed index moves st) :
    TakesFailed index (moves ++ [⟨st, event, st'⟩]) st' where
  removed := fun c => by
    rw [removed_other other, failed_other other, other_snoc, takes.removed]
    refine and_congr_right fun failed => not_congr (or_iff_left ?_).symm
    exact fun out => (takes.gone c failed).1 out.2.1
  gone := fun c failed => gone_step ran (takes.gone c ((failed_other other c).mp failed))

theorem accounted_other (other : ¬ OfBroadcast index event) (ran : Step st event st')
    {p p' : BroadcastPhase C} (same : SamePoint p p') (accounted : Accounted index moves st p) :
    Accounted index (moves ++ [⟨st, event, st'⟩]) st' p' := by
  cases p with
  | sending c b =>
    cases p' with
    | sending c' b' =>
      obtain ⟨rfl, dead⟩ := same
      rw [Accounted, dead]
      exact ⟨tally_other other accounted.1, met_kept other accounted.2⟩
    | returned b' => exact same.elim
    | raised b' => exact same.elim
  | returned b =>
    cases p' with
    | sending c' b' => exact same.elim
    | returned b' => exact takes_other other ran accounted
    | raised b' => exact same.elim
  | raised b =>
    cases p' with
    | sending c' b' => exact same.elim
    | returned b' => exact same.elim
    | raised b' =>
      obtain rfl := same
      exact tally_other other accounted

end Other

section Own
variable {index : Nat} {moves : List (Move (State C) (Event C))} {st st' : State C}
  {client : C} {b : Broadcast C} {works : Bool}

omit [DecidableEq C] in
theorem after_send_dead (c : C) :
    c ∈ (b.afterSend client works).dead ↔ c ∈ b.dead ∨ (works = false ∧ c = client) := by
  unfold Broadcast.afterSend
  cases works <;> simp

omit [DecidableEq C] in
theorem failed_own (here : st.broadcasts[index]? = some (.sending client b)) (c : C) :
    SendFailed index (moves ++ [⟨st, .sendEnds index works, st'⟩]) c ↔
      SendFailed index moves c ∨ (works = false ∧ c = client) := by
  rw [failed_snoc]
  refine or_congr_right ?_
  simp only [Event.sendEnds.injEq, true_and, here, Option.some.injEq,
    BroadcastPhase.sending.injEq, exists_and_left, exists_eq', and_true, eq_comm]

omit [DecidableEq C] in
theorem removed_own (c : C) (spared : ¬ RemovedBy index moves c) :
    RemovedBy index (moves ++ [⟨st, .sendEnds index works, st'⟩]) c ↔
      c ∈ st.clients ∧ c ∉ st'.clients := by
  rw [removed_snoc, or_iff_right spared]
  exact and_iff_right rfl

omit [DecidableEq C] in
theorem other_own (c : C) : RemovedByOther index (moves ++ [⟨st, .sendEnds index works, st'⟩]) c ↔
    RemovedByOther index moves c := by
  rw [other_snoc]
  exact or_iff_left fun out => out.1 rfl

omit [DecidableEq C] in
/-- A send that has ended is in the tally, and so is what it adds to the dead. -/
theorem tally_sent (here : st.broadcasts[index]? = some (.sending client b))
    (tally : Tally index moves st b.dead)
    (met : client ∈ st.clients ∨ RemovedByOther index moves client)
    (same : st'.clients = st.clients) :
    Tally index (moves ++ [⟨st, .sendEnds index works, st'⟩]) st'
      (b.afterSend client works).dead where
  failed := fun c => by rw [after_send_dead, failed_own here, tally.failed]
  met := fun c member => by
    rw [same, other_own]
    rcases (after_send_dead c).mp member with old | ⟨_, rfl⟩
    · exact tally.met c old
    · exact met
  spared := fun c => by
    rw [removed_own c (tally.spared c), same]
    exact fun out => out.2 out.1

/-- At its end the broadcast takes out the dead who are still there. -/
theorem takes_dead (here : st.broadcasts[index]? = some (.sending client b))
    (tally : Tally index moves st b.dead)
    (met : client ∈ st.clients ∨ RemovedByOther index moves client)
    (ran : Step st (.sendEnds index works) st') (entered : Entered st)
    (away : ∀ c, RemovedByOther index moves c → Gone c st)
    (left : ∀ c, c ∈ st'.clients ↔ c ∈ st.clients ∧ c ∉ (b.afterSend client works).dead) :
    TakesFailed index (moves ++ [⟨st, .sendEnds index works, st'⟩]) st' := by
  have known : ∀ c, SendFailed index (moves ++ [⟨st, .sendEnds index works, st'⟩]) c ↔
      c ∈ (b.afterSend client works).dead := fun c => by
    rw [after_send_dead, failed_own here, tally.failed]
  have still : ∀ c ∈ (b.afterSend client works).dead,
      c ∈ st.clients ∨ RemovedByOther index moves c := by
    intro c member
    rcases (after_send_dead c).mp member with old | ⟨_, rfl⟩
    · exact tally.met c old
    · exact met
  constructor
  · intro c
    rw [removed_own c (tally.spared c), known, other_own, left]
    constructor
    · rintro ⟨member, out⟩
      have dead : c ∈ (b.afterSend client works).dead := by
        by_contra alive
        exact out ⟨member, alive⟩
      exact ⟨dead, fun other => (away c other).1 member⟩
    · rintro ⟨dead, unmoved⟩
      exact ⟨(still c dead).resolve_right unmoved, fun stays => stays.2 dead⟩
  · intro c failed
    have dead := (known c).mp failed
    rcases still c dead with member | other
    · exact removes_gone ran entered member fun stays => ((left c).mp stays).2 dead
    · exact gone_step ran (away c other)

theorem accounted_own (here : st.broadcasts[index]? = some (.sending client b))
    (accounted : Accounted index moves st (.sending client b))
    (ran : Step st (.sendEnds index works) st') (entered : Entered st)
    (away : ∀ c, RemovedByOther index moves c → Gone c st) :
    ∃ p, st'.broadcasts[index]? = some p ∧
      Accounted index (moves ++ [⟨st, .sendEnds index works, st'⟩]) st' p := by
  obtain ⟨tally, met⟩ := accounted
  cases ran with
  | @sendEnds _ client' b' _ here' =>
    obtain ⟨rfl, rfl⟩ := BroadcastPhase.sending.inj (Option.some.inj (here.symm.trans here'))
    refine ⟨_, proceed_here here _, ?_⟩
    have clients := proceed_clients st index
      (Broadcast.loop st.clients (b.afterSend client works))
    have whole : Step st (.sendEnds index works) _ := .sendEnds here
    unfold Broadcast.loop at clients whole ⊢
    cases next : (b.afterSend client works).iter.next st.clients with
    | changed => exact tally_sent here tally met rfl
    | item following rest =>
      refine ⟨tally_sent here tally met rfl, Or.inl ?_⟩
      exact item_mem next
    | stop =>
      rw [next] at clients whole
      refine takes_dead here tally met whole entered away fun c => ?_
      rw [clients]
      simp

end Own

/-- Where the broadcast that began in a state stands after any moves. -/
theorem accounted_run {st₀ st₁ st : State C} {moves : List (Move (State C) (Event C))}
    (entered : Entered st₁)
    (begun : ∃ p, st₁.broadcasts[st₀.broadcasts.length]? = some p ∧
      Accounted st₀.broadcasts.length [] st₁ p) (ran : Trace Step st₁ moves st) :
    ∃ p, st.broadcasts[st₀.broadcasts.length]? = some p ∧
      Accounted st₀.broadcasts.length moves st p := by
  induction ran with
  | start => exact begun
  | @move t u e moves before last ih =>
    obtain ⟨p, here, accounted⟩ := ih
    by_cases own : OfBroadcast st₀.broadcasts.length e
    · cases e with
      | sendEnds index works =>
        obtain rfl : index = _ := own
        have sending : ∃ c b, p = .sending c b := by
          cases last with
          | @sendEnds _ c b _ here' =>
            exact ⟨c, b, Option.some.inj (here.symm.trans here')⟩
        obtain ⟨c, b, rfl⟩ := sending
        have inside := trace_keeps Entered (fun _ _ _ => entered_step) entered before
        refine accounted_own here accounted last inside fun d out => ?_
        obtain ⟨m, member, _, removes⟩ := out
        exact removed_gone entered before member removes
      | connect | closed | broadcast | shutdown | closesEnd => exact own.elim
    · obtain ⟨p', there, same⟩ := point_kept last own here
      exact ⟨p', there, accounted_other own last same accounted⟩

omit [DecidableEq C] in
theorem tally_fresh (index : Nat) (st : State C) : Tally index [] st [] where
  failed := fun c => by simp [SendFailed]
  met := fun c member => absurd member List.not_mem_nil
  spared := fun c => by simp [RemovedBy]

omit [DecidableEq C] in
theorem takes_fresh (index : Nat) (st : State C) : TakesFailed index [] st where
  removed := fun c => by simp [RemovedBy, SendFailed]
  gone := fun c failed => by simp [SendFailed] at failed

omit [DecidableEq C] in
theorem first_accounted (index : Nat) (st : State C) :
    Accounted index [] st (firstPhase st.clients) := by
  unfold firstPhase
  split
  · exact takes_fresh index st
  · unfold Broadcast.loop
    cases next : (Broadcast.begun st.clients).iter.next st.clients with
    | changed => exact tally_fresh index st
    | item client rest => exact ⟨tally_fresh index st, Or.inl (item_mem next)⟩
    | stop => exact takes_fresh index st

/-- The clients in every reachable state, with the moves that led there: each has a handler
    that waits, nobody is back once taken out, and a broadcast that has returned has taken
    out exactly the clients whose send failed, but for those whom others took meanwhile. -/
theorem exact_membership {st : State C} {moves : List (Move (State C) (Event C))}
    (ran : Trace Step (.initial C) moves st) :
    (∀ c ∈ st.clients, st.handlers c = .waiting) ∧
    (∀ m ∈ moves, ∀ c, Removes m c → c ∉ st.clients) ∧
    ∀ front back st₀ st₁ b, moves = front ++ ⟨st₀, .broadcast, st₁⟩ :: back →
      st.broadcasts[st₀.broadcasts.length]? = some (.returned b) →
      TakesFailed st₀.broadcasts.length back st := by
  refine ⟨entered_run ran, fun m member c removes => ?_, ?_⟩
  · exact (removed_gone entered_initial ran member removes).1
  · rintro front back st₀ st₁ b rfl returned
    obtain ⟨first, begins, rest⟩ := trace_split ran
    dsimp only at first begins rest
    have entered := entered_step begins (entered_run first)
    have begun : ∃ p, st₁.broadcasts[st₀.broadcasts.length]? = some p ∧
        Accounted st₀.broadcasts.length [] st₁ p := by
      cases begins with
      | broadcast => exact ⟨_, List.getElem?_concat_length .., first_accounted _ _⟩
    obtain ⟨p, here, accounted⟩ := accounted_run entered begun rest
    obtain rfl := Option.some.inj (here.symm.trans returned)
    exact accounted

section Sample

theorem send_fails (st : State Nat) : SendFailed 0 [⟨onlySend, .sendEnds 0 false, st⟩] 0 :=
  ⟨_, List.mem_singleton_self _, rfl, _, rfl⟩

/-- A run in which a broadcast to one client returns after its send has failed: the moves of
    the broadcast take out that client. -/
theorem sample_membership : ∃ front back st₀ st₁ b st,
    Trace Step (.initial Nat) (front ++ ⟨st₀, .broadcast, st₁⟩ :: back) st ∧
    st.broadcasts[st₀.broadcasts.length]? = some (.returned b) ∧ 0 ∈ st₀.clients ∧
    RemovedBy st₀.broadcasts.length back 0 ∧ 0 ∉ st.clients := by
  have begins : Step come .broadcast onlySend := .broadcast
  have ends : Step onlySend (.sendEnds 0 false) _ := .sendEnds rfl
  have fails := (comes.move begins).move ends
  have takes := (exact_membership fails).2.2 [_] [_] come onlySend _ rfl rfl
  refine ⟨[_], [_], come, onlySend, _, _, fails, rfl, by decide,
    (takes.removed 0).mpr ⟨send_fails _, ?_⟩, (takes.gone 0 (send_fails _)).1⟩
  rintro ⟨m, member, other, _⟩
  obtain rfl := List.mem_singleton.mp member
  exact other rfl

end Sample
end ExactMembership

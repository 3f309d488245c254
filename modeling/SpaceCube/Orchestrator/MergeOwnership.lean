import SpaceCube.Grid.GridCoverage
import SpaceCube.Orchestrator.MergeAndFrame

/- Whose data survives the merge when workers report the same particle. -/
namespace MergeOwnership
open InsertionDict PyValue ParticleMessages WorkerBounds GridCoverage MergeAndFrame

section Reports
variable {F : Type}

/-- The last write of an id among one worker's updates. -/
def lastOf (id : String) (workerUpdates : List (ParticleData F)) : Option (ParticleData F) :=
  (workerUpdates.filter fun p => decide (p.id = id)).getLast?

/-- The last write of an id in the two loops of the merge, with its worker. -/
def lastReport (id : String) : List (Key × List (ParticleData F)) → Option (Key × ParticleData F)
  | [] => none
  | (workerId, workerUpdates) :: rest =>
    (lastReport id rest).or ((lastOf id workerUpdates).map fun p => (workerId, p))

/-- The map from id to particle that a merged list is. -/
def dataOf (merged : List (ParticleData F)) (id : String) : Option (ParticleData F) :=
  merged.find? fun p => decide (p.id = id)

def Reordered (updates other : Dict Key (List (ParticleData F))) : Prop :=
  other.entries.Perm updates.entries

theorem last_report_data (id : String) (entries : List (Key × List (ParticleData F))) :
    (lastReport id entries).map Prod.snd = lastOf id (entries.flatMap Prod.snd) := by
  induction entries with
  | nil => rfl
  | cons e rest ih =>
    obtain ⟨workerId, workerUpdates⟩ := e
    have block : lastOf id ((workerId, workerUpdates) :: rest |>.flatMap Prod.snd) =
        (lastOf id (rest.flatMap Prod.snd)).or (lastOf id workerUpdates) := by
      simp only [lastOf, List.flatMap_cons, List.filter_append, List.getLast?_append]
    rw [block, ← ih, lastReport]
    cases lastReport id rest with
    | some report => rfl
    | none => cases lastOf id workerUpdates <;> rfl

/-- What the merge keeps of an id is its last report. -/
theorem merged_data {grid : GridManager F} {updates : Dict Key (List (ParticleData F))}
    {merged : List (ParticleData F)} (run : mergeWithBoundsCheck grid updates = .ok merged)
    (id : String) : dataOf merged id = (lastReport id updates.entries).map Prod.snd := by
  obtain ⟨_, rfl⟩ := (merge_ok_iff grid updates merged).mp run
  have keyed := setAll_self_keyed ParticleData.id _ (updates.entries.flatMap Prod.snd)
    (empty_self_keyed ParticleData.id)
  rw [dataOf, find_values _ _ keyed, get?_setAll, get?_empty, Option.or_none, last_report_data]
  rfl

theorem last_of_mem {id : String} {workerUpdates : List (ParticleData F)} {p : ParticleData F}
    (last : lastOf id workerUpdates = some p) : p ∈ workerUpdates ∧ p.id = id := by
  have member := List.mem_filter.mp (List.mem_of_getLast? last)
  exact ⟨member.1, of_decide_eq_true member.2⟩

theorem last_of_some {id : String} {workerUpdates : List (ParticleData F)}
    (reported : ∃ p ∈ workerUpdates, p.id = id) : ∃ p, lastOf id workerUpdates = some p := by
  obtain ⟨p, member, same⟩ := reported
  have some : workerUpdates.filter (fun q => decide (q.id = id)) ≠ [] := by
    refine List.ne_nil_of_mem (List.mem_filter.mpr ⟨member, decide_eq_true same⟩)
  exact ⟨_, List.getLast?_eq_some_getLast some⟩

/-- The last report of an id is some worker's last. -/
theorem last_report_from {id : String} {entries : List (Key × List (ParticleData F))} {w : Key}
    {p : ParticleData F} (last : lastReport id entries = some (w, p)) :
    ∃ e ∈ entries, e.1 = w ∧ lastOf id e.2 = some p := by
  induction entries with
  | nil => contradiction
  | cons e rest ih =>
    rw [lastReport] at last
    cases later : lastReport id rest with
    | some report =>
      rw [later, Option.some_or, Option.some.injEq] at last
      subst last
      obtain ⟨e', member, worker, own⟩ := ih later
      exact ⟨e', List.mem_cons_of_mem e member, worker, own⟩
    | none =>
      rw [later, Option.none_or, Option.map_eq_some_iff] at last
      obtain ⟨q, own, same⟩ := last
      cases same
      exact ⟨e, List.mem_cons_self, rfl, own⟩

theorem last_report_some {id : String} {entries : List (Key × List (ParticleData F))}
    {e : Key × List (ParticleData F)} (member : e ∈ entries) {p : ParticleData F}
    (own : lastOf id e.2 = some p) : ∃ report, lastReport id entries = some report := by
  induction entries with
  | nil => exact absurd member List.not_mem_nil
  | cons first rest ih =>
    rw [lastReport]
    rcases List.mem_cons.mp member with rfl | later
    · rw [own]
      cases lastReport id rest with
      | some report => exact ⟨report, rfl⟩
      | none => exact ⟨_, rfl⟩
    · obtain ⟨report, found⟩ := ih later
      exact ⟨report, by rw [found, Option.some_or]⟩

/-- The worker that comes last in the dictionary has the last word. -/
theorem last_report_append {id : String} (front : List (Key × List (ParticleData F)))
    {e : Key × List (ParticleData F)} {p : ParticleData F} (own : lastOf id e.2 = some p) :
    lastReport id (front ++ [e]) = some (e.1, p) := by
  induction front with
  | nil => simp [lastReport, own]
  | cons first rest ih => rw [List.cons_append, lastReport, ih, Option.some_or]

theorem merge_reordered {grid : GridManager F} {updates other : Dict Key (List (ParticleData F))}
    (reordered : Reordered updates other)
    (known : ∀ k, k ∈ updates → k ∈ grid.workerBounds) :
    ∃ merged, mergeWithBoundsCheck grid other = .ok merged := by
  refine ⟨_, (merge_ok_iff grid other _).mpr ⟨fun k member => known k ?_, rfl⟩⟩
  rw [mem_iff_keys] at member ⊢
  exact (reordered.map Prod.fst).mem_iff.mp member

/-- Some order of the dictionary has a given worker last. -/
theorem worker_last {updates : Dict Key (List (ParticleData F))}
    {e : Key × List (ParticleData F)} (member : e ∈ updates.entries) :
    ∃ other front, Reordered updates other ∧ other.entries = front ++ [e] := by
  obtain ⟨front, back, split⟩ := List.append_of_mem member
  have perm : (front ++ back ++ [e]).Perm updates.entries := by
    rw [split, List.append_assoc]
    exact List.Perm.append_left front (List.perm_append_singleton e back)
  refine ⟨⟨front ++ back ++ [e], ?_⟩, front ++ back, perm, rfl⟩
  exact (perm.map Prod.fst).nodup_iff.mpr updates.distinct

/-- With worker e last, what the merge keeps of id is what e reported last. -/
theorem kept_when_last {grid : GridManager F} {updates : Dict Key (List (ParticleData F))}
    (known : ∀ k, k ∈ updates → k ∈ grid.workerBounds) {e : Key × List (ParticleData F)}
    (member : e ∈ updates.entries) {id : String} {p : ParticleData F}
    (own : lastOf id e.2 = some p) :
    ∃ other merged, Reordered updates other ∧ mergeWithBoundsCheck grid other = .ok merged ∧
      lastReport id other.entries = some (e.1, p) ∧ dataOf merged id = some p := by
  obtain ⟨other, front, reordered, split⟩ := worker_last member
  obtain ⟨merged, run⟩ := merge_reordered reordered known
  have last : lastReport id other.entries = some (e.1, p) := by
    rw [split]
    exact last_report_append front own
  refine ⟨other, merged, reordered, run, last, ?_⟩
  rw [merged_data run, last]
  rfl

end Reports

variable {K : Type} [LinearOrder K]

/-- The particle lies in the bounds that the merge looks up for the worker. -/
def LiesIn (grid : GridManager K) (worker : Key) (p : ParticleData K) : Prop :=
  ∃ bounds x y z, getWorkerBounds grid worker = .ok bounds ∧
    threeItems p.position = .ok (x, y, z) ∧ Contains bounds (x, y, z)

/-- In whatever order the workers stand in the dictionary, the merge keeps a worker's data
    only inside its bounds, and the same data for each id. -/
def OwnershipRespected (grid : GridManager K) (updates : Dict Key (List (ParticleData K))) : Prop :=
  (∀ other merged, Reordered updates other → mergeWithBoundsCheck grid other = .ok merged →
    ∀ p ∈ merged, ∀ w, lastReport p.id other.entries = some (w, p) → LiesIn grid w p) ∧
  (∀ other another merged merged', Reordered updates other → Reordered updates another →
    mergeWithBoundsCheck grid other = .ok merged →
    mergeWithBoundsCheck grid another = .ok merged' → ∀ id, dataOf merged id = dataOf merged' id)

/-- Every worker's last report of a particle lies in that worker's bounds, and no particle is
    reported by two workers. -/
structure OwnersOnly (grid : GridManager K) (updates : Dict Key (List (ParticleData K))) :
    Prop where
  inside : ∀ e ∈ updates.entries, ∀ id p, lastOf id e.2 = some p → LiesIn grid e.1 p
  apart : ∀ e ∈ updates.entries, ∀ e' ∈ updates.entries, ∀ p ∈ e.2, ∀ p' ∈ e'.2,
    p.id = p'.id → e.1 = e'.1

theorem unknown_respected {grid : GridManager K} {updates : Dict Key (List (ParticleData K))}
    {k : Key} (key : k ∈ updates) (stranger : k ∉ grid.workerBounds) :
    OwnershipRespected grid updates := by
  have fails : ∀ other merged, Reordered updates other →
      mergeWithBoundsCheck grid other ≠ .ok merged := by
    intro other merged reordered run
    have known := ((merge_ok_iff grid other merged).mp run).1 k
    refine stranger (known ?_)
    rw [mem_iff_keys] at key ⊢
    exact (reordered.map Prod.fst).mem_iff.mpr key
  exact ⟨fun other merged reordered run => absurd run (fails other merged reordered),
    fun other _ merged _ reordered _ run => absurd run (fails other merged reordered)⟩

/-- With one reporter for each particle the order of the workers is of no account. -/
theorem only_report {grid : GridManager K} {updates other : Dict Key (List (ParticleData K))}
    (only : OwnersOnly grid updates) (reordered : Reordered updates other)
    {e : Key × List (ParticleData K)} (member : e ∈ updates.entries) {id : String}
    {p : ParticleData K} (own : lastOf id e.2 = some p) :
    lastReport id other.entries = some (e.1, p) := by
  obtain ⟨⟨w, q⟩, found⟩ := last_report_some (reordered.mem_iff.mpr member) own
  obtain ⟨e', member', rfl, own'⟩ := last_report_from found
  obtain ⟨inside, idP⟩ := last_of_mem own
  obtain ⟨inside', idQ⟩ := last_of_mem own'
  have worker := only.apart e member e' (reordered.mem_iff.mp member') p inside q inside'
    (idP.trans idQ.symm)
  have same : e = e' :=
    List.inj_on_of_nodup_map updates.distinct member (reordered.mem_iff.mp member') worker
  subst same
  rw [found, Option.some.inj (own.symm.trans own')]

theorem only_respected {grid : GridManager K} {updates : Dict Key (List (ParticleData K))}
    (only : OwnersOnly grid updates) : OwnershipRespected grid updates := by
  constructor
  · intro other merged reordered _ p _ w last
    obtain ⟨e, member, rfl, own⟩ := last_report_from last
    exact only.inside e (reordered.mem_iff.mp member) p.id p own
  · intro other another merged merged' first second run run' id
    rw [merged_data run, merged_data run']
    refine congrArg (Option.map Prod.snd) ?_
    cases found : lastReport id other.entries with
    | some report =>
      obtain ⟨e, member, worker, own⟩ := last_report_from found
      rw [only_report only second (first.mem_iff.mp member) own, worker]
    | none =>
      cases found' : lastReport id another.entries with
      | none => rfl
      | some report =>
        obtain ⟨e, member, _, own⟩ := last_report_from found'
        rw [only_report only first (second.mem_iff.mp member) own] at found
        contradiction

variable [Field K] [IsStrictOrderedRing K]

theorem respected_only {boxSize : K} {numWorkers root : Nat} (rounded : 1 ≤ root)
    {updates : Dict Key (List (ParticleData K))}
    (known : ∀ k, k ∈ updates → k ∈ (gridOf boxSize numWorkers root).workerBounds)
    (respected : OwnershipRespected (gridOf boxSize numWorkers root) updates) :
    OwnersOnly (gridOf boxSize numWorkers root) updates := by
  have inside : ∀ e ∈ updates.entries, ∀ id p, lastOf id e.2 = some p →
      LiesIn (gridOf boxSize numWorkers root) e.1 p := by
    intro e member id p own
    obtain ⟨other, merged, reordered, run, last, kept⟩ := kept_when_last known member own
    obtain rfl := (last_of_mem own).2
    exact respected.1 other merged reordered run p (List.mem_of_find?_eq_some kept) e.1 last
  refine ⟨inside, fun e member e' member' p reported p' reported' same => ?_⟩
  by_contra other
  obtain ⟨q, own⟩ := last_of_some ⟨p, reported, same⟩
  obtain ⟨q', own'⟩ := last_of_some ⟨p', reported', rfl⟩
  obtain ⟨first, merged, order, run, _, kept⟩ := kept_when_last known member own
  obtain ⟨second, merged', order', run', _, kept'⟩ := kept_when_last known member' own'
  have data := respected.2 first second merged merged' order order' run run' p'.id
  rw [kept, kept', Option.some.injEq] at data
  subst data
  obtain ⟨bounds, x, y, z, found, items, here⟩ := inside e member _ q own
  obtain ⟨bounds', x', y', z', found', items', there⟩ := inside e' member' _ q own'
  rw [items, Except.ok.injEq] at items'
  rw [← items'] at there
  exact bounds_disjoint rounded other found found' (x, y, z) ⟨here, there⟩

/-- The merge respects ownership exactly when it fails on an unknown worker or the replies
    do so by themselves. -/
theorem ownership_respected_iff (boxSize : K) (numWorkers : Nat) {root : Nat}
    (rounded : 1 ≤ root) (updates : Dict Key (List (ParticleData K))) :
    OwnershipRespected (gridOf boxSize numWorkers root) updates ↔
      (∃ k, k ∈ updates ∧ k ∉ (gridOf boxSize numWorkers root).workerBounds) ∨
        OwnersOnly (gridOf boxSize numWorkers root) updates := by
  constructor
  · intro respected
    by_cases known : ∀ k, k ∈ updates → k ∈ (gridOf boxSize numWorkers root).workerBounds
    · exact Or.inr (respected_only rounded known respected)
    · push Not at known
      exact Or.inl known
  · rintro (⟨k, key, stranger⟩ | only)
    · exact unknown_respected key stranger
    · exact only_respected only

def report (z : ℚ) : ParticleData ℚ where
  id := "a"
  position := [10, 10, z]
  velocity := [0, 0, 0]
  acceleration := [0, 0, 0]
  mass := 1
  radius := 1

theorem sample_owner_respected :
    OwnershipRespected (gridOf (100 : ℚ) 1 1)
      (Dict.empty.set (Key.ofNat 0) [report 40, report 60]) := by
  refine (ownership_respected_iff 100 1 le_rfl _).mpr (Or.inr ?_)
  refine ⟨fun e member id p last => ?_, fun e member e' member' _ _ _ _ _ => ?_⟩
  · obtain rfl := List.mem_singleton.mp member
    obtain ⟨reported, _⟩ := last_of_mem last
    refine ⟨⟨(0, 100), (0, 100), (0, 100)⟩, ?_⟩
    rcases List.mem_cons.mp reported with rfl | second
    · exact ⟨10, 10, 40, rfl, rfl, by norm_num [Contains, BoxGrid.Holds]⟩
    · obtain rfl := List.mem_singleton.mp second
      exact ⟨10, 10, 60, rfl, rfl, by norm_num [Contains, BoxGrid.Holds]⟩
  · rw [List.mem_singleton.mp member, List.mem_singleton.mp member']

/-- A particle at height 60 in the upper cell that the worker of the lower one also reports:
    the last of them in the dictionary is kept. -/
theorem later_worker_wins :
    let grid := gridOf (100 : ℚ) 2 2
    let lowerFirst := (Dict.empty.set (Key.ofNat 0) [report 60]).set (Key.ofNat 1) [report 61]
    let upperFirst := (Dict.empty.set (Key.ofNat 1) [report 61]).set (Key.ofNat 0) [report 60]
    mergeWithBoundsCheck grid lowerFirst = .ok [report 61] ∧
      mergeWithBoundsCheck grid upperFirst = .ok [report 60] ∧
      ¬ LiesIn grid (Key.ofNat 0) (report 60) ∧ ¬ OwnershipRespected grid lowerFirst := by
  intro grid lowerFirst upperFirst
  obtain ⟨x, y, z, dims, _, _, _, _, keys, entries⟩ :=
    grid_spec (100 : ℚ) 2 (by decide : 1 ≤ 2)
  have two : (x, y, z) = (2, 2, 2) := by
    rw [← dims, optimizeGridDimensions, if_neg (by decide), correctDimensions]
    rfl
  obtain ⟨rfl, rfl, rfl⟩ : x = 2 ∧ y = 2 ∧ z = 2 := by simpa using two
  have known : ∀ k, k ∈ lowerFirst → k ∈ grid.workerBounds := by
    intro k member
    rw [mem_iff_keys, keys]
    exact member
  have outside : ¬ LiesIn grid (Key.ofNat 0) (report 60) := by
    rintro ⟨bounds, a, b, c, found, items, _, _, here⟩
    have cell := (bounds_ok_iff grid _ _).mp found
    rw [entries 0 (by decide), Option.some.injEq] at cell
    subst cell
    cases items
    norm_num [cellBounds, BoxGrid.digits, BoxGrid.Holds] at here
  refine ⟨(merge_ok_iff _ _ _).mpr ⟨known, rfl⟩, (merge_ok_iff _ _ _).mpr ⟨?_, rfl⟩, outside, ?_⟩
  · intro k member
    rw [mem_iff_keys, keys]
    exact (List.Perm.swap (Key.ofNat 0) (Key.ofNat 1) []).mem_iff.mp member
  · intro respected
    have only := respected_only (by decide) known respected
    exact outside (only.inside (Key.ofNat 0, [report 60]) List.mem_cons_self "a" _ rfl)

end MergeOwnership

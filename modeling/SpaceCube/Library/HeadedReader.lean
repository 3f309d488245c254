import SpaceCube.Library.PiecewiseReader
import SpaceCube.Library.TextSearch

/- A reader whose input begins with a head, which is lines up to a blank one and a body of the
   length that they announce. Behind the head another reader goes on. -/
namespace HeadedReader
open PiecewiseReader TextSearch
variable {σ τ α β ε : Type*}

/-- What is made of a line, of the blank one, which tells the length of the body, and of the
    body. -/
structure Rules (σ τ α ε : Type*) where
  line : σ → List α → Except ε σ
  blank : σ → Except ε (σ × Nat)
  finish : σ → List α → Except ε τ

/-- held is what has come of the line or of the body so far. -/
inductive Stage (σ τ α : Type*) where
  | head (s : σ) (held : List α)
  | body (s : σ) (held : List α) (needed : Nat)
  | behind (t : τ)

def taken (rest : List α) : Except ε (Stage σ τ α) → Turn (Stage σ τ α) α β ε
  | .error error => .fails error
  | .ok stage => .goes stage rest none

def carried : Turn τ α β ε → Turn (Stage σ τ α) α β ε
  | .waits => .waits
  | .fails error => .fails error
  | .goes next rest out => .goes (.behind next) rest out

variable (same : α → α → Bool) (ending : List α) (rules : Rules σ τ α ε)
  (inner : τ → List α → Turn τ α β ε)

def announced : σ × Nat → Except ε (Stage σ τ α)
  | (s, 0) => (rules.finish s []).map .behind
  | (s, n + 1) => .ok (.body s [] (n + 1))

/-- Where a line that is complete leads to. -/
def lineStage (s : σ) (line : List α) : Except ε (Stage σ τ α) :=
  if line.isEmpty then (rules.blank s).bind (announced rules)
  else (rules.line s line).map fun s => .head s []

def turn : Stage σ τ α → List α → Turn (Stage σ τ α) α β ε
  | .head s held, xs =>
    if xs.isEmpty then .waits
    else match search same ending (held ++ xs) with
      | none => .goes (.head s (held ++ xs)) [] none
      | some (line, found) => taken (found.drop ending.length) (lineStage rules s line)
  | .body s held needed, xs =>
    if xs.isEmpty then .waits
    else if xs.length < needed then .goes (.body s (held ++ xs) (needed - xs.length)) [] none
    else taken (xs.drop needed) ((rules.finish s (held ++ xs.take needed)).map .behind)
  | .behind t, xs => carried (inner t xs)

/-- A body that is being read needs bytes. -/
def Proper (Inv : τ → Prop) : Stage σ τ α → Prop
  | .head _ _ => True
  | .body _ _ needed => 0 < needed
  | .behind t => Inv t

variable {same ending rules inner} {Inv : τ → Prop} {s : σ} {t : τ} {stage : Stage σ τ α}
  {held xs ys rest line found : List α} {out : Option β} {error : ε}

theorem taken_goes {result : Except ε (Stage σ τ α)} :
    taken rest result = Turn.goes stage xs out ↔ result = .ok stage ∧ xs = rest ∧ out = none := by
  cases result with
  | error e => simp [taken]
  | ok stage' =>
    simp only [taken, Turn.goes.injEq, Except.ok.injEq]
    grind

theorem taken_fails {result : Except ε (Stage σ τ α)} :
    (taken rest result : Turn (Stage σ τ α) α β ε) = .fails error ↔ result = .error error := by
  cases result with
  | error e => simp [taken]
  | ok stage' => simp [taken]

theorem taken_works {result : Except ε (Stage σ τ α)} :
    (taken rest result : Turn (Stage σ τ α) α β ε) ≠ .waits := by
  cases result with
  | error e => simp [taken]
  | ok stage' => simp [taken]

theorem head_found (filled : xs ≠ [])
    (here : search same ending (held ++ xs) = some (line, found)) :
    turn same ending rules inner (.head s held) xs =
      taken (found.drop ending.length) (lineStage rules s line) := by
  rw [turn, if_neg (by simpa using filled), here]

theorem head_short (filled : xs ≠ []) (here : search same ending (held ++ xs) = none) :
    turn same ending rules inner (.head s held) xs = .goes (.head s (held ++ xs)) [] none := by
  rw [turn, if_neg (by simpa using filled), here]

theorem body_short {needed : Nat} (filled : xs ≠ []) (short : xs.length < needed) :
    turn same ending rules inner (.body s held needed) xs =
      .goes (.body s (held ++ xs) (needed - xs.length)) [] none := by
  rw [turn, if_neg (by simpa using filled), if_pos short]

theorem body_enough {needed : Nat} (filled : xs ≠ []) (enough : needed ≤ xs.length) :
    turn same ending rules inner (.body s held needed) xs =
      taken (xs.drop needed) ((rules.finish s (held ++ xs.take needed)).map .behind) := by
  rw [turn, if_neg (by simpa using filled), if_neg (by omega)]

theorem finish_proper (entry : ∀ s held t, rules.finish s held = .ok t → Inv t)
    (done : (rules.finish s held).map .behind = .ok stage) : Proper Inv stage := by
  cases result : rules.finish s held with
  | error e => simp [result, Except.map] at done
  | ok t =>
    simp only [result, Except.map, Except.ok.injEq] at done
    exact done ▸ entry s held t result

theorem line_proper (entry : ∀ s held t, rules.finish s held = .ok t → Inv t)
    (done : lineStage rules s line = .ok stage) : Proper Inv stage := by
  unfold lineStage at done
  split at done
  · cases blank : rules.blank s with
    | error e => simp [blank, Except.bind] at done
    | ok announcement =>
      rw [blank] at done
      obtain ⟨s', needed⟩ := announcement
      cases needed with
      | zero => exact finish_proper entry done
      | succ n => exact Except.ok.inj done ▸ Nat.succ_pos n
  · cases result : rules.line s line with
    | error e => simp [result, Except.map] at done
    | ok s' =>
      simp only [result, Except.map, Except.ok.injEq] at done
      exact done ▸ trivial

/-- How the input is cut makes no difference to a headed reader either. -/
theorem headed_splits (entry : ∀ s held t, rules.finish s held = .ok t → Inv t)
    (splits : Splits inner Inv) :
    Splits (turn same ending rules inner) (Proper Inv) where
  waits := fun stage xs inv waits => by
    cases stage with
    | head s held =>
      by_contra filled
      cases here : search same ending (held ++ xs) with
      | none => simp [head_short filled here] at waits
      | some result => exact taken_works ((head_found filled here).symm.trans waits)
    | body s held needed =>
      by_contra filled
      by_cases short : xs.length < needed
      · simp [body_short filled short] at waits
      · exact taken_works ((body_enough filled (by omega)).symm.trans waits)
    | behind t =>
      cases here : inner t xs with
      | waits => exact splits.waits t xs inv here
      | fails e => simp [turn, here, carried] at waits
      | goes next rest out => simp [turn, here, carried] at waits
  fails := fun stage xs ys error inv fails => by
    cases stage with
    | head s held =>
      have filled : xs ≠ [] := by
        rintro rfl
        simp [turn] at fails
      have filled' : xs ++ ys ≠ [] := by simp [filled]
      cases here : search same ending (held ++ xs) with
      | none => simp [head_short filled here] at fails
      | some result =>
        have longer := search_append here ys
        rw [List.append_assoc] at longer
        rw [head_found filled here, taken_fails] at fails
        rw [head_found filled' longer, fails]
        rfl
    | body s held needed =>
      have filled : xs ≠ [] := by
        rintro rfl
        simp [turn] at fails
      have filled' : xs ++ ys ≠ [] := by simp [filled]
      by_cases short : xs.length < needed
      · simp [body_short filled short] at fails
      · have enough : needed ≤ (xs ++ ys).length := by
          rw [List.length_append]
          omega
        rw [body_enough filled (by omega), taken_fails] at fails
        rw [body_enough filled' enough, List.take_append_of_le_length (by omega), fails]
        rfl
    | behind t =>
      cases here : inner t xs with
      | waits => simp [turn, here, carried] at fails
      | fails e =>
        rw [turn, splits.fails t xs ys e inv here]
        rwa [turn, here] at fails
      | goes next rest out => simp [turn, here, carried] at fails
  goes := fun stage xs next rest out inv goes => by
    cases stage with
    | head s held =>
      have filled : xs ≠ [] := by
        rintro rfl
        simp [turn] at goes
      have filled' : ∀ ys, xs ++ ys ≠ [] := fun ys => by simp [filled]
      cases here : search same ending (held ++ xs) with
      | none =>
        rw [head_short filled here] at goes
        obtain ⟨rfl, rfl, rfl⟩ := Turn.goes.inj goes
        refine ⟨trivial, Or.inr ⟨rfl, rfl, rfl, fun ys more => ?_⟩⟩
        simp only [turn, List.append_assoc, List.isEmpty_iff, filled' ys, more]
      | some result =>
        obtain ⟨line, found⟩ := result
        obtain ⟨before, begun⟩ := search_found here
        have long := begins_length begun
        rw [head_found filled here, taken_goes] at goes
        obtain ⟨reached, rfl, rfl⟩ := goes
        refine ⟨line_proper entry reached, Or.inl fun ys => ?_⟩
        have longer := search_append here ys
        rw [List.append_assoc] at longer
        rw [head_found (filled' ys) longer, reached, List.drop_append_of_le_length long]
        rfl
    | body s held needed =>
      have filled : xs ≠ [] := by
        rintro rfl
        simp [turn] at goes
      have filled' : ∀ ys, xs ++ ys ≠ [] := fun ys => by simp [filled]
      by_cases short : xs.length < needed
      · rw [body_short filled short] at goes
        obtain ⟨rfl, rfl, rfl⟩ := Turn.goes.inj goes
        refine ⟨Nat.sub_pos_of_lt short, Or.inr ⟨rfl, rfl, rfl, fun ys more => ?_⟩⟩
        by_cases short' : ys.length < needed - xs.length
        · have short'' : (xs ++ ys).length < needed := by
            rw [List.length_append]
            omega
          rw [body_short (filled' ys) short'', body_short more short', List.append_assoc,
            List.length_append, Nat.sub_sub]
        · have enough : needed ≤ (xs ++ ys).length := by
            rw [List.length_append]
            omega
          have behind : needed = xs.length + (needed - xs.length) := by omega
          rw [body_enough (filled' ys) enough, body_enough more (by omega), List.append_assoc,
            List.take_append, List.drop_append, List.take_of_length_le (by omega),
            List.drop_of_length_le (by omega), List.nil_append]
      · rw [body_enough filled (by omega), taken_goes] at goes
        obtain ⟨reached, rfl, rfl⟩ := goes
        refine ⟨finish_proper entry reached, Or.inl fun ys => ?_⟩
        have enough : needed ≤ (xs ++ ys).length := by
          rw [List.length_append]
          omega
        rw [body_enough (filled' ys) enough, List.take_append_of_le_length (by omega), reached,
          List.drop_append_of_le_length (by omega)]
        rfl
    | behind t =>
      cases here : inner t xs with
      | waits => simp [turn, here, carried] at goes
      | fails e => simp [turn, here, carried] at goes
      | goes next' rest' out' =>
        rw [turn, here] at goes
        obtain ⟨rfl, rfl, rfl⟩ := Turn.goes.inj goes
        obtain ⟨inv', same | ⟨rfl, rfl, waiting, joined⟩⟩ := splits.goes _ _ _ _ _ inv here
        · refine ⟨inv', Or.inl fun ys => ?_⟩
          rw [turn, same ys]
          rfl
        · refine ⟨inv', Or.inr ⟨rfl, rfl, ?_, fun ys more => ?_⟩⟩
          · rw [turn, waiting]
            rfl
          · rw [turn, turn, joined ys more]

/-- What the reading comes to behind a line or a body, the rest not read yet. -/
def Continues (read : Stage σ τ α → List α → Turn (Stage σ τ α) α β ε) (rest : List α)
    (last : Except ε (Stage σ τ α)) : Except ε (Stage σ τ α) → Prop
  | .error error => last = .error error
  | .ok stage => Reads read stage rest [] last

theorem reads_taken {read : Stage σ τ α → List α → Turn (Stage σ τ α) α β ε}
    {result last : Except ε (Stage σ τ α)} (here : read stage xs = taken rest result)
    (more : Continues read rest last result) : Reads read stage xs [] last := by
  cases result with
  | error e =>
    obtain rfl := more
    exact .fails here
  | ok next => exact .goes here more

section Keeping
variable {ρ : Type*}

/-- A reader behind the head that only keeps what comes. -/
def keeping (β : Type*) : ρ × List α → List α → Turn (ρ × List α) α β ε
  | (r, got), xs => if xs.isEmpty then .waits else .goes (r, got ++ xs) [] none

theorem keeping_splits :
    Splits (keeping β : ρ × List α → List α → Turn (ρ × List α) α β ε) fun _ => True where
  waits := fun (r, got) xs _ waits => by
    by_contra filled
    simp [keeping, filled] at waits
  fails := fun (r, got) xs ys error _ fails => by
    cases xs with
    | nil => cases fails
    | cons x xs => cases fails
  goes := fun (r, got) xs next rest out _ goes => by
    cases xs with
    | nil => cases goes
    | cons x xs =>
      obtain ⟨rfl, rfl, rfl⟩ := Turn.goes.inj goes
      refine ⟨trivial, Or.inr ⟨rfl, rfl, rfl, fun ys more => ?_⟩⟩
      simp [keeping, more, List.append_assoc]

variable {rules : Rules σ (ρ × List α) α ε}

/-- Behind the head a piece is kept whole. -/
theorem kept_reads (r : ρ) (got xs : List α) :
    Reads (turn same ending rules (keeping β)) (.behind (r, got)) xs []
      (.ok (.behind (r, got ++ xs))) := by
  have idle : ∀ got : List α, turn same ending rules (keeping β) (.behind (r, got)) [] =
      .waits := fun got => rfl
  by_cases empty : xs = []
  · subst empty
    rw [List.append_nil]
    exact .waits (idle got)
  · have here : turn same ending rules (keeping β) (.behind (r, got)) xs =
        .goes (.behind (r, got ++ xs)) [] none := by
      simp [turn, keeping, carried, empty]
    exact .goes here (.waits (idle _))

theorem kept_all (r : ρ) (got : List α) (pieces : List (List α)) :
    ReadsAll (turn same ending rules (keeping β)) (.behind (r, got)) pieces []
      (.ok (.behind (r, got ++ pieces.flatten))) := by
  induction pieces generalizing got with
  | nil =>
    rw [List.flatten_nil, List.append_nil]
    exact .done
  | cons piece pieces ih =>
    rw [List.flatten_cons, ← List.append_assoc]
    exact .goes (kept_reads r got piece) (ih _)

end Keeping

end HeadedReader

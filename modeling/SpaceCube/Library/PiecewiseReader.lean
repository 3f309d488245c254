import Mathlib.Logic.Basic

/- A reader that takes its input piece by piece: it works on what is at hand, one turn after
   the other, until it waits for more. When a turn on a piece is the beginning of the turn on
   any longer piece, how the input is cut makes no difference. -/
namespace PiecewiseReader
variable {σ α β ε : Type*}

/-- What a reader does with the input at hand. -/
inductive Turn (σ α β ε : Type*) where
  | waits
  | fails (error : ε)
  | goes (next : σ) (rest : List α) (out : Option β)

variable (turn : σ → List α → Turn σ α β ε)

/-- The turns on one piece, with what they put out and where they end. -/
inductive Reads : σ → List α → List β → Except ε σ → Prop where
  | waits {s : σ} {xs : List α} (here : turn s xs = .waits) : Reads s xs [] (.ok s)
  | fails {s : σ} {xs : List α} {error : ε} (here : turn s xs = .fails error) :
    Reads s xs [] (.error error)
  | goes {s next : σ} {xs rest : List α} {out : Option β} {outs : List β} {last : Except ε σ}
    (here : turn s xs = .goes next rest out) (more : Reads next rest outs last) :
    Reads s xs (out.toList ++ outs) last

/-- Piece after piece, up to the first failure. -/
inductive ReadsAll : σ → List (List α) → List β → Except ε σ → Prop where
  | done {s : σ} : ReadsAll s [] [] (.ok s)
  | fails {s : σ} {piece : List α} {pieces : List (List α)} {outs : List β} {error : ε}
    (here : Reads turn s piece outs (.error error)) :
    ReadsAll s (piece :: pieces) outs (.error error)
  | goes {s next : σ} {piece : List α} {pieces : List (List α)} {outs outs' : List β}
    {last : Except ε σ} (here : Reads turn s piece outs (.ok next))
    (more : ReadsAll next pieces outs' last) :
    ReadsAll s (piece :: pieces) (outs ++ outs') last

/-- A turn on a piece begins the turn on any longer one: it does the same and leaves the rest,
    or it takes the whole piece and waits, and goes on with the rest as the long turn would. -/
structure Splits (Inv : σ → Prop) : Prop where
  waits : ∀ s xs, Inv s → turn s xs = .waits → xs = []
  fails : ∀ s xs ys error, Inv s → turn s xs = .fails error → turn s (xs ++ ys) = .fails error
  goes : ∀ s xs next rest out, Inv s → turn s xs = .goes next rest out → Inv next ∧
    ((∀ ys, turn s (xs ++ ys) = .goes next (rest ++ ys) out) ∨
      rest = [] ∧ out = none ∧ turn next [] = .waits ∧
        ∀ ys, ys ≠ [] → turn s (xs ++ ys) = turn next ys)

variable {turn} {Inv : σ → Prop} {s s' : σ} {xs ys : List α} {outs outs' : List β}
  {last last' : Except ε σ}

theorem reads_same (first : Reads turn s xs outs last) (second : Reads turn s xs outs' last') :
    outs = outs' ∧ last = last' := by
  induction first generalizing outs' last' with
  | waits here =>
    cases second with
    | waits here' => exact ⟨rfl, rfl⟩
    | fails here' => simp [here] at here'
    | goes here' more => simp [here] at here'
  | fails here =>
    cases second with
    | waits here' => simp [here] at here'
    | fails here' =>
      obtain rfl := Turn.fails.inj (here.symm.trans here')
      exact ⟨rfl, rfl⟩
    | goes here' more => simp [here] at here'
  | goes here more ih =>
    cases second with
    | waits here' => simp [here] at here'
    | fails here' => simp [here] at here'
    | goes here' more' =>
      obtain ⟨rfl, rfl, rfl⟩ := Turn.goes.inj (here.symm.trans here')
      obtain ⟨rfl, rfl⟩ := ih more'
      exact ⟨rfl, rfl⟩

theorem reads_keeps (splits : Splits turn Inv) (inv : Inv s)
    (reads : Reads turn s xs outs (.ok s')) : Inv s' := by
  generalize ends : Except.ok s' = last at reads
  induction reads with
  | waits here => exact Except.ok.inj ends ▸ inv
  | fails here => cases ends
  | goes here more ih => exact ih (splits.goes _ _ _ _ _ inv here).1 ends

theorem reads_fails (splits : Splits turn Inv) (inv : Inv s) {error : ε}
    (reads : Reads turn s xs outs (.error error)) (ys : List α) :
    Reads turn s (xs ++ ys) outs (.error error) := by
  generalize ends : Except.error error = last at reads
  induction reads with
  | waits here => cases ends
  | fails here => exact .fails (splits.fails _ _ ys _ inv here)
  | goes here more ih =>
    obtain ⟨inv', same | ⟨rfl, rfl, waiting, _⟩⟩ := splits.goes _ _ _ _ _ inv here
    · exact .goes (same ys) (ih inv' ends)
    · cases more with
      | waits here' => cases ends
      | fails here' => simp [waiting] at here'
      | goes here' more => simp [waiting] at here'

/-- Two pieces, one after the other, are read as one. -/
theorem reads_append (splits : Splits turn Inv) (inv : Inv s)
    (first : Reads turn s xs outs (.ok s')) (second : Reads turn s' ys outs' last') :
    Reads turn s (xs ++ ys) (outs ++ outs') last' := by
  generalize ends : Except.ok s' = last at first
  induction first with
  | waits here =>
    obtain rfl := Except.ok.inj ends
    rw [splits.waits _ _ inv here]
    exact second
  | fails here => cases ends
  | @goes s next xs rest out outs last here more ih =>
    obtain ⟨inv', same | ⟨rfl, rfl, waiting, joined⟩⟩ := splits.goes _ _ _ _ _ inv here
    · rw [List.append_assoc]
      exact .goes (same ys) (ih inv' ends)
    · cases more with
      | fails here' => simp [waiting] at here'
      | goes here' more => simp [waiting] at here'
      | waits here' =>
        obtain rfl := Except.ok.inj ends
        by_cases empty : ys = []
        · subst empty
          rw [List.append_nil]
          exact .goes here second
        · have turns := joined ys empty
          cases second with
          | waits here'' => exact absurd (splits.waits _ _ inv' here'') empty
          | fails here'' => exact .fails (turns.trans here'')
          | goes here'' more => exact .goes (turns.trans here'') more

/-- What comes out of the beginning of an input comes out first. -/
theorem reads_early (splits : Splits turn Inv) (inv : Inv s)
    (goes_on : ∀ s', Reads turn s xs outs (.ok s') → ∃ outs' last', Reads turn s' ys outs' last')
    (first : Reads turn s xs outs last) (whole : Reads turn s (xs ++ ys) outs' last') :
    outs <+: outs' := by
  cases last with
  | error error =>
    obtain ⟨rfl, _⟩ := reads_same (reads_fails splits inv first ys) whole
    exact List.prefix_rfl
  | ok s' =>
    obtain ⟨more, ending, rest⟩ := goes_on s' first
    obtain ⟨rfl, _⟩ := reads_same (reads_append splits inv first rest) whole
    exact List.prefix_append _ _

/-- A piece is read up to its end. -/
theorem reads_waiting (splits : Splits turn Inv) (inv : Inv s)
    (reads : Reads turn s xs outs (.ok s')) : turn s' [] = .waits := by
  generalize ends : Except.ok s' = last at reads
  induction reads with
  | waits here =>
    obtain rfl := Except.ok.inj ends
    rwa [splits.waits _ _ inv here] at here
  | fails here => cases ends
  | goes here more ih => exact ih (splits.goes _ _ _ _ _ inv here).1 ends

/-- Pieces are read as the whole they were cut from. -/
theorem reads_flatten (splits : Splits turn Inv) (inv : Inv s) (waiting : turn s [] = .waits)
    {pieces : List (List α)} (reads : ReadsAll turn s pieces outs last) :
    Reads turn s pieces.flatten outs last := by
  induction reads with
  | done => exact .waits waiting
  | fails here => exact reads_fails splits inv here _
  | goes here more ih =>
    have rest := ih (reads_keeps splits inv here) (reads_waiting splits inv here)
    exact reads_append splits inv here rest

/-- Two cuts of one input are read alike. -/
theorem cuts_agree (splits : Splits turn Inv) (inv : Inv s) (waiting : turn s [] = .waits)
    {pieces pieces' : List (List α)} (same : pieces.flatten = pieces'.flatten)
    (reads : ReadsAll turn s pieces outs last) (reads' : ReadsAll turn s pieces' outs' last') :
    outs = outs' ∧ last = last' := by
  have whole := reads_flatten splits inv waiting reads
  rw [same] at whole
  exact reads_same whole (reads_flatten splits inv waiting reads')

end PiecewiseReader

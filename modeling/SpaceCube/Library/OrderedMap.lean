import Mathlib.Data.List.Pairwise

/- A map kept in the order of its keys under a comparison that is a strict weak order, as
   std::map keeps it: keys of which neither comes first are one key. -/
namespace OrderedMap
variable {κ ν : Type*}

structure Comparison (κ : Type*) where
  less : κ → κ → Bool
  irrefl : ∀ k, less k k = false
  trans : ∀ a b c, less a b = true → less b c = true → less a c = true
  between : ∀ a b c, less a b = true → less a c = true ∨ less c b = true

structure Map (cmp : Comparison κ) (ν : Type*) where
  entries : List (κ × ν)
  sorted : entries.Pairwise fun a b => cmp.less a.1 b.1 = true

variable {cmp : Comparison κ}

def Map.empty (cmp : Comparison κ) (ν : Type*) : Map cmp ν := ⟨[], List.Pairwise.nil⟩

def lookup (cmp : Comparison κ) (key : κ) : List (κ × ν) → Option ν
  | [] => none
  | (k, v) :: rest =>
    if cmp.less k key then lookup cmp key rest else if cmp.less key k then none else some v

def Map.find (m : Map cmp ν) (key : κ) : Option ν := lookup cmp key m.entries

/-- An entry that is there keeps its own spelling of the key. -/
def place (cmp : Comparison κ) (key : κ) (val : ν) : List (κ × ν) → List (κ × ν)
  | [] => [(key, val)]
  | (k, v) :: rest =>
    if cmp.less k key then (k, v) :: place cmp key val rest
    else if cmp.less key k then (key, val) :: (k, v) :: rest
    else (k, val) :: rest

theorem mem_place {key : κ} {val : ν} {entries : List (κ × ν)} {e : κ × ν}
    (mem : e ∈ place cmp key val entries) : e.1 = key ∨ ∃ v, (e.1, v) ∈ entries := by
  induction entries with
  | nil =>
    simp only [place, List.mem_singleton] at mem
    exact Or.inl (congrArg Prod.fst mem)
  | cons first rest ih =>
    obtain ⟨k, v⟩ := first
    rw [place] at mem
    split at mem
    · rcases List.mem_cons.mp mem with rfl | later
      · exact Or.inr ⟨v, by simp⟩
      · rcases ih later with same | ⟨v', there⟩
        · exact Or.inl same
        · exact Or.inr ⟨v', by simp [there]⟩
    · split at mem
      · rcases List.mem_cons.mp mem with rfl | later
        · exact Or.inl rfl
        · exact Or.inr ⟨e.2, later⟩
      · rcases List.mem_cons.mp mem with rfl | later
        · exact Or.inr ⟨v, by simp⟩
        · exact Or.inr ⟨e.2, by simp [later]⟩

theorem place_sorted (key : κ) (val : ν) {entries : List (κ × ν)}
    (sorted : entries.Pairwise fun a b => cmp.less a.1 b.1 = true) :
    (place cmp key val entries).Pairwise fun a b => cmp.less a.1 b.1 = true := by
  induction entries with
  | nil => exact List.pairwise_singleton _ _
  | cons first rest ih =>
    obtain ⟨k, v⟩ := first
    obtain ⟨head, tail⟩ := List.pairwise_cons.mp sorted
    rw [place]
    split
    · rename_i before
      refine List.pairwise_cons.mpr ⟨fun e mem => ?_, ih tail⟩
      rcases mem_place mem with same | ⟨v', there⟩
      · exact same ▸ before
      · exact head (e.1, v') there
    · split
      · rename_i after
        refine List.pairwise_cons.mpr ⟨fun e mem => ?_, sorted⟩
        rcases List.mem_cons.mp mem with rfl | later
        · exact after
        · exact cmp.trans _ _ _ after (head e later)
      · exact List.pairwise_cons.mpr ⟨head, tail⟩

def Map.insert (m : Map cmp ν) (key : κ) (val : ν) : Map cmp ν :=
  ⟨place cmp key val m.entries, place_sorted key val m.sorted⟩

variable {m : Map cmp ν} {key other : κ} {val : ν}

end OrderedMap

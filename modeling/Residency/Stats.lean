import Residency.Failure

/-!
# Counting what a lowering does

Five counters. While code is lowered they only grow, by one at a time
(`Residency.Stats.incr`), and the counters of a function are the sums of those of
its blocks (`Residency.Stats.add`).

A counter that is kept in a 64-bit word may run over; `Residency.Stats.raise?` and
`Residency.Stats.add?` are the operations that notice. They agree with the others as long as there
is room (`Residency.Stats.raise?_eq_ok_iff`, `Residency.Stats.add?_eq_ok_iff`). Counters never
fall, so if there is room for what has come of it in the end, then there was room all along
(`Residency.Stats.foldlM_check_eq_ok_iff`): nothing is lost by counting without a bound.
-/

namespace Residency

/-- What is counted. -/
inductive Counter
  /-- Stores inserted. -/
  | spills
  /-- Loads inserted. -/
  | reloads
  /-- Values evicted that their slot held already. -/
  | cleanEvictions
  /-- Evictions for the sake of a folded operand. -/
  | foldEvictions
  /-- Blocks lowered. -/
  | blocks
  deriving DecidableEq, Repr

/-- The counters, in the order in which they are written. -/
def Counter.all : List Counter :=
  [.spills, .reloads, .cleanEvictions, .foldEvictions, .blocks]

/-- The name of a counter. -/
def Counter.name : Counter → String
  | .spills => "spills"
  | .reloads => "reloads"
  | .cleanEvictions => "clean_evictions"
  | .foldEvictions => "fold_evictions"
  | .blocks => "blocks"

/-- The values of the counters. -/
@[ext]
structure Stats where
  /-- Stores inserted. -/
  spills : Nat := 0
  /-- Loads inserted. -/
  reloads : Nat := 0
  /-- Values evicted that their slot held already. -/
  cleanEvictions : Nat := 0
  /-- Evictions for the sake of a folded operand. -/
  foldEvictions : Nat := 0
  /-- Blocks lowered. -/
  blocks : Nat := 0
  deriving DecidableEq, Repr

namespace Stats

/-- The value of a counter. -/
def get (s : Stats) : Counter → Nat
  | .spills => s.spills
  | .reloads => s.reloads
  | .cleanEvictions => s.cleanEvictions
  | .foldEvictions => s.foldEvictions
  | .blocks => s.blocks

/-- So many more. -/
def raise (s : Stats) (n : Nat) : Counter → Stats
  | .spills => { s with spills := s.spills + n }
  | .reloads => { s with reloads := s.reloads + n }
  | .cleanEvictions => { s with cleanEvictions := s.cleanEvictions + n }
  | .foldEvictions => { s with foldEvictions := s.foldEvictions + n }
  | .blocks => { s with blocks := s.blocks + n }

/-- One more. -/
def incr (s : Stats) (c : Counter) : Stats := s.raise 1 c

/-- The sums of the counters. -/
def add (s t : Stats) : Stats where
  spills := s.spills + t.spills
  reloads := s.reloads + t.reloads
  cleanEvictions := s.cleanEvictions + t.cleanEvictions
  foldEvictions := s.foldEvictions + t.foldEvictions
  blocks := s.blocks + t.blocks

/-- The sums of the counters of a list. -/
def sum (l : List Stats) : Stats := l.foldl add {}

theorem get_incr (s : Stats) (c d : Counter) :
    (s.incr c).get d = s.get d + if c = d then 1 else 0 := by
  cases c <;> cases d <;> rfl

theorem get_add (s t : Stats) (c : Counter) : (s.add t).get c = s.get c + t.get c := by
  cases c <;> rfl

/-! ### Counters of 64 bits -/

/-- The counters as they are, if each has room in 64 bits. -/
def check (s : Stats) : Except Fault Stats :=
  if Counter.all.all fun c => s.get c < UInt64.size then .ok s else .error .counterOverflow

/-- So many more. -/
def raise? (s : Stats) (n : Nat) (c : Counter) : Except Fault Stats := check (s.raise n c)

/-- The sums of the counters. -/
def add? (s t : Stats) : Except Fault Stats := check (s.add t)

/-- Every counter has room in 64 bits. -/
def Fits (s : Stats) : Prop := ∀ c, s.get c < UInt64.size

theorem get_le_get_raise (s : Stats) (n : Nat) (c d : Counter) :
    s.get d ≤ (s.raise n c).get d := by
  cases c <;> cases d <;> simp [raise, get]

theorem get_le_get_add (s t : Stats) (c : Counter) : s.get c ≤ (s.add t).get c := by
  rw [get_add]
  exact Nat.le_add_right _ _

variable {s t u : Stats} {n : Nat} {c : Counter}

theorem check_eq_ok_iff : check s = .ok t ↔ s = t ∧ t.Fits := by
  have hall : (Counter.all.all fun c => decide (s.get c < UInt64.size)) = true ↔ s.Fits := by
    rw [List.all_eq_true]
    constructor
    · intro h c
      exact of_decide_eq_true (h c (by cases c <;> decide))
    · exact fun h c _ => decide_eq_true (h c)
  unfold check
  split
  · rename_i hs
    rw [Except.ok.injEq]
    exact ⟨fun h => ⟨h, h ▸ hall.1 hs⟩, And.left⟩
  · rename_i hs
    refine ⟨nofun, ?_⟩
    rintro ⟨rfl, ht⟩
    exact absurd (hall.2 ht) hs

/-- **A counter is raised** as it is without a bound, as long as there is room. -/
theorem raise?_eq_ok_iff : s.raise? n c = .ok t ↔ s.raise n c = t ∧ t.Fits := check_eq_ok_iff

/-- **Counters are added** as they are without a bound, as long as there is room. -/
theorem add?_eq_ok_iff : s.add? t = .ok u ↔ s.add t = u ∧ u.Fits := check_eq_ok_iff

section Many

variable {α : Type} {f : Stats → α → Stats}

/-- Counters that no step lets fall are not less after many of them. -/
theorem get_le_get_foldl (hf : ∀ s x c, s.get c ≤ (f s x).get c) (l : List α) (s : Stats)
    (c : Counter) : s.get c ≤ (l.foldl f s).get c := by
  induction l generalizing s with
  | nil => exact Nat.le_refl _
  | cons x l ih => exact Nat.le_trans (hf s x c) (ih (f s x))

/-- **Whatever is counted one after the other** comes to the same with a bound and without one, as
long as there is room for it all. -/
theorem foldlM_check_eq_ok_iff (hf : ∀ s x c, s.get c ≤ (f s x).get c) (hs : s.Fits)
    {l : List α} :
    l.foldlM (fun s x => check (f s x)) s = .ok t ↔ l.foldl f s = t ∧ t.Fits := by
  induction l generalizing s with
  | nil =>
    constructor
    · rintro ⟨⟩
      exact ⟨rfl, hs⟩
    · rintro ⟨rfl, -⟩
      rfl
  | cons x l ih =>
    rw [List.foldlM_cons, List.foldl_cons, except_bind_eq_ok_iff]
    constructor
    · rintro ⟨_, hx, hl⟩
      obtain ⟨rfl, hfits⟩ := check_eq_ok_iff.1 hx
      exact (ih hfits).1 hl
    · rintro ⟨rfl, ht⟩
      have hfits : (f s x).Fits := fun c =>
        Nat.lt_of_le_of_lt (get_le_get_foldl hf l (f s x) c) (ht c)
      exact ⟨f s x, check_eq_ok_iff.2 ⟨rfl, hfits⟩, (ih hfits).2 ⟨rfl, ht⟩⟩

theorem fits_empty : Fits {} := by
  intro c
  cases c <;> decide

/-- **The sums of a list** are the same with a bound and without one, as long as there is room. -/
theorem foldlM_add?_eq_ok_iff {l : List Stats} :
    l.foldlM add? {} = .ok t ↔ sum l = t ∧ t.Fits :=
  foldlM_check_eq_ok_iff get_le_get_add fits_empty

/-- **Counters that are raised one after the other** are the same with a bound and without one, as
long as there is room. -/
theorem foldlM_raise?_eq_ok_iff {l : List Counter} :
    l.foldlM (fun s c => raise? s 1 c) {} = .ok t ↔ l.foldl incr {} = t ∧ t.Fits :=
  foldlM_check_eq_ok_iff (fun s c d => get_le_get_raise s 1 c d) fits_empty

end Many

/-! ### How they are written -/

/-- The counters, each with its name. -/
def text (s : Stats) : String :=
  separated " " (Counter.all.map fun c => c.name ++ "=" ++ toString (s.get c))

end Stats

end Residency

/-!
# How much is logged

Five levels, from nothing to everything. A message has a level, and so has a log; a
message is logged when it is not above the level of the log. Nothing is logged at
level zero, so a log of level zero is empty.
-/

namespace Residency

/-- How much is logged. -/
inductive Level
  /-- Nothing. -/
  | disabled
  /-- Errors. -/
  | error
  /-- Warnings. -/
  | warning
  /-- A summary of each lowered block. -/
  | blockEvent
  /-- Every load, store and eviction. -/
  | regEvent
  deriving DecidableEq, Repr

namespace Level

/-- The levels, in their order. -/
def all : List Level := [.disabled, .error, .warning, .blockEvent, .regEvent]

/-- The number of a level. -/
def num : Level → Nat
  | .disabled => 0
  | .error => 1
  | .warning => 2
  | .blockEvent => 3
  | .regEvent => 4

/-- The level of a number. -/
def ofNum? : Nat → Option Level
  | 0 => some .disabled
  | 1 => some .error
  | 2 => some .warning
  | 3 => some .blockEvent
  | 4 => some .regEvent
  | _ => none

theorem ofNum?_eq_some_iff {n : Nat} {l : Level} : ofNum? n = some l ↔ l.num = n := by
  constructor
  · intro h
    unfold ofNum? at h
    split at h <;> cases h <;> rfl
  · rintro rfl
    cases l <;> rfl

/-- Is a message of level `l` logged by a log of level `log`? -/
def admits (log l : Level) : Bool := l != .disabled && decide (l.num ≤ log.num)

/-- What a line of a level starts with. Level zero has no lines. -/
def lead : Level → String
  | .disabled => ""
  | .error => "regspill-error"
  | .warning => "regspill-warning"
  | .blockEvent => "regspill-block-event"
  | .regEvent => "regspill-reg-event"

/-- The line that a text makes in a log, at a level. -/
def line (l : Level) (text : String) : String := l.lead ++ ": " ++ text

end Level

end Residency

import Residency.Level
import Residency.Stats

/-!
# What a lowering tells

A lowering leaves a trace of messages (`Residency.Message`): one for every load, every
store and every value that is dropped, a summary of every block and of the function,
and the error that put an end to it. Each kind of message has its level
(`Residency.Message.level`), and a trace at a level holds the messages that the level
admits (`Residency.Level.record`).
-/

namespace Residency

/-- A message of a lowering. -/
inductive Message
  /-- A value is loaded from its slot. -/
  | loaded (b : BlockId) (v : VReg) (s : Slot) (r : Reg)
  /-- A value is stored to its slot, behind the instruction at a position. -/
  | stored (b : BlockId) (v : VReg) (r : Reg) (s : Slot) (pos : Nat)
  /-- A value leaves its register without a store. -/
  | dropped (b : BlockId) (v : VReg) (r : Reg)
  /-- A block is lowered. -/
  | blockDone (func : String) (b : BlockId) (stats : Stats)
  /-- A function is lowered. -/
  | funcDone (func : String) (stats : Stats) (jobs : Nat)
  /-- A function cannot be lowered. -/
  | failed (func : String) (e : LoweringError)
  deriving DecidableEq, Repr

/-- The level of a message. -/
def Message.level : Message → Level
  | .loaded .. => .regEvent
  | .stored .. => .regEvent
  | .dropped .. => .regEvent
  | .blockDone .. => .blockEvent
  | .funcDone .. => .blockEvent
  | .failed .. => .error

/-- The wording of a message. -/
def Message.text : Message → String
  | .loaded b v s r =>
    b.text ++ ": reload " ++ v.text ++ " from " ++ s.text ++ " into " ++ r.name
  | .stored b v r s pos =>
    b.text ++ ": spill " ++ v.text ++ " from " ++ r.name ++ " to " ++ s.text ++
      " after position " ++ toString pos
  | .dropped b v r => b.text ++ ": evict clean " ++ v.text ++ " from " ++ r.name
  | .blockDone func b stats => func ++ ":" ++ b.text ++ ": " ++ stats.text
  | .funcDone func stats jobs => func ++ ": " ++ stats.text ++ " jobs=" ++ toString jobs
  | .failed func e => func ++ ": rewriting failed: " ++ e.text

/-- The line that a message makes in a log. -/
def Message.line (m : Message) : String := m.level.line m.text

/-- A trace with one more message, if the level of the trace admits it. -/
def Level.record (level : Level) (trace : Array Message) (m : Message) : Array Message :=
  if level.admits m.level then trace.push m else trace

end Residency

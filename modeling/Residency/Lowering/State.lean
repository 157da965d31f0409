import Residency.Lowering.Table
import Residency.Allocation
import Residency.Code.Build
import Residency.Target
import Residency.Lowering.Message

/-!
# The state of a lowering

What a lowering of one block is given (`Residency.Context`) and what it changes as it
goes (`Residency.State`): the table of residents, the block lowered so far, the
registers that the instruction at hand still has to read, the counters, the messages
logged, and the requests made of the target.

A step (`Residency.Step`) changes the state or fails. A failure leaves the state in
which it arose, so the messages logged until then are not lost.
-/

namespace Residency

/-! ### What a lowering is given -/

/-- What stays the same while a block is lowered. -/
structure Context where
  /-- The function that the block belongs to. -/
  func : Func
  /-- Where its virtual registers live. -/
  alloc : Allocation
  /-- The loads and stores of the target. -/
  target : Target
  /-- How much is logged. -/
  level : Level
  /-- The block. -/
  block : BlockId

/-! ### What a lowering changes -/

/-- An instruction of the lowered block, and the stores that come right behind it. -/
structure Entry where
  /-- The instruction. -/
  inst : Inst
  /-- The stores. -/
  stores : List Inst := []
  deriving DecidableEq, Repr

/-- The state of a lowering. The position of the instruction at hand is the number of
entries of `out`, once all loads for it are there. -/
structure State where
  /-- The values in the registers. -/
  table : Table := {}
  /-- The lowered block so far. -/
  out : Array Entry := #[]
  /-- The registers whose values the instruction at hand still has to read. -/
  reserved : List Reg := []
  /-- What is counted so far. -/
  stats : Stats := {}
  /-- The messages logged so far. -/
  trace : Array Message := #[]
  /-- What was asked of the target so far, in order. -/
  asked : Array Request := #[]
  deriving DecidableEq, Repr

/-- The instructions of entries, each followed by the stores behind it. -/
def Entry.flatten (es : List Entry) : List Inst :=
  es.flatMap fun e => e.inst :: e.stores

namespace State

/-- The state with a register free. -/
def free (s : State) (r : Reg) : State := { s with table := s.table.free r }

/-- The state with a value in a register. -/
def hold (s : State) (r : Reg) (x : Resident) : State := { s with table := s.table.hold r x }

/-- The state with one more entry. -/
def push (s : State) (i : Inst) : State := { s with out := s.out.push { inst := i } }

/-- The state with a store behind the instruction at a position. -/
def store (s : State) (pos : Nat) (i : Inst) : State :=
  { s with out := s.out.modify pos fun e => { e with stores := e.stores ++ [i] } }

/-- The state with a register kept until the instruction at hand has read it. -/
def reserve (s : State) (r : Reg) : State :=
  if r ∈ s.reserved then s else { s with reserved := s.reserved ++ [r] }

/-- The state with nothing left to read. -/
def release (s : State) : State := { s with reserved := [] }

/-- The state with one more of what is counted. -/
def count (s : State) (c : Counter) : State := { s with stats := s.stats.incr c }

/-- The state with a message logged, if the level admits it. -/
def log (s : State) (level : Level) (m : Message) : State :=
  { s with trace := level.record s.trace m }

/-- The state with one more request made of the target. -/
def request (s : State) (q : Request) : State := { s with asked := s.asked.push q }

end State

/-! ### Steps -/

/-- A step of a lowering: it changes the state, or fails and says why. -/
abbrev Step := EStateM Failure State

namespace Step

/-- A fault. -/
def fault {α : Type} (f : Fault) : Step α := throw (.fault f)

/-- What must be known. -/
def known {α : Type} : Except Fault α → Step α
  | .ok x => pure x
  | .error f => fault f

/-- The target is asked for an instruction, for a value of a class. -/
def ask (target : Target) (cls : RegClass) (q : Request) : Step Inst := do
  -- A request that the target refuses has been made too.
  modify fun s => s.request q
  match target.answer cls q with
  | .ok i => pure i
  | .error e => throw (.error e)

end Step

end Residency

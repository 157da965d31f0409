import Residency.Lowering.Pool
import Residency.Lowering.Check
import Residency.Settings

/-!
# Lowering a function

All blocks of a function are lowered, one after the other or by several workers, and
only when all of them are done do they take the place of the blocks that were there
(`Residency.lowerFunc`). So an error leaves the function as it was. The result is
checked if the settings say so; this is done last, and a fault found here leaves the
function lowered.

The statistics of a function are the sums of those of its blocks.
-/

namespace Residency

/-- The blocks of a function, in order. -/
def Func.blockIds (f : Func) : Except Fault (List BlockId) :=
  (List.range f.blocks.size).mapM fun n => (word n).map BlockId.mk

/-- Blocks one after the other, until one of them fails. -/
def runSerial {α : Type} (run : BlockId → Outcome α) : List BlockId → Outcome (List α)
  | [] => ⟨.ok [], #[]⟩
  | b :: rest =>
    let o := run b
    match o.result with
    | .error e => ⟨.error e, o.trace⟩
    | .ok x =>
      let os := runSerial run rest
      ⟨os.result.map (x :: ·), o.trace ++ os.trace⟩

/-- Blocks by several workers. -/
def runParallel {α : Type} (jobs : Nat) (run : BlockId → Outcome α) (blocks : List BlockId) :
    Outcome (List α) :=
  ((Pool.start jobs blocks).runSchedule run (Pool.oneByOne jobs blocks.length)).join

/-- What came of lowering a function. -/
structure FuncOutcome where
  /-- The statistics, or why there are none. -/
  result : Except Failure Stats
  /-- The function afterwards. -/
  func : Func
  /-- The messages logged, in order. -/
  trace : Array Message
  deriving Repr

namespace FuncOutcome

/-- An outcome with a message logged, if the level admits it. -/
def log (o : FuncOutcome) (level : Level) (m : Message) : FuncOutcome :=
  { o with trace := level.record o.trace m }

end FuncOutcome

/-- How many workers a function is lowered by: never more than it has blocks. -/
def Settings.workers (c : Settings) (f : Func) : Nat := min c.jobs f.blocks.size

/-- A block of a function is lowered, as the settings say. -/
def lowerNth (f : Func) (a : Allocation) (target : Target) (c : Settings) (b : BlockId) :
    Outcome (List Inst × Stats) :=
  lowerBlock ⟨f, a, target, c.log.level, b⟩

/-- All blocks of a function are lowered. -/
def lowerBlocks (f : Func) (a : Allocation) (target : Target) (c : Settings) :
    Outcome (List (List Inst × Stats)) :=
  match f.blockIds with
  | .error e => ⟨.error (.fault e), #[]⟩
  | .ok blocks =>
    let run := lowerNth f a target c
    if 1 < c.workers f then runParallel (c.workers f) run blocks else runSerial run blocks

/-- A function whose blocks are done: they take their places, and are checked. -/
def commit (f : Func) (a : Allocation) (c : Settings) (blocks : List (List Inst × Stats))
    (trace : Array Message) : FuncOutcome :=
  let done := f.withInsts (blocks.map Prod.fst)
  let stats := Stats.sum (blocks.map Prod.snd)
  -- The blocks are in their places already, whatever the check says.
  match if c.verify then done.checkLowered a else .ok () with
  | .error e => ⟨.error (.fault e), done, trace⟩
  | .ok () =>
    (FuncOutcome.mk (.ok stats) done trace).log c.log.level
      (.funcDone f.name stats (c.workers f))

/-- What becomes of a function once the work on its blocks has come to an end: only if all of
them are done does it change. -/
def settle (f : Func) (a : Allocation) (c : Settings) (o : Outcome (List (List Inst × Stats))) :
    FuncOutcome :=
  match o.result with
  | .ok blocks => commit f a c blocks o.trace
  | .error (.error e) =>
    (FuncOutcome.mk (.error (.error e)) f o.trace).log c.log.level (.failed f.name e)
  | .error (.fault e) => ⟨.error (.fault e), f, o.trace⟩

/-- A function is lowered. -/
def lowerFunc (f : Func) (a : Allocation) (target : Target) (c : Settings) : FuncOutcome :=
  settle f a c (lowerBlocks f a target c)

end Residency

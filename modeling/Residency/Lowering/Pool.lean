import Residency.Lowering.Block

/-!
# Workers that share a queue

Blocks have nothing to do with each other, so several workers can lower the blocks of a
function at the same time. They take the blocks from a shared queue
(`Residency.Pool.queue`) and put what comes of a block into its cell
(`Residency.Pool.cells`). A worker that meets an error empties the queue and stops, and
the others find nothing more to take; one that breaks down on a fault leaves the queue
to the others.

A step (`Residency.Pool.step`) is one worker taking a block, or ending with the block
that it has. Which worker makes the next step is not determined: a *schedule* lists the
workers in the order of their steps, and any list is a schedule. When all workers have
stopped, `Residency.Pool.join` collects what came of it: a fault, if a worker broke
down; otherwise an error, if a worker met one; otherwise the contents of the cells.
-/

namespace Residency

/-- What a worker is at. -/
inductive Worker
  /-- It is about to take a block. -/
  | idle
  /-- It has taken a block. -/
  | busy (b : BlockId)
  /-- It has found the queue empty and stopped. -/
  | finished
  /-- It has met an error and stopped. -/
  | failed (e : LoweringError)
  /-- It has broken down. -/
  | broken (f : Fault)
  deriving DecidableEq, Repr

/-- Has a worker stopped? -/
def Worker.stopped : Worker → Bool
  | .idle => false
  | .busy _ => false
  | .finished => true
  | .failed _ => true
  | .broken _ => true

/-- The error that a worker met. -/
def Worker.error? : Worker → Option LoweringError
  | .failed e => some e
  | _ => none

/-- The fault that a worker broke down on. -/
def Worker.fault? : Worker → Option Fault
  | .broken f => some f
  | _ => none

/-- Workers and what they share. -/
structure Pool (α : Type) where
  /-- The blocks that no worker has taken. -/
  queue : List BlockId
  /-- What came of each block, by number. -/
  cells : Array (Option α)
  /-- The workers. -/
  workers : Array Worker
  /-- The messages of the blocks that are done with. -/
  trace : Array Message := #[]
  deriving Repr

namespace Pool

variable {α : Type}

/-- Workers that have not begun, and all of the blocks in the queue. -/
def start (jobs : Nat) (blocks : List BlockId) : Pool α where
  queue := blocks
  cells := Array.replicate blocks.length none
  workers := Array.replicate jobs .idle

/-- The pool with one worker at something else. -/
def turn (p : Pool α) (w : Nat) (x : Worker) : Pool α :=
  { p with workers := p.workers.setIfInBounds w x }

/-- The pool when a worker ends with a block. -/
def finish (p : Pool α) (w : Nat) (b : BlockId) (o : Outcome α) : Pool α :=
  let p := { p with trace := p.trace ++ o.trace }
  match o.result with
  | .ok x => { p.turn w .idle with cells := p.cells.setIfInBounds b.index (some x) }
  | .error (.error e) => { p.turn w (.failed e) with queue := [] }
  | .error (.fault f) => p.turn w (.broken f)

/-- One step of a worker; `run` says what comes of a block. -/
def step (run : BlockId → Outcome α) (p : Pool α) (w : Nat) : Pool α :=
  match p.workers[w]? with
  | some .idle =>
    match p.queue with
    | [] => p.turn w .finished
    | b :: rest => { p.turn w (.busy b) with queue := rest }
  | some (.busy b) => p.finish w b (run b)
  | _ => p

/-- The steps of a schedule. -/
def runSchedule (run : BlockId → Outcome α) (p : Pool α) (schedule : List Nat) : Pool α :=
  schedule.foldl (step run) p

/-- Have all workers stopped? -/
def stopped (p : Pool α) : Bool := p.workers.all Worker.stopped

/-- The contents of the cells from number `n` on, which must all be filled. -/
def collectFrom : Nat → List (Option α) → Except Failure (List α)
  | _, [] => .ok []
  | n, some x :: rest => (collectFrom (n + 1) rest).map (x :: ·)
  | n, none :: _ => .error (.fault (.blockNotDone ⟨UInt32.ofNat n⟩))

/-- What came of the work, when all workers have stopped. -/
def join (p : Pool α) : Outcome (List α) where
  result :=
    match p.workers.toList.findSome? Worker.fault? with
    | some f => .error (.fault f)
    | none =>
      match p.workers.toList.findSome? Worker.error? with
      | some e => .error (.error e)
      | none => collectFrom 0 p.cells.toList
  trace := p.trace

/-- The schedule in which each worker goes on until it stops before the next one begins. A
worker takes two steps for each block, and one to find the queue empty. -/
def oneByOne (jobs blocks : Nat) : List Nat :=
  (List.range jobs).flatMap fun w => List.replicate (2 * blocks + 1) w

end Pool

end Residency

import Residency.Lowering.Event

/-!
# Lowering a block

The instructions of a block are taken one by one, from a table without residents: the
events of an instruction are carried out, and then the instruction itself joins the
lowered block, with the registers of its virtual registers in their place
(`Residency.Allocation.substitute`). At the end every register is evicted, so that
all dirty values are in their slots: nothing is left in a register for another block.

A terminator must be the last instruction and must not write a virtual register, for
there is no place behind it where a store could go.

Blocks have nothing to do with each other, so they may be lowered in any order.
-/

namespace Residency

open Step

/-- The register of an operand, where a virtual register gives way to its own. -/
def Allocation.substitute (a : Allocation) : RegRef → RegRef
  | .physical r => .physical r
  | .virtual v =>
    match a.placements[v.index]? with
    | some ⟨some r, _⟩ => .physical r
    | _ => .virtual v

/-- A terminator is in its place. -/
def checkTerminator (id : Site) (i : Inst) (isLast : Bool) : Step Unit :=
  if i.isTerminator then
    if !isLast then fault (.terminatorInside id i)
    else if i.writesVirtual then fault (.terminatorWrites id i)
    else pure ()
  else pure ()

/-- An instruction is lowered. -/
def lowerInst (c : Context) (id : Site) (i : Inst) : Step Unit := do
  (Event.before c.alloc id i).forM (Event.perform c id)
  -- All loads for the instruction are there, so its position is settled.
  modify State.release
  (Event.after i).forM (Event.perform c id)
  modify fun s => s.push (i.mapRefs c.alloc.substitute)

/-- The instructions of a block from position `n` on are lowered. -/
def lowerInsts (c : Context) : Nat → List Inst → Step Unit
  | _, [] => pure ()
  | n, i :: rest => do
    let id := Site.mk c.block (← known (word n))
    checkTerminator id i rest.isEmpty
    lowerInst c id i
    lowerInsts c (n + 1) rest

/-- A block is lowered: its instructions and what was counted. -/
def lowerBlockStep (c : Context) : Step (List Inst × Stats) := do
  let b ← known (c.func.block c.block)
  lowerInsts c 0 b.insts
  flush c
  modify fun s => s.count .blocks
  modify fun s => s.log c.level (.blockDone c.func.name c.block s.stats)
  let s ← get
  return (Entry.flatten s.out.toList, s.stats)

/-! ### Outcomes -/

/-- What came of a lowering, and what it logged. -/
structure Outcome (α : Type) where
  /-- What came of it. -/
  result : Except Failure α
  /-- The messages logged, in order. -/
  trace : Array Message
  deriving Repr

/-- A block is lowered, from a state in which nothing has happened yet. -/
def lowerBlock (c : Context) : Outcome (List Inst × Stats) :=
  match lowerBlockStep c {} with
  | .ok x s => ⟨.ok x, s.trace⟩
  | .error e s => ⟨.error e, s.trace⟩

/-- What is asked of the target while a block is lowered, in order. -/
def requestsFor (c : Context) : List Request :=
  match lowerBlockStep c {} with
  | .ok _ s => s.asked.toList
  | .error _ s => s.asked.toList

end Residency

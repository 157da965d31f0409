import Residency.Lowering.State

/-!
# Taking values out of registers

A register is made free by *evicting* the value that it holds. A clean value is
dropped, since its slot has it. A dirty one goes to its slot first, by a store that
stands right behind the instruction that last changed the value, however long ago that
was. Nothing in between can have touched the register: whatever does evicts the value,
and then it would not be here any more.

Evicting a register evicts its aliases with it (`Residency.evict`), since they share
its storage. At the end of a block every register is evicted (`Residency.flush`).

Three things cannot be done, and are faults: to evict a value that the instruction at
hand still has to read, to store a value that has no slot, and to evict a value that
the instruction at hand has just defined – it is not yet part of the block, and a
store behind it would come too late.
-/

namespace Residency

open Step

/-- The store of a dirty value to its slot, behind the instruction that defined it. -/
def storeDirty (c : Context) (r : Reg) (x : Resident) : Step Unit := do
  match ← known (c.alloc.slot? x.vreg) with
  | none => fault (.slotless c.block x.vreg r)
  | some slot =>
    -- The instruction at hand has no entry yet that a store could be put into.
    if (← get).out.size ≤ x.since then fault (.writtenTwice c.block x.since r x.vreg)
    else
      let cls ← known (c.func.classOf x.vreg)
      let i ← ask c.target cls (.store x.vreg r slot)
      modify fun s => s.log c.level (.stored c.block x.vreg r slot x.since)
      let _ ← known (entry (← get).out x.since)
      modify fun s => (s.store x.since i).count .spills

/-- The end of a clean value, which its slot keeps. -/
def dropClean (c : Context) (r : Reg) (x : Resident) : Step Unit :=
  modify fun s => (s.log c.level (.dropped c.block x.vreg r)).count .cleanEvictions

/-- The eviction of what a register holds, its aliases left alone. -/
def vacate (c : Context) (r : Reg) : Step Unit := do
  let s ← get
  match s.table.get? r with
  | none => pure ()
  | some x =>
    if r ∈ s.reserved then fault (.readWouldBeLost c.block s.out.size r x.vreg)
    else
      -- The register is free only after the store has succeeded.
      if x.dirty then storeDirty c r x else dropClean c r x
      modify fun s => s.free r

/-- The eviction of what a register and its aliases hold. -/
def evict (c : Context) (r : Reg) : Step Unit := do
  vacate c r
  r.aliases.forM (vacate c)

/-- The eviction of everything. -/
def flush (c : Context) : Step Unit := Reg.all.forM (vacate c)

end Residency

import Residency.Lowering.Eviction

/-!
# What an instruction does to the registers

Seen from the table of residents, an instruction is a list of events
(`Residency.Event`), in an order that is the same for every instruction.

1. The values folded into it are about to be used in their slots, so no register may
   keep a copy that is newer, or that would be out of date afterwards.
2. The values that it reads are brought into their registers, operand by operand.
3. The values that it overwrites in place become dirty.
4. The registers that it overwrites besides are evicted.
5. The operands that it writes are dealt with in order: the value of a virtual
   register is installed as dirty, and a physical register is evicted.
6. The physical registers that it overwrites in place are evicted.

All reads come before all writes: an instruction may read one value and write another
one that has the same register. `Residency.Event.before` are the events up to step 2
and `Residency.Event.after` the rest; between them lies the instruction's own place in
the lowered block.
-/

namespace Residency

open Step

/-! ### Events -/

/-- One thing that an instruction does to the registers. -/
inductive Event
  /-- The value of a virtual register is used in its slot. -/
  | fold (v : VReg)
  /-- The value of a virtual register is read in its register. -/
  | read (v : VReg)
  /-- The value of a virtual register is overwritten in place. -/
  | modify (v : VReg)
  /-- The value of a virtual register is written. -/
  | define (v : VReg)
  /-- A physical register is overwritten. -/
  | overwrite (r : Reg)
  deriving DecidableEq, Repr

namespace Event

/-- The read of an operand. -/
def ofRead? (o : Operand) : Option Event :=
  match o.read? with
  | some (.virtual v, _) => some (.read v)
  | _ => none

/-- The change of a virtual register in place. -/
def ofModify? : Operand → Option Event
  | .reg (.virtual v) .modify => some (.modify v)
  | _ => none

/-- The write of an operand. -/
def ofWrite? : Operand → Option Event
  | .reg (.virtual v) .write => some (.define v)
  | .reg (.physical r) .write => some (.overwrite r)
  | _ => none

/-- The change of a physical register in place. -/
def ofFixedModify? : Operand → Option Event
  | .reg (.physical r) .modify => some (.overwrite r)
  | _ => none

/-- The events before an instruction is in its place. -/
def before (a : Allocation) (id : Site) (i : Inst) : List Event :=
  (a.foldedInto id).map .fold ++ i.operands.filterMap ofRead?

/-- The events from there on. -/
def after (i : Inst) : List Event :=
  i.operands.filterMap ofModify? ++ i.clobbers.map .overwrite ++
    i.operands.filterMap ofWrite? ++ i.operands.filterMap ofFixedModify?

end Event

/-! ### Carrying out events -/

/-- The register of a virtual register that an operand names, which must have one. -/
def assigned (c : Context) (id : Site) (v : VReg) : Step Reg := do
  match ← known (c.alloc.reg? v) with
  | some r => pure r
  | none => fault (.unassigned id v)

/-- A value comes into its register, which must not have it yet, from its slot if it has
one. A value without a slot is there since the block began, or never was. -/
def load (c : Context) (r : Reg) (v : VReg) : Step Unit := do
  if (← get).table.holds r v then fault (.alreadyHeld r v)
  else
    evict c r
    match ← known (c.alloc.slot? v) with
    | some slot =>
      let cls ← known (c.func.classOf v)
      let i ← ask c.target cls (.load v slot r)
      -- The load is what put the value there, so its own position counts.
      modify fun s =>
        (((s.log c.level (.loaded c.block v slot r)).push i).count .reloads).hold r
          ⟨v, false, s.out.size⟩
    | none => modify fun s => s.hold r ⟨v, false, s.out.size⟩

/-- A value is dropped or stored if its register has it, since its slot is used. -/
def touchFolded (c : Context) (v : VReg) : Step Unit := do
  match ← known (c.alloc.reg? v) with
  | none => pure ()
  | some r =>
    if (← get).table.holds r v then
      modify fun s => s.count .foldEvictions
      evict c r

/-- A value is in its register, and stays there until it has been read. -/
def touchRead (c : Context) (id : Site) (v : VReg) : Step Unit := do
  let r ← assigned c id v
  if !(← get).table.holds r v then load c r v
  modify fun s => s.reserve r

/-- The value in the register of a virtual register is changed by the instruction at
hand. -/
def touchModified (c : Context) (id : Site) (v : VReg) : Step Unit := do
  let r ← assigned c id v
  let s ← get
  match s.table.get? r with
  | some x => set (s.hold r { x with dirty := true, since := s.out.size })
  | none => fault (.registerFree r)

/-- A new value of a virtual register is in its register, put there by the instruction at
hand. -/
def touchDefined (c : Context) (id : Site) (v : VReg) : Step Unit := do
  let r ← assigned c id v
  if !(← get).table.holds r v then evict c r
  modify fun s => s.hold r ⟨v, true, s.out.size⟩

/-- An event of an instruction is carried out. -/
def Event.perform (c : Context) (id : Site) : Event → Step Unit
  | .fold v => touchFolded c v
  | .read v => touchRead c id v
  | .modify v => touchModified c id v
  | .define v => touchDefined c id v
  | .overwrite r => evict c r

end Residency

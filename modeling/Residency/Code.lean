import Residency.Index
import Residency.Register

/-!
# Code over virtual and physical registers

A function is a list of blocks, a block is a list of instructions, and an
instruction is an opcode with operands. The opcode is not interpreted: all that is
known of an instruction is which registers its operands read, write or do both to
(`Residency.Access`), which registers it overwrites besides (`clobbers`), and
whether it ends its block.

A register operand names a virtual register until the function is lowered and a
physical one afterwards. The one exception is a virtual register *folded* into a
memory operand (`Residency.Operand.folded`): the instruction works on the value in
its stack slot, and no register is involved.
-/

namespace Residency

/-! ### Operands -/

/-- The register that an operand names. -/
inductive RegRef
  /-- A virtual register. -/
  | virtual (v : VReg)
  /-- A physical register. -/
  | physical (r : Reg)
  deriving DecidableEq, Repr

/-- What an instruction does to a register operand. -/
inductive Access
  /-- It reads the register. -/
  | read
  /-- It writes the register, whatever was there. -/
  | write
  /-- It reads the register and then overwrites it in place. -/
  | modify
  deriving DecidableEq, Repr

/-- An operand of an instruction. -/
inductive Operand
  /-- A register. -/
  | reg (ref : RegRef) (access : Access)
  /-- A constant. -/
  | imm (value : Int64)
  /-- The memory at a distance from the address in a register, which is read. -/
  | base (ref : RegRef) (offset : Int32)
  /-- A stack slot. -/
  | slot (s : Slot)
  /-- The value of a virtual register, where its stack slot holds it. -/
  | folded (v : VReg)
  /-- A block to jump to. -/
  | label (b : BlockId)
  deriving DecidableEq, Repr

/-- The register that an operand names, if any, whether it is read or written. -/
def Operand.ref? : Operand → Option RegRef
  | .reg ref _ => some ref
  | .base ref _ => some ref
  | .imm _ => none
  | .slot _ => none
  | .folded _ => none
  | .label _ => none

/-- The register that an operand reads, if any, and whether it overwrites it as well. -/
def Operand.read? : Operand → Option (RegRef × Bool)
  | .reg ref .read => some (ref, false)
  | .reg ref .modify => some (ref, true)
  | .base ref _ => some (ref, false)
  | .reg _ .write => none
  | .imm _ => none
  | .slot _ => none
  | .folded _ => none
  | .label _ => none

/-- An operand with the register that it names replaced. -/
def Operand.mapRef (f : RegRef → RegRef) : Operand → Operand
  | .reg ref a => .reg (f ref) a
  | .base ref off => .base (f ref) off
  | .imm x => .imm x
  | .slot s => .slot s
  | .folded v => .folded v
  | .label b => .label b

/-- Does an operand write a virtual register? -/
def Operand.writesVirtual : Operand → Bool
  | .reg (.virtual _) .write => true
  | .reg (.virtual _) .modify => true
  | _ => false

/-! ### Instructions -/

/-- An instruction. -/
structure Inst where
  /-- The operation, which is not interpreted. -/
  opcode : String
  /-- Its operands, in order. -/
  operands : List Operand
  /-- The registers that it overwrites whatever its operands are. -/
  clobbers : List Reg := []
  /-- Does it end its block? -/
  isTerminator : Bool := false
  deriving DecidableEq, Repr

/-- Does an instruction write a virtual register? -/
def Inst.writesVirtual (i : Inst) : Bool := i.operands.any Operand.writesVirtual

/-- An instruction with the registers that its operands name replaced. -/
def Inst.mapRefs (f : RegRef → RegRef) (i : Inst) : Inst :=
  { i with operands := i.operands.map (Operand.mapRef f) }

/-! ### Functions -/

/-- A block of a function: instructions that run one after the other. -/
structure Block where
  /-- Its instructions, in order. -/
  insts : List Inst
  deriving DecidableEq, Repr

/-- A function. -/
structure Func where
  /-- Its name, which only messages mention. -/
  name : String
  /-- The class of each virtual register, by number. -/
  classes : Array RegClass := #[]
  /-- Its blocks, by number. -/
  blocks : Array Block := #[]
  deriving DecidableEq, Repr

/-- A function with the instructions of its blocks replaced, one list for each block
from the first on. -/
def Func.withInsts (f : Func) (bodies : List (List Inst)) : Func :=
  { f with blocks := (bodies.map Block.mk).toArray }

end Residency

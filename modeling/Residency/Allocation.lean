import Residency.Failure

/-!
# Where values live

The decisions of a register allocator, which a lowering takes as given. Each
virtual register has a placement: a register, a stack slot, or both. Besides, an
allocator may have *folded* a virtual register into an instruction: the instruction
then works on the value in its slot. Which virtual registers are folded into which
instruction is recorded pair by pair, each pair once, in the order of recording
(`Residency.Allocation.folded`).
-/

namespace Residency

/-- Where a virtual register lives. -/
structure Placement where
  /-- Its register, whenever its value is in a register. Only a virtual register that
  is never an operand in its own right may have none. -/
  reg : Option Reg := none
  /-- Its stack slot, if its value ever has to go to memory. -/
  slot : Option Slot := none
  deriving DecidableEq, Repr

/-- The decisions for the virtual registers of a function. -/
structure Allocation where
  /-- The placement of each virtual register, by number. -/
  placements : Array Placement := #[]
  /-- The virtual registers folded into instructions. -/
  folded : List (Site × VReg) := []
  deriving DecidableEq, Repr

namespace Allocation

/-- The decisions with one more placement, and the virtual register that it is for. -/
def push (a : Allocation) (p : Placement) : Except Fault (VReg × Allocation) :=
  (word a.placements.size).map fun n => (⟨n⟩, { a with placements := a.placements.push p })

/-- The decisions with a virtual register folded into an instruction. -/
def recordFold (a : Allocation) (i : Site) (v : VReg) : Allocation :=
  if (i, v) ∈ a.folded then a else { a with folded := a.folded ++ [(i, v)] }

/-- The virtual registers folded into an instruction, in the order of recording. -/
def foldedInto (a : Allocation) (i : Site) : List VReg :=
  (a.folded.filter fun p => p.1 = i).map Prod.snd

/-- The register of a virtual register, if it has one. The virtual register must be
known. -/
def reg? (a : Allocation) (v : VReg) : Except Fault (Option Reg) :=
  (entry a.placements v.index).map Placement.reg

/-- The slot of a virtual register, if it has one. The virtual register must be known. -/
def slot? (a : Allocation) (v : VReg) : Except Fault (Option Slot) :=
  (entry a.placements v.index).map Placement.slot

end Allocation

end Residency

import Residency.Failure

/-!
# Building functions and looking into them

A function grows by one virtual register or one block at a time, and each gets the next
number. What is looked up must be there: a number that a table does not have is a fault.
-/

namespace Residency

/-- A function with one more virtual register, and that virtual register. -/
def Func.pushVReg (f : Func) (c : RegClass) : Except Fault (VReg × Func) :=
  (word f.classes.size).map fun n => (⟨n⟩, { f with classes := f.classes.push c })

/-- A function with one more block, and the number of that block. -/
def Func.pushBlock (f : Func) (b : Block) : Except Fault (BlockId × Func) :=
  (word f.blocks.size).map fun n => (⟨n⟩, { f with blocks := f.blocks.push b })

/-- The class of a virtual register, which must be known. -/
def Func.classOf (f : Func) (v : VReg) : Except Fault RegClass := entry f.classes v.index

/-- A block, which must exist. -/
def Func.block (f : Func) (b : BlockId) : Except Fault Block := entry f.blocks b.index

/-- A function with the instructions of one block replaced. The block must exist. -/
def Func.setInsts (f : Func) (b : BlockId) (insts : List Inst) : Except Fault Func :=
  (f.block b).map fun _ => { f with blocks := f.blocks.set! b.index ⟨insts⟩ }

end Residency

import Residency.Allocation

/-!
# The form of lowered code

What may be relied on once code is lowered. It passes the check when

* no operand names a virtual register, neither as a register nor as the base of an
  address;
* every virtual register that is folded into an instruction has a slot: a lowering
  leaves it as it is, and takes all other virtual registers away;
* only the last instruction of a block is a terminator.

The check knows nothing of how code is lowered. The instructions are looked at in
order, and of an instruction first its place and then its operands, so that the fault
reported is always the first one.
-/

namespace Residency

/-- An operand of lowered code. -/
def checkOperand (a : Allocation) (id : Site) (i : Inst) (o : Operand) : Except Fault Unit :=
  match o with
  | .reg (.virtual v) _ => .error (.leftVirtual id v i)
  | .base (.virtual v) _ => .error (.leftVirtual id v i)
  | .folded v => do
    if (← a.slot? v).isNone then .error (.leftSlotless id v i)
  | _ => .ok ()

/-- An instruction of lowered code. -/
def checkInst (a : Allocation) (id : Site) (i : Inst) (isLast : Bool) : Except Fault Unit :=
  if i.isTerminator && !isLast then .error (.leftTerminatorInside id i)
  else i.operands.forM (checkOperand a id i)

/-- The instructions of a block from position `n` on. -/
def checkInstsFrom (a : Allocation) (b : BlockId) : Nat → List Inst → Except Fault Unit
  | _, [] => .ok ()
  | n, i :: rest => do
    checkInst a ⟨b, ← word n⟩ i rest.isEmpty
    checkInstsFrom a b (n + 1) rest

/-- The blocks from number `n` on. -/
def checkBlocksFrom (a : Allocation) : Nat → List Block → Except Fault Unit
  | _, [] => .ok ()
  | n, b :: rest => do
    checkInstsFrom a ⟨← word n⟩ 0 b.insts
    checkBlocksFrom a (n + 1) rest

/-- A function that has been lowered. -/
def Func.checkLowered (f : Func) (a : Allocation) : Except Fault Unit :=
  checkBlocksFrom a 0 f.blocks.toList

end Residency

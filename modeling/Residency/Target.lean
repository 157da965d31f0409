import Residency.Failure

/-!
# Loads and stores

A target says with which instruction a register goes to its slot and comes back from
it. It may refuse: then the lowering that asked comes to nothing.

`Residency.Target.x64` moves values with `mov`, and vectors with `movsd`; it
refuses a register that is not of the class of the value.
-/

namespace Residency

/-- The loads and stores of a target. -/
structure Target where
  /-- The instruction that stores a register, which holds a value of a class, to a slot. -/
  store : Reg → Slot → RegClass → Except LoweringError Inst
  /-- The instruction that loads a register with the value of a class from a slot. -/
  load : Slot → Reg → RegClass → Except LoweringError Inst

/-- What is asked of a target, for the sake of a virtual register. -/
inductive Request
  /-- A store of its register to its slot. -/
  | store (v : VReg) (r : Reg) (s : Slot)
  /-- A load of its register from its slot. -/
  | load (v : VReg) (s : Slot) (r : Reg)
  deriving DecidableEq, Repr

/-- What a target answers to a request for a value of a class. -/
def Target.answer (t : Target) (cls : RegClass) : Request → Except LoweringError Inst
  | .store _ r s => t.store r s cls
  | .load _ s r => t.load s r cls

/-- A store of a register to a slot. -/
def Inst.store (opcode : String) (s : Slot) (r : Reg) : Inst :=
  ⟨opcode, [.slot s, .reg (.physical r) .read], [], false⟩

/-- A load of a register from a slot. -/
def Inst.load (opcode : String) (r : Reg) (s : Slot) : Inst :=
  ⟨opcode, [.reg (.physical r) .write, .slot s], [], false⟩

/-- The opcode that moves a value of a class between memory and a register of the class. -/
def RegClass.moveOpcode : RegClass → String
  | .xmm => "movsd"
  | .gpr8 => "mov"
  | .gpr16 => "mov"
  | .gpr32 => "mov"
  | .gpr64 => "mov"

namespace Target

/-- The opcode that moves a value of a class between memory and a register. -/
def opcode (r : Reg) (c : RegClass) : Except LoweringError String :=
  if r.regClass = c then .ok c.moveOpcode
  else .error (.unsupported (r.name ++ " cannot hold a value of class " ++ c.name))

/-- The loads and stores of x64. -/
def x64 : Target where
  store r s c := (opcode r c).map fun op => .store op s r
  load s r c := (opcode r c).map fun op => .load op r s

theorem opcode_eq_ok_iff {r : Reg} {c : RegClass} {op : String} :
    opcode r c = .ok op ↔ r.regClass = c ∧ c.moveOpcode = op := by
  unfold opcode
  split
  · rename_i h
    simp [h]
  · rename_i h
    simp [h]

/-- x64 stores a register that is of the class of the value, and no other. -/
theorem x64_store_eq_ok_iff {r : Reg} {s : Slot} {c : RegClass} {i : Inst} :
    x64.store r s c = .ok i ↔ r.regClass = c ∧ Inst.store c.moveOpcode s r = i := by
  simp [x64, map_eq_ok_iff, opcode_eq_ok_iff, and_assoc]

/-- x64 loads a register that is of the class of the value, and no other. -/
theorem x64_load_eq_ok_iff {r : Reg} {s : Slot} {c : RegClass} {i : Inst} :
    x64.load s r c = .ok i ↔ r.regClass = c ∧ Inst.load c.moveOpcode r s = i := by
  simp [x64, map_eq_ok_iff, opcode_eq_ok_iff, and_assoc]

end Target

end Residency

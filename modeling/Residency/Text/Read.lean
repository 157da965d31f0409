import Residency.Text.Source
import Residency.Allocation
import Residency.Code.Build

/-!
# From text to code

What a text spells out becomes a function and the placements of its virtual
registers. The declarations come first, and with them the placements: a declared
slot is the next slot of the frame, so no two virtual registers share one. Then come
the blocks. Every operand `[fold %n]` is also recorded as a virtual register folded
into its instruction.

The form of the whole text is settled first (`Residency.Fault.unreadable`); after
that the words are looked at from the left, and the first one that cannot stand
where it does is named with its place (`Residency.Fault.mistake`). Two things are
looked at out of that order: the distance from a base register before the register
itself, and a number in a target that no block can have, which is a fault without a
place.
-/

namespace Residency.Text

/-! ### Words -/

/-- A token that cannot stand where it does. -/
def refuse {α : Type} (m : Mistake) (t : Token) : Except Fault α :=
  .error (.mistake m t.place (String.ofList t.word))

/-- The number behind the first `skip` characters of a token. -/
def tokenNat (skip : Nat) (t : Token) : Except Fault Nat :=
  match readNat (UInt64.size - 1) (t.word.drop skip) with
  | .ok n => .ok n
  | .error e => refuse (.numeral e) t

/-- The number that a token is. -/
def tokenInt (bits : Nat) (t : Token) : Except Fault Int :=
  match readInt bits t.word with
  | .ok n => .ok n
  | .error e => refuse (.numeral e) t

/-- The register that a token names behind its dollar sign. -/
def tokenReg (t : Token) : Except Fault Reg :=
  match Reg.ofName? (String.ofList (t.word.drop 1)) with
  | some r => .ok r
  | none => refuse .unknownRegister t

/-- The class that a token names. -/
def tokenClass (t : Token) : Except Fault RegClass :=
  match RegClass.ofName? (String.ofList t.word) with
  | some c => .ok c
  | none => refuse .unknownClass t

/-- The virtual register that a token names, when `declared` of them are declared. -/
def tokenVReg (declared : Nat) (t : Token) : Except Fault VReg := do
  let n ← tokenNat 1 t
  if n < declared then return ⟨← word n⟩ else refuse .undeclared t

/-! ### Declarations -/

/-- What is declared so far. -/
structure Scope where
  /-- The classes of the virtual registers. -/
  func : Func
  /-- Their placements. -/
  alloc : Allocation := {}
  /-- How many slots are given out. -/
  slots : Nat := 0

/-- One more declaration. -/
def declare (s : Scope) (d : Declaration) : Except Fault Scope := do
  let n ← tokenNat 1 d.vreg
  if n ≠ s.func.classes.size then refuse .declarationOrder d.vreg
  let (_, func) ← s.func.pushVReg (← tokenClass d.cls)
  let reg ← d.reg.mapM tokenReg
  let slot ← if d.hasSlot then (word s.slots).map fun w => some (Slot.mk w) else pure none
  let (_, alloc) ← s.alloc.push ⟨reg, slot⟩
  return ⟨func, alloc, if d.hasSlot then s.slots + 1 else s.slots⟩

/-! ### Blocks -/

/-- A register where it is used. -/
def reference (declared : Nat) : Reference → Except Fault RegRef
  | .virtual t => (tokenVReg declared t).map .virtual
  | .physical t => (tokenReg t).map .physical

/-- An operand. -/
def operand (declared : Nat) : OperandForm → Except Fault Operand
  | .reg r a => (reference declared r).map fun ref => .reg ref a
  | .imm t => (tokenInt 64 t).map fun x => .imm (Int64.ofInt x)
  | .label t => do return .label ⟨← word (← tokenNat 3 t)⟩
  | .folded t => (tokenVReg declared t).map .folded
  | .base r off => do
    -- Of two mistakes, the one in the distance is reported.
    let off ← match off with
      | some t => tokenInt 32 t
      | none => pure 0
    return .base (← reference declared r) (Int32.ofInt off)

/-- An instruction. -/
def inst (declared : Nat) (i : InstForm) : Except Fault Inst := do
  let operands ← i.operands.mapM (operand declared)
  let clobbers ← i.clobbers.mapM tokenReg
  return ⟨String.ofList i.opcode.word, operands, clobbers, i.isTerminator⟩

/-- The instructions of a block from position `n` on, each with its name. -/
def instsFrom (declared : Nat) (b : BlockId) : Nat → List InstForm →
    Except Fault (List (Site × Inst))
  | _, [] => .ok []
  | n, i :: rest => do
    let id := Site.mk b (← word n)
    let i ← inst declared i
    return (id, i) :: (← instsFrom declared b (n + 1) rest)

/-- The blocks from number `n` on. -/
def blocksFrom (declared : Nat) : Nat → List BlockForm →
    Except Fault (List (List (Site × Inst)))
  | _, [] => .ok []
  | n, b :: rest => do
    if (← tokenNat 2 b.label) ≠ n then refuse .blockOrder b.label
    let insts ← instsFrom declared ⟨← word n⟩ 0 b.insts
    return insts :: (← blocksFrom declared (n + 1) rest)

/-! ### Whole texts -/

/-- The placements, with the virtual registers recorded that an instruction folds. -/
def recordFolds (a : Allocation) (i : Site × Inst) : Allocation :=
  i.2.operands.foldl
    (fun a o => match o with
      | .folded v => a.recordFold i.1 v
      | _ => a) a

/-- What is spelt out, as a function and the placements of its virtual registers. -/
def Source.read (name : String) (s : Source) : Except Fault (Func × Allocation) := do
  let scope ← s.declarations.foldlM declare ⟨{ name := name }, {}, 0⟩
  let blocks ← blocksFrom scope.func.classes.size 0 s.blocks
  return (scope.func.withInsts (blocks.map fun insts => insts.map Prod.snd),
    blocks.flatten.foldl recordFolds scope.alloc)

/-- What a text spells out, if it has the form of a function. -/
def source? (text : String) : Option Source := tokens {} text.toList >>= readSource

/-- The function of a text and the placements of its virtual registers; the function is
given a name. -/
def read (name : String) (text : String) : Except Fault (Func × Allocation) :=
  match source? text with
  | none => .error .unreadable
  | some s => s.read name

end Residency.Text

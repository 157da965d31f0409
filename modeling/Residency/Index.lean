/-!
# Numbers of values, slots, blocks and instructions

Virtual registers, stack slots, blocks and the instructions of a block are all
numbered from zero, and every number fits in 32 bits. This file gives each kind of
number a type of its own, so that a slot cannot be taken for a virtual register,
together with the way it is written: `%3`, `ss3`, `bb3`, and `bb3:5` for the
instruction at position 5 of block 3.

A number that comes from outside is checked once, by `Residency.word?`; past that
check nothing wraps.
-/

namespace Residency

/-! ### Words -/

/-- The 32-bit word of value `n`, when there is one. -/
def word? (n : Nat) : Option UInt32 :=
  if n < UInt32.size then some (UInt32.ofNat n) else none

theorem word?_toNat (w : UInt32) : word? w.toNat = some w := by
  rw [word?, if_pos w.toNat_lt, UInt32.ofNat_toNat]

theorem toNat_of_word? {n : Nat} {w : UInt32} (h : word? n = some w) : w.toNat = n := by
  unfold word? at h
  split at h
  · rename_i hn
    cases h
    exact UInt32.toNat_ofNat_of_lt' hn
  · cases h

/-! ### The kinds of numbers -/

/-- A virtual register. -/
structure VReg where
  /-- Its number, in the order of declaration. -/
  num : UInt32
  deriving DecidableEq, Repr, Hashable

/-- A stack slot. -/
structure Slot where
  /-- Its number in the frame. -/
  num : UInt32
  deriving DecidableEq, Repr, Hashable

/-- A block of a function. -/
structure BlockId where
  /-- Its position in the function. -/
  num : UInt32
  deriving DecidableEq, Repr, Hashable

/-- An instruction, named by its position **before** the function is lowered. -/
structure Site where
  /-- The block that holds it. -/
  block : BlockId
  /-- Its position in that block. -/
  pos : UInt32
  deriving DecidableEq, Repr, Hashable

/-- The position of a virtual register in a table of virtual registers. -/
def VReg.index (v : VReg) : Nat := v.num.toNat

/-- The position of a block in its function. -/
def BlockId.index (b : BlockId) : Nat := b.num.toNat

/-! ### How they are written -/

/-- A virtual register is its number behind a percent sign. -/
def VReg.text (v : VReg) : String := "%" ++ toString v.num.toNat

/-- A slot is its number behind `ss`. -/
def Slot.text (s : Slot) : String := "ss" ++ toString s.num.toNat

/-- A block is its number behind `bb`. -/
def BlockId.text (b : BlockId) : String := "bb" ++ toString b.num.toNat

/-- An instruction is its block and its position, separated by a colon. -/
def Site.text (i : Site) : String := i.block.text ++ ":" ++ toString i.pos.toNat

end Residency

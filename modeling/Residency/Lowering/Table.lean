import Residency.Register
import Residency.Index
import Residency.Lookup

/-!
# Which value a register holds

The table that a lowering keeps while it goes through a block: for each register the
value that it holds, if any (`Residency.Table.get?`). A value is **clean** while the
slot of its virtual register holds it too, and **dirty** from the instruction on that
changed it. The table also says where in the lowered block the value came into the
register; that is the place behind which a store of it belongs.

A register is changed by `Residency.Table.hold` and `Residency.Table.free`, which
leave all other registers alone.
-/

namespace Residency

/-- A value in a register. -/
structure Resident where
  /-- The virtual register that it is the value of. -/
  vreg : VReg
  /-- Is it newer than what the slot of the virtual register holds? -/
  dirty : Bool
  /-- The position in the lowered block of the instruction that put it there. -/
  since : Nat
  deriving DecidableEq, Repr

/-- The values that the registers hold. A register that is not listed is free. -/
structure Table where
  /-- The registers that hold something, each once. -/
  held : List (Reg × Resident) := []
  deriving DecidableEq, Repr

namespace Table

/-- What a register holds. -/
def get? (t : Table) (r : Reg) : Option Resident := t.held.lookup r

/-- The table with a register free. -/
def free (t : Table) (r : Reg) : Table := ⟨t.held.filter fun p => p.1 ≠ r⟩

/-- The table with a value in a register, in place of what it held. -/
def hold (t : Table) (r : Reg) (x : Resident) : Table := ⟨(r, x) :: (t.free r).held⟩

/-- Does a register hold the value of a virtual register? -/
def holds (t : Table) (r : Reg) (v : VReg) : Bool :=
  match t.get? r with
  | some x => x.vreg == v
  | none => false

/-! ### What the operations do -/

@[simp]
theorem get?_empty (r : Reg) : ({} : Table).get? r = none := rfl

@[simp]
theorem get?_free (t : Table) (r s : Reg) :
    (t.free r).get? s = if s = r then none else t.get? s :=
  lookup_filter_ne

@[simp]
theorem get?_hold (t : Table) (r s : Reg) (x : Resident) :
    (t.hold r x).get? s = if s = r then some x else t.get? s :=
  lookup_cons_filter_ne

theorem holds_iff {t : Table} {r : Reg} {v : VReg} :
    t.holds r v = true ↔ ∃ x, t.get? r = some x ∧ x.vreg = v := by
  unfold holds
  split <;> simp_all

end Table

end Residency

/-!
# The register file

The registers of an x64 processor that values may live in: fourteen general
purpose families, each seen at four widths, the second byte of the first four
families, and sixteen vector registers. The stack pointer and the frame pointer
are not among them.

Registers of one family share storage. `Residency.Reg.overlaps` says so by bits:
a register names a run of bits of a cell (`Residency.Reg.cell`, `Residency.Reg.lo`,
`Residency.Reg.hi`), and two registers overlap when they have a bit in common. So
`AL` overlaps `AX`, `EAX` and `RAX`, but not `AH`. The other registers that a
register overlaps are its aliases (`Residency.Reg.mem_aliases`), and overlapping is
symmetric (`Residency.Reg.overlaps_comm`).
-/

namespace Residency

/-! ### Registers -/

/-- The width at which a general purpose family is seen, from its lowest bit. -/
inductive Width
  /-- 64 bits. -/
  | quad
  /-- 32 bits. -/
  | double
  /-- 16 bits. -/
  | word
  /-- 8 bits. -/
  | byte
  deriving DecidableEq, Repr

/-- A register. -/
inductive Reg
  /-- The low bits of a general purpose family, numbered A, C, D, B, SI, DI, then 8 to 15. -/
  | gpr (family : Fin 14) (width : Width)
  /-- The second byte of one of the families A, C, D and B. -/
  | high (family : Fin 4)
  /-- A vector register. -/
  | xmm (num : Fin 16)
  deriving DecidableEq, Repr

/-- What kind of value a register can hold, and what kind of value a virtual
register is. -/
inductive RegClass
  /-- A byte. -/
  | gpr8
  /-- 16 bits. -/
  | gpr16
  /-- 32 bits. -/
  | gpr32
  /-- 64 bits. -/
  | gpr64
  /-- A vector. -/
  | xmm
  deriving DecidableEq, Repr

/-! ### The order of the register file -/

/-- The registers of one general purpose family, the widest first. -/
def Reg.family (f : Fin 14) : List Reg :=
  [.gpr f .quad, .gpr f .double, .gpr f .word, .gpr f .byte] ++
    if h : f.val < 4 then [.high ⟨f.val, h⟩] else []

/-- Every register, in the order of the register file: family by family, then the
vector registers. -/
def Reg.all : List Reg :=
  (List.finRange 14).flatMap Reg.family ++ (List.finRange 16).map .xmm

/-- Every register is in the register file. -/
theorem Reg.mem_all (r : Reg) : r ∈ Reg.all := by
  unfold Reg.all Reg.family
  cases r with
  | gpr f w =>
    refine List.mem_append_left _ (List.mem_flatMap.2 ⟨f, List.mem_finRange f, ?_⟩)
    cases w <;> simp
  | high f =>
    refine List.mem_append_left _ (List.mem_flatMap.2
      ⟨⟨f.val, by omega⟩, List.mem_finRange _, List.mem_append_right _ ?_⟩)
    simp [f.isLt]
  | xmm n => exact List.mem_append_right _ (List.mem_map.2 ⟨n, List.mem_finRange n, rfl⟩)

/-- The register file has no register twice. -/
theorem Reg.nodup_all : Reg.all.Nodup := by decide

/-- The position of a register in the register file. -/
def Reg.index (r : Reg) : Nat := Reg.all.idxOf r

/-- The register at a position of the register file. -/
def Reg.ofIndex? (i : Nat) : Option Reg := Reg.all[i]?

/-! ### Names -/

/-- The name of a general purpose family at a width. Four families are named by a
letter, two by a pair of letters, and the rest by a number. -/
def Reg.gprName (f : Fin 14) (w : Width) : String :=
  if f.val < 4 then
    let letter := ["A", "C", "D", "B"].getD f.val ""
    match w with
    | .quad => "R" ++ letter ++ "X"
    | .double => "E" ++ letter ++ "X"
    | .word => letter ++ "X"
    | .byte => letter ++ "L"
  else if f.val < 6 then
    let stem := ["SI", "DI"].getD (f.val - 4) ""
    match w with
    | .quad => "R" ++ stem
    | .double => "E" ++ stem
    | .word => stem
    | .byte => stem ++ "L"
  else
    let stem := "R" ++ toString (f.val + 2)
    match w with
    | .quad => stem
    | .double => stem ++ "D"
    | .word => stem ++ "W"
    | .byte => stem ++ "B"

/-- The name of a register. -/
def Reg.name : Reg → String
  | .gpr f w => Reg.gprName f w
  | .high f => ["A", "C", "D", "B"].getD f.val "" ++ "H"
  | .xmm n => "XMM" ++ toString n.val

/-- The registers by name. -/
def Reg.names : List (String × Reg) := Reg.all.map fun r => (r.name, r)

/-- The register of a name, in capitals as it is written. -/
def Reg.ofName? (s : String) : Option Reg := Reg.names.lookup s

/-- The name of a class. -/
def RegClass.name : RegClass → String
  | .gpr8 => "gpr8"
  | .gpr16 => "gpr16"
  | .gpr32 => "gpr32"
  | .gpr64 => "gpr64"
  | .xmm => "xmm"

/-- The class of a name, in small letters as it is written. -/
def RegClass.ofName? : String → Option RegClass
  | "gpr8" => some .gpr8
  | "gpr16" => some .gpr16
  | "gpr32" => some .gpr32
  | "gpr64" => some .gpr64
  | "xmm" => some .xmm
  | _ => none

/-- The class of the values that a register holds. -/
def Reg.regClass : Reg → RegClass
  | .gpr _ .quad => .gpr64
  | .gpr _ .double => .gpr32
  | .gpr _ .word => .gpr16
  | .gpr _ .byte => .gpr8
  | .high _ => .gpr8
  | .xmm _ => .xmm

/-! ### Shared storage -/

/-- The cell of the register file that a register is a part of: one for each general
purpose family, and after them one for each vector register. -/
def Reg.cell : Reg → Nat
  | .gpr f _ => f.val
  | .high f => f.val
  | .xmm n => 14 + n.val

/-- The first bit of its cell that a register names. -/
def Reg.lo : Reg → Nat
  | .high _ => 8
  | _ => 0

/-- The end of the bits of its cell that a register names. -/
def Reg.hi : Reg → Nat
  | .gpr _ .quad => 64
  | .gpr _ .double => 32
  | .gpr _ .word => 16
  | .gpr _ .byte => 8
  | .high _ => 16
  | .xmm _ => 128

/-- Two registers overlap when they have a bit of storage in common. -/
def Reg.overlaps (r s : Reg) : Bool :=
  r.cell == s.cell && decide (r.lo < s.hi) && decide (s.lo < r.hi)

theorem Reg.overlaps_iff {r s : Reg} :
    r.overlaps s = true ↔ r.cell = s.cell ∧ r.lo < s.hi ∧ s.lo < r.hi := by
  simp [Reg.overlaps, and_assoc]

theorem Reg.overlaps_refl (r : Reg) : r.overlaps r = true := by
  rw [Reg.overlaps_iff]
  rcases r with ⟨_, _ | _ | _ | _⟩ | _ | _ <;> simp [Reg.lo, Reg.hi]

theorem Reg.overlaps_comm (r s : Reg) : r.overlaps s = s.overlaps r := by
  rw [Bool.eq_iff_iff, Reg.overlaps_iff, Reg.overlaps_iff]
  exact ⟨fun h => ⟨h.1.symm, h.2.2, h.2.1⟩, fun h => ⟨h.1.symm, h.2.2, h.2.1⟩⟩

/-- The aliases of a register are the other registers that it overlaps, in the order
of the register file. -/
def Reg.aliases (r : Reg) : List Reg :=
  Reg.all.filter fun s => s != r && r.overlaps s

theorem Reg.mem_aliases {r s : Reg} : s ∈ r.aliases ↔ s ≠ r ∧ r.overlaps s = true := by
  simp [Reg.aliases, Reg.mem_all]

end Residency

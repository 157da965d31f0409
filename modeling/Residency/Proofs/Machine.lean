import Mathlib.Logic.Function.Basic
import Residency.Proofs.Access

/-!
# What code computes

Two machines run the same instructions. The **ideal** one (`Residency.Ideal`) has a cell for
each virtual register and runs code before it is lowered. The **real** one
(`Residency.Machine`) has registers and stack slots and runs lowered code. What an instruction
computes is not interpreted: each time it is executed, an effect says which fresh value goes to
each virtual register that it writes, and which of its folded operands it writes
(`Residency.Effect`). Both machines are given the same effects, and both record what they
have seen of each instruction: its opcode, and what its operands have read (`Ideal.seen`,
`Machine.seen`).

The real machine tells the moves that a lowering has inserted by their stack slot
(`Residency.Inst.move?`). Every other instruction is taken for the lowered form of the next one
on its agenda: the fresh value of a virtual register goes to the register that the lowered
operand names. Whatever else the instruction overwrites holds anything afterwards, and so does
what shares storage with a register that is written: such values come from a source of noise
that nothing is known of.

Two facts about the real machine are all that is needed of it later. A register that code does
not overwrite keeps its value (`Residency.Machine.run_regs`), and a value can just as well be
put into a slot before some code as behind it, if the code does not touch the slot
(`Residency.Machine.run_put`).
-/

namespace Residency

variable {V : Type}

/-! ### Effects -/

/-- What an instruction does with values, when it is executed once. -/
structure Effect (V : Type) where
  /-- The fresh value of each virtual register that it writes. -/
  value : VReg → V
  /-- Does it write a virtual register that is folded into it? -/
  folds : VReg → Bool

/-- The virtual register whose value an operand reads. -/
def Operand.value? : Operand → Option VReg
  | .reg (.virtual v) .read => some v
  | .reg (.virtual v) .modify => some v
  | .base (.virtual v) _ => some v
  | .folded v => some v
  | _ => none

/-- The slot of a virtual register, if it has one and is known. -/
def Allocation.home? (a : Allocation) (v : VReg) : Option Slot :=
  a.placements[v.index]?.bind Placement.slot

theorem Allocation.home?_eq_some_iff {a : Allocation} {v : VReg} {slot : Slot} :
    a.home? v = some slot ↔ a.slot? v = .ok (some slot) := by
  rw [Allocation.slot?_eq_ok_iff, home?, Option.bind_eq_some_iff]

/-- The virtual register whose value an operand reads, if it has a slot. A virtual register
without one has no value that could be followed: it is never written. -/
def Operand.tracked? (a : Allocation) (o : Operand) : Option VReg :=
  o.value?.filter fun v => (a.home? v).isSome

/-- Does an instruction write a virtual register, by an operand or folded into it? -/
def Inst.changes (i : Inst) (e : Effect V) (v : VReg) : Bool :=
  i.operands.any fun o => o.written? == some v || (o == .folded v && e.folds v)

/-! ### The ideal machine -/

/-- A machine with a cell for each virtual register. -/
structure Ideal (V : Type) where
  /-- What the cells hold. -/
  cells : VReg → V
  /-- The opcodes of the instructions executed, and what their operands have read. -/
  seen : List (String × List (Option V)) := []

/-- An instruction reads, and then writes. -/
def Ideal.step (a : Allocation) (m : Ideal V) (p : Inst × Effect V) : Ideal V where
  cells v := if p.1.changes p.2 v then p.2.value v else m.cells v
  seen := m.seen ++ [(p.1.opcode, p.1.operands.map fun o => (o.tracked? a).map m.cells)]

/-- Instructions are executed one after the other. -/
def Ideal.run (a : Allocation) (agenda : List (Inst × Effect V)) (m : Ideal V) : Ideal V :=
  agenda.foldl (Ideal.step a) m

/-! ### The real machine -/

/-- A machine with registers and stack slots. -/
@[ext]
structure Machine (V : Type) where
  /-- What the registers hold. -/
  regs : Reg → V
  /-- What the slots hold. -/
  slots : Slot → V
  /-- What registers will hold that are overwritten. -/
  noise : Nat → Reg → V
  /-- The instructions still to be executed, and their effects. -/
  agenda : List (Inst × Effect V) := []
  /-- The opcodes of the instructions executed, and what their operands have read. -/
  seen : List (String × List (Option V)) := []

/-- A move between a register and a slot. -/
inductive Move
  /-- From the slot to the register. -/
  | load (r : Reg) (s : Slot)
  /-- From the register to the slot. -/
  | store (s : Slot) (r : Reg)

/-- The move that an instruction is, if it is one. -/
def Inst.move? (j : Inst) : Option Move :=
  match j.operands with
  | [.reg (.physical r) .write, .slot s] => some (.load r s)
  | [.slot s, .reg (.physical r) .read] => some (.store s r)
  | _ => none

/-- The operands of a lowered instruction that write a part of a register: the virtual register
that each of them wrote before, and the register that it writes now. -/
def Inst.writers (i j : Inst) (r : Reg) : List (Option VReg × Reg) :=
  (i.operands.zip j.operands).filterMap fun p =>
    p.2.output?.bind fun q => if q.overlaps r then some (p.1.written?, q) else none

/-- The virtual register whose value a lowered instruction puts into a register: no operand
may write anything else to a part of it. -/
def Inst.delivered? (i j : Inst) (r : Reg) : Option VReg :=
  match i.writers j r with
  | (some v, q) :: rest =>
    if ((some v, q) :: rest).all (· == (some v, r)) then some v else none
  | _ => none

/-- The virtual register whose value goes to a slot because it is folded into an operand. -/
def Operand.foldedTo? (a : Allocation) (e : Effect V) (slot : Slot) : Operand → Option VReg
  | .folded v => if e.folds v && a.home? v == some slot then some v else none
  | _ => none

/-- The virtual register whose value an instruction puts into a slot. -/
def Inst.foldedTo? (a : Allocation) (e : Effect V) (j : Inst) (slot : Slot) : Option VReg :=
  j.operands.findSome? (Operand.foldedTo? a e slot)

namespace Machine

/-- What an operand reads. -/
def fetch (a : Allocation) (t : Machine V) : Operand → Option V
  | .reg (.physical r) .read => some (t.regs r)
  | .reg (.physical r) .modify => some (t.regs r)
  | .base (.physical r) _ => some (t.regs r)
  | .folded v => (a.home? v).map t.slots
  | _ => none

/-- A value is put into a slot. -/
def put (t : Machine V) (slot : Slot) (x : V) : Machine V :=
  { t with slots := Function.update t.slots slot x }

/-- A move is made. -/
def move (t : Machine V) : Move → Machine V
  | .load r slot =>
    { t with
      regs := fun q =>
        if q = r then t.slots slot else if r.overlaps q then t.noise 0 q else t.regs q
      noise := fun n => t.noise (n + 1) }
  | .store slot r => t.put slot (t.regs r)

/-- An instruction `i` is executed in its lowered form `j`, and the agenda goes on with
`rest`. -/
def execute (a : Allocation) (t : Machine V) (j i : Inst) (e : Effect V)
    (rest : List (Inst × Effect V)) : Machine V where
  regs r :=
    match i.delivered? j r with
    | some v => e.value v
    | none => if j.overwrites r then t.noise 0 r else t.regs r
  slots slot :=
    match j.foldedTo? a e slot with
    | some v => e.value v
    | none => t.slots slot
  noise n := t.noise (n + 1)
  agenda := rest
  seen := t.seen ++ [(j.opcode, (i.operands.zip j.operands).map fun p =>
    if (p.1.tracked? a).isSome then t.fetch a p.2 else none)]

/-- One instruction of lowered code. -/
def step (a : Allocation) (t : Machine V) (j : Inst) : Machine V :=
  match j.move? with
  | some m => t.move m
  | none =>
    match t.agenda with
    | [] => t
    | (i, e) :: rest => t.execute a j i e rest

/-- Lowered code, one instruction after the other. -/
def run (a : Allocation) (code : List Inst) (t : Machine V) : Machine V := code.foldl (step a) t

end Machine

/-! ### What code leaves alone -/

/-- An instruction touches a slot, by an operand or by a virtual register folded into it. -/
def Inst.Touches (a : Allocation) (j : Inst) (slot : Slot) : Prop :=
  .slot slot ∈ j.operands ∨ ∃ v, .folded v ∈ j.operands ∧ a.home? v = some slot

theorem Inst.move?_eq_load_iff {j : Inst} {r : Reg} {slot : Slot} :
    j.move? = some (.load r slot) ↔ j.operands = [.reg (.physical r) .write, .slot slot] := by
  unfold Inst.move?
  constructor
  · intro h
    split at h
    · rename_i r' slot' hj
      cases h
      exact hj
    · cases h
    · cases h
  · intro h
    rw [h]

theorem Inst.move?_eq_store_iff {j : Inst} {r : Reg} {slot : Slot} :
    j.move? = some (.store slot r) ↔ j.operands = [.slot slot, .reg (.physical r) .read] := by
  unfold Inst.move?
  constructor
  · intro h
    split at h
    · cases h
    · rename_i r' slot' hj
      cases h
      exact hj
    · cases h
  · intro h
    rw [h]

theorem Inst.writers_eq_nil {i j : Inst} {r : Reg} (h : j.overwrites r = false) :
    i.writers j r = [] := by
  rw [Inst.writers, List.filterMap_eq_nil_iff]
  rintro ⟨o, o'⟩ hp
  cases ho : o'.output? with
  | none => rfl
  | some q =>
    have hq : q ∈ j.outputs := List.mem_filterMap.2 ⟨o', (List.of_mem_zip hp).2, ho⟩
    have hov : ¬ q.overlaps r = true := fun hov =>
      Bool.eq_false_iff.1 h (Inst.overwrites_iff.2 ⟨q, Or.inl hq, hov⟩)
    simp [hov]

theorem Operand.foldedTo?_eq_some_iff {a : Allocation} {e : Effect V} {slot : Slot}
    {o : Operand} {v : VReg} :
    o.foldedTo? a e slot = some v ↔
      o = .folded v ∧ e.folds v = true ∧ a.home? v = some slot := by
  cases o with
  | folded w =>
    simp only [Operand.foldedTo?, Option.ite_none_right_eq_some, Bool.and_eq_true, beq_iff_eq,
      Option.some.injEq, Operand.folded.injEq]
    constructor
    · rintro ⟨h, rfl⟩
      exact ⟨rfl, h⟩
    · rintro ⟨rfl, h⟩
      exact ⟨h, rfl⟩
  | _ => simp [Operand.foldedTo?]

theorem Inst.foldedTo?_eq_none {a : Allocation} {e : Effect V} {j : Inst} {slot : Slot}
    (h : ¬ j.Touches a slot) : j.foldedTo? a e slot = none := by
  rw [Inst.foldedTo?, List.findSome?_eq_none_iff]
  intro o ho
  refine Option.eq_none_iff_forall_ne_some.2 fun v hv => ?_
  obtain ⟨rfl, -, hslot⟩ := Operand.foldedTo?_eq_some_iff.1 hv
  exact h (Or.inr ⟨v, ho, hslot⟩)

namespace Machine

variable {a : Allocation} {t : Machine V} {j : Inst} {code code' : List Inst} {r : Reg}
  {slot : Slot} {x : V}

theorem run_append : t.run a (code ++ code') = (t.run a code).run a code' := List.foldl_append

/-- A register that an instruction does not overwrite keeps its value. -/
theorem step_regs (h : j.overwrites r = false) : (t.step a j).regs r = t.regs r := by
  unfold step
  cases hj : j.move? with
  | some m =>
    cases m with
    | load q s =>
      rw [Inst.move?_eq_load_iff] at hj
      have hov : q.overlaps r = false := by
        refine Bool.eq_false_iff.2 fun hov => Bool.eq_false_iff.1 h ?_
        exact Inst.overwrites_iff.2 ⟨q, Or.inl (by simp [Inst.outputs, hj, Operand.output?]), hov⟩
      have hne : r ≠ q := by
        rintro rfl
        rw [Reg.overlaps_refl] at hov
        cases hov
      simp [move, hne, hov]
    | store s q => rfl
  | none =>
    cases t.agenda with
    | nil => rfl
    | cons p rest =>
      have hnone : p.1.delivered? j r = none := by
        rw [Inst.delivered?, Inst.writers_eq_nil h]
      simp [execute, hnone, h]

/-- **Registers that code does not overwrite keep their values.** -/
theorem run_regs (h : ∀ j ∈ code, j.overwrites r = false) : (t.run a code).regs r = t.regs r := by
  induction code generalizing t with
  | nil => rfl
  | cons j code ih =>
    refine (ih (t := t.step a j) fun k hk => h k (List.mem_cons_of_mem j hk)).trans ?_
    exact step_regs (h j List.mem_cons_self)

theorem fetch_put {o : Operand} (h : ∀ v, o = .folded v → a.home? v ≠ some slot) :
    (t.put slot x).fetch a o = t.fetch a o := by
  cases o with
  | folded v =>
    simp only [fetch]
    cases hv : a.home? v with
    | none => rfl
    | some s =>
      have hne : s ≠ slot := by
        rintro rfl
        exact h v rfl hv
      simp [put, hne]
  | reg ref access => cases ref <;> cases access <;> rfl
  | base ref off => cases ref <;> rfl
  | _ => rfl

theorem execute_put {i : Inst} {e : Effect V} {rest : List (Inst × Effect V)}
    (h : ¬ j.Touches a slot) :
    (t.put slot x).execute a j i e rest = (t.execute a j i e rest).put slot x := by
  have hslots : (execute a (t.put slot x) j i e rest).slots =
      Function.update (execute a t j i e rest).slots slot x := by
    funext s
    simp only [execute, put]
    by_cases hs : s = slot
    · subst hs
      simp [Inst.foldedTo?_eq_none h]
    · simp [hs]
  have hseen : (execute a (t.put slot x) j i e rest).seen = (execute a t j i e rest).seen := by
    refine congrArg (fun l => t.seen ++ [(j.opcode, l)]) (List.map_congr_left fun p hp => ?_)
    rw [fetch_put]
    intro v hv hslot
    exact h (Or.inr ⟨v, hv ▸ (List.of_mem_zip hp).2, hslot⟩)
  exact Machine.ext rfl hslots rfl rfl hseen

/-- An instruction that does not touch a slot does the same before and after a value is put
there. -/
theorem step_put (h : ¬ j.Touches a slot) :
    (t.put slot x).step a j = (t.step a j).put slot x := by
  unfold step
  cases hj : j.move? with
  | some m =>
    cases m with
    | load q s =>
      have hne : s ≠ slot := by
        rintro rfl
        refine h (Or.inl ?_)
        rw [Inst.move?_eq_load_iff.1 hj]
        simp
      simp [move, put, hne]
    | store s q =>
      have hne : s ≠ slot := by
        rintro rfl
        refine h (Or.inl ?_)
        rw [Inst.move?_eq_store_iff.1 hj]
        simp
      simp [move, put, Function.update_comm hne]
  | none =>
    show (match t.agenda with | [] => _ | (i, e) :: rest => _) = _
    cases t.agenda with
    | nil => rfl
    | cons p rest => exact execute_put h

/-- **A value can be put into a slot before code that does not touch it**, or behind it. -/
theorem run_put (h : ∀ j ∈ code, ¬ j.Touches a slot) :
    (t.put slot x).run a code = (t.run a code).put slot x := by
  induction code generalizing t with
  | nil => rfl
  | cons j code ih =>
    have hstep : (t.put slot x).step a j = (t.step a j).put slot x :=
      step_put (h j List.mem_cons_self)
    calc (t.put slot x).run a (j :: code) = ((t.step a j).put slot x).run a code :=
          congrArg (run a code) hstep
      _ = ((t.step a j).run a code).put slot x :=
          ih fun k hk => h k (List.mem_cons_of_mem j hk)

end Machine

end Residency

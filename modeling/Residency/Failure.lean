import Residency.Code.Text
import Residency.Numeral

/-!
# What can go wrong

Two kinds of failure are kept apart.

* A `Residency.LoweringError` is one that the caller can do something about: the
  target has no instruction for a load or a store, a setting has no meaning, a
  resource has run out.
* A `Residency.Fault` is a broken promise: a text that is not code, a number that
  no table has, or an assignment that cannot be carried out. Work stops there.

Both are causes; their wording is in `Residency.LoweringError.text` and
`Residency.Fault.text`, and nowhere else. Two kinds of text have causes of their own: a
setting (`Residency.SettingError`) and a word of a text of code (`Residency.Mistake`).
-/

namespace Residency

/-! ### Errors -/

/-- A failure that the caller can act on. -/
inductive LoweringError
  /-- The target has no load or store for a register and a class. -/
  | unsupported (what : String)
  /-- A setting has a value without a meaning. -/
  | setting (reason : String)
  /-- Something that is needed has run out. -/
  | exhausted (what : String)
  deriving DecidableEq, Repr

/-- The wording of an error. -/
def LoweringError.text : LoweringError → String
  | .unsupported what => "Cannot materialise: " ++ what
  | .setting reason => "Invalid configuration: " ++ reason
  | .exhausted what => "Resource exhausted: " ++ what

/-! ### Settings without meaning -/

/-- Why a setting has no meaning. -/
inductive SettingError
  /-- A level is not a number. -/
  | levelNumeral (text : String) (e : NumeralError)
  /-- There is no level of that number. -/
  | levelTooHigh (n : Nat)
  /-- The description of a log has another form. -/
  | logForm
  /-- A number of jobs is not a number, or is zero. -/
  | jobs (text : String)
  /-- A switch is neither on nor off. -/
  | verify (text : String)
  deriving DecidableEq, Repr

/-- The wording of a setting error. -/
def SettingError.reason : SettingError → String
  | .levelNumeral text e => "Invalid REGSPILL_LOG level '" ++ text ++ "': " ++ e.text
  | .levelTooHigh n => "REGSPILL_LOG level " ++ toString n ++ " exceeds maximum 4"
  | .logForm => "REGSPILL_LOG must be of the format `[<path>|-:]<level>`"
  | .jobs text => "Invalid value for REGSPILL_JOBS: " ++ text
  | .verify text => "Invalid value for REGSPILL_VERIFY: " ++ text

/-! ### Places in a text -/

/-- A place in a text. Lines and columns are counted from one. -/
structure Place where
  /-- The line. -/
  line : Nat := 1
  /-- The character in the line. -/
  column : Nat := 1
  deriving DecidableEq, Repr

/-- The place behind a character. -/
def Place.after (p : Place) (c : Char) : Place :=
  if c = '\n' then ⟨p.line + 1, 1⟩ else ⟨p.line, p.column + 1⟩

/-- What is wrong with one word of a text whose form is right. -/
inductive Mistake
  /-- A number is out of range. -/
  | numeral (e : NumeralError)
  /-- A declaration has not the number that is its turn. -/
  | declarationOrder
  /-- There is no such class. -/
  | unknownClass
  /-- There is no such register. -/
  | unknownRegister
  /-- A block has not the number that is its turn. -/
  | blockOrder
  /-- A virtual register is not declared. -/
  | undeclared
  deriving DecidableEq, Repr

/-- The wording of a mistake. -/
def Mistake.text : Mistake → String
  | .numeral e => e.text
  | .declarationOrder => "Virtual registers must be declared in order %0, %1, ..."
  | .unknownClass => "Unknown register class"
  | .unknownRegister => "Unknown register"
  | .blockOrder => "Blocks must be labelled in order bb0, bb1, ..."
  | .undeclared => "Undeclared virtual register"

/-! ### Faults -/

/-- A broken promise. -/
inductive Fault
  /-- A table of length `len` has no entry `index`. -/
  | outOfBounds (len index : Nat)
  /-- A number is above the greatest that its kind has. -/
  | numberTooLarge (n greatest : Nat)
  /-- The register file has no register at a position. -/
  | noRegister
  /-- No worker is allowed. -/
  | noJobs
  /-- A counter has no room for the sum. -/
  | counterOverflow
  /-- A message is to be logged at the level that nothing is logged at. -/
  | nothingAtLevelZero
  /-- A text has not the form of a function. -/
  | unreadable
  /-- A word of a text cannot stand where it does. -/
  | mistake (m : Mistake) (place : Place) (word : String)
  /-- A terminator is followed by another instruction. -/
  | terminatorInside (id : Site) (inst : Inst)
  /-- A terminator writes a virtual register. -/
  | terminatorWrites (id : Site) (inst : Inst)
  /-- An operand needs the register of a virtual register that has none. -/
  | unassigned (id : Site) (v : VReg)
  /-- A value would be lost that the instruction at position `pos` reads. -/
  | readWouldBeLost (b : BlockId) (pos : Nat) (r : Reg) (v : VReg)
  /-- A changed value has no slot to go to. -/
  | slotless (b : BlockId) (v : VReg) (r : Reg)
  /-- An instruction writes a value and overwrites it again. -/
  | writtenTwice (b : BlockId) (pos : Nat) (r : Reg) (v : VReg)
  /-- A register that must hold a value holds none. -/
  | registerFree (r : Reg)
  /-- A value is to be brought into a register that has it. -/
  | alreadyHeld (r : Reg) (v : VReg)
  /-- No worker has done a block. -/
  | blockNotDone (b : BlockId)
  /-- In lowered code, a terminator is followed by another instruction. -/
  | leftTerminatorInside (id : Site) (inst : Inst)
  /-- In lowered code, a register operand names a virtual register. -/
  | leftVirtual (id : Site) (v : VReg) (inst : Inst)
  /-- In lowered code, a folded virtual register has no slot. -/
  | leftSlotless (id : Site) (v : VReg) (inst : Inst)
  deriving DecidableEq, Repr

/-- The wording of a fault. -/
def Fault.text : Fault → String
  | .outOfBounds len index =>
    "index out of bounds: the len is " ++ toString len ++ " but the index is " ++ toString index
  | .numberTooLarge n greatest =>
    "index_vec index overflow: " ++ toString n ++ " is outside the range [0, " ++
      toString greatest ++ ")"
  | .noRegister => "called `Option::unwrap()` on a `None` value"
  | .noJobs => "assertion failed: jobs > 0"
  | .counterOverflow => "attempt to add with overflow"
  | .nothingAtLevelZero => "Nothing can be logged at Verbosity::Disabled"
  | .unreadable => "Could not parse input"
  | .mistake m p word =>
    m.text ++ " at line " ++ toString p.line ++ " column " ++ toString p.column ++ ": '" ++
      word ++ "'"
  | .terminatorInside id inst =>
    id.text ++ ": terminator is not the last instruction\n  " ++ inst.text
  | .terminatorWrites id inst =>
    id.text ++ ": terminator writes a virtual register\n  " ++ inst.text
  | .unassigned id v =>
    id.text ++ ": " ++ v.text ++ " is used as a register operand but has no physical register"
  | .readWouldBeLost b pos r v =>
    b.text ++ ":" ++ toString pos ++ ": evicting " ++ r.name ++ " would discard " ++ v.text ++
      ", which the same instruction reads"
  | .slotless b v r =>
    b.text ++ ": " ++ v.text ++ " must be spilt from " ++ r.name ++ " but has no stack slot"
  | .writtenTwice b pos r v =>
    b.text ++ ":" ++ toString pos ++ ": " ++ r.name ++ " is written with " ++ v.text ++
      " and clobbered by the same instruction"
  | .registerFree r => r.name ++ " is free"
  | .alreadyHeld _ _ => "assertion failed: !self.rstates.holds(reg, vreg)"
  | .blockNotDone b => b.text ++ " was not rewritten"
  | .leftTerminatorInside id inst =>
    "Terminator at " ++ id.text ++ " is not the last instruction\n  " ++ inst.text
  | .leftVirtual id v inst =>
    "Instruction at " ++ id.text ++ " references virtual register " ++ v.text ++ "\n  " ++
      inst.text
  | .leftSlotless id v inst =>
    "Instruction at " ++ id.text ++ " folds " ++ v.text ++ ", which has no stack slot\n  " ++
      inst.text

/-! ### Failures -/

/-- Why a lowering came to nothing. -/
inductive Failure
  /-- An error that the caller can act on. -/
  | error (e : LoweringError)
  /-- A broken promise. -/
  | fault (f : Fault)
  deriving DecidableEq, Repr

/-- The wording of a failure. -/
def Failure.text : Failure → String
  | .error e => e.text
  | .fault f => f.text

/-! ### Looking up -/

/-- The entry of a table, which must have it. -/
def entry {α : Type} (table : Array α) (i : Nat) : Except Fault α :=
  match table[i]? with
  | some x => .ok x
  | none => .error (.outOfBounds table.size i)

/-- The word of a number, which must have one. -/
def word (n : Nat) : Except Fault UInt32 :=
  match word? n with
  | some w => .ok w
  | none => .error (.numberTooLarge n (UInt32.size - 1))

theorem map_eq_ok_iff {ε α β : Type} {x : Except ε α} {g : α → β} {y : β} :
    x.map g = .ok y ↔ ∃ z, x = .ok z ∧ g z = y := by
  cases x with
  | error e => simp [Except.map]
  | ok z => simp [Except.map]

theorem except_bind_eq_ok_iff {ε α β : Type} {x : Except ε α} {g : α → Except ε β} {y : β} :
    (x >>= g) = .ok y ↔ ∃ z, x = .ok z ∧ g z = .ok y := by
  cases x with
  | error e => simp [bind, Except.bind]
  | ok z => simp [bind, Except.bind]

theorem except_bind_eq_error_iff {ε α β : Type} {x : Except ε α} {g : α → Except ε β} {e : ε} :
    (x >>= g) = .error e ↔ x = .error e ∨ ∃ z, x = .ok z ∧ g z = .error e := by
  cases x with
  | error e' => simp [bind, Except.bind]
  | ok z => simp [bind, Except.bind]

theorem entry_eq_ok_iff {α : Type} {table : Array α} {i : Nat} {x : α} :
    entry table i = .ok x ↔ table[i]? = some x := by
  unfold entry
  split <;> simp_all

theorem word_toNat (w : UInt32) : word w.toNat = .ok w := by
  rw [word, word?_toNat]

theorem exists_word {n : Nat} (h : n < 4294967296) : ∃ w, word n = .ok w := by
  refine ⟨UInt32.ofNat n, ?_⟩
  rw [word, word?, if_pos h]

theorem toNat_of_word {n : Nat} {w : UInt32} (h : word n = .ok w) : w.toNat = n := by
  unfold word at h
  split at h
  · rename_i w' hw
    cases h
    exact toNat_of_word? hw
  · cases h

end Residency

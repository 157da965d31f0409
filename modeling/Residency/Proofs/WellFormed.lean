import Residency.Lowering.Check
import Residency.Proofs.Composition
import Residency.Proofs.Schedule

/-!
# Lowered code passes the check

The check of lowered code (`Residency.Func.checkLowered`) knows nothing of how code is
lowered. It accepts a function exactly when only the last instruction of a block is a
terminator and every operand passes: it names no virtual register, and a virtual register that
it folds has a slot (`Residency.Func.checkLowered_eq_ok_iff`).

Of these demands a lowering meets all but the last one by itself, whatever the target, as long
as its loads and stores are plain (`Residency.composes_of_lowerBlock`). So lowered code passes
the check exactly when every virtual register that the function folded to begin with has a
slot, and nothing else can make the check fail (`Residency.leaves_well_formed`).
-/

namespace Residency

/-! ### What the check accepts -/

/-- An operand is one that lowered code may have. -/
structure Operand.Passes (a : Allocation) (o : Operand) : Prop where
  /-- It names no virtual register. -/
  fixed : ∀ v, o.ref? ≠ some (.virtual v)
  /-- A virtual register that it folds has a slot. -/
  slotted : ∀ v, o = .folded v → ∃ slot, a.slot? v = .ok (some slot)

section Check

variable {a : Allocation} {id : Site} {i : Inst} {o : Operand} {b : BlockId} {n : Nat}
  {e : Fault}

theorem checkOperand_folded_eq_ok_iff {v : VReg} :
    checkOperand a id i (.folded v) = .ok () ↔ ∃ slot, a.slot? v = .ok (some slot) := by
  unfold checkOperand
  rw [except_bind_eq_ok_iff]
  constructor
  · rintro ⟨_ | slot, hslot, h⟩
    · cases h
    · exact ⟨slot, hslot⟩
  · rintro ⟨slot, hslot⟩
    exact ⟨some slot, hslot, rfl⟩

theorem checkOperand_eq_ok_iff : checkOperand a id i o = .ok () ↔ o.Passes a := by
  cases o with
  | reg ref access =>
    cases ref with
    | virtual v => exact iff_of_false (by simp [checkOperand]) fun h => h.fixed v rfl
    | physical r => exact iff_of_true rfl ⟨by simp [Operand.ref?], by simp⟩
  | base ref off =>
    cases ref with
    | virtual v => exact iff_of_false (by simp [checkOperand]) fun h => h.fixed v rfl
    | physical r => exact iff_of_true rfl ⟨by simp [Operand.ref?], by simp⟩
  | folded v =>
    rw [checkOperand_folded_eq_ok_iff]
    refine ⟨fun h => ⟨by simp [Operand.ref?], ?_⟩, fun h => h.slotted v rfl⟩
    rintro _ ⟨⟩
    exact h
  | imm x => exact iff_of_true rfl ⟨by simp [Operand.ref?], by simp⟩
  | slot s => exact iff_of_true rfl ⟨by simp [Operand.ref?], by simp⟩
  | label b => exact iff_of_true rfl ⟨by simp [Operand.ref?], by simp⟩

/-- An operand that names no virtual register is refused only because it folds one that is not
known or has no slot, and the fault says which one. -/
theorem checkOperand_eq_error (hfixed : ∀ v, o.ref? ≠ some (.virtual v))
    (h : checkOperand a id i o = .error e) :
    ∃ v, o = .folded v ∧
      (a.slot? v = .error e ∧ e = .outOfBounds a.placements.size v.index ∨
        a.slot? v = .ok none ∧ e = .leftSlotless id v i) := by
  unfold checkOperand at h
  split at h
  · exact absurd rfl (hfixed _)
  · exact absurd rfl (hfixed _)
  · rename_i v
    refine ⟨v, rfl, ?_⟩
    rcases except_bind_eq_error_iff.1 h with h | ⟨_ | slot, hslot, h⟩
    · refine Or.inl ⟨h, ?_⟩
      unfold Allocation.slot? entry at h
      split at h <;> cases h
      rfl
    · cases h
      exact Or.inr ⟨hslot, rfl⟩
    · cases h
  · cases h

theorem forM_eq_ok_iff {α : Type} {f : α → Except Fault Unit} {l : List α} :
    l.forM f = .ok () ↔ ∀ x ∈ l, f x = .ok () := by
  induction l with
  | nil => exact iff_of_true rfl nofun
  | cons x l ih =>
    rw [List.forall_mem_cons, ← ih]
    exact except_bind_eq_ok_iff.trans ⟨fun ⟨_, hx, hl⟩ => ⟨hx, hl⟩, fun ⟨hx, hl⟩ => ⟨_, hx, hl⟩⟩

theorem exists_of_forM_eq_error {α : Type} {f : α → Except Fault Unit} {l : List α}
    (h : l.forM f = .error e) : ∃ x ∈ l, f x = .error e := by
  induction l with
  | nil => cases h
  | cons x l ih =>
    rcases except_bind_eq_error_iff.1 h with hx | ⟨_, -, hl⟩
    · exact ⟨x, List.mem_cons_self, hx⟩
    · obtain ⟨y, hy, he⟩ := ih hl
      exact ⟨y, List.mem_cons_of_mem x hy, he⟩

theorem checkInst_eq_ok_iff {isLast : Bool} : checkInst a id i isLast = .ok () ↔
    (i.isTerminator = true → isLast = true) ∧ ∀ o ∈ i.operands, o.Passes a := by
  unfold checkInst
  split
  · rename_i h
    rw [Bool.and_eq_true, Bool.not_eq_true'] at h
    exact iff_of_false nofun fun hi => absurd (h.2.symm.trans (hi.1 h.1)) nofun
  · rename_i h
    rw [Bool.and_eq_true, Bool.not_eq_true', not_and, Bool.not_eq_false] at h
    rw [forM_eq_ok_iff, and_iff_right h]
    simp only [checkOperand_eq_ok_iff]

theorem exists_of_checkInst_eq_error {isLast : Bool}
    (hlast : i.isTerminator = true → isLast = true) (h : checkInst a id i isLast = .error e) :
    ∃ o ∈ i.operands, checkOperand a id i o = .error e := by
  unfold checkInst at h
  split at h
  · rename_i hi
    rw [Bool.and_eq_true, Bool.not_eq_true'] at hi
    exact absurd (hi.2.symm.trans (hlast hi.1)) nofun
  · exact exists_of_forM_eq_error h

/-- The instructions of a block pass when only the last one may be a terminator, and all their
operands pass. -/
theorem checkInstsFrom_eq_ok_iff {l : List Inst} (hlen : n + l.length ≤ 2 ^ 32) :
    checkInstsFrom a b n l = .ok () ↔
      Closed l ∧ ∀ i ∈ l, ∀ o ∈ i.operands, o.Passes a := by
  induction l generalizing n with
  | nil => exact iff_of_true rfl ⟨.nil, nofun⟩
  | cons i l ih =>
    rw [List.length_cons] at hlen
    obtain ⟨w, hw⟩ := exists_word (n := n) (by omega)
    rw [checkInstsFrom, hw, except_bind_eq_ok_iff, closed_cons_iff, List.forall_mem_cons,
      ← List.isEmpty_iff]
    constructor
    · rintro ⟨w', ⟨⟩, h⟩
      obtain ⟨⟨⟩, hi, hl⟩ := except_bind_eq_ok_iff.1 h
      obtain ⟨hlast, hops⟩ := checkInst_eq_ok_iff.1 hi
      obtain ⟨hclosed, hrest⟩ := (ih (by omega)).1 hl
      exact ⟨⟨hlast, hclosed⟩, hops, hrest⟩
    · rintro ⟨⟨hlast, hclosed⟩, hops, hrest⟩
      refine ⟨w, rfl, except_bind_eq_ok_iff.2 ⟨(), checkInst_eq_ok_iff.2 ⟨hlast, hops⟩, ?_⟩⟩
      exact (ih (by omega)).2 ⟨hclosed, hrest⟩

/-- Where only the last instruction may be a terminator, a fault is one of an operand. -/
theorem exists_of_checkInstsFrom_eq_error {l : List Inst} (hlen : n + l.length ≤ 2 ^ 32)
    (hclosed : Closed l) (h : checkInstsFrom a b n l = .error e) :
    ∃ i ∈ l, ∃ o ∈ i.operands, ∃ id, checkOperand a id i o = .error e := by
  induction l generalizing n with
  | nil => cases h
  | cons i l ih =>
    rw [List.length_cons] at hlen
    obtain ⟨hlast, hclosed⟩ := closed_cons_iff.1 hclosed
    obtain ⟨w, hw⟩ := exists_word (n := n) (by omega)
    rw [checkInstsFrom, hw] at h
    rcases except_bind_eq_error_iff.1 h with h | ⟨w', -, h⟩
    · cases h
    rcases except_bind_eq_error_iff.1 h with h | ⟨-, -, h⟩
    · obtain ⟨o, ho, he⟩ := exists_of_checkInst_eq_error
        (fun ht => List.isEmpty_iff.2 (hlast ht)) h
      exact ⟨i, List.mem_cons_self, o, ho, _, he⟩
    · obtain ⟨j, hj, hrest⟩ := ih (by omega) hclosed h
      exact ⟨j, List.mem_cons_of_mem i hj, hrest⟩

theorem checkBlocksFrom_eq_ok_iff {l : List Block} (hlen : n + l.length ≤ 2 ^ 32)
    (hinsts : ∀ b ∈ l, b.insts.length ≤ 2 ^ 32) :
    checkBlocksFrom a n l = .ok () ↔
      ∀ b ∈ l, Closed b.insts ∧ ∀ i ∈ b.insts, ∀ o ∈ i.operands, o.Passes a := by
  induction l generalizing n with
  | nil => exact iff_of_true rfl nofun
  | cons b l ih =>
    rw [List.length_cons] at hlen
    rw [List.forall_mem_cons] at hinsts
    obtain ⟨w, hw⟩ := exists_word (n := n) (by omega)
    rw [checkBlocksFrom, hw, except_bind_eq_ok_iff, List.forall_mem_cons]
    constructor
    · rintro ⟨w', ⟨⟩, h⟩
      obtain ⟨⟨⟩, hb, hl⟩ := except_bind_eq_ok_iff.1 h
      exact ⟨(checkInstsFrom_eq_ok_iff (by omega)).1 hb, (ih (by omega) hinsts.2).1 hl⟩
    · rintro ⟨hb, hl⟩
      refine ⟨w, rfl, except_bind_eq_ok_iff.2 ⟨(), ?_, (ih (by omega) hinsts.2).2 hl⟩⟩
      exact (checkInstsFrom_eq_ok_iff (by omega)).2 hb

theorem exists_of_checkBlocksFrom_eq_error {l : List Block} (hlen : n + l.length ≤ 2 ^ 32)
    (hinsts : ∀ b ∈ l, b.insts.length ≤ 2 ^ 32) (hclosed : ∀ b ∈ l, Closed b.insts)
    (h : checkBlocksFrom a n l = .error e) :
    ∃ b ∈ l, ∃ i ∈ b.insts, ∃ o ∈ i.operands, ∃ id, checkOperand a id i o = .error e := by
  induction l generalizing n with
  | nil => cases h
  | cons b l ih =>
    rw [List.length_cons] at hlen
    rw [List.forall_mem_cons] at hinsts hclosed
    obtain ⟨w, hw⟩ := exists_word (n := n) (by omega)
    rw [checkBlocksFrom, hw] at h
    rcases except_bind_eq_error_iff.1 h with h | ⟨w', -, h⟩
    · cases h
    rcases except_bind_eq_error_iff.1 h with h | ⟨-, -, h⟩
    · exact ⟨b, List.mem_cons_self,
        exists_of_checkInstsFrom_eq_error (by omega) hclosed.1 h⟩
    · obtain ⟨b', hb', hrest⟩ := ih (by omega) hinsts.2 hclosed.2 h
      exact ⟨b', List.mem_cons_of_mem b hb', hrest⟩

end Check

/-- A function is small enough for its blocks and their instructions to be numbered. -/
structure Func.Numbered (f : Func) : Prop where
  /-- Every block has a number. -/
  blocks : f.blocks.size ≤ 2 ^ 32
  /-- Every instruction has a number in its block. -/
  insts : ∀ b ∈ f.blocks, b.insts.length ≤ 2 ^ 32

/-- **The check accepts a function** when only the last instruction of a block may be a
terminator, and all operands pass. -/
theorem Func.checkLowered_eq_ok_iff {f : Func} {a : Allocation} (h : f.Numbered) :
    f.checkLowered a = .ok () ↔
      ∀ b ∈ f.blocks, Closed b.insts ∧ ∀ i ∈ b.insts, ∀ o ∈ i.operands, o.Passes a := by
  have hinsts : ∀ b ∈ f.blocks.toList, b.insts.length ≤ 2 ^ 32 := by simpa using h.insts
  simpa [Func.checkLowered] using
    checkBlocksFrom_eq_ok_iff (a := a) (n := 0) (by simpa using h.blocks) hinsts

theorem Func.exists_of_checkLowered_eq_error {f : Func} {a : Allocation} {e : Fault}
    (hnum : f.Numbered) (hclosed : ∀ b ∈ f.blocks, Closed b.insts)
    (h : f.checkLowered a = .error e) :
    ∃ b ∈ f.blocks, ∃ i ∈ b.insts, ∃ o ∈ i.operands, ∃ id,
      checkOperand a id i o = .error e := by
  have hinsts : ∀ b ∈ f.blocks.toList, b.insts.length ≤ 2 ^ 32 := by simpa using hnum.insts
  simpa using exists_of_checkBlocksFrom_eq_error (n := 0) (by simpa using hnum.blocks) hinsts
    (by simpa using hclosed) h

/-! ### Lowered functions -/

section Lowered

variable {f : Func} {a : Allocation} {target : Target} {c : Settings} {blocks : List BlockId}
  {xs : List (List Inst × Stats)}

/-- A function whose blocks can be numbered has no more of them than there are numbers. -/
theorem Func.size_le_of_blockIds (h : f.blockIds = .ok blocks) : f.blocks.size ≤ 2 ^ 32 := by
  obtain ⟨hlen, hindex⟩ := Func.index_of_blockIds h
  rw [← hlen]
  refine Nat.le_of_not_lt fun hlt => ?_
  have hlast := hindex (2 ^ 32) _ (List.getElem?_eq_getElem hlt)
  exact absurd hlast (Nat.ne_of_lt blocks[2 ^ 32].num.toNat_lt)

/-- The lowered blocks of a function consist of its blocks, in order. -/
theorem composes_of_forall₂ (htarget : target.Plain) (hblocks : f.blockIds = .ok blocks)
    (hxs : List.Forall₂ (fun b x => (lowerNth f a target c b).result = .ok x) blocks xs) :
    List.Forall₂ (fun (b : Block) x => Composes a b.insts x.1) f.blocks.toList xs := by
  obtain ⟨hlen, hget⟩ := List.forall₂_iff_get.1 hxs
  obtain ⟨hlen', hget'⟩ := List.forall₂_iff_get.1 (Func.forall₂_blockIds hblocks)
  refine List.forall₂_iff_get.2 ⟨hlen'.symm.trans hlen, fun k hk hk' => ?_⟩
  exact composes_of_lowerBlock (c := ⟨f, a, target, c.log.level, blocks[k]⟩) htarget
    (hget' k (hlen ▸ hk') hk) (hget k (hlen ▸ hk') hk')

theorem Func.mem_withInsts_iff {b : Block} : b ∈ (f.withInsts (xs.map Prod.fst)).blocks ↔
    ∃ x ∈ xs, b = ⟨x.1⟩ := by
  simp [Func.withInsts, eq_comm]

/-- A function has as many blocks when they are lowered, and each of them consists of one that it
had. -/
theorem withInsts_of_composes
    (h : List.Forall₂ (fun (b : Block) x => Composes a b.insts x.1) f.blocks.toList xs) :
    (f.withInsts (xs.map Prod.fst)).blocks.size = f.blocks.size ∧
      ∀ b' ∈ (f.withInsts (xs.map Prod.fst)).blocks,
        ∃ b ∈ f.blocks, Composes a b.insts b'.insts := by
  refine ⟨by simpa [Func.withInsts] using h.length_eq.symm, fun b' hb' => ?_⟩
  obtain ⟨x, hx, rfl⟩ := Func.mem_withInsts_iff.1 hb'
  obtain ⟨b, hb, hbx⟩ := exists_of_forall₂ (List.Forall₂.flip h) hx
  exact ⟨b, Array.mem_toList_iff.1 hb, hbx⟩

/-- The lowered blocks of a function are small enough to be numbered if none of them has too many
instructions. -/
theorem numbered_withInsts (hblocks : f.blockIds = .ok blocks)
    (hcomposes : List.Forall₂ (fun (b : Block) x => Composes a b.insts x.1) f.blocks.toList xs)
    (hlen : ∀ x ∈ xs, x.1.length < 2 ^ 32) : (f.withInsts (xs.map Prod.fst)).Numbered := by
  refine ⟨?_, fun b hb => ?_⟩
  · rw [(withInsts_of_composes hcomposes).1]
    exact Func.size_le_of_blockIds hblocks
  · obtain ⟨x, hx, rfl⟩ := Func.mem_withInsts_iff.1 hb
    exact Nat.le_of_lt (hlen x hx)

/-- **The check of a lowered function fails only because of what it folds**: a virtual register that
is not known or has no slot. -/
theorem exists_folded_of_checkLowered_eq_error {g : Fault}
    (hcomposes : List.Forall₂ (fun (b : Block) x => Composes a b.insts x.1) f.blocks.toList xs)
    (hnum : (f.withInsts (xs.map Prod.fst)).Numbered)
    (h : (f.withInsts (xs.map Prod.fst)).checkLowered a = .error g) :
    ∃ b ∈ f.blocks, ∃ i ∈ b.insts, ∃ v, .folded v ∈ i.operands ∧
      (a.slot? v = .error g ∧ g = .outOfBounds a.placements.size v.index ∨
        a.slot? v = .ok none ∧ ∃ id j, g = .leftSlotless id v j) := by
  obtain ⟨-, hblock⟩ := withInsts_of_composes hcomposes
  have hclosed : ∀ b ∈ (f.withInsts (xs.map Prod.fst)).blocks, Closed b.insts := by
    intro b hb
    obtain ⟨b', -, h⟩ := hblock b hb
    exact h.closed
  obtain ⟨b', hb', j, hj, o, ho, id, hfault⟩ :=
    Func.exists_of_checkLowered_eq_error hnum hclosed h
  obtain ⟨b, hb, hbx⟩ := hblock b' hb'
  obtain ⟨v, rfl, hcause⟩ := checkOperand_eq_error (hbx.fixed hj ho) hfault
  obtain ⟨i, hi, hv⟩ := hbx.exists_folded_iff.1 ⟨j, hj, ho⟩
  exact ⟨b, hb, i, hi, v, hv, hcause.imp_right fun ⟨hslot, hg⟩ => ⟨hslot, id, j, hg⟩⟩

/-- **Lowering the blocks of a function leaves it well-formed**, up to what it folds: `xs` is what
has become of the blocks. -/
structure LeavesWellFormed (f : Func) (a : Allocation) (target : Target) (c : Settings)
    (xs : List (List Inst × Stats)) : Prop where
  /-- The lowered blocks take the places of the blocks. -/
  committed : (lowerFunc f a target c).func = f.withInsts (xs.map Prod.fst)
  /-- The function passes the check exactly when every virtual register that was folded has a
  slot. -/
  passes_iff : (f.withInsts (xs.map Prod.fst)).checkLowered a = .ok () ↔
    ∀ b ∈ f.blocks, ∀ i ∈ b.insts, ∀ v, .folded v ∈ i.operands →
      ∃ slot, a.slot? v = .ok (some slot)
  /-- No virtual register is left, neither as a register nor as the base of an address. -/
  fixed : ∀ x ∈ xs, ∀ j ∈ x.1, ∀ o ∈ j.operands, ∀ v, o.ref? ≠ some (.virtual v)
  /-- Only the last instruction of a lowered block may be a terminator, and if the block has one
  then it is the last instruction. -/
  terminators : List.Forall₂ (fun b x => Closed x.1 ∧ ∀ i ∈ b.insts, i.isTerminator = true →
    x.1.getLast? = some (i.mapRefs a.substitute)) f.blocks.toList xs
  /-- The lowering of the function fails only in the check, and only because of a virtual
  register that was folded and has no slot; the fault says which one. -/
  fails_only : ∀ e, (lowerFunc f a target c).result = .error e → c.verify = true ∧
    ∃ b ∈ f.blocks, ∃ i ∈ b.insts, ∃ v, .folded v ∈ i.operands ∧
      (∀ slot, a.slot? v ≠ .ok (some slot)) ∧
      (e = .fault (.outOfBounds a.placements.size v.index) ∨
        ∃ id j, e = .fault (.leftSlotless id v j))

theorem commit_eq_error {trace : Array Message} {e : Failure}
    (h : (commit f a c xs trace).result = .error e) : c.verify = true ∧
      ∃ g, e = .fault g ∧ (f.withInsts (xs.map Prod.fst)).checkLowered a = .error g := by
  unfold commit at h
  dsimp only at h
  split at h
  · rename_i g hg
    split at hg
    · rename_i hverify
      exact ⟨hverify, g, (Except.error.inj h).symm, hg⟩
    · cases hg
  · cases h

theorem commit_eq_ok_iff {trace : Array Message} {stats : Stats} :
    (commit f a c xs trace).result = .ok stats ↔ Stats.sum (xs.map Prod.snd) = stats ∧
      (c.verify = true → (f.withInsts (xs.map Prod.fst)).checkLowered a = .ok ()) := by
  unfold commit FuncOutcome.log
  cases c.verify with
  | false => simp
  | true =>
    simp only [if_true, forall_const]
    split
    · rename_i g hg
      simp [hg]
    · rename_i hg
      simp [hg]

/-- **A function whose blocks are lowered is well-formed** except for virtual registers that it
folds and that have no slot, for any target whose loads and stores are plain. -/
theorem leaves_well_formed (htarget : target.Plain) (hblocks : f.blockIds = .ok blocks)
    (hxs : List.Forall₂ (fun b x => (lowerNth f a target c b).result = .ok x) blocks xs)
    (hlen : ∀ x ∈ xs, x.1.length < 2 ^ 32) : LeavesWellFormed f a target c xs := by
  have hcomposes := composes_of_forall₂ htarget hblocks hxs
  obtain ⟨-, hblock⟩ := withInsts_of_composes hcomposes
  have hnum := numbered_withInsts hblocks hcomposes hlen
  have hclosed : ∀ b ∈ (f.withInsts (xs.map Prod.fst)).blocks, Closed b.insts := by
    intro b hb
    obtain ⟨b', -, h⟩ := hblock b hb
    exact h.closed
  have hfixed : ∀ b ∈ (f.withInsts (xs.map Prod.fst)).blocks, ∀ j ∈ b.insts,
      ∀ o ∈ j.operands, ∀ v, o.ref? ≠ some (.virtual v) := by
    intro b hb j hj o ho
    obtain ⟨b', -, h⟩ := hblock b hb
    exact h.fixed hj ho
  refine ⟨?_, ?_, fun x hx => hfixed ⟨x.1⟩ (Func.mem_withInsts_iff.2 ⟨x, hx, rfl⟩),
    hcomposes.imp fun b x h => ⟨h.closed, fun i => h.getLast?_eq⟩, fun e he => ?_⟩
  · rw [lowerFunc_eq_commit hblocks hxs, commit_func]
  · rw [Func.checkLowered_eq_ok_iff hnum]
    constructor
    · intro h b hb i hi v hv
      obtain ⟨x, hx, hbx⟩ := exists_of_forall₂ hcomposes (Array.mem_toList_iff.2 hb)
      obtain ⟨j, hj, hvj⟩ := hbx.exists_folded_iff.2 ⟨i, hi, hv⟩
      exact ((h ⟨x.1⟩ (Func.mem_withInsts_iff.2 ⟨x, hx, rfl⟩)).2 j hj _ hvj).slotted v rfl
    · intro h b' hb'
      refine ⟨hclosed b' hb', fun j hj o ho => ⟨hfixed b' hb' j hj o ho, ?_⟩⟩
      rintro v rfl
      obtain ⟨b, hb, hbx⟩ := hblock b' hb'
      obtain ⟨i, hi, hv⟩ := hbx.exists_folded_iff.1 ⟨j, hj, ho⟩
      exact h b hb i hi v hv
  · rw [lowerFunc_eq_commit hblocks hxs] at he
    obtain ⟨hverify, g, rfl, hg⟩ := commit_eq_error he
    refine ⟨hverify, ?_⟩
    obtain ⟨b, hb, i, hi, v, hv, ⟨hslot, rfl⟩ | ⟨hslot, id, j, rfl⟩⟩ :=
      exists_folded_of_checkLowered_eq_error hcomposes hnum hg
    · exact ⟨b, hb, i, hi, v, hv, by simp [hslot], Or.inl rfl⟩
    · exact ⟨b, hb, i, hi, v, hv, by simp [hslot], Or.inr ⟨id, j, rfl⟩⟩

end Lowered

/-! ### A loop that compares -/

/-- The first virtual register has a register and a slot, and the second one has neither. -/
def loopHomes : Allocation where
  placements := #[⟨some .rax, some ⟨0⟩⟩, {}]
  folded := [(⟨⟨0⟩, 1⟩, ⟨1⟩)]

/-- A block that sets the first virtual register, compares it with the second one, which is
folded, and jumps back to where it begins. -/
def loopFunc : Func where
  name := "loop"
  classes := #[.gpr64, .gpr64]
  blocks := #[
    ⟨[⟨"mov", [.reg (.virtual ⟨0⟩) .write, .imm 1], [], false⟩,
      ⟨"cmp", [.reg (.virtual ⟨0⟩) .read, .folded ⟨1⟩], [], false⟩,
      ⟨"jne", [.label ⟨0⟩], [], true⟩]⟩]

/-- What has become of the block: the store of the first value stands behind the instruction that
sets it. -/
def loopLowered : List (List Inst × Stats) :=
  [([⟨"mov", [.reg (.physical .rax) .write, .imm 1], [], false⟩,
      .store "mov" ⟨0⟩ .rax,
      ⟨"cmp", [.reg (.physical .rax) .read, .folded ⟨1⟩], [], false⟩,
      ⟨"jne", [.label ⟨0⟩], [], true⟩], ⟨1, 0, 0, 0, 1⟩)]

/-- The loop is well-formed when it is lowered, except that the second value has no slot. -/
theorem leaves_well_formed_loop :
    LeavesWellFormed loopFunc loopHomes .x64 { verify := true } loopLowered ∧
      ∃ id j, (lowerFunc loopFunc loopHomes .x64 { verify := true }).result =
        .error (.fault (.leftSlotless id ⟨1⟩ j)) := by
  have hlowered : List.Forall₂
      (fun b x => (lowerNth loopFunc loopHomes .x64 { verify := true } b).result = .ok x)
      [⟨0⟩] loopLowered :=
    .cons rfl .nil
  exact ⟨leaves_well_formed Target.x64_plain rfl hlowered (by decide), _, _, rfl⟩

end Residency

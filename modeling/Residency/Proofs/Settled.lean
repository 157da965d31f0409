import Residency.Proofs.Preservation
import Residency.Proofs.WellFormed

/-!
# Lowered code is lowered to itself

Lowering code a second time changes nothing and counts nothing but the blocks
(`Residency.lowerFunc_again`), under the same assignment. An instruction that names no virtual
register is *settled* (`Residency.Inst.Settled`): it brings no value into a register, so where
no register holds anything it is lowered to itself, and none holds anything afterwards
(`Residency.State.Vacant`).

The folds that the assignment records are found by positions, and those of lowered code are
not the ones that they were recorded for. So folds may be recorded for instructions that have
none, but as no register holds anything there is nothing that they could evict.
-/

namespace Residency

open Step

/-! ### Nothing in a register -/

/-- No register holds anything, and none is reserved. -/
structure State.Vacant (s : State) : Prop where
  /-- No register holds anything. -/
  empty : ∀ r, s.table.get? r = none
  /-- No register is reserved. -/
  unreserved : s.reserved = []

/-- An instruction is settled when it names no virtual register. -/
def Inst.Settled (i : Inst) : Prop := ∀ o ∈ i.operands, ∀ v, o.ref? ≠ some (.virtual v)

section Vacant

variable {c : Context} {id : Site} {i : Inst} {e : Event} {s : State}

/-- Where no register holds anything, there is nothing to evict. -/
theorem State.Vacant.vacates (h : s.Vacant) (l : List Reg) :
    (l.forM (vacate c)) s = .ok () s :=
  forM_eq_ok_self fun r _ => vacate_eq_ok_iff.2 (.idle (h.empty r))

/-- An event that brings no value into a register changes nothing. -/
theorem State.Vacant.perform (h : s.Vacant)
    (he : (∃ v o, e = .fold v ∧ c.alloc.reg? v = .ok o) ∨ ∃ r, e = .overwrite r) :
    e.perform c id s = .ok () s := by
  rw [perform_eq_ok_iff]
  rcases he with ⟨v, _ | r, rfl, hr⟩ | ⟨r, rfl⟩
  · exact .foldAway hr
  · refine .foldAbsent hr (Bool.eq_false_iff.2 fun hh => ?_)
    obtain ⟨x, hx, -⟩ := Table.holds_iff.1 hh
    exact absurd ((h.empty r).symm.trans hx) nofun
  · exact .overwrite (evict_eq_forM ▸ h.vacates _)

theorem Inst.Settled.not_names (hi : i.Settled) (v : VReg) : ¬ i.Names v := by
  rw [Inst.names_iff]
  rintro ⟨o, ho, hv⟩
  exact hi o ho v hv

theorem Inst.Settled.mapRefs_substitute (hi : i.Settled) (a : Allocation) :
    i.mapRefs a.substitute = i := by
  have hops : i.operands.map (Operand.mapRef a.substitute) = i.operands := by
    refine (List.map_congr_left fun o ho => ?_).trans (List.map_id _)
    have href := hi o ho
    cases o with
    | reg ref access =>
      cases ref with
      | virtual v => exact absurd rfl (href v)
      | physical r => rfl
    | base ref off =>
      cases ref with
      | virtual v => exact absurd rfl (href v)
      | physical r => rfl
    | _ => rfl
  rw [Inst.mapRefs, hops]

/-- **A settled instruction is lowered to itself** where no register holds anything, whatever
folds are recorded for it. -/
theorem State.Vacant.lowerInst (h : s.Vacant) (hi : i.Settled)
    (hfold : ∀ v ∈ c.alloc.foldedInto id, ∃ o, c.alloc.reg? v = .ok o) :
    lowerInst c id i s = .ok () (s.push i) := by
  have hrelease : s.release = s := by
    rw [State.release, ← h.unreserved]
  refine lowerInst_eq_ok_iff.2
    ⟨s, s, forM_eq_ok_self fun e he => h.perform ?_, ?_, ?_⟩
  · rcases Event.mem_before_iff.1 he with ⟨v, rfl, hv⟩ | ⟨v, -, hv⟩
    · obtain ⟨o, ho⟩ := hfold v hv
      exact Or.inl ⟨v, o, rfl, ho⟩
    · exact absurd (Or.inl hv) (hi.not_names v)
  · rw [hrelease]
    refine forM_eq_ok_self fun e he => h.perform ?_
    rcases Event.mem_after_iff.1 he with ⟨v, -, hv⟩ | ⟨v, -, hv⟩ | ⟨r, rfl, -⟩
    · exact absurd (Or.inr (Or.inr hv)) (hi.not_names v)
    · exact absurd (Or.inr (Or.inl hv)) (hi.not_names v)
    · exact Or.inr ⟨r, rfl⟩
  · rw [hi.mapRefs_substitute]

theorem State.Vacant.push (h : s.Vacant) : (s.push i).Vacant := ⟨h.empty, h.unreserved⟩

/-- Settled instructions are lowered to themselves, one after the other. -/
theorem State.Vacant.lowerEach {n : Nat} {l : List Inst} (h : s.Vacant)
    (hlen : n + l.length ≤ 2 ^ 32) (hl : ∀ i ∈ l, i.Settled)
    (hfold : ∀ id, ∀ v ∈ c.alloc.foldedInto id, ∃ o, c.alloc.reg? v = .ok o) :
    lowerEach c n l s = .ok () (l.foldl State.push s) := by
  induction l generalizing n s with
  | nil => exact lowerEach_nil_eq_ok_iff.2 rfl
  | cons i l ih =>
    rw [List.length_cons] at hlen
    rw [List.forall_mem_cons] at hl
    obtain ⟨w, hw⟩ := exists_word (n := n) (by omega)
    exact lowerEach_cons_eq_ok_iff.2
      ⟨w, s.push i, hw, h.lowerInst hl.1 (hfold _), ih h.push (by omega) hl.2⟩

end Vacant

/-- What pushing instructions leaves: no change but in the lowered block, which they join without
stores. -/
theorem foldl_push_eq {s : State} {l : List Inst} :
    l.foldl State.push s =
      { s with out := s.out ++ (l.map fun i => ({ inst := i } : Entry)).toArray } := by
  induction l generalizing s with
  | nil => simp
  | cons i l ih =>
    rw [List.foldl_cons, ih]
    simp [State.push]

section Blocks

variable {c : Context}

/-- **A block of settled instructions is lowered to itself**, and counts as one block and nothing
else. -/
theorem lowerBlock_of_settled {b : Block} (hb : c.func.block c.block = .ok b)
    (hlen : b.insts.length ≤ 2 ^ 32) (hclosed : Closed b.insts)
    (hsettled : ∀ i ∈ b.insts, i.Settled)
    (hfold : ∀ id, ∀ v ∈ c.alloc.foldedInto id, ∃ o, c.alloc.reg? v = .ok o) :
    (lowerBlock c).result = .ok (b.insts, { blocks := 1 }) := by
  have hstart : State.Vacant {} := ⟨fun _ => rfl, rfl⟩
  have hend := foldl_push_eq (s := {}) (l := b.insts)
  have hterm : TerminatorsLast b.insts := by
    refine terminatorsLast_iff_closed.2 ⟨hclosed, fun i hi _ => ?_⟩
    exact Inst.writesVirtual_eq_false_iff.2 fun v hv => (hsettled i hi).not_names v (Or.inr hv)
  have heach := hstart.lowerEach (n := 0) (by omega) hsettled hfold
  have hflush : flush c (b.insts.foldl State.push {}) =
      .ok () (b.insts.foldl State.push {}) := by
    rw [hend]
    exact State.Vacant.vacates ⟨fun _ => rfl, rfl⟩ _
  refine lowerBlock_eq_ok_iff.2
    ⟨b, _, _, hb, lowerInsts_eq_ok_iff.2 ⟨hterm, heach⟩, hflush, ?_⟩
  rw [hend]
  simp [Entry.flatten_map_mk, Stats.incr, Stats.raise]

end Blocks

/-! ### Functions -/

section Functions

variable {f : Func} {a : Allocation} {target : Target} {c c' : Settings} {stats : Stats}

theorem Func.blockIds_congr {g : Func} (h : g.blocks.size = f.blocks.size) :
    g.blockIds = f.blockIds := by
  rw [Func.blockIds, Func.blockIds, h]

/-- A function with the instructions put back that it has. -/
theorem Func.withInsts_self :
    f.withInsts (f.blocks.toList.map Block.insts) = f := by
  simp [Func.withInsts, Function.comp_def]

/-- The statistics of blocks that count as one block each. -/
theorem Stats.sum_replicate_block (n : Nat) :
    Stats.sum (List.replicate n { blocks := 1 }) = { blocks := n } := by
  have hget : ∀ k : Counter, (Stats.sum (List.replicate n { blocks := 1 })).get k =
      ({ blocks := n } : Stats).get k := by
    intro k
    rw [Stats.get_sum]
    cases k <;> simp [Stats.get]
  exact Stats.ext (hget .spills) (hget .reloads) (hget .cleanEvictions) (hget .foldEvictions)
    (hget .blocks)

/-- A function whose blocks are settled and closed is lowered to itself, if it passes the check
where that is asked for. -/
theorem lowerFunc_of_settled {blocks : List BlockId} (hblocks : f.blockIds = .ok blocks)
    (hlen : ∀ b ∈ f.blocks, b.insts.length ≤ 2 ^ 32)
    (hclosed : ∀ b ∈ f.blocks, Closed b.insts)
    (hsettled : ∀ b ∈ f.blocks, ∀ i ∈ b.insts, i.Settled)
    (hfold : ∀ p ∈ a.folded, p.2.index < a.placements.size)
    (hverify : c.verify = true → f.checkLowered a = .ok ()) :
    (lowerFunc f a target c).func = f ∧
      (lowerFunc f a target c).result = .ok { blocks := f.blocks.size } := by
  have hfolded : ∀ id, ∀ v ∈ a.foldedInto id, ∃ o, a.reg? v = .ok o := by
    intro id v hv
    obtain ⟨p, hp, rfl⟩ := List.mem_map.1 hv
    have hlt := hfold p (List.mem_filter.1 hp).1
    exact ⟨_, Allocation.reg?_eq_ok_iff.2 ⟨_, Array.getElem?_eq_getElem hlt, rfl⟩⟩
  have hlowered : List.Forall₂ (fun b x => (lowerNth f a target c b).result = .ok x) blocks
      (f.blocks.toList.map fun b => (b.insts, { blocks := 1 })) := by
    rw [List.forall₂_map_right_iff]
    refine (Func.forall₂_blockIds hblocks).imp fun id b hb => ?_
    have hmem : b ∈ f.blocks := Array.mem_of_getElem? (entry_eq_ok_iff.1 hb)
    exact lowerBlock_of_settled (c := ⟨f, a, target, c.log.level, id⟩) hb (hlen b hmem)
      (hclosed b hmem) (hsettled b hmem) hfolded
  have hinsts : (f.blocks.toList.map fun b => (b.insts, ({ blocks := 1 } : Stats))).map Prod.fst =
      f.blocks.toList.map Block.insts := by
    rw [List.map_map]
    rfl
  have hstats : (f.blocks.toList.map fun b => (b.insts, ({ blocks := 1 } : Stats))).map Prod.snd =
      List.replicate f.blocks.size { blocks := 1 } := by
    simp [Function.comp_def]
  rw [lowerFunc_eq_commit hblocks hlowered, commit_func, commit_eq_ok_iff, hinsts, hstats,
    Func.withInsts_self]
  exact ⟨rfl, Stats.sum_replicate_block _, hverify⟩

/-- **Lowering a function again changes nothing**: a function that was lowered is lowered to
itself under the same assignment, by however many workers, with the check off or, if it was on
before, on; and nothing is counted but the blocks. -/
theorem lowerFunc_again (htarget : target.Plain)
    (h : (lowerFunc f a target c).result = .ok stats)
    (hfold : ∀ p ∈ a.folded, p.2.index < a.placements.size)
    (hlen : ∀ b ∈ (lowerFunc f a target c).func.blocks, b.insts.length < 2 ^ 32)
    (hverify : c'.verify = true → c.verify = true) :
    (lowerFunc (lowerFunc f a target c).func a target c').func =
        (lowerFunc f a target c).func ∧
      (lowerFunc (lowerFunc f a target c).func a target c').result =
        .ok { blocks := f.blocks.size } := by
  obtain ⟨blocks, xs, hblocks, hxs, hfunc⟩ := lowerFunc_eq_ok h
  have hcomposes := composes_of_forall₂ htarget hblocks hxs
  rw [lowerFunc_eq_commit hblocks hxs] at h
  obtain ⟨-, hcheck⟩ := commit_eq_ok_iff.1 h
  rw [hfunc] at hlen ⊢
  obtain ⟨hsize, hblock⟩ := withInsts_of_composes hcomposes
  rw [← hsize]
  refine lowerFunc_of_settled ((Func.blockIds_congr hsize).trans hblocks)
    (fun b hb => Nat.le_of_lt (hlen b hb)) (fun b hb => ?_) (fun b hb i hi o ho => ?_) hfold
    fun hv => hcheck (hverify hv)
  · obtain ⟨b', -, h⟩ := hblock b hb
    exact h.closed
  · obtain ⟨b', -, h⟩ := hblock b hb
    exact h.fixed hi ho

end Functions

/-- The two values that take turns, lowered by two workers and then again by one. What stands at
the position that the fold was recorded for is another instruction by then. -/
theorem lowerFunc_again_turns :
    (lowerFunc turnsFunc turnsHomes .x64 { jobs := 2, verify := true }).result =
        .ok ⟨3, 3, 2, 1, 2⟩ ∧
      (lowerFunc (lowerFunc turnsFunc turnsHomes .x64 { jobs := 2, verify := true }).func
        turnsHomes .x64 { verify := true }).result = .ok { blocks := 2 } := by
  have hok : (lowerFunc turnsFunc turnsHomes .x64 { jobs := 2, verify := true }).result =
      .ok ⟨3, 3, 2, 1, 2⟩ := by
    decide +kernel
  have hlen :
      ∀ b ∈ (lowerFunc turnsFunc turnsHomes .x64 { jobs := 2, verify := true }).func.blocks,
        b.insts.length < 2 ^ 32 := by
    decide +kernel
  exact ⟨hok, (lowerFunc_again Target.x64_plain hok (by decide) hlen fun _ => rfl).2⟩

end Residency

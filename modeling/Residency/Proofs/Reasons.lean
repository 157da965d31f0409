import Mathlib.Algebra.Group.Nat.Defs
import Residency.Proofs.Obstacle
import Residency.Proofs.Tracked

/-!
# Why a block cannot be lowered

A block that cannot be lowered ends in a failure, and every failure has a reason that is found in
the code and in the placements (`Residency.Reason`): a terminator in the wrong place, a virtual
register that is an operand without a register or is written without a slot, two operands of one
instruction whose registers overlap where they must not, or a target that refuses.

The rest of what a step could fail with does not arise, so long as the tables know the virtual
registers of the block (`Residency.Context.Complete`): no table is left, no register is free that
must hold a value, and no store comes before the instruction that it belongs to
(`Residency.reason_of_lowerBlock`). What is known along the way is `Residency.Tracked`, which
holds whatever the loads of the target are.
-/

namespace Residency

open Step

variable {c : Context} {id : Site} {i : Inst} {ev : Event} {done : List Event} {l l' : List Inst}
  {s s' t m : State} {r q : Reg} {v : VReg} {x : Resident} {e : Failure}

/-! ### Tables that are complete -/

/-- The tables that a block is lowered with know the virtual registers of its instructions. -/
structure Context.Complete (c : Context) (l : List Inst) : Prop where
  /-- There are as many placements as classes. -/
  sized : c.alloc.placements.size = c.func.classes.size
  /-- The virtual registers that operands name are known. -/
  named : ∀ i ∈ l, ∀ v, i.Names v → v.index < c.alloc.placements.size
  /-- So are those that are folded. -/
  folded : ∀ id v, v ∈ c.alloc.foldedInto id → v.index < c.alloc.placements.size

namespace Context.Complete

/-- Nothing about a virtual register that has a placement is unknown. -/
theorem ne_error (h : c.Complete l) (hv : v.index < c.alloc.placements.size) {f : Fault} :
    ¬ (c.alloc.reg? v = .error f ∨ c.alloc.slot? v = .error f ∨ c.func.classOf v = .error f) := by
  have hentry : entry c.alloc.placements v.index = .ok _ :=
    entry_eq_ok_iff.2 (Array.getElem?_eq_getElem hv)
  have hclass : c.func.classOf v = .ok _ :=
    entry_eq_ok_iff.2 (Array.getElem?_eq_getElem (h.sized ▸ hv))
  rintro (hr | hs | hc)
  · rw [Allocation.reg?, hentry] at hr
    cases hr
  · rw [Allocation.slot?, hentry] at hs
    cases hs
  · cases hclass.symm.trans hc

/-- A value in a register has a placement. -/
theorem index_lt {o : Option Reg} (hr : c.alloc.reg? v = .ok o) :
    v.index < c.alloc.placements.size := by
  obtain ⟨p, hp, -⟩ := Allocation.reg?_eq_ok_iff.1 hr
  exact (Array.getElem?_eq_some_iff.1 hp).1

/-- The virtual register of an event before the place of an instruction has a placement. -/
theorem of_early (h : c.Complete l) (hi : i ∈ l) (hev : ev ∈ Event.before c.alloc id i)
    (hv : ev.About v) :
    v.index < c.alloc.placements.size ∧ (ev = .fold v ∨ i.Names v) := by
  obtain ⟨u, rfl, hu⟩ | ⟨u, rfl, hu⟩ := Event.mem_before_iff.1 hev <;> cases hv
  · exact ⟨h.folded id v hu, Or.inl rfl⟩
  · exact ⟨h.named i hi v (Or.inl hu), Or.inr (Or.inl hu)⟩

/-- So has the virtual register of an event behind it. -/
theorem of_late (h : c.Complete l) (hi : i ∈ l) (hev : ev ∈ Event.after i) (hv : ev.About v) :
    v.index < c.alloc.placements.size ∧ i.Names v := by
  obtain ⟨u, rfl, hu⟩ | ⟨u, rfl, hu⟩ | ⟨q, rfl, -⟩ := Event.mem_after_iff.1 hev <;> cases hv
  · exact ⟨h.named i hi v (Or.inr (Or.inr hu)), Or.inr (Or.inr hu)⟩
  · exact ⟨h.named i hi v (Or.inr (Or.inl hu)), Or.inr (Or.inl hu)⟩

end Context.Complete

/-! ### Reasons -/

/-- A target refuses a load or a store with an error. -/
def Target.Refuses (target : Target) (e : LoweringError) : Prop :=
  (∃ r slot cls, target.store r slot cls = .error e) ∨
    ∃ slot r cls, target.load slot r cls = .error e

/-- An instruction overwrites a part of a register otherwise than by writing the value of a virtual
register. -/
def Inst.Clashes (i : Inst) (a : Allocation) (v : VReg) (r : Reg) : Prop :=
  ∃ q : Reg, q.overlaps r = true ∧ (q ∈ i.clobbers ∨ q ∈ i.outputs ∨
    ∃ u, u ≠ v ∧ i.Writes u ∧ a.reg? u = .ok (some q))

/-- Why the instructions `l` of a block cannot be lowered. -/
inductive Reason (c : Context) (l : List Inst) : Failure → Prop
  /-- The target refuses a load or a store. -/
  | refused {e : LoweringError} (h : c.target.Refuses e) : Reason c l (.error e)
  /-- A terminator is not the last instruction. -/
  | terminatorInside {n : Nat} {w : UInt32} {i : Inst} (hi : l[n]? = some i) (hw : word n = .ok w)
      (ht : i.isTerminator = true) (hlast : n + 1 ≠ l.length) :
      Reason c l (.fault (.terminatorInside ⟨c.block, w⟩ i))
  /-- A terminator writes a virtual register. -/
  | terminatorWrites {n : Nat} {w : UInt32} {i : Inst} (hi : l[n]? = some i) (hw : word n = .ok w)
      (ht : i.isTerminator = true) (hv : i.writesVirtual = true) :
      Reason c l (.fault (.terminatorWrites ⟨c.block, w⟩ i))
  /-- An operand names a virtual register that has no register. -/
  | unassigned {n : Nat} {w : UInt32} {i : Inst} {v : VReg} (hi : l[n]? = some i)
      (hw : word n = .ok w) (hv : i.Names v) (hr : c.alloc.reg? v = .ok none) :
      Reason c l (.fault (.unassigned ⟨c.block, w⟩ v))
  /-- An instruction reads two virtual registers whose registers overlap. -/
  | readWouldBeLost {i : Inst} {pos : Nat} {u v : VReg} {q r : Reg} (hi : i ∈ l) (hu : i.Reads u)
      (hv : i.Reads v) (hne : u ≠ v) (hq : c.alloc.reg? u = .ok (some q))
      (hr : c.alloc.reg? v = .ok (some r)) (hov : q.overlaps r = true) :
      Reason c l (.fault (.readWouldBeLost c.block pos r v))
  /-- A virtual register is written and has no slot. -/
  | slotless {i : Inst} {v : VReg} {r : Reg} (hi : i ∈ l) (hv : i.Writes v)
      (hr : c.alloc.reg? v = .ok (some r)) (hs : c.alloc.slot? v = .ok none) :
      Reason c l (.fault (.slotless c.block v r))
  /-- An instruction writes a virtual register and overwrites its register otherwise. -/
  | writtenTwice {i : Inst} {pos : Nat} {v : VReg} {r : Reg} (hi : i ∈ l) (hv : i.Writes v)
      (hr : c.alloc.reg? v = .ok (some r)) (hclash : i.Clashes c.alloc v r) :
      Reason c l (.fault (.writtenTwice c.block pos r v))

/-! ### Evictions -/

/-- Why a register cannot be emptied, when the instructions `l'` and some events of the next one are
done: it is reserved, it holds a value without a slot or one that the next instruction has written,
or the target refuses. -/
theorem Tracked.stuck_cases (hc : c.Complete l) (h : Tracked c l' done s) (hs : Stuck c q s e) :
    (∃ x, s.table.get? q = some x ∧ q ∈ s.reserved ∧
      e = .fault (.readWouldBeLost c.block s.out.size q x.vreg)) ∨
    (∃ x, s.table.get? q = some x ∧ ((∃ i ∈ l', i.Writes x.vreg) ∨ ∃ ev ∈ done, ev.Writes x.vreg) ∧
      c.alloc.slot? x.vreg = .ok none ∧ e = .fault (.slotless c.block x.vreg q)) ∨
    (∃ x, s.table.get? q = some x ∧ (∃ ev ∈ done, ev.Writes x.vreg) ∧
      e = .fault (.writtenTwice c.block x.since q x.vreg)) ∨
    ∃ e', c.target.Refuses e' ∧ e = .error e' := by
  cases hs with
  | reserved hx hr => exact Or.inl ⟨_, hx, hr, rfl⟩
  | unknown hx hd hs =>
    exact absurd (Or.inr (Or.inl hs)) (hc.ne_error (Context.Complete.index_lt (h.placed hx)))
  | slotless hx hd hs =>
    exact Or.inr (Or.inl ⟨_, hx, (h.written hx hd).imp And.right And.right, hs, rfl⟩)
  | early hx hd hs hb =>
    rcases h.written hx hd with ⟨hlt, -⟩ | ⟨-, hw⟩
    · exact absurd hlt (Nat.not_lt.2 hb)
    · exact Or.inr (Or.inr (Or.inl ⟨_, hx, hw, rfl⟩))
  | classless hx hd hs hb hcls =>
    exact absurd (Or.inr (Or.inr hcls)) (hc.ne_error (Context.Complete.index_lt (h.placed hx)))
  | refused hx hd hs hb hcls hi => exact Or.inr (Or.inr (Or.inr ⟨_, Or.inl ⟨_, _, _, hi⟩, rfl⟩))

/-- Up to the place of an instruction, a register that cannot be emptied is reserved, or there is a
reason that has nothing to do with the instruction. -/
theorem Tracked.reserved_or_reason (hc : c.Complete l) (hsub : l' ⊆ l) (h : Tracked c l' [] s)
    (hs : Stuck c q s e) :
    (∃ x, s.table.get? q = some x ∧ q ∈ s.reserved ∧
      e = .fault (.readWouldBeLost c.block s.out.size q x.vreg)) ∨ Reason c l e := by
  obtain hres | ⟨x, hx, ⟨i, hi, hw⟩ | ⟨ev, hev, -⟩, hslot, rfl⟩ | ⟨x, -, ⟨ev, hev, -⟩, -⟩ |
    ⟨e', hrefuse, rfl⟩ := h.stuck_cases hc hs
  · exact Or.inl hres
  · exact Or.inr (.slotless (hsub hi) hw (h.placed hx) hslot)
  · cases hev
  · cases hev
  · exact Or.inr (.refused hrefuse)

/-! ### Events -/

/-- Only folds come before a fold. -/
theorem Event.folds_of_append_fold {a : Allocation} {rest : List Event}
    (h : Event.before a id i = done ++ .fold v :: rest) : ∀ e ∈ done, ∃ u, e = .fold u := by
  rw [Event.before, List.append_eq_append_iff] at h
  rcases h with ⟨k, rfl, hk⟩ | ⟨k, hk, -⟩
  · have hmem : Event.fold v ∈ i.operands.filterMap Event.ofRead? := by simp [hk]
    obtain ⟨o, -, ho⟩ := List.mem_filterMap.1 hmem
    obtain ⟨u, n, hu, -⟩ := Event.ofRead?_eq_some_iff.1 ho
    cases hu
  · intro e he
    have hmem : e ∈ (a.foldedInto id).map Event.fold := by
      rw [hk]
      exact List.mem_append_left _ he
    obtain ⟨u, -, rfl⟩ := List.mem_map.1 hmem
    exact ⟨u, rfl⟩

/-- **Why an event before the place of an instruction fails.** -/
theorem reason_of_early {n : Nat} {w : UInt32} {rest : List Event} (hc : c.Complete l)
    (hi : l[n]? = some i) (hw : word n = .ok w) (hsub : l' ⊆ l)
    (hsplit : Event.before c.alloc ⟨c.block, w⟩ i = done ++ ev :: rest)
    (htr : Tracked c l' [] t) (hread : Reading c done t)
    (h : Obstacle c ⟨c.block, w⟩ t ev e) : Reason c l e := by
  have hmem : ev ∈ Event.before c.alloc ⟨c.block, w⟩ i := by simp [hsplit]
  have hil : i ∈ l := List.mem_of_getElem? hi
  cases h with
  | unknown hv hf => exact absurd hf (hc.ne_error (hc.of_early hil hmem hv).1)
  | unassigned hv hfold hr =>
    exact .unassigned hi hw ((hc.of_early hil hmem hv).2.resolve_left hfold) hr
  | @stuck _ p q _ hev hov hs =>
    obtain ⟨x, hx, hres, rfl⟩ | hreason := htr.reserved_or_reason hc hsub hs
    · -- The register is reserved for a value that was read, and so the event is a read as well.
      obtain ⟨u, hu, hq⟩ := hread.only hres
      obtain ⟨q', hq', -, hh⟩ := hread.held hu
      obtain rfl := Allocation.reg_unique hq hq'
      obtain ⟨y, hy, rfl⟩ := Table.holds_iff.1 hh
      obtain rfl := Option.some.inj (hx.symm.trans hy)
      have hreads : ∀ {v}, .read v ∈ Event.before c.alloc ⟨c.block, w⟩ i → i.Reads v := by
        intro v hv
        obtain ⟨u, hu, -⟩ | ⟨u, hu, hread⟩ := Event.mem_before_iff.1 hv <;> cases hu
        exact hread
      cases hev with
      | fold hr hh' =>
        obtain ⟨u, hu'⟩ := Event.folds_of_append_fold hsplit _ hu
        cases hu'
      | read hp hnot =>
        refine .readWouldBeLost hil (hreads hmem) (hreads ?_) ?_ hp hq hov
        · rw [hsplit]
          exact List.mem_append_left _ hu
        · rintro rfl
          obtain rfl := Allocation.reg_unique hp hq
          exact absurd (hnot.symm.trans hh) nofun
      | define hp hnot => exact (Event.early_of_mem_before hmem).elim
      | overwrite => exact (Event.early_of_mem_before hmem).elim
    · exact hreason
  | refused hr hh hs hcls hload => exact .refused (Or.inr ⟨_, _, _, hload⟩)
  | free hr hx => exact (Event.early_of_mem_before hmem).elim

/-- **Why an event behind the place of an instruction fails.** -/
theorem reason_of_late {n : Nat} {w : UInt32} {rest : List Event} (hc : c.Complete l)
    (hi : l[n]? = some i) (hw : word n = .ok w) (hsub : l' ⊆ l)
    (hsplit : Event.after i = done ++ ev :: rest) (hlate : Late c l' i done t)
    (h : Obstacle c ⟨c.block, w⟩ t ev e) : Reason c l e := by
  have hmem := Event.mem_after_of_append hsplit
  have hil : i ∈ l := List.mem_of_getElem? hi
  have hwrites : ∀ {v}, (∃ e ∈ done, e.Writes v) → i.Writes v := fun ⟨e, he, hw⟩ =>
    Event.exists_mem_after_writes_iff.1 ⟨e, by simp [hsplit, he], hw⟩
  cases h with
  | unknown hv hf => exact absurd hf (hc.ne_error (hc.of_late hil hmem hv).1)
  | unassigned hv hfold hr => exact .unassigned hi hw (hc.of_late hil hmem hv).2 hr
  | @stuck _ p q _ hev hov hs =>
    obtain ⟨x, -, hres, -⟩ | ⟨x, hx, hw, hslot, rfl⟩ | ⟨x, hx, hw, rfl⟩ | ⟨e', hrefuse, rfl⟩ :=
      hlate.tracked.stuck_cases hc hs
    · rw [hlate.unreserved] at hres
      cases hres
    · rcases hw with ⟨j, hj, hjw⟩ | hw
      · exact .slotless (hsub hj) hjw (hlate.tracked.placed hx) hslot
      · exact .slotless hil (hwrites hw) (hlate.tracked.placed hx) hslot
    · have hq := hlate.tracked.placed hx
      refine .writtenTwice hil (hwrites hw) hq ⟨p, hov, ?_⟩
      cases hev with
      | fold hr hh => exact absurd trivial (Event.not_early_of_mem_after hmem)
      | read hr hh => exact absurd trivial (Event.not_early_of_mem_after hmem)
      | @define u hp hnot =>
        refine Or.inr (Or.inr ⟨u, ?_, ?_, hp⟩)
        · rintro rfl
          obtain rfl := Allocation.reg_unique hp hq
          exact absurd (hnot.symm.trans (Table.holds_of_get? hx)) nofun
        · exact Event.exists_mem_after_writes_iff.1 ⟨_, hmem, Or.inr rfl⟩
      | overwrite =>
        obtain ⟨u, hu, -⟩ | ⟨u, hu, -⟩ | ⟨q, hq, hp⟩ := Event.mem_after_iff.1 hmem
        · cases hu
        · cases hu
        · cases hq
          exact hp.imp_right Or.inl
    · exact .refused hrefuse
  | refused hr hh hs hcls hload => exact .refused (Or.inr ⟨_, _, _, hload⟩)
  | free hr hx =>
    obtain ⟨y, hy, -⟩ := Table.holds_iff.1 (hlate.held.found hsplit hr)
    exact absurd (hx.symm.trans hy) nofun

/-! ### Instructions and blocks -/

/-- **Why an instruction cannot be lowered**, when the instructions before it are. -/
theorem Tracked.reason {n : Nat} {w : UInt32} (hc : c.Complete l) (hi : l[n]? = some i)
    (hw : word n = .ok w) (hsub : l' ⊆ l) (h : Tracked c l' [] s) (hres : s.reserved = [])
    (hs : lowerInst c ⟨c.block, w⟩ i s = .error e s') : Reason c l e := by
  obtain ⟨done, ev, rest, t, hsplit, hdone, hev⟩ | ⟨m, done, ev, rest, t, hm, hsplit, hdone, hev⟩ :=
    lowerInst_eq_error hs
  · have hknown : Tracked c l' [] t ∧ Reading c done t := by
      refine forM_builds (P := fun done u => Tracked c l' [] u ∧ Reading c done u)
        (fun pre e' post hpre u u' hu hp => ?_) ⟨h, .start hres⟩ hdone
      have hmem : e' ∈ Event.before c.alloc ⟨c.block, w⟩ i := by simp [hsplit, hpre]
      have hearly := Event.early_of_mem_before hmem
      have hp := perform_eq_ok_iff.1 hp
      exact ⟨hu.1.perform_early hearly hp, hu.2.perform hearly hp⟩
    exact reason_of_early hc hi hw hsub hsplit hknown.1 hknown.2 (obstacle_of_perform hev)
  · have hstart := Late.start (i := i) (h.before hm) (reading_of_before hres hm)
    exact reason_of_late hc hi hw hsub hsplit (late_of_append hstart hsplit hdone)
      (obstacle_of_perform hev)

/-- **Why a block cannot be lowered**: the block is there, its instructions can be numbered, and the
tables know its virtual registers. -/
theorem reason_of_lowerBlock {b : Block} (hb : c.func.block c.block = .ok b)
    (hlen : b.insts.length ≤ 2 ^ 32) (hc : c.Complete b.insts)
    (h : (lowerBlock c).result = .error e) : Reason c b.insts e := by
  obtain ⟨f, hf⟩ | ⟨b', hb', ⟨s', hinsts⟩ | ⟨t, s', hinsts, hflush⟩⟩ := lowerBlock_eq_error h
  · cases hb.symm.trans hf
  · obtain rfl := Except.ok.inj (hb.symm.trans hb')
    obtain ⟨pre, i, post, t, hsplit, hpre, hcause⟩ := lowerInsts_eq_error hinsts
    have hi : b.insts[pre.length]? = some i := by simp [hsplit]
    have hlt : pre.length < b.insts.length := (List.getElem?_eq_some_iff.1 hi).1
    rw [Nat.zero_add] at hcause
    obtain ⟨htr, hres⟩ := tracked_of_lowerEach hpre
    obtain ⟨f, hf, -⟩ | ⟨w, hw, hterm | hfail⟩ := hcause
    · obtain ⟨w, hw⟩ := exists_word (Nat.lt_of_lt_of_le hlt hlen)
      cases hw.symm.trans hf
    · obtain ⟨ht, ⟨hpost, rfl⟩ | ⟨hv, rfl⟩⟩ := checkTerminator_eq_error hterm
      · refine .terminatorInside hi hw ht fun hlast => ?_
        rw [hsplit, List.length_append, List.length_cons] at hlast
        have hempty : post = [] := List.eq_nil_of_length_eq_zero (by omega)
        rw [hempty] at hpost
        cases hpost
      · exact .terminatorWrites hi hw ht hv
    · refine htr.reason hc hi hw (fun j hj => ?_) hres hfail
      rw [hsplit]
      exact List.mem_append_left _ hj
  · obtain rfl := Except.ok.inj (hb.symm.trans hb')
    obtain ⟨htr, hres⟩ := tracked_of_lowerEach (lowerInsts_eq_ok_iff.1 hinsts).2
    obtain ⟨q, -, hstuck⟩ := stuck_of_vacates hflush
    obtain ⟨x, -, hr, -⟩ | hreason := htr.reserved_or_reason hc (List.Subset.refl _) hstuck
    · rw [hres] at hr
      cases hr
    · exact hreason

end Residency

import Residency.Proofs.Trustworthy
import Residency.Proofs.Woven

/-!
# Values without a slot

A virtual register that has a register but no slot can be read, but it cannot be loaded: the
lowering takes it for granted that the register has the value since the block began
(`Residency.load`). It does not check that. So a read may come too late, behind an instruction that
has overwritten the register, and the lowering goes through all the same
(`Residency.slotless_read_not_always_intact`).

What decides is the instructions before the read and nothing else. The register is as it was when
the block began exactly when none of them disturbs it (`Residency.Inst.Disturbs`), neither by
overwriting it nor by reading a value whose load overwrites it
(`Residency.slotless_read_intact_iff`). The loads for the read itself do no harm: an instruction
that reads two values whose registers overlap is not lowered.
-/

namespace Residency

open Step

variable {c : Context} {id : Site} {i j : Inst} {e : Event} {done : List Event} {l : List Inst}
  {s s' t m : State} {r q : Reg} {v : VReg}

/-! ### What loads and stores of x64 overwrite -/

/-- A load of x64 writes the register that it is for. -/
theorem Target.mem_outputs_of_x64_load {slot : Slot} {cls : RegClass}
    (h : Target.x64.load slot r cls = .ok j) : r ∈ j.outputs := by
  obtain ⟨-, rfl⟩ := Target.x64_load_eq_ok_iff.1 h
  simp [Inst.load, Inst.outputs, Operand.output?]

/-- A store of x64 overwrites nothing. -/
theorem Target.Stores.overwrites (h : Target.x64.Stores j) (r : Reg) : j.overwrites r = false := by
  obtain ⟨q, slot, cls, hj⟩ := h
  obtain ⟨-, rfl⟩ := Target.x64_store_eq_ok_iff.1 hj
  simp [Inst.store, Inst.overwrites, Inst.outputs, Operand.output?]

theorem Inst.overwrites_of_mem_outputs (hq : q ∈ i.outputs) (hov : q.overlaps r = true) :
    i.overwrites r = true :=
  Inst.overwrites_iff.2 ⟨q, Or.inl hq, hov⟩

/-! ### Where a value with a slot comes from -/

/-- A value with a slot was put into its register by an instruction that is lowered, or is written
by one of the events that are done. -/
def Sourced (c : Context) (done : List Event) (s : State) : Prop :=
  ∀ (r : Reg) (x : Resident) (slot : Slot), s.table.get? r = some x →
    c.alloc.slot? x.vreg = .ok (some slot) →
    (∃ j ∈ s.code, r ∈ j.outputs) ∨ ∃ e ∈ done, e.Writes x.vreg

/-- A state in which every register holds what it held before, or something that an instruction or
the last event has put there, or something that has no slot. -/
theorem Sourced.change (h : Sourced c done s) (hcode : ∀ j ∈ s.code, j ∈ s'.code)
    (htable : ∀ (r : Reg) (x : Resident), s'.table.get? r = some x →
      (∃ y, s.table.get? r = some y ∧ y.vreg = x.vreg) ∨ (∃ j ∈ s'.code, r ∈ j.outputs) ∨
        e.Writes x.vreg ∨ c.alloc.slot? x.vreg = .ok none) :
    Sourced c (done ++ [e]) s' := by
  intro r x slot hx hslot
  rcases htable r x hx with ⟨y, hy, hyx⟩ | hj | hw | hnone
  · rcases h r y slot hy (hyx ▸ hslot) with ⟨j, hj, hr⟩ | ⟨e', he', hw⟩
    · exact Or.inl ⟨j, hcode j hj, hr⟩
    · exact Or.inr ⟨e', List.mem_append_left _ he', hyx ▸ hw⟩
  · exact Or.inl hj
  · exact Or.inr ⟨e, by simp, hw⟩
  · cases hnone.symm.trans hslot

/-- **Every event leaves a value with a slot where it can be found**: an instruction has put it into
its register, or the event writes it. -/
theorem Sourced.perform (hc : c.target = .x64) (h : Sourced c done s) (hp : Performed c s e s') :
    Sourced c (done ++ [e]) s' := by
  cases hp with
  | foldAway hr => exact h.change (fun _ hj => hj) fun _ x hx => Or.inl ⟨x, hx, rfl⟩
  | foldAbsent hr hh => exact h.change (fun _ hj => hj) fun _ x hx => Or.inl ⟨x, hx, rfl⟩
  | fold hr hh he =>
    refine h.change (by simp [code_of_evict he]) fun _ x hx => ?_
    exact Or.inl ⟨x, ((evict_empties he).resident hx).2, rfl⟩
  | @readHeld v r hr hh =>
    exact h.change (by simp) fun _ x hx => Or.inl ⟨x, State.table_reserve s r ▸ hx, rfl⟩
  | @readLoaded v r t slot cls i hr hh he hs hcls hi =>
    rw [hc] at hi
    refine h.change (by simp +contextual [code_of_evict he]) fun q x hx => ?_
    rw [State.table_reserve] at hx
    -- The load itself is the instruction that has put the value there.
    rcases State.get?_hold_eq_some_iff.1 hx with ⟨rfl, -⟩ | ⟨-, hx⟩
    · exact Or.inr (Or.inl ⟨i, by simp, Target.mem_outputs_of_x64_load hi⟩)
    · exact Or.inl ⟨x, ((evict_empties he).resident hx).2, rfl⟩
  | readFound hr hh he hs =>
    refine h.change (by simp [code_of_evict he]) fun q x hx => ?_
    rw [State.table_reserve] at hx
    -- Nothing has put the value there, but then it has no slot.
    rcases State.get?_hold_eq_some_iff.1 hx with ⟨-, rfl⟩ | ⟨-, hx⟩
    · exact Or.inr (Or.inr (Or.inr hs))
    · exact Or.inl ⟨x, ((evict_empties he).resident hx).2, rfl⟩
  | @modify v r y hr hy =>
    refine h.change (by simp) fun q x hx => ?_
    -- The value that is changed in place was put there before.
    rcases State.get?_hold_eq_some_iff.1 hx with ⟨rfl, rfl⟩ | ⟨-, hx⟩
    · exact Or.inl ⟨y, hy, rfl⟩
    · exact Or.inl ⟨x, hx, rfl⟩
  | redefine hr hh =>
    refine h.change (by simp) fun q x hx => ?_
    rcases State.get?_hold_eq_some_iff.1 hx with ⟨-, rfl⟩ | ⟨-, hx⟩
    · exact Or.inr (Or.inr (Or.inl (Or.inr rfl)))
    · exact Or.inl ⟨x, hx, rfl⟩
  | define hr hh he =>
    refine h.change (by simp [code_of_evict he]) fun q x hx => ?_
    rcases State.get?_hold_eq_some_iff.1 hx with ⟨-, rfl⟩ | ⟨-, hx⟩
    · exact Or.inr (Or.inr (Or.inl (Or.inr rfl)))
    · exact Or.inl ⟨x, ((evict_empties he).resident hx).2, rfl⟩
  | overwrite he =>
    refine h.change (by simp [code_of_evict he]) fun _ x hx => ?_
    exact Or.inl ⟨x, ((evict_empties he).resident hx).2, rfl⟩

theorem Sourced.congr (h : Sourced c done s) (ht : s'.table = s.table) (ho : s'.out = s.out) :
    Sourced c done s' := by
  rw [Sourced, State.code, ht, ho]
  exact h

theorem Sourced.performs {es : List Event} (hc : c.target = .x64) (h : Sourced c [] s)
    (hs : (es.forM (Event.perform c id)) s = .ok () t) : Sourced c es t :=
  forM_builds (P := Sourced c)
    (fun _ _ _ _ _ _ hu hp => hu.perform hc (perform_eq_ok_iff.1 hp)) h hs

/-- Up to its place an instruction writes nothing. -/
theorem Sourced.before (hc : c.target = .x64) (h : Sourced c [] s)
    (hm : ((Event.before c.alloc id i).forM (Event.perform c id)) s = .ok () m) :
    Sourced c [] m := by
  intro r x slot hx hslot
  refine (h.performs hc hm r x slot hx hslot).imp_right ?_
  rintro ⟨e, he, hw⟩
  rcases Event.mem_before_iff.1 he with ⟨u, rfl, -⟩ | ⟨u, rfl, -⟩ <;> rcases hw with hw | hw <;>
    cases hw

/-- When an instruction joins the block, what it has written was put there by it. -/
theorem Sourced.push (h : Sourced c (Event.after i) s)
    (hplaced : ∀ {r : Reg} {x : Resident}, s.table.get? r = some x →
      c.alloc.reg? x.vreg = .ok (some r)) :
    Sourced c [] (s.push (i.mapRefs c.alloc.substitute)) := by
  intro r x slot hx hslot
  refine Or.inl ?_
  rw [State.code_push]
  rcases h r x slot hx hslot with ⟨j, hj, hr⟩ | hw
  · exact ⟨j, List.mem_append_left _ hj, hr⟩
  · have hwrites := Event.exists_mem_after_writes_iff.1 hw
    exact ⟨_, by simp, Inst.mem_outputs_lowered_iff.2 (Or.inr ⟨x.vreg, hwrites, hplaced hx⟩)⟩

/-! ### What was read -/

/-- What is known when the instructions `l` are lowered: a value with a slot that one of them reads
was put into its register. -/
structure Supplied (c : Context) (l : List Inst) (s : State) : Prop where
  /-- The table says where the values are. -/
  tracked : Tracked c l [] s
  /-- No register is reserved. -/
  unreserved : s.reserved = []
  /-- A value with a slot was put where it is. -/
  sourced : Sourced c [] s
  /-- And so was every one that was read. -/
  supplied : ∀ i ∈ l, ∀ (v : VReg) (r : Reg) (slot : Slot), i.Reads v →
    c.alloc.reg? v = .ok (some r) → c.alloc.slot? v = .ok (some slot) → ∃ j ∈ s.code, r ∈ j.outputs

theorem Supplied.next (hc : c.target = .x64) (h : Supplied c l s)
    (hs : lowerInst c id i s = .ok () s') : Supplied c (l ++ [i]) s' := by
  obtain ⟨htr, hres⟩ := h.tracked.next h.unreserved hs
  obtain ⟨m, t, hm, ht, rfl⟩ := lowerInst_eq_ok_iff.1 hs
  have hmid := h.sourced.before hc hm
  have hreading := reading_of_before h.unreserved hm
  have hrelease : Sourced c [] m.release := hmid.congr rfl rfl
  have hcode : t.code = m.code := (code_of_after ht).trans State.code_release
  obtain ⟨loads, hmcode, -⟩ := code_of_before hm
  refine ⟨htr, hres, (hrelease.performs hc ht).push htr.placed, ?_⟩
  intro k hk v r slot hv hr hslot
  rw [State.code_push, hcode]
  rcases List.mem_append.1 hk with hk | hk
  · obtain ⟨j, hj, hout⟩ := h.supplied k hk v r slot hv hr hslot
    exact ⟨j, by simp [hmcode, hj], hout⟩
  · -- The instruction itself finds the value in its register.
    obtain rfl := List.mem_singleton.1 hk
    obtain ⟨q, hq, hh⟩ := hreading.held_of_reads hv
    obtain rfl := Allocation.reg_unique hr hq
    obtain ⟨x, hx, rfl⟩ := Table.holds_iff.1 hh
    rcases hmid r x slot hx hslot with ⟨j, hj, hout⟩ | ⟨e, he, -⟩
    · exact ⟨j, List.mem_append_left _ hj, hout⟩
    · cases he

theorem supplied_of_lowerEach (hc : c.target = .x64) (hs : lowerEach c 0 l {} = .ok () s) :
    Supplied c l s := by
  induction l using List.reverseRecOn generalizing s with
  | nil =>
    obtain rfl := lowerEach_nil_eq_ok_iff.1 hs
    exact ⟨.start, rfl, fun _ _ _ h => (nomatch h), fun i hi => absurd hi List.not_mem_nil⟩
  | append_singleton pre i ih =>
    obtain ⟨t, hpre, hlast⟩ := lowerEach_append_eq_ok_iff.1 hs
    obtain ⟨w, t', -, hi, hnil⟩ := lowerEach_cons_eq_ok_iff.1 hlast
    obtain rfl := lowerEach_nil_eq_ok_iff.1 hnil
    exact (ih hpre).next hc hi

/-! ### Reads of values without a slot -/

/-- An instruction disturbs a register when it overwrites a part of it, or reads a value with a slot
whose register overlaps it. -/
def Inst.Disturbs (i : Inst) (a : Allocation) (r : Reg) : Prop :=
  (i.mapRefs a.substitute).overwrites r = true ∨
    ∃ v q slot, i.Reads v ∧ a.reg? v = .ok (some q) ∧ a.slot? v = .ok (some slot) ∧
      q.overlaps r = true

/-- Two values that an instruction reads, and finds in their registers, have registers that do not
overlap. -/
theorem Tracked.eq_of_reads {done : List Event} {u : VReg} (h : Tracked c l done m)
    (hreading : Reading c (Event.before c.alloc id i) m) (hu : i.Reads u) (hv : i.Reads v)
    (hq : c.alloc.reg? u = .ok (some q)) (hr : c.alloc.reg? v = .ok (some r))
    (hov : q.overlaps r = true) : u = v := by
  obtain ⟨q', hq', hh⟩ := hreading.held_of_reads hu
  obtain rfl := Allocation.reg_unique hq hq'
  obtain ⟨r', hr', hh'⟩ := hreading.held_of_reads hv
  obtain rfl := Allocation.reg_unique hr hr'
  obtain ⟨x, hx, rfl⟩ := Table.holds_iff.1 hh
  obtain ⟨y, hy, rfl⟩ := Table.holds_iff.1 hh'
  obtain rfl := h.apart hx hy hov
  exact congrArg Resident.vreg (Option.some.inj (hx.symm.trans hy))

section Place

variable {pre post out front back : List Inst}

/-- What disturbs a register before the place of an instruction shows in the code before it. -/
theorem Stands.exists_overwrites (hc : c.target = .x64)
    (h : Stands c pre i post out m front back) {k : Inst} (hk : k ∈ pre)
    (hdisturbs : k.Disturbs c.alloc r) : ∃ j ∈ front, j.overwrites r = true := by
  obtain ⟨t, w, hpre, -, hm⟩ := h.settled
  obtain ⟨loads, hcode, -⟩ := code_of_before hm
  rcases hdisturbs with hover | ⟨u, q, slot, hu, hq, hslot, hov⟩
  · exact ⟨_, h.front.mem hk, hover⟩
  · obtain ⟨j, hj, hout⟩ := (supplied_of_lowerEach hc hpre).supplied k hk u q slot hu hq hslot
    exact ⟨j, h.code j (hcode ▸ List.mem_append_left _ hj),
      Inst.overwrites_of_mem_outputs hout hov⟩

/-- Before a read of a value without a slot, nothing overwrites its register but what an earlier
instruction does or is loaded for. -/
theorem Stands.exists_disturbs (hc : c.target = .x64) (h : Stands c pre i post out m front back)
    (hv : i.Reads v) (hr : c.alloc.reg? v = .ok (some r)) (hslot : c.alloc.slot? v = .ok none)
    (hj : j ∈ front) (hover : j.overwrites r = true) : ∃ k ∈ pre, k.Disturbs c.alloc r := by
  obtain ⟨t, w, hpre, -, hm⟩ := h.settled
  obtain ⟨htr, hres⟩ := tracked_of_lowerEach hpre
  obtain ⟨code, ht, hlaid⟩ := laid_of_lowerEach hpre
  obtain ⟨loads, hcode, hloads⟩ := code_of_before hm
  rcases h.stores j hj with hj | hj
  · rw [hcode, ht] at hj
    rcases List.mem_append.1 hj with hj | hj
    · obtain ⟨k, hk, rfl | ⟨u, hu, q, slot, cls, hq, hslot', hload⟩⟩ :=
        hlaid.origin (by simpa [State.code] using hj)
      · exact ⟨k, hk, Or.inl hover⟩
      · rw [hc] at hload
        exact ⟨k, hk, Or.inr ⟨u, q, slot, hu, hq, hslot', Target.x64_loadsOnly hload hover⟩⟩
    · -- A load for the read itself is for a value whose register does not overlap.
      obtain ⟨u, hu, q, slot, cls, hq, hslot', hload⟩ := hloads j hj
      rw [hc] at hload
      obtain rfl : u = v := (htr.before hm).eq_of_reads (reading_of_before hres hm) hu hv hq hr
        (Target.x64_loadsOnly hload hover)
      cases hslot.symm.trans hslot'
  · rw [hc] at hj
    exact absurd ((hj.overwrites r).symm.trans hover) Bool.false_ne_true

end Place

/-- **What comes before a read of a value without a slot** leaves its register as it was when the
block began, exactly if no instruction before the read disturbs the register. -/
theorem slotless_read_intact_iff {b : Block} {pre post : List Inst} {x : List Inst × Stats}
    (hc : c.target = .x64) (hb : c.func.block c.block = .ok b) (hinsts : b.insts = pre ++ i :: post)
    (hx : (lowerBlock c).result = .ok x) (hv : i.Reads v) (hr : c.alloc.reg? v = .ok (some r))
    (hslot : c.alloc.slot? v = .ok none) :
    ∃ front back, x.1 = front ++ i.mapRefs c.alloc.substitute :: back ∧ Woven c pre front ∧
      Woven c post back ∧
      ((∀ j ∈ front, j.overwrites r = false) ↔ ∀ k ∈ pre, ¬ k.Disturbs c.alloc r) := by
  obtain ⟨m, front, back, hstands⟩ := exists_stands_of_lowerBlock hb hinsts hx
  refine ⟨front, back, hstands.split, hstands.front, hstands.back, fun hfront k hk hdisturbs => ?_,
    fun hpre j hj => Bool.eq_false_iff.2 fun hover => ?_⟩
  · obtain ⟨j, hj, hover⟩ := hstands.exists_overwrites hc hk hdisturbs
    exact absurd ((hfront j hj).symm.trans hover) Bool.false_ne_true
  · obtain ⟨k, hk, hdisturbs⟩ := hstands.exists_disturbs hc hv hr hslot hj hover
    exact hpre k hk hdisturbs

/-! ### A comparison made twice -/

/-- A virtual register with a register and no slot. -/
def comparedHomes : Allocation where
  placements := #[⟨some .rax, none⟩]

/-- An instruction that compares the value. -/
def compareInst : Inst := ⟨"cmp", [.reg (.virtual ⟨0⟩) .read, .imm 0], [], false⟩

/-- An instruction that sets the register of the value. -/
def setInst : Inst := ⟨"mov", [.reg (.physical .rax) .write, .imm 1], [], false⟩

/-- A function that compares the value, sets its register, and compares the value again. -/
def comparedFunc : Func := ⟨"compared", #[.gpr64], #[⟨[compareInst, setInst, compareInst]⟩]⟩

/-- What its only block is lowered with. -/
def comparedContext : Context := ⟨comparedFunc, comparedHomes, .x64, .regEvent, ⟨0⟩⟩

/-- What has become of the block: the second comparison is one of another value. -/
def comparedLowered : List Inst × Stats :=
  ([⟨"cmp", [.reg (.physical .rax) .read, .imm 0], [], false⟩, setInst,
    ⟨"cmp", [.reg (.physical .rax) .read, .imm 0], [], false⟩], ⟨0, 0, 2, 0, 1⟩)

/-- What comes before the second comparison leaves the register alone exactly if no instruction
before it disturbs it. -/
theorem slotless_read_intact_iff_compared :
    (lowerBlock comparedContext).result = .ok comparedLowered ∧
    ∃ front back,
      comparedLowered.1 = front ++ compareInst.mapRefs comparedHomes.substitute :: back ∧
      Woven comparedContext [compareInst, setInst] front ∧ Woven comparedContext [] back ∧
      ((∀ j ∈ front, j.overwrites .rax = false) ↔
        ∀ k ∈ [compareInst, setInst], ¬ k.Disturbs comparedHomes .rax) := by
  have hlowered : (lowerBlock comparedContext).result = .ok comparedLowered := by decide +kernel
  have hread : compareInst.Reads ⟨0⟩ := ⟨_, List.mem_cons_self, false, rfl⟩
  exact ⟨hlowered,
    slotless_read_intact_iff (c := comparedContext) rfl rfl rfl hlowered hread rfl rfl⟩

/-- So a value without a slot may be read when its register has been overwritten. -/
theorem slotless_read_not_always_intact :
    ¬ ∀ (c : Context) (b : Block) (pre : List Inst) (i : Inst) (post : List Inst)
      (x : List Inst × Stats) (v : VReg) (r : Reg), c.target = .x64 →
      c.func.block c.block = .ok b → b.insts = pre ++ i :: post → (lowerBlock c).result = .ok x →
      i.Reads v → c.alloc.reg? v = .ok (some r) → c.alloc.slot? v = .ok none →
      ∃ front back, x.1 = front ++ i.mapRefs c.alloc.substitute :: back ∧ Woven c pre front ∧
        Woven c post back ∧ ∀ j ∈ front, j.overwrites r = false := by
  intro hall
  have hlowered : (lowerBlock comparedContext).result = .ok comparedLowered := by decide +kernel
  have hread : compareInst.Reads ⟨0⟩ := ⟨_, List.mem_cons_self, false, rfl⟩
  obtain ⟨front, back, -, hfront, -, hintact⟩ := hall comparedContext _ [compareInst, setInst]
    compareInst [] comparedLowered ⟨0⟩ .rax rfl rfl rfl hlowered hread rfl rfl
  have hset : (setInst.mapRefs comparedHomes.substitute).overwrites .rax = false :=
    hintact _ (hfront.mem (by simp))
  exact absurd hset (by decide)

end Residency

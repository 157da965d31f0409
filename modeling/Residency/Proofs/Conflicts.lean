import Residency.Proofs.Folded
import Residency.Proofs.Obstacle

/-!
# Operands that are written to overlapping registers

Two operands of one instruction are in conflict when both are written, one of them is a virtual
register, and the other one is written to a register that overlaps the one of that virtual register
(`Residency.Inst.Conflict`). What is left there then is not the value of the virtual register.

A conflict shows when the other operand evicts the value, which is as old as the instruction at
hand and has no place yet that a store could stand behind. So it matters which of the two comes
first. The writes are dealt with in the order of the operands, and when the physical register is
written first there is nothing yet to be evicted (`Residency.Inst.FixedFirst`). All other conflicts
are found, whatever the target is and in whatever order the operands stand
(`Residency.write_conflicts_rejected`), but these are not, although the same operands in the other
order are rejected (`Residency.write_conflicts_not_always_rejected`).
-/

namespace Residency

open Step

variable {c : Context} {a : Allocation} {id : Site} {i : Inst} {e ev : Event}
  {done rest : List Event} {l : List Inst} {s s' t m : State} {r q : Reg} {u v : VReg} {n k : Nat}
  {o o' : Operand}

/-! ### Conflicts -/

/-- An operand writes a virtual register, and another one writes something else, to a register that
overlaps its own. -/
def Operand.Conflicts (a : Allocation) (v : VReg) (o o' : Operand) : Prop :=
  o.written? = some v ∧ o'.written? ≠ some v ∧ ∃ r q, a.reg? v = .ok (some r) ∧
    (o'.mapRef a.substitute).output? = some q ∧ q.overlaps r = true

/-- The operands of an instruction at two positions are in conflict over a virtual register, which
the first of them writes. -/
def Inst.Conflict (i : Inst) (a : Allocation) (k n : Nat) (v : VReg) : Prop :=
  ∃ o o', i.operands[k]? = some o ∧ i.operands[n]? = some o' ∧ o.Conflicts a v o'

/-- The operands at two positions are writes, of a virtual register and of a physical one that is
named earlier. -/
def Inst.FixedFirst (i : Inst) (k n : Nat) (v : VReg) : Prop :=
  n < k ∧ i.operands[k]? = some (.reg (.virtual v) .write) ∧
    ∃ q, i.operands[n]? = some (.reg (.physical q) .write)

/-- An instruction has operands in conflict of which none is a physical register that is written
first, or it changes a virtual register in place whose register it overwrites besides. -/
def Inst.Contends (i : Inst) (a : Allocation) : Prop :=
  (∃ k n v, i.Conflict a k n v ∧ ¬ i.FixedFirst k n v) ∨
    ∃ v r q, .reg (.virtual v) .modify ∈ i.operands ∧ a.reg? v = .ok (some r) ∧
      q ∈ i.clobbers ∧ q.overlaps r = true

/-- An instruction writes a virtual register, and besides a physical one that overlaps its
register. -/
def Inst.WritesBoth (i : Inst) (a : Allocation) : Prop :=
  ∃ v r q, .reg (.virtual v) .write ∈ i.operands ∧ a.reg? v = .ok (some r) ∧
    .reg (.physical q) .write ∈ i.operands ∧ q.overlaps r = true

theorem Inst.Conflict.of_mem (ho : o ∈ i.operands) (ho' : o' ∈ i.operands)
    (h : o.Conflicts a v o') : ∃ k n, i.operands[k]? = some o ∧ i.operands[n]? = some o' ∧
      i.Conflict a k n v := by
  obtain ⟨k, hk⟩ := List.mem_iff_getElem?.1 ho
  obtain ⟨n, hn⟩ := List.mem_iff_getElem?.1 ho'
  exact ⟨k, n, hk, hn, o, o', hk, hn, h⟩

/-- Where no virtual register is written besides a physical one, it does not matter at which
positions the operands are that are in conflict. -/
theorem Inst.contends_iff (h : ¬ i.WritesBoth a) : i.Contends a ↔
    (∃ o ∈ i.operands, ∃ o' ∈ i.operands, ∃ v, o.Conflicts a v o') ∨
      ∃ v r q, .reg (.virtual v) .modify ∈ i.operands ∧ a.reg? v = .ok (some r) ∧
        q ∈ i.clobbers ∧ q.overlaps r = true := by
  refine or_congr_left ⟨?_, ?_⟩
  · rintro ⟨k, n, v, ⟨o, o', hk, hn, hconflict⟩, -⟩
    exact ⟨o, List.mem_of_getElem? hk, o', List.mem_of_getElem? hn, v, hconflict⟩
  · rintro ⟨o, ho, o', ho', v, hconflict⟩
    obtain ⟨k, n, hk, hn, hpos⟩ := Inst.Conflict.of_mem ho ho' hconflict
    refine ⟨k, n, v, hpos, ?_⟩
    rintro ⟨-, hwrite, q, hfixed⟩
    obtain rfl := Option.some.inj (hk.symm.trans hwrite)
    obtain rfl := Option.some.inj (hn.symm.trans hfixed)
    obtain ⟨-, -, r, p, hr, hp, hov⟩ := hconflict
    obtain rfl : q = p := Option.some.inj hp
    exact h ⟨v, r, q, ho, hr, ho', hov⟩

/-- **The order of the operands** does not decide whether an instruction contends, unless it writes
a virtual register and a physical one that overlaps its register. -/
theorem Inst.contends_congr {i' : Inst} (hperm : i.operands.Perm i'.operands)
    (hclob : i.clobbers = i'.clobbers) (h : ¬ i.WritesBoth a) :
    i.Contends a ↔ i'.Contends a := by
  have h' : ¬ i'.WritesBoth a := by
    rintro ⟨v, r, q, hv, hr, hq, hov⟩
    exact h ⟨v, r, q, hperm.mem_iff.2 hv, hr, hperm.mem_iff.2 hq, hov⟩
  rw [Inst.contends_iff h, Inst.contends_iff h']
  simp only [hperm.mem_iff, hclob]

/-! ### Conflicts that are found -/

/-- **No event of an instruction that is lowered hits what an earlier one wrote**, whatever the
target is. -/
theorem pairwise_spares_of_after (hlate : Late c l i [] m.release)
    (ht : ((Event.after i).forM (Event.perform c id)) m.release = .ok () t) :
    (Event.after i).Pairwise fun e e' => e'.Spares c.alloc e := by
  refine (hlate.builds (P := fun done u => Changed c m done u ∧
      done.Pairwise fun e e' => e'.Spares c.alloc e) ⟨.start, .nil⟩ (List.append_nil _).symm ht
    fun pre e post u u' hall hlate hu hp => ⟨hu.1.perform hlate hall hp, ?_⟩).2
  refine List.pairwise_append.2 ⟨hu.2, List.pairwise_singleton _ _, fun e₀ he₀ e₁ he₁ => ?_⟩
  obtain rfl := List.mem_singleton.1 he₁
  rintro v r q hw hr rfl
  cases hp with
  | overwrite he => exact hu.1.not_overlaps he he₀ hw hr

/-- When all events of an instruction are done, the values that it has written are in different
places. -/
theorem Changed.eq_of_writes (htr : Tracked c l done t) (h : Changed c m (Event.after i) t)
    (hu : i.Writes u) (hv : i.Writes v) (hq : c.alloc.reg? u = .ok (some q))
    (hr : c.alloc.reg? v = .ok (some r)) (hov : q.overlaps r = true) : u = v := by
  obtain ⟨e, he, hw⟩ := Event.exists_mem_after_writes_iff.2 hu
  obtain ⟨q', hq', hx⟩ := h.kept he hw
  obtain rfl := Allocation.reg_unique hq hq'
  obtain ⟨e', he', hw'⟩ := Event.exists_mem_after_writes_iff.2 hv
  obtain ⟨r', hr', hy⟩ := h.kept he' hw'
  obtain rfl := Allocation.reg_unique hr hr'
  obtain rfl := htr.apart hx hy hov
  exact congrArg Resident.vreg (Option.some.inj (hx.symm.trans hy))

/-- **The writes of an instruction that is lowered**: no event hits what an earlier one wrote, and
different values are written to registers that do not overlap. -/
theorem Tracked.writes_apart (htr : Tracked c l [] s) (hres : s.reserved = [])
    (hs : lowerInst c id i s = .ok () s') :
    (Event.after i).Pairwise (fun e e' => e'.Spares c.alloc e) ∧
      ∀ {u v : VReg} {q r : Reg}, i.Writes u → i.Writes v → c.alloc.reg? u = .ok (some q) →
        c.alloc.reg? v = .ok (some r) → q.overlaps r = true → u = v := by
  obtain ⟨m, t, hm, ht, rfl⟩ := lowerInst_eq_ok_iff.1 hs
  have hstart := Late.start (i := i) (htr.before hm) (reading_of_before hres hm)
  have hlate := late_of_append hstart (List.append_nil _).symm ht
  exact ⟨pairwise_spares_of_after hstart ht,
    (changed_of_after hstart ht).eq_of_writes hlate.tracked⟩

/-- **The only conflicts of an instruction that is lowered** are with physical registers that are
written first. -/
theorem Tracked.fixedFirst (htr : Tracked c l [] s) (hres : s.reserved = [])
    (hs : lowerInst c id i s = .ok () s') (hconflict : i.Conflict c.alloc k n v) :
    i.FixedFirst k n v := by
  obtain ⟨hpair, hapart⟩ := htr.writes_apart hres hs
  obtain ⟨hmodify, hfixed, hwrites⟩ := Event.pairwise_spares_iff.1 hpair
  obtain ⟨o, o', hk, hn, hv, hne, r, q, hr, hq, hov⟩ := hconflict
  have ho := List.mem_of_getElem? hk
  have ho' := List.mem_of_getElem? hn
  have hwv : i.Writes v := Inst.writes_iff.2 ⟨o, ho, hv⟩
  rcases Operand.output?_lowered_iff.1 hq with hq | ⟨u, hu, hq⟩
  · rcases Operand.output?_eq_some_iff.1 hq with rfl | rfl
    · rcases Operand.written?_eq_some_iff.1 hv with rfl | rfl
      · refine ⟨Nat.lt_of_not_le fun hle => ?_, hk, q, hn⟩
        -- Behind the write of the virtual register, the other one would have evicted it.
        obtain ⟨hk', hok⟩ := List.getElem?_eq_some_iff.1 hk
        obtain ⟨hn', hon⟩ := List.getElem?_eq_some_iff.1 hn
        have hlt : k < n := Nat.lt_of_le_of_ne hle fun heq => by
          subst heq
          cases hok.symm.trans hon
        exact absurd ((List.pairwise_iff_getElem.1 hwrites k n hk' hn' hlt hok hr hon).symm.trans
          hov) nofun
      · exact absurd ((hmodify ho hr (Or.inr ho')).symm.trans hov) nofun
    · exact absurd ((hfixed hwv hr ho').symm.trans hov) nofun
  · have hwu : i.Writes u := Inst.writes_iff.2 ⟨o', ho', hu⟩
    obtain rfl := hapart hwu hwv hq hr hov
    exact absurd hu hne

/-- **An instruction that is lowered does not contend.** -/
theorem Tracked.not_contends (htr : Tracked c l [] s) (hres : s.reserved = [])
    (hs : lowerInst c id i s = .ok () s') : ¬ i.Contends c.alloc := by
  rintro (⟨k, n, v, hconflict, hnot⟩ | ⟨v, r, q, ho, hr, hq, hov⟩)
  · exact hnot (htr.fixedFirst hres hs hconflict)
  · have hspared := (Event.pairwise_spares_iff.1 (htr.writes_apart hres hs).1).1 ho hr (Or.inl hq)
    exact absurd (hspared.symm.trans hov) nofun

/-! ### What is rejected -/

/-- An instruction contends by two operands that are in conflict, unless they are the writes of a
virtual register and of a physical one. -/
theorem Inst.Contends.of_mem (ho : o ∈ i.operands) (ho' : o' ∈ i.operands)
    (h : o.Conflicts a v o')
    (hne : o = .reg (.virtual v) .modify ∨ ∀ q, o' ≠ .reg (.physical q) .write) :
    i.Contends a := by
  obtain ⟨k, n, hk, hn, hconflict⟩ := Inst.Conflict.of_mem ho ho' h
  refine Or.inl ⟨k, n, v, hconflict, ?_⟩
  rintro ⟨-, hwrite, q, hfixed⟩
  rcases hne with rfl | hne
  · cases hk.symm.trans hwrite
  · exact hne q (Option.some.inj (hn.symm.trans hfixed))

/-- A physical register that an operand writes is in conflict with a virtual register if the
registers overlap. -/
theorem Operand.conflicts_physical {access : Access} (hv : o.written? = some v)
    (hr : a.reg? v = .ok (some r)) (hq : (Operand.reg (.physical q) access).output? = some q)
    (hov : q.overlaps r = true) : o.Conflicts a v (.reg (.physical q) access) := by
  refine ⟨hv, ?_, r, q, hr, Operand.output?_lowered_iff.2 (Or.inl hq), hov⟩
  cases access <;> exact nofun

/-- **An instruction that does not contend** has no event that hits what an earlier one wrote. -/
theorem Inst.pairwise_of_not_contends (h : ¬ i.Contends a) :
    (Event.after i).Pairwise fun e e' => e'.Spares a e := by
  refine Event.pairwise_spares_iff.2 ⟨fun {v r q} ho hr hq => ?_, fun {v r q} hv hr hq => ?_, ?_⟩
  · refine Bool.eq_false_iff.2 fun hov => h ?_
    rcases hq with hq | hq
    · exact Or.inr ⟨v, r, q, ho, hr, hq, hov⟩
    · exact .of_mem ho hq (Operand.conflicts_physical rfl hr rfl hov) (Or.inl rfl)
  · refine Bool.eq_false_iff.2 fun hov => h ?_
    obtain ⟨o, ho, hv⟩ := Inst.writes_iff.1 hv
    exact .of_mem ho hq (Operand.conflicts_physical hv hr rfl hov) (Or.inr fun p => nofun)
  · refine List.pairwise_iff_getElem.2 fun k n hk hn hlt v r q ho hr ho' => ?_
    refine Bool.eq_false_iff.2 fun hov => h (Or.inl ⟨k, n, v, ⟨_, _, List.getElem?_eq_getElem hk,
      List.getElem?_eq_getElem hn, ?_⟩, fun hfirst => Nat.lt_asymm hlt hfirst.1⟩)
    rw [ho, ho']
    exact Operand.conflicts_physical rfl hr rfl hov

theorem ne_writtenTwice {b : BlockId} {pos : Nat} {w : VReg}
    (h : c.alloc.reg? v = .error (.writtenTwice b pos r w) ∨
      c.alloc.slot? v = .error (.writtenTwice b pos r w) ∨
      c.func.classOf v = .error (.writtenTwice b pos r w)) : False := by
  rcases h with h | h | h
  · exact absurd h (map_ne_error (entry_ne_error nofun))
  · exact absurd h (map_ne_error (entry_ne_error nofun))
  · exact absurd h (entry_ne_error nofun)

/-- A value that cannot be stored because it is as old as the instruction at hand was written by an
event that is done. -/
theorem Tracked.exists_writes_of_stuck {b : BlockId} {pos : Nat} (htr : Tracked c l done t)
    (h : Stuck c q t (.fault (.writtenTwice b pos r v))) :
    c.alloc.reg? v = .ok (some q) ∧ t.table.holds q v = true ∧ ∃ e ∈ done, e.Writes v := by
  cases h with
  | unknown hx hd hs => exact absurd hs fun hs => ne_writtenTwice (Or.inr (Or.inl hs))
  | early hx hd hs hb =>
    refine ⟨htr.placed hx, Table.holds_of_get? hx, ?_⟩
    rcases htr.written hx hd with ⟨hlt, -⟩ | ⟨-, hw⟩
    · exact absurd hlt (Nat.not_lt.2 hb)
    · exact hw
  | classless hx hd hs hb hcls =>
    exact absurd hcls fun hcls => ne_writtenTwice (Or.inr (Or.inr hcls))

/-- **An instruction that is rejected for a conflict contends.** -/
theorem Late.contends {b : BlockId} {pos : Nat} (hlate : Late c l i done t)
    (hsplit : Event.after i = done ++ ev :: rest)
    (h : Obstacle c id t ev (.fault (.writtenTwice b pos r v))) : i.Contends c.alloc := by
  have hmem := Event.mem_after_of_append hsplit
  cases h with
  | unknown hv hf => exact absurd hf ne_writtenTwice
  | @stuck _ p q _ hev hov hs =>
    obtain ⟨hq, hh, e, he, hw⟩ := hlate.tracked.exists_writes_of_stuck hs
    have hv : i.Writes v :=
      Event.exists_mem_after_writes_iff.1 ⟨e, by simp [hsplit, he], hw⟩
    obtain ⟨o, ho, hwritten⟩ := Inst.writes_iff.1 hv
    cases hev with
    | fold hr hh' => exact absurd trivial (Event.not_early_of_mem_after hmem)
    | read hr hh' => exact absurd trivial (Event.not_early_of_mem_after hmem)
    | @define u hp hnot =>
      obtain ⟨w, hw', -⟩ | ⟨w, hw', ho'⟩ | ⟨w, hw', -⟩ := Event.mem_after_iff.1 hmem <;> cases hw'
      have hne : u ≠ v := by
        rintro rfl
        obtain rfl := Allocation.reg_unique hp hq
        exact absurd (hnot.symm.trans hh) nofun
      refine .of_mem ho ho' ⟨hwritten, fun h => hne (Option.some.inj h), q, p, hq,
        Operand.output?_lowered_iff.2 (Or.inr ⟨u, rfl, hp⟩), hov⟩ (Or.inr fun _ => nofun)
    | overwrite =>
      by_contra hnot
      have hpair := Inst.pairwise_of_not_contends hnot
      rw [hsplit] at hpair
      have hspares : (Event.overwrite p).Spares c.alloc e :=
        (List.pairwise_append.1 hpair).2.2 e he _ List.mem_cons_self
      exact absurd ((hspares hw hq rfl).symm.trans hov) nofun

/-- Up to its place nothing is rejected for a conflict of writes. -/
theorem Tracked.not_obstacle {b : BlockId} {pos : Nat} (htr : Tracked c l [] t)
    (h : Obstacle c id t ev (.fault (.writtenTwice b pos r v))) : False := by
  cases h with
  | unknown hv hf => exact ne_writtenTwice hf
  | stuck hev hov hs =>
    obtain ⟨-, -, e, hmem, -⟩ := htr.exists_writes_of_stuck hs
    cases hmem

theorem Tracked.contends {b : BlockId} {pos : Nat} (htr : Tracked c l [] s)
    (hres : s.reserved = [])
    (hs : lowerInst c id i s = .error (.fault (.writtenTwice b pos r v)) s') :
    i.Contends c.alloc := by
  obtain ⟨done, ev, rest, t, hsplit, hdone, hev⟩ | ⟨m, done, ev, rest, t, hm, hsplit, hdone, hev⟩ :=
    lowerInst_eq_error hs
  · have hearly : ∀ e ∈ done ++ ev :: rest, e.Early := fun e he =>
      Event.early_of_mem_before (hsplit ▸ he)
    have htr' : Tracked c l [] t := forM_keeps (P := Tracked c l []) (fun e he _ _ ht hp =>
      ht.perform_early (hearly e (List.mem_append_left _ he)) (perform_eq_ok_iff.1 hp)) htr hdone
    exact (htr'.not_obstacle (obstacle_of_perform hev)).elim
  · have hstart := Late.start (i := i) (htr.before hm) (reading_of_before hres hm)
    exact (late_of_append hstart hsplit hdone).contends hsplit (obstacle_of_perform hev)

/-! ### Blocks -/

/-- **Which conflicts of writes are rejected.** If a block is lowered, then none of its instructions
contends: the only conflicts are with physical registers that are written first. If it is rejected
because a value would be written over, then one of its instructions contends. And that is not a
matter of the order of the operands, unless an instruction writes both a virtual register and a
physical one that overlaps its register. -/
theorem write_conflicts_rejected {b : Block} (hb : c.func.block c.block = .ok b) :
    (∀ x, (lowerBlock c).result = .ok x → ∀ i ∈ b.insts, ¬ i.Contends c.alloc) ∧
    (∀ id pos r v, (lowerBlock c).result = .error (.fault (.writtenTwice id pos r v)) →
      ∃ i ∈ b.insts, i.Contends c.alloc) ∧
    ∀ i i' : Inst, i.operands.Perm i'.operands → i.clobbers = i'.clobbers →
      ¬ i.WritesBoth c.alloc → (i.Contends c.alloc ↔ i'.Contends c.alloc) := by
  refine ⟨fun x hx i hi => ?_, fun id pos r v h => ?_, fun i i' => Inst.contends_congr⟩
  · obtain ⟨b', t, t', hb', hlower, -⟩ := lowerBlock_eq_ok_iff.1 hx
    obtain rfl := Except.ok.inj (hb.symm.trans hb')
    have heach := (lowerInsts_eq_ok_iff.1 hlower).2
    obtain ⟨pre, post, hsplit⟩ := List.append_of_mem hi
    rw [hsplit] at heach
    obtain ⟨s, hpre, hrest⟩ := lowerEach_append_eq_ok_iff.1 heach
    obtain ⟨w, s', -, hs, -⟩ := lowerEach_cons_eq_ok_iff.1 hrest
    obtain ⟨htr, hres⟩ := tracked_of_lowerEach hpre
    exact htr.not_contends hres hs
  · obtain ⟨f, hf⟩ | ⟨b', hb', ⟨s', hinsts⟩ | ⟨t, s', hinsts, hflush⟩⟩ := lowerBlock_eq_error h
    · cases hb.symm.trans hf
    · obtain rfl := Except.ok.inj (hb.symm.trans hb')
      obtain ⟨pre, i, post, t, hsplit, hpre, hcause⟩ := lowerInsts_eq_error hinsts
      have hi : i ∈ b.insts := by simp [hsplit]
      obtain ⟨htr, hres⟩ := tracked_of_lowerEach hpre
      obtain ⟨f, hf, hfault⟩ | ⟨w, hw, hterm | hfail⟩ := hcause
      · obtain rfl := Failure.fault.inj hfault
        exact absurd hf (word_ne_error nofun)
      · obtain ⟨-, ⟨-, h⟩ | ⟨-, h⟩⟩ := checkTerminator_eq_error hterm <;> cases h
      · exact ⟨i, hi, htr.contends hres hfail⟩
    · -- When all instructions are lowered, every value is older than the instruction at hand.
      obtain ⟨htr, -⟩ := tracked_of_lowerEach (lowerInsts_eq_ok_iff.1 hinsts).2
      obtain ⟨q, -, hstuck⟩ := stuck_of_vacates hflush
      obtain ⟨-, -, e, he, -⟩ := htr.exists_writes_of_stuck hstuck
      cases he

/-! ### A division into one register -/

/-- A virtual register with a register and a slot. -/
def divHomes : Allocation where
  placements := #[⟨some .rax, some ⟨0⟩⟩]

/-- What a block of a single division is lowered with. -/
def divContext (os : List Operand) : Context :=
  ⟨⟨"div", #[.gpr64], #[⟨[⟨"div", os, [], false⟩]⟩]⟩, divHomes, .x64, .regEvent, ⟨0⟩⟩

/-- The register of the value is written, and then the value. -/
def divOperands : List Operand :=
  [.reg (.physical .rax) .write, .reg (.virtual ⟨0⟩) .write]

theorem conflict_div : (Inst.mk "div" divOperands [] false).Conflict divHomes 1 0 ⟨0⟩ :=
  ⟨_, _, rfl, rfl, Operand.conflicts_physical rfl rfl rfl rfl⟩

/-- One order of the operands is accepted, and has a conflict with a physical register that is
written first; the other one is rejected, and contends. -/
theorem write_conflicts_rejected_div :
    (∃ x, (lowerBlock (divContext divOperands)).result = .ok x) ∧
    (Inst.mk "div" divOperands [] false).FixedFirst 1 0 ⟨0⟩ ∧
    (lowerBlock (divContext divOperands.reverse)).result =
      .error (.fault (.writtenTwice ⟨0⟩ 0 .rax ⟨0⟩)) ∧
    (Inst.mk "div" divOperands.reverse [] false).Contends divHomes := by
  have hx : ∃ x, (lowerBlock (divContext divOperands)).result = .ok x := ⟨_, rfl⟩
  have hb : ∀ os, (divContext os).func.block (divContext os).block =
      .ok ⟨[⟨"div", os, [], false⟩]⟩ := fun _ => rfl
  have hfail : (lowerBlock (divContext divOperands.reverse)).result =
      .error (.fault (.writtenTwice ⟨0⟩ 0 .rax ⟨0⟩)) := rfl
  obtain ⟨x, hok⟩ := hx
  refine ⟨⟨x, hok⟩, ?_, hfail, ?_⟩
  · by_contra hnot
    exact (write_conflicts_rejected (hb divOperands)).1 x hok _ List.mem_cons_self
      (Or.inl ⟨1, 0, ⟨0⟩, conflict_div, hnot⟩)
  · obtain ⟨i, hi, hcontends⟩ := (write_conflicts_rejected (hb divOperands.reverse)).2.1 ⟨0⟩ 0
      .rax ⟨0⟩ hfail
    obtain rfl := List.mem_singleton.1 hi
    exact hcontends

/-- So it does not hold that the instructions of a lowered block have no conflicts, nor that the
order of the operands does not matter. -/
theorem write_conflicts_not_always_rejected :
    (¬ ∀ (c : Context) (b : Block) (x : List Inst × Stats), c.func.block c.block = .ok b →
      (lowerBlock c).result = .ok x → ∀ i ∈ b.insts, ∀ k n v, ¬ i.Conflict c.alloc k n v) ∧
    ¬ ∀ os os' : List Operand, os.Perm os' →
      ((∃ x, (lowerBlock (divContext os)).result = .ok x) ↔
        ∃ x, (lowerBlock (divContext os')).result = .ok x) := by
  have hx : ∃ x, (lowerBlock (divContext divOperands)).result = .ok x := ⟨_, rfl⟩
  refine ⟨fun hall => ?_, fun hall => ?_⟩
  · obtain ⟨x, hx⟩ := hx
    exact hall _ ⟨[⟨"div", divOperands, [], false⟩]⟩ x rfl hx _ List.mem_cons_self 1 0 ⟨0⟩
      conflict_div
  · obtain ⟨x, hx⟩ := (hall _ _ (List.reverse_perm divOperands).symm).1 hx
    cases hx

end Residency

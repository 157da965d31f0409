import Residency.Proofs.Between

/-!
# What a lowering demands

Whether a block can be lowered for x64 is decided by its instructions one by one, by where
their virtual registers live (`Residency.Lowerable`). Nothing that happens between two
instructions matters: a value that an instruction leaves behind has a slot to go to, and
whenever it is in the way it can be stored.

This file is about one direction: a block that is lowered was lowerable
(`Residency.lowerable_of_lowerBlock`). The demands on registers come from the moments at which
an instruction needs several values in place at once: all those that it reads before its
place, and all those that it writes behind it. The demands on slots and classes come from the
end of the block, where no register holds anything: a dirty value that was ever in a register
has been stored by then (`Residency.Owed`).
-/

namespace Residency

open Step

variable {c : Context} {id : Site} {i : Inst} {e : Event} {s s' m t u : State}
  {made : VReg → Nat → Inst → Prop}

/-! ### What can be lowered -/

/-- The tables of a function and of its assignment have entries for a virtual register. -/
def Known (f : Func) (a : Allocation) (v : VReg) : Prop :=
  v.index < f.classes.size ∧ v.index < a.placements.size

/-- **An instruction can be lowered for x64**, wherever it stands. -/
structure Inst.Lowerable (f : Func) (a : Allocation) (i : Inst) : Prop where
  /-- Every virtual register that it names has a register. -/
  assigned : ∀ {v : VReg}, i.Names v → ∃ r, a.reg? v = .ok (some r)
  /-- Every virtual register that it writes has a slot. -/
  slotted : ∀ {v : VReg}, i.Writes v → ∃ slot, a.slot? v = .ok (some slot)
  /-- A virtual register that it names and that has a slot has a register of its class. -/
  fitting : ∀ {v : VReg} {slot : Slot}, i.Names v → a.slot? v = .ok (some slot) →
    ∃ r, a.reg? v = .ok (some r) ∧ f.classOf v = .ok r.regClass
  /-- The registers of what it reads do not overlap. -/
  reads_apart : ∀ {v w : VReg} {r q : Reg}, i.Reads v → i.Reads w → v ≠ w →
    a.reg? v = .ok (some r) → a.reg? w = .ok (some q) → r.overlaps q = false
  /-- The registers of what it writes do not overlap. -/
  writes_apart : ∀ {v w : VReg} {r q : Reg}, i.Writes v → i.Writes w → v ≠ w →
    a.reg? v = .ok (some r) → a.reg? w = .ok (some q) → r.overlaps q = false
  /-- The register of what it changes in place overlaps none that it overwrites besides, and
  no physical register that it writes. -/
  modify_spared : ∀ {v : VReg} {r q : Reg}, .reg (.virtual v) .modify ∈ i.operands →
    a.reg? v = .ok (some r) → q ∈ i.clobbers ∨ .reg (.physical q) .write ∈ i.operands →
    q.overlaps r = false
  /-- The register of what it writes overlaps no physical register that it changes in
  place. -/
  write_spared : ∀ {v : VReg} {r q : Reg}, i.Writes v → a.reg? v = .ok (some r) →
    .reg (.physical q) .modify ∈ i.operands → q.overlaps r = false
  /-- The register of a virtual register that it writes, whatever was there, overlaps no
  physical register that a later operand writes. -/
  define_spared : i.operands.Pairwise fun o o' => ∀ {v : VReg} {r q : Reg},
    o = .reg (.virtual v) .write → a.reg? v = .ok (some r) →
    o' = .reg (.physical q) .write → q.overlaps r = false

/-- **A block can be lowered for x64**, as far as its instructions are concerned: terminators
come last and write no virtual register, and every instruction can be lowered. -/
structure Lowerable (f : Func) (a : Allocation) (insts : List Inst) : Prop where
  /-- A terminator is the last instruction and writes no virtual register. -/
  terminators : ∀ {n : Nat} {i : Inst}, insts[n]? = some i → i.isTerminator = true →
    n + 1 = insts.length ∧ ∀ v, ¬ i.Writes v
  /-- Every instruction can be lowered. -/
  inst : ∀ {i : Inst}, i ∈ insts → i.Lowerable f a

/-! ### Terminators -/

theorem Inst.writesVirtual_eq_false_iff : i.writesVirtual = false ↔ ∀ v, ¬ i.Writes v := by
  have hwrites : i.writesVirtual = true ↔ ∃ v, i.Writes v := by
    unfold Inst.writesVirtual Inst.Writes
    rw [List.any_eq_true]
    constructor
    · rintro ⟨o, ho, hw⟩
      unfold Operand.writesVirtual at hw
      split at hw
      · exact ⟨_, Or.inl ho⟩
      · exact ⟨_, Or.inr ho⟩
      · cases hw
    · rintro ⟨v, ho | ho⟩ <;> exact ⟨_, ho, rfl⟩
  rw [← Bool.not_eq_true, hwrites, not_exists]

theorem terminatorsLast_iff {l : List Inst} : TerminatorsLast l ↔
    ∀ {n : Nat} {i : Inst}, l[n]? = some i → i.isTerminator = true →
      n + 1 = l.length ∧ ∀ v, ¬ i.Writes v := by
  induction l with
  | nil => exact iff_of_true trivial fun h => nomatch h
  | cons j rest ih =>
    rw [TerminatorsLast, ih]
    constructor
    · rintro ⟨hj, hrest⟩ n i hn hi
      cases n with
      | zero =>
        obtain rfl : j = i := by simpa using hn
        obtain ⟨hempty, hw⟩ := hj hi
        refine ⟨?_, Inst.writesVirtual_eq_false_iff.1 hw⟩
        rw [List.isEmpty_iff.1 hempty]
        rfl
      | succ n =>
        obtain ⟨hlast, hw⟩ := hrest (n := n) (by simpa using hn) hi
        exact ⟨congrArg (· + 1) hlast, hw⟩
    · intro h
      refine ⟨fun hj => ?_, fun {n i} hn hi => ?_⟩
      · obtain ⟨hlast, hw⟩ := h (n := 0) (i := j) rfl hj
        refine ⟨?_, Inst.writesVirtual_eq_false_iff.2 hw⟩
        rw [List.isEmpty_iff, ← List.length_eq_zero_iff]
        simpa using hlast.symm
      · obtain ⟨hlast, hw⟩ := h (n := n + 1) (by simpa using hn) hi
        exact ⟨by simpa using hlast, hw⟩

/-! ### Loads and stores of x64 -/

/-- What it takes to store the value of a virtual register on x64: a slot, and a register of
its class. -/
theorem storable_iff (hc : c.target = .x64) {r : Reg} {v : VReg} :
    Storable c r v ↔
      (∃ slot, c.alloc.slot? v = .ok (some slot)) ∧ c.func.classOf v = .ok r.regClass := by
  unfold Storable
  rw [hc]
  constructor
  · rintro ⟨slot, cls, i, hs, hcls, hi⟩
    obtain rfl := (Target.x64_store_eq_ok_iff.1 hi).1
    exact ⟨⟨slot, hs⟩, hcls⟩
  · rintro ⟨⟨slot, hs⟩, hcls⟩
    obtain ⟨i, hi⟩ : ∃ i, Target.x64.store r slot r.regClass = .ok i :=
      ⟨_, Target.x64_store_eq_ok_iff.2 ⟨rfl, rfl⟩⟩
    exact ⟨slot, _, i, hs, hcls, hi⟩

/-! ### Dirty values are stored in the end -/

/-- A value of a virtual register is owed to its slot: a register holds it and it is dirty,
or it has been possible to store it. -/
def Owed (c : Context) (r : Reg) (v : VReg) (s : State) : Prop :=
  (∃ x, s.table.get? r = some x ∧ x.vreg = v ∧ x.dirty = true) ∨ Storable c r v

section Owed

variable {r q : Reg} {v : VReg}

theorem Owed.congr (h : Owed c r v s) (ht : s'.table = s.table) : Owed c r v s' := by
  unfold Owed
  rw [ht]
  exact h

theorem Owed.vacated (h : Owed c r v s) (hv : Vacated c q s s') : Owed c r v s' := by
  rcases h with ⟨x, hx, rfl, hd⟩ | h
  · by_cases hq : r = q
    · subst hq
      exact Or.inr ((hv.vacatable x hx).2 hd).2
    · refine Or.inl ⟨x, ?_, rfl, hd⟩
      rw [hv.empties.get?_of_kept (decide_eq_false hq), hx]
  · exact Or.inr h

/-- What takes the place of a dirty value is a dirty value of the same virtual register. -/
theorem Owed.hold {y : Resident} (h : Owed c r v s)
    (hy : ∀ x, s.table.get? q = some x → y.vreg = x.vreg ∧ y.dirty = true) :
    Owed c r v (s.hold q y) := by
  rcases h with ⟨x, hx, rfl, hd⟩ | h
  · by_cases hq : r = q
    · subst hq
      exact Or.inl ⟨y, by simp [State.hold], (hy x hx).1, (hy x hx).2⟩
    · exact Or.inl ⟨x, by simp [State.hold, hq, hx], rfl, hd⟩
  · exact Or.inr h

theorem Owed.of_evict (h : Owed c r v s) (he : evict c q s = .ok () s') :
    Owed c r v s' ∧ s'.table.get? q = none :=
  ⟨evict_keeps (P := Owed c r v) (fun _ _ _ ht hv => ht.vacated hv) h he,
    get?_of_evict he⟩

/-- **A value that is owed to its slot stays so**, whatever event is carried out. -/
theorem Owed.perform (h : Owed c r v s) (hp : Performed c s e s') : Owed c r v s' := by
  cases hp with
  | foldAway hr => exact h
  | foldAbsent hr hh => exact h
  | fold hr hh he =>
    have hcount : Owed c r v (s.count .foldEvictions) := h.congr rfl
    exact (hcount.of_evict he).1
  | readHeld hr hh => exact h.congr (State.table_reserve _ _)
  | readLoaded hr hh he hs hc hi =>
    obtain ⟨ht, hfree⟩ := h.of_evict he
    refine Owed.congr ?_ (State.table_reserve _ _)
    refine Owed.hold (ht.congr rfl) fun x hx => ?_
    exact absurd (hx.symm.trans hfree) nofun
  | readFound hr hh he hs =>
    obtain ⟨ht, hfree⟩ := h.of_evict he
    refine Owed.congr ?_ (State.table_reserve _ _)
    exact ht.hold fun x hx => absurd (hx.symm.trans hfree) nofun
  | modify hr hx =>
    refine h.hold fun y hy => ?_
    obtain rfl := Option.some.inj (hx.symm.trans hy)
    exact ⟨rfl, rfl⟩
  | redefine hr hh =>
    obtain ⟨x, hx, rfl⟩ := Table.holds_iff.1 hh
    refine h.hold fun y hy => ?_
    obtain rfl := Option.some.inj (hx.symm.trans hy)
    exact ⟨rfl, rfl⟩
  | define hr hh he =>
    obtain ⟨ht, hfree⟩ := h.of_evict he
    exact ht.hold fun x hx => absurd (hx.symm.trans hfree) nofun
  | overwrite he => exact (h.of_evict he).1

theorem Owed.performs {l : List Event} (h : Owed c r v s)
    (hs : (l.forM (Event.perform c id)) s = .ok () s') : Owed c r v s' :=
  forM_keeps (P := Owed c r v) (fun _ _ _ _ ht hp => ht.perform (perform_eq_ok_iff.1 hp)) h hs

theorem Owed.lowerEach {n : Nat} {l : List Inst} (h : Owed c r v s)
    (hs : lowerEach c n l s = .ok () s') : Owed c r v s' := by
  induction l generalizing n s with
  | nil => exact lowerEach_nil_eq_ok_iff.1 hs ▸ h
  | cons i l ih =>
    obtain ⟨w, t, -, hi, hrest⟩ := lowerEach_cons_eq_ok_iff.1 hs
    obtain ⟨m, u, hm, hu, rfl⟩ := lowerInst_eq_ok_iff.1 hi
    have hrelease : Owed c r v m.release := (h.performs hm).congr rfl
    have hpush : Owed c r v (u.push (i.mapRefs c.alloc.substitute)) :=
      (hrelease.performs hu).congr rfl
    exact ih hpush hrest

/-- When everything is evicted, what was owed has been stored. -/
theorem Owed.storable (h : Owed c r v s) (hs : flush c s = .ok () s') : Storable c r v := by
  have hend : Owed c r v s' :=
    flush_keeps (P := Owed c r v) (fun _ _ _ ht hv => ht.vacated hv) h hs
  rcases hend with ⟨x, hx, -⟩ | hend
  · rw [(flush_empties hs).get? r] at hx
    cases hx
  · exact hend

end Owed

/-! ### What an instruction that is lowered demanded -/

/-- At one time, two virtual registers are in registers that do not overlap. -/
theorem Coherent.not_overlaps {v w : VReg} {r q : Reg} (h : Coherent c s) (hne : v ≠ w)
    (hr : s.table.holds r v = true) (hq : s.table.holds q w = true) : r.overlaps q = false := by
  obtain ⟨x, hx, rfl⟩ := Table.holds_iff.1 hr
  obtain ⟨y, hy, rfl⟩ := Table.holds_iff.1 hq
  refine Bool.eq_false_iff.2 fun hov => hne ?_
  obtain rfl := h.apart hx hy hov
  rw [Option.some.inj (hx.symm.trans hy)]

/-- The class of a value that a register holds on x64 is that of the register, if the value
has a slot and is stored in the end. -/
theorem Coherent.classOf_eq (hc : c.target = .x64) {v : VReg} {r : Reg} {slot : Slot}
    (h : Coherent c s) (hh : s.table.holds r v = true) (hslot : c.alloc.slot? v = .ok (some slot))
    (hend : Owed c r v s → Storable c r v) : c.func.classOf v = .ok r.regClass := by
  obtain ⟨x, hx, rfl⟩ := Table.holds_iff.1 hh
  cases hd : x.dirty with
  | true => exact ((storable_iff hc).1 (hend (Or.inl ⟨x, hx, rfl, hd⟩))).2
  | false =>
    obtain ⟨cls, i, hcls, hi⟩ := h.loaded hx hd hslot
    rw [hc] at hi
    obtain rfl := (Target.x64_load_eq_ok_iff.1 hi).1
    exact hcls

/-- **An instruction that is lowered could be lowered**, if the values it leaves behind are
stored in the end. -/
theorem Between.lowerable (hc : c.target = .x64) (h : Between c made s)
    (hs : lowerInst c id i s = .ok () s')
    (hend : ∀ {r v}, Owed c r v s' → Storable c r v) : i.Lowerable c.func c.alloc := by
  have hload : c.target.LoadsOnly := hc ▸ Target.x64_loadsOnly
  obtain ⟨m, t, hm, ht, rfl⟩ := lowerInst_eq_ok_iff.1 hs
  obtain ⟨hco, hmid, hread⟩ := h.before hload hm
  have hbehind := behind_of_append hload (.start hco hmid hread) (List.append_nil _).symm ht
  have hreads : ∀ {v}, i.Reads v → ∃ r, c.alloc.reg? v = .ok (some r) ∧
      m.table.holds r v = true := hread.held_of_reads
  have hwrites : ∀ {v}, i.Writes v → ∃ r, c.alloc.reg? v = .ok (some r) ∧
      t.table.get? r = some ⟨v, true, t.out.size⟩ := hbehind.midway.kept_of_writes
  have hstored : ∀ {v r}, i.Writes v → c.alloc.reg? v = .ok (some r) → Storable c r v := by
    intro v r hv hr
    obtain ⟨q, hq, hx⟩ := hwrites hv
    obtain rfl := Allocation.reg_unique hr hq
    exact hend (Or.inl ⟨_, hx, rfl, rfl⟩)
  have hassigned : ∀ {v}, i.Names v → ∃ r, c.alloc.reg? v = .ok (some r) := by
    rintro v (hv | hv)
    · obtain ⟨r, hr, -⟩ := hreads hv
      exact ⟨r, hr⟩
    · obtain ⟨r, hr, -⟩ := hwrites hv
      exact ⟨r, hr⟩
  obtain ⟨hmodify, hfixed, hdefine⟩ := Event.pairwise_spares_iff.1 hbehind.midway.clash
  refine ⟨hassigned, fun hv => ?_, fun {v slot} hv hslot => ?_, fun {v w r q} hv hw hne hr hq => ?_,
    fun {v w r q} hv hw hne hr hq => ?_, hmodify, hfixed, hdefine⟩
  · obtain ⟨r, hr⟩ := hassigned (Or.inr hv)
    exact ((storable_iff hc).1 (hstored hv hr)).1
  · obtain ⟨r, hr⟩ := hassigned hv
    refine ⟨r, hr, ?_⟩
    rcases hv with hv | hv
    · obtain ⟨q, hq, hh⟩ := hreads hv
      obtain rfl := Allocation.reg_unique hr hq
      refine hco.classOf_eq hc hh hslot fun howed => hend ?_
      have hrelease : Owed c r v m.release := howed.congr rfl
      exact (hrelease.performs ht).congr rfl
    · exact ((storable_iff hc).1 (hstored hv hr)).2
  · obtain ⟨r', hr', hhr⟩ := hreads hv
    obtain ⟨q', hq', hhq⟩ := hreads hw
    obtain rfl := Allocation.reg_unique hr hr'
    obtain rfl := Allocation.reg_unique hq hq'
    exact hco.not_overlaps hne hhr hhq
  · obtain ⟨r', hr', hhr⟩ := hwrites hv
    obtain ⟨q', hq', hhq⟩ := hwrites hw
    obtain rfl := Allocation.reg_unique hr hr'
    obtain rfl := Allocation.reg_unique hq hq'
    exact hbehind.coherent.not_overlaps hne (Table.holds_iff.2 ⟨_, hhr, rfl⟩)
      (Table.holds_iff.2 ⟨_, hhq, rfl⟩)

/-- **A block that is lowered could be lowered**, as far as its instructions are
concerned. -/
theorem lowerable_of_lowerBlock {b : Block} {x : List Inst × Stats} (hc : c.target = .x64)
    (hb : c.func.block c.block = .ok b) (hx : (lowerBlock c).result = .ok x) :
    Lowerable c.func c.alloc b.insts := by
  have hload : c.target.LoadsOnly := hc ▸ Target.x64_loadsOnly
  obtain ⟨b', t, t', hb', hinsts, hflush, -⟩ := lowerBlock_eq_ok_iff.1 hx
  obtain rfl := Except.ok.inj (hb.symm.trans hb')
  obtain ⟨hterm, heach⟩ := lowerInsts_eq_ok_iff.1 hinsts
  refine ⟨terminatorsLast_iff.1 hterm, fun {i} hi => ?_⟩
  obtain ⟨pre, post, hsplit⟩ := List.append_of_mem hi
  rw [hsplit] at heach
  obtain ⟨s, hpre, hrest⟩ := lowerEach_append_eq_ok_iff.1 heach
  obtain ⟨w, s', -, hs, hpost⟩ := lowerEach_cons_eq_ok_iff.1 hrest
  exact (between_of_lowerEach hload hpre).lowerable hc hs fun howed =>
    (howed.lowerEach hpost).storable hflush

end Residency

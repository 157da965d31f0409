import Residency.Proofs.Simulation

/-!
# An instruction computes the same

When an instruction joins the lowered block, both machines execute it
(`Residency.lowerInst_simulates`). Its operands read the same values: those that it reads in
registers were brought there before its place, and nothing behind its place has moved them
yet; those that are folded into it are in no register (`Residency.State.Lacks`). And the values
that it writes are found where the table says. This needs that it is clear what the instruction
writes (`Residency.Inst.Clear`): a virtual register that is folded into it is recorded as such
and not named besides, and a register that a virtual register is written to is not written by
another operand.
-/

namespace Residency

open Step

variable {V : Type} {c : Context} {id : Site} {i : Inst} {e : Event} {s s' u w : State}
  {t : Machine V} {m : Ideal V} {agenda : List (Inst × Effect V)} {v : VReg}
  {made : VReg → Nat → Inst → Prop}

/-! ### Values that are in no register -/

/-- No register holds the value of a virtual register. -/
def State.Lacks (s : State) (v : VReg) : Prop :=
  ∀ r x, s.table.get? r = some x → x.vreg ≠ v

theorem State.Lacks.of_emptied {gone : Reg → Bool} (h : s.Lacks v) (he : Emptied gone s s') :
    s'.Lacks v := fun r x hx => h r x (he.resident hx).2

theorem State.Lacks.hold {r : Reg} {x : Resident} (h : s.Lacks v) (hx : x.vreg ≠ v) :
    (s.hold r x).Lacks v := by
  intro q y hy
  rcases State.get?_hold_eq_some_iff.1 hy with ⟨-, rfl⟩ | ⟨-, hy⟩
  · exact hx
  · exact h q y hy

theorem State.Lacks.congr (h : s.Lacks v) (ht : s'.table = s.table) : s'.Lacks v := by
  intro r x hx
  rw [ht] at hx
  exact h r x hx

/-- **A value that is in no register comes into one only by a read or a write.** -/
theorem State.Lacks.perform (h : s.Lacks v) (hread : e ≠ .read v) (hdefine : e ≠ .define v)
    (hp : Performed c s e s') : s'.Lacks v := by
  cases hp with
  | foldAway hr => exact h
  | foldAbsent hr hh => exact h
  | fold hr hh hev =>
    have hcount : (s.count .foldEvictions).Lacks v := h.congr rfl
    exact hcount.of_emptied (evict_empties hev)
  | readHeld hr hh => exact h.congr (State.table_reserve _ _)
  | @readLoaded w r u slot cls i hr hh hev hs hcls hi =>
    refine State.Lacks.congr ?_ (State.table_reserve _ _)
    have hpush : ((((u.request (.load w slot r)).log c.level (.loaded c.block w slot r)).push
        i).count .reloads).Lacks v :=
      (h.of_emptied (evict_empties hev)).congr rfl
    refine hpush.hold ?_
    rintro rfl
    exact hread rfl
  | @readFound w r u hr hh hev hs =>
    refine State.Lacks.congr ?_ (State.table_reserve _ _)
    refine (h.of_emptied (evict_empties hev)).hold ?_
    rintro rfl
    exact hread rfl
  | modify hr hx =>
    have hother := h _ _ hx
    exact h.hold hother
  | redefine hr hh =>
    refine h.hold ?_
    rintro rfl
    exact hdefine rfl
  | define hr hh hev =>
    refine (h.of_emptied (evict_empties hev)).hold ?_
    rintro rfl
    exact hdefine rfl
  | overwrite hev => exact h.of_emptied (evict_empties hev)

/-- A fold leaves the value in no register. -/
theorem Coherent.lacks_of_fold (h : Coherent c s) (hp : Performed c s (.fold v) s') :
    s'.Lacks v := by
  cases hp with
  | foldAway hr =>
    rintro r x hx rfl
    cases hr.symm.trans (h.placed hx)
  | foldAbsent hr hh =>
    rintro r x hx rfl
    rw [← h.get?_of_vreg hx hr, Table.holds_of_get? hx] at hh
    cases hh
  | fold hr hh hev =>
    rintro r x hx rfl
    obtain ⟨hkept, hxs⟩ := (evict_empties hev).resident hx
    have hr' := h.get?_of_vreg hxs hr
    rw [hr', Reg.overlaps_refl] at hkept
    cases hkept

/-- **What is folded into an instruction, and not named besides, is in no register** when the
instruction joins the lowered block. -/
theorem lacks_of_folded (hload : c.target.LoadsOnly) (h : Coherent c s)
    (hfold : v ∈ c.alloc.foldedInto id) (hname : ¬ i.Names v)
    (hu : ((Event.before c.alloc id i).forM (Event.perform c id)) s = .ok () u)
    (hw : ((Event.after i).forM (Event.perform c id)) u.release = .ok () w) : w.Lacks v := by
  have hbefore : Coherent c u ∧ (.fold v ∈ Event.before c.alloc id i → u.Lacks v) := by
    refine forM_builds (P := fun done z => Coherent c z ∧ (.fold v ∈ done → z.Lacks v))
      (fun done e rest hall z z' hz hp => ?_) ⟨h, nofun⟩ hu
    have hperf := perform_eq_ok_iff.1 hp
    refine ⟨hz.1.perform hload hperf, fun hmem => ?_⟩
    have hearly := Event.mem_before_iff.1 (show e ∈ Event.before c.alloc id i by simp [hall])
    rcases List.mem_append.1 hmem with hmem | hmem
    · refine (hz.2 hmem).perform ?_ ?_ hperf
      · rintro rfl
        rcases hearly with ⟨x, hx, -⟩ | ⟨x, hx, hreads⟩
        · cases hx
        · cases hx
          exact hname (Or.inl hreads)
      · rintro rfl
        rcases hearly with ⟨x, hx, -⟩ | ⟨x, hx, -⟩ <;> cases hx
    · obtain rfl := List.mem_singleton.1 hmem
      exact hz.1.lacks_of_fold hperf
  -- From here on only a write could bring it back, and the instruction does not name it.
  have hlacks : u.Lacks v := hbefore.2 (Event.mem_before_iff.2 (Or.inl ⟨v, rfl, hfold⟩))
  have hrelease : u.release.Lacks v := hlacks.congr rfl
  refine forM_keeps (P := fun z => z.Lacks v) (fun e he z z' hz hp => ?_) hrelease hw
  refine hz.perform ?_ ?_ (perform_eq_ok_iff.1 hp)
  · rintro rfl
    exact Event.not_early_of_mem_after he trivial
  · rintro rfl
    exact hname (Or.inr (Event.exists_mem_after_writes_iff.1 ⟨_, he, Or.inr rfl⟩))

/-! ### What an instruction writes -/

/-- **It is clear what an instruction writes.** -/
structure Inst.Clear (a : Allocation) (id : Site) (i : Inst) : Prop where
  /-- What is folded into it is recorded as such, and has a slot. -/
  recorded : ∀ {v : VReg}, .folded v ∈ i.operands →
    v ∈ a.foldedInto id ∧ ∃ slot, a.slot? v = .ok (some slot)
  /-- What is folded into it is not named as a register besides, by an operand or as the base of
  an address: behind the instruction, the copy in the register could be out of date. -/
  folded_apart : ∀ {v : VReg}, .folded v ∈ i.operands → ¬ i.Names v
  /-- It has no slot as an operand. -/
  slotless : ∀ {slot : Slot}, .slot slot ∉ i.operands
  /-- A physical register that it writes does not overlap the register of a virtual register
  that it writes. -/
  writes_apart : ∀ {v : VReg} {r q : Reg}, .reg (.virtual v) .write ∈ i.operands →
    a.reg? v = .ok (some r) → .reg (.physical q) .write ∈ i.operands → q.overlaps r = false

theorem Inst.changes_eq_true_iff {eff : Effect V} :
    i.changes eff v = true ↔ i.Writes v ∨ (.folded v ∈ i.operands ∧ eff.folds v = true) := by
  simp only [Inst.changes, Inst.writes_iff, List.any_eq_true, Bool.or_eq_true, Bool.and_eq_true,
    beq_iff_eq]
  constructor
  · rintro ⟨o, ho, hw | ⟨rfl, hf⟩⟩
    · exact Or.inl ⟨o, ho, hw⟩
    · exact Or.inr ⟨ho, hf⟩
  · rintro (⟨o, ho, hw⟩ | ⟨ho, hf⟩)
    · exact ⟨o, ho, Or.inl hw⟩
    · exact ⟨_, ho, Or.inr ⟨rfl, hf⟩⟩

/-! ### What an instruction reads -/

theorem Operand.tracked?_eq_some_iff {a : Allocation} {o : Operand} :
    o.tracked? a = some v ↔
      (o = .folded v ∨ ∃ b, o.read? = some (.virtual v, b)) ∧
        ∃ slot, a.slot? v = .ok (some slot) := by
  have hvalue : o.value? = some v ↔ o = .folded v ∨ ∃ b, o.read? = some (.virtual v, b) := by
    cases o with
    | reg ref access => cases ref <;> cases access <;> simp [Operand.value?, Operand.read?]
    | base ref off => cases ref <;> simp [Operand.value?, Operand.read?]
    | _ => simp [Operand.value?, Operand.read?]
  unfold Operand.tracked?
  rw [Option.filter_eq_some_iff, hvalue, Option.isSome_iff_exists]
  simp only [Allocation.home?_eq_some_iff]

/-- What a lowered operand reads in the register of its virtual register. -/
theorem Machine.fetch_mapRef {a : Allocation} {o : Operand} {r : Reg} {b : Bool}
    (ho : o.read? = some (.virtual v, b)) (hr : a.reg? v = .ok (some r)) :
    t.fetch a (o.mapRef a.substitute) = some (t.regs r) := by
  have hsub := Allocation.substitute_virtual_eq_iff.2 hr
  cases o with
  | reg ref access =>
    cases access with
    | write => cases ho
    | read =>
      cases ho
      rw [Operand.mapRef, hsub]
      rfl
    | modify =>
      cases ho
      rw [Operand.mapRef, hsub]
      rfl
  | base ref off =>
    cases ho
    rw [Operand.mapRef, hsub]
    rfl
  | _ => cases ho

theorem Inst.zip_mapRefs {f : RegRef → RegRef} :
    i.operands.zip (i.mapRefs f).operands = i.operands.map fun o => (o, o.mapRef f) :=
  List.map_prod_left_eq_zip.symm

/-- **Both machines read the same values**, if the values of what an instruction names are in
registers and those of what is folded into it are in slots. -/
theorem look_eq {a : Allocation} {u : Machine V}
    (hregs : ∀ {v : VReg} {slot : Slot}, i.Reads v → a.slot? v = .ok (some slot) →
      ∃ r, a.reg? v = .ok (some r) ∧ u.regs r = m.cells v)
    (hslots : ∀ {v : VReg} {slot : Slot}, .folded v ∈ i.operands → a.slot? v = .ok (some slot) →
      u.slots slot = m.cells v) :
    ((i.operands.zip (i.mapRefs a.substitute).operands).map fun p =>
        if (p.1.tracked? a).isSome then u.fetch a p.2 else none) =
      i.operands.map fun o => (o.tracked? a).map m.cells := by
  rw [Inst.zip_mapRefs, List.map_map]
  refine List.map_congr_left fun o ho => ?_
  dsimp only [Function.comp]
  cases hv : o.tracked? a with
  | none => rfl
  | some v =>
    obtain ⟨hread, slot, hslot⟩ := Operand.tracked?_eq_some_iff.1 hv
    rw [Option.isSome_some, if_pos rfl, Option.map_some]
    rcases hread with rfl | ⟨b, hb⟩
    · show (a.home? v).map u.slots = _
      rw [Allocation.home?_eq_some_iff.2 hslot, Option.map_some, hslots ho hslot]
    · obtain ⟨r, hr, hcell⟩ := hregs ⟨o, ho, b, hb⟩ hslot
      rw [Machine.fetch_mapRef hb hr, hcell]

/-! ### Where the values go -/

theorem Inst.move?_eq_none (h : ∀ slot, .slot slot ∉ i.operands) {f : RegRef → RegRef} :
    (i.mapRefs f).move? = none := by
  have hslot : ∀ slot, .slot slot ∉ (i.mapRefs f).operands := by
    intro slot hmem
    obtain ⟨o, ho, hoo⟩ := List.mem_map.1 hmem
    cases o with
    | slot s => exact h s ho
    | _ => cases hoo
  cases hm : (i.mapRefs f).move? with
  | none => rfl
  | some mv =>
    cases mv with
    | load r slot =>
      refine absurd ?_ (hslot slot)
      rw [Inst.move?_eq_load_iff.1 hm]
      simp
    | store slot r =>
      refine absurd ?_ (hslot slot)
      rw [Inst.move?_eq_store_iff.1 hm]
      simp

theorem Inst.mem_writers_iff {a : Allocation} {r : Reg} {p : Option VReg × Reg} :
    p ∈ i.writers (i.mapRefs a.substitute) r ↔ ∃ o ∈ i.operands,
      p.1 = o.written? ∧ (o.mapRef a.substitute).output? = some p.2 ∧ p.2.overlaps r = true := by
  rw [Inst.writers, Inst.zip_mapRefs, List.filterMap_map, List.mem_filterMap]
  refine exists_congr fun o => and_congr_right fun _ => ?_
  dsimp only [Function.comp]
  rw [Option.bind_eq_some_iff]
  constructor
  · rintro ⟨q, hq, hp⟩
    split at hp
    · rename_i hov
      obtain rfl := Option.some.inj hp
      exact ⟨rfl, hq, hov⟩
    · cases hp
  · rintro ⟨hw, hq, hov⟩
    exact ⟨p.2, hq, by rw [if_pos hov, ← hw]⟩

/-- **A value goes to the register of its virtual register**, if every operand that writes a
part of the register is for this virtual register. -/
theorem Inst.delivered?_eq_some {a : Allocation} {r : Reg} (hv : i.Writes v)
    (hr : a.reg? v = .ok (some r))
    (hphysical : ∀ q, q ∈ i.outputs → q.overlaps r = false)
    (hvirtual : ∀ w q, i.Writes w → a.reg? w = .ok (some q) → q.overlaps r = true → w = v) :
    i.delivered? (i.mapRefs a.substitute) r = some v := by
  -- Whatever writes a part of the register writes all of it, for this virtual register.
  have hall : ∀ p ∈ i.writers (i.mapRefs a.substitute) r, p = (some v, r) := by
    rintro ⟨w, q⟩ hp
    obtain ⟨o, ho, rfl, hq, hov⟩ := Inst.mem_writers_iff.1 hp
    rcases Operand.output?_lowered_iff.1 hq with hq | ⟨w, hw, hq⟩
    · have hout : q ∈ i.outputs := List.mem_filterMap.2 ⟨o, ho, hq⟩
      exact absurd (hov.symm.trans (hphysical q hout)) nofun
    · obtain rfl := hvirtual w q (Inst.writes_iff.2 ⟨o, ho, hw⟩) hq hov
      exact Prod.ext hw (Allocation.reg_unique hq hr)
  obtain ⟨o, ho, hw⟩ := Inst.writes_iff.1 hv
  have hmem : (some v, r) ∈ i.writers (i.mapRefs a.substitute) r :=
    Inst.mem_writers_iff.2 ⟨o, ho, hw.symm, Operand.output?_lowered_iff.2 (Or.inr ⟨v, hw, hr⟩),
      Reg.overlaps_refl r⟩
  unfold Inst.delivered?
  cases hl : i.writers (i.mapRefs a.substitute) r with
  | nil =>
    rw [hl] at hmem
    cases hmem
  | cons p rest =>
    rw [hl] at hall
    obtain rfl := hall p List.mem_cons_self
    refine if_pos (List.all_eq_true.2 fun p hp => ?_)
    rw [hall p hp, beq_self_eq_true]

/-- The value of a virtual register that is folded into an instruction goes to its slot. -/
theorem Inst.foldedTo?_eq_some {a : Allocation} {eff : Effect V} {slot : Slot}
    (ha : SlotsApart a) (hv : .folded v ∈ i.operands) (hf : eff.folds v = true)
    (hs : a.slot? v = .ok (some slot)) :
    (i.mapRefs a.substitute).foldedTo? a eff slot = some v := by
  have hmem : .folded v ∈ (i.mapRefs a.substitute).operands :=
    List.mem_map.2 ⟨.folded v, hv, rfl⟩
  cases hres : (i.mapRefs a.substitute).foldedTo? a eff slot with
  | none =>
    have hno := List.findSome?_eq_none_iff.1 hres _ hmem
    exact absurd (Operand.foldedTo?_eq_some_iff.2 ⟨rfl, hf, Allocation.home?_eq_some_iff.2 hs⟩)
      (Option.eq_none_iff_forall_ne_some.1 hno v)
  | some w =>
    obtain ⟨o, -, hw⟩ := List.exists_of_findSome?_eq_some hres
    obtain ⟨-, -, hslot⟩ := Operand.foldedTo?_eq_some_iff.1 hw
    rw [ha (Allocation.home?_eq_some_iff.1 hslot) hs]

/-- What a lowered instruction has as an operand that is no register, it had before. -/
theorem Inst.mem_mapRefs_iff {f : RegRef → RegRef} {o : Operand} (h : o.ref? = none) :
    o ∈ (i.mapRefs f).operands ↔ o ∈ i.operands := by
  rw [Inst.mapRefs, List.mem_map]
  constructor
  · rintro ⟨o', ho', rfl⟩
    cases o' with
    | reg ref access => cases h
    | base ref off => cases h
    | _ => exact ho'
  · intro ho
    refine ⟨o, ho, ?_⟩
    cases o with
    | reg ref access => cases h
    | base ref off => cases h
    | _ => rfl

/-! ### Executing a lowered instruction -/

/-- The physical registers that an instruction writes are not among those of the virtual
registers that it writes. -/
theorem Midway.outputs_apart {r q : Reg} (h : Midway c made (Event.after i) s)
    (hi : i.Clear c.alloc id) (hv : i.Writes v) (hr : c.alloc.reg? v = .ok (some r))
    (hq : q ∈ i.outputs) : q.overlaps r = false := by
  obtain ⟨hmodify, hfixed, -⟩ := Event.pairwise_spares_iff.1 h.clash
  obtain ⟨o, ho, hoq⟩ := List.mem_filterMap.1 hq
  rcases Operand.output?_eq_some_iff.1 hoq with rfl | rfl
  · rcases hv with hv | hv
    · exact hi.writes_apart hv hr ho
    · exact hmodify hv hr (Or.inr ho)
  · exact hfixed hv hr ho

/-- The value of a virtual register that an instruction writes goes to its register. -/
theorem Midway.delivered?_eq_some {r : Reg} (h : Midway c made (Event.after i) s)
    (hco : Coherent c s) (hi : i.Clear c.alloc id) (hv : i.Writes v)
    (hr : c.alloc.reg? v = .ok (some r)) :
    i.delivered? (i.mapRefs c.alloc.substitute) r = some v := by
  refine Inst.delivered?_eq_some hv hr (fun q hq => h.outputs_apart hi hv hr hq)
    fun w q hw hq hov => ?_
  have hheld : ∀ {u p}, i.Writes u → c.alloc.reg? u = .ok (some p) →
      s.table.get? p = some ⟨u, true, s.out.size⟩ := by
    intro u p hu hp
    obtain ⟨p', hp', hx⟩ := h.kept_of_writes hu
    rwa [Allocation.reg_unique hp hp']
  obtain rfl := hco.apart (hheld hw hq) (hheld hv hr) hov
  exact congrArg Resident.vreg (Option.some.inj ((hheld hw hq).symm.trans (hheld hv hr)))

/-- An older value is not one that the instruction changes. -/
theorem Midway.changes_eq_false {r : Reg} {x : Resident} {eff : Effect V}
    (h : Midway c made (Event.after i) s) (hco : Coherent c s)
    (hlacks : ∀ v, .folded v ∈ i.operands → s.Lacks v) (hx : s.table.get? r = some x)
    (hk : x.since < s.out.size) : i.changes eff x.vreg = false := by
  refine Bool.eq_false_iff.2 fun hch => ?_
  rcases Inst.changes_eq_true_iff.1 hch with hw | ⟨hf, -⟩
  · obtain ⟨q, hq, hy⟩ := h.kept_of_writes hw
    rw [← hco.get?_of_vreg hx hq, hx] at hy
    have hsince : x.since = s.out.size := congrArg Resident.since (Option.some.inj hy)
    omega
  · exact hlacks _ hf r x hx rfl

/-- When the instruction is executed, a register has what the ideal machine has for the value
that it holds: an older value is left alone on both sides, and a new one is the same. -/
theorem Simulates.regs_execute {eff : Effect V} {rest : List (Inst × Effect V)} {r : Reg}
    {x : Resident} (hi : i.Clear c.alloc id) (hco : Coherent c s)
    (hmid : Midway c made (Event.after i) s)
    (hlacks : ∀ v, .folded v ∈ i.operands → s.Lacks v) (h : Simulates c t m agenda s)
    (hx : s.table.get? r = some x) (hb : Backed c x) :
    ((s.machine c.alloc t).execute c.alloc (i.mapRefs c.alloc.substitute) i eff rest).regs r =
      (m.step c.alloc (i, eff)).cells x.vreg := by
  rcases hmid.age hx hb with hold | ⟨-, -, hw⟩
  · have hspared : (i.mapRefs c.alloc.substitute).overwrites r = false := by
      refine Bool.eq_false_iff.2 fun hov => ?_
      obtain ⟨e, he, hhit⟩ := Inst.exists_hits_of_overwrites hov
      exact hmid.spared hx hb hold he hhit
    have hnone : i.delivered? (i.mapRefs c.alloc.substitute) r = none := by
      rw [Inst.delivered?, Inst.writers_eq_nil hspared]
    have hcells : (m.step c.alloc (i, eff)).cells x.vreg = m.cells x.vreg :=
      if_neg (Bool.eq_false_iff.1 (hmid.changes_eq_false hco hlacks hx hold))
    rw [hcells, ← h.regs hx hb hold]
    simp [Machine.execute, hnone, hspared]
  · have hv := Event.exists_mem_after_writes_iff.1 hw
    have hcells : (m.step c.alloc (i, eff)).cells x.vreg = eff.value x.vreg :=
      if_pos (Inst.changes_eq_true_iff.2 (Or.inl hv))
    rw [hcells]
    simp [Machine.execute, hmid.delivered?_eq_some hco hi hv (hco.placed hx)]

/-- A slot that no register has a newer value for has what the ideal machine has: it changes
only if the instruction writes the virtual register where it is folded. -/
theorem Simulates.slots_execute {eff : Effect V} {rest : List (Inst × Effect V)} {slot : Slot}
    (ha : SlotsApart c.alloc) (hmid : Midway c made (Event.after i) s)
    (h : Simulates c t m agenda s) (hslot : c.alloc.slot? v = .ok (some slot))
    (hclean : ∀ {r : Reg} {x : Resident}, s.table.get? r = some x → x.vreg = v →
      x.dirty = false) :
    ((s.machine c.alloc t).execute c.alloc (i.mapRefs c.alloc.substitute) i eff rest).slots slot =
      (m.step c.alloc (i, eff)).cells v := by
  -- What it writes by an operand is in a register now, and newer than the slot.
  have hunwritten : ¬ i.Writes v := by
    intro hv
    obtain ⟨r, -, hx⟩ := hmid.kept_of_writes hv
    cases hclean hx rfl
  by_cases hf : .folded v ∈ i.operands ∧ eff.folds v = true
  · have hcells : (m.step c.alloc (i, eff)).cells v = eff.value v :=
      if_pos (Inst.changes_eq_true_iff.2 (Or.inr hf))
    rw [hcells]
    simp [Machine.execute, Inst.foldedTo?_eq_some ha hf.1 hf.2 hslot]
  · have hcells : (m.step c.alloc (i, eff)).cells v = m.cells v := by
      refine if_neg fun hch => ?_
      exact (Inst.changes_eq_true_iff.1 hch).elim hunwritten hf
    have hnone : (i.mapRefs c.alloc.substitute).foldedTo? c.alloc eff slot = none := by
      refine Option.eq_none_iff_forall_ne_some.2 fun u hu => ?_
      obtain ⟨o, ho, hou⟩ := List.exists_of_findSome?_eq_some hu
      obtain ⟨rfl, hfolds, hhome⟩ := Operand.foldedTo?_eq_some_iff.1 hou
      obtain rfl := ha (Allocation.home?_eq_some_iff.1 hhome) hslot
      exact hf ⟨(Inst.mem_mapRefs_iff rfl).1 ho, hfolds⟩
    rw [hcells, ← h.slots hslot hclean]
    simp [Machine.execute, hnone]

/-- **The instruction joins the lowered block**, and both machines execute it. -/
theorem Simulates.execute {eff : Effect V} (ha : SlotsApart c.alloc)
    (hi : i.Clear c.alloc id) (hco : Coherent c s) (hmid : Midway c made (Event.after i) s)
    (hlacks : ∀ v, .folded v ∈ i.operands → s.Lacks v)
    (hreads : ∀ {v : VReg} {slot : Slot}, i.Reads v → c.alloc.slot? v = .ok (some slot) →
      ∃ r, c.alloc.reg? v = .ok (some r) ∧ (s.machine c.alloc t).regs r = m.cells v)
    (h : Simulates c t m ((i, eff) :: agenda) s) :
    Simulates c t (m.step c.alloc (i, eff)) agenda
      (s.push (i.mapRefs c.alloc.substitute)) := by
  have hmachine : (s.push (i.mapRefs c.alloc.substitute)).machine c.alloc t =
      (s.machine c.alloc t).execute c.alloc (i.mapRefs c.alloc.substitute) i eff agenda := by
    rw [State.machine_push, Machine.step, Inst.move?_eq_none fun _ => hi.slotless, h.agenda]
  refine ⟨fun he j hj => ?_, fun {r x slot} hx hd hslot k e hk he j hj => ?_,
    fun hx hb _ => ?_, fun hslot hclean => ?_, ?_, ?_⟩
  · rcases State.entry_push he with he | ⟨-, rfl⟩
    · exact h.stored he j hj
    · cases hj
  · rcases State.entry_push he with he | ⟨-, rfl⟩
    · exact h.quiet hx hd hslot hk he j hj
    · -- The slot of a value that is in a register is not that of a value folded into it.
      obtain rfl : j = i.mapRefs c.alloc.substitute := by simpa [Entry.code] using hj
      rintro (hmem | ⟨u, hmem, hhome⟩)
      · exact hi.slotless ((Inst.mem_mapRefs_iff rfl).1 hmem)
      · obtain rfl : x.vreg = u := ha hslot (Allocation.home?_eq_some_iff.1 hhome)
        exact hlacks _ ((Inst.mem_mapRefs_iff rfl).1 hmem) r x hx rfl
  · rw [hmachine]
    exact h.regs_execute hi hco hmid hlacks hx hb
  · rw [hmachine]
    exact h.slots_execute ha hmid hslot hclean
  · rw [hmachine]
    rfl
  · rw [hmachine]
    show (s.machine c.alloc t).seen ++ [(i.opcode, _)] = m.seen ++ [(i.opcode, _)]
    rw [h.seen, look_eq hreads fun hfold hslot => h.slots hslot fun hx hv => ?_]
    exact absurd hv (hlacks _ hfold _ _ hx)

/-- **An instruction computes the same**: its lowering brings the values that it reads into
their registers, makes room for those that it writes, and both machines execute it. -/
theorem lowerInst_simulates {eff : Effect V} (hc : c.target = .x64) (ha : SlotsApart c.alloc)
    (hi : i.Clear c.alloc id) (hbetween : Between c made s)
    (h : Simulates c t m ((i, eff) :: agenda) s) (hs : lowerInst c id i s = .ok () s') :
    Simulates c t (m.step c.alloc (i, eff)) agenda s' := by
  have hload : c.target.LoadsOnly := hc ▸ Target.x64_loadsOnly
  obtain ⟨u, w, hu, hw, rfl⟩ := lowerInst_eq_ok_iff.1 hs
  obtain ⟨hco, hmid, hread⟩ := hbetween.before hload hu
  have hbehind := behind_of_append hload (.start hco hmid hread) (List.append_nil _).symm hw
  -- Up to its place, loads may join the block.
  have hplace : (Coherent c u ∧ Midway c made [] u) ∧
      Simulates c t m ((i, eff) :: agenda) u := by
    refine forM_keeps (P := fun z => (Coherent c z ∧ Midway c made [] z) ∧
      Simulates c t m ((i, eff) :: agenda) z) (fun e he z z' hz hp => ?_)
      ⟨⟨hbetween.coherent, hbetween.midway⟩, h⟩ hu
    have hearly := Event.early_of_mem_before he
    have hperf := perform_eq_ok_iff.1 hp
    exact ⟨⟨hz.1.1.perform hload hperf, hz.1.2.perform_early hearly hperf⟩,
      hz.2.perform_early hc ha hearly hz.1.1 hz.1.2 hperf⟩
  have hrelease : Coherent c u.release ∧ Simulates c t m ((i, eff) :: agenda) u.release ∧
      ∀ q, (u.release.machine c.alloc t).regs q = (u.machine c.alloc t).regs q :=
    ⟨hco.congr rfl rfl, hplace.2.congr rfl rfl, fun _ => rfl⟩
  -- Behind its place, only stores do, so the registers stay as they are until it is executed.
  have hready : Coherent c w ∧ Simulates c t m ((i, eff) :: agenda) w ∧
      ∀ q, (w.machine c.alloc t).regs q = (u.machine c.alloc t).regs q := by
    refine forM_keeps (P := fun z => Coherent c z ∧ Simulates c t m ((i, eff) :: agenda) z ∧
      ∀ q, (z.machine c.alloc t).regs q = (u.machine c.alloc t).regs q)
      (fun e he z z' hz hp => ?_) hrelease hw
    have hlate := Event.not_early_of_mem_after he
    have hperf := perform_eq_ok_iff.1 hp
    obtain ⟨hsim, hregs⟩ := hz.2.1.perform_late hc ha hlate hz.1 hperf
    exact ⟨hz.1.perform hload hperf, hsim, fun q => (hregs q).trans (hz.2.2 q)⟩
  refine hready.2.1.execute ha hi hbehind.coherent hbehind.midway (fun v hv => ?_)
    fun {v slot} hv hslot => ?_
  · exact lacks_of_folded hload hbetween.coherent (hi.recorded hv).1 (hi.folded_apart hv) hu hw
  · obtain ⟨r, hr, hh⟩ := hread.held_of_reads hv
    obtain ⟨x, hx, rfl⟩ := Table.holds_iff.1 hh
    have hb : Backed c x := Or.inr ⟨slot, hslot⟩
    exact ⟨r, hr, (hready.2.2 r).trans (hplace.2.regs hx hb (hmid.older hx hb))⟩

end Residency

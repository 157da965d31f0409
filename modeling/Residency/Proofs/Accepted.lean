import Mathlib.Algebra.Group.Nat.Defs
import Residency.Proofs.Lowerable
import Residency.Proofs.Trustworthy

/-!
# Which blocks can be lowered

A block that is lowerable for x64 is lowered (`Residency.lowerBlock_succeeds_iff`, which has
both directions). The only step of a lowering that can go wrong is an eviction, and there are
three ways in which it can.

* It meets a value that is still to be read. That value is in a register of its own, which
  overlaps no register of another value that the instruction reads.
* It meets a value that the instruction has just written. The registers of what it writes do
  not overlap, and no register that it overwrites afterwards overlaps one of them.
* It meets a dirty value that cannot be stored. A dirty value was written by an instruction
  of the block, which demanded a slot and a register of the right class for it
  (`Residency.StoresAll`).
-/

namespace Residency

open Step

variable {c : Context} {i : Inst} {e : Event} {done : List Event}
  {s s' m t : State} {made : VReg → Nat → Inst → Prop}

/-! ### Values that can be stored -/

/-- What counts as made by an instruction of the block can be stored. -/
def StoresAll (c : Context) (made : VReg → Nat → Inst → Prop) : Prop :=
  ∀ v k j, made v k j → ∀ r, c.alloc.reg? v = .ok (some r) → Storable c r v

/-- An older value is in the way of no eviction, unless it is still to be read. -/
theorem Midway.storable {r : Reg} {x : Resident} (hstore : StoresAll c made)
    (hco : Coherent c s) (h : Midway c made done s) (hx : s.table.get? r = some x)
    (hd : x.dirty = true) (hk : x.since < s.out.size) : Storable c r x.vreg := by
  obtain ⟨e, -, hmade⟩ := h.maker hx hd hk
  exact hstore _ _ _ hmade r (hco.placed hx)

/-- Before the place of an instruction, a value is only in the way while it is to be read. -/
theorem Midway.vacatable {r : Reg} (hstore : StoresAll c made) (hco : Coherent c s)
    (h : Midway c made [] s) (hr : r ∉ s.reserved) : Vacatable c s r := by
  intro x hx
  refine ⟨hr, fun hd => ?_⟩
  have hk := h.older hx (Or.inl hd)
  exact ⟨hk, h.storable hstore hco hx hd hk⟩

/-- Behind the place of an instruction, a value is only in the way if the instruction has
written it. -/
theorem Behind.vacatable {r : Reg} (hstore : StoresAll c made) (h : Behind c made i m done s)
    (hr : ∀ x, s.table.get? r = some x → ∀ e ∈ done, ¬ e.Writes x.vreg) :
    Vacatable c s r := by
  intro x hx
  refine ⟨by simp [h.unreserved], fun hd => ?_⟩
  rcases h.midway.age hx (Or.inl hd) with hk | ⟨-, -, e, hmem, hw⟩
  · exact ⟨hk, h.midway.storable hstore h.coherent hx hd hk⟩
  · exact absurd hw (hr x hx e hmem)

/-! ### Before the place of an instruction -/

/-- **Folds can be carried out** when nothing is to be read yet. -/
theorem folds_succeed (id : Site) {l : List VReg} (hload : c.target.LoadsOnly)
    (hstore : StoresAll c made) (hknown : ∀ v ∈ l, ∃ o, c.alloc.reg? v = .ok o)
    (h : Between c made s) :
    ∃ s', ((l.map .fold).forM (Event.perform c id)) s = .ok () s' ∧ Between c made s' := by
  refine forM_builds_succeeds (P := fun _ => Between c made) (fun done e rest hall t ht => ?_) h
  have hmem : e ∈ l.map Event.fold := by simp [hall]
  obtain ⟨v, hv, rfl⟩ := List.mem_map.1 hmem
  have hperform : ∃ t', Performed c t (.fold v) t' := by
    obtain ⟨_ | r, hr⟩ := hknown v hv
    · exact ⟨t, .foldAway hr⟩
    · cases hh : t.table.holds r v with
      | false => exact ⟨t, .foldAbsent hr hh⟩
      | true =>
        obtain ⟨t', he⟩ : ∃ t', evict c r (t.count .foldEvictions) = .ok () t' := by
          refine evict_succeeds_iff.2 fun q _ => ?_
          have hvacatable : Vacatable c t q :=
            ht.midway.vacatable hstore ht.coherent (by simp [ht.unreserved])
          exact hvacatable
        exact ⟨t', .fold hr hh he⟩
  obtain ⟨t', hp⟩ := hperform
  refine ⟨t', perform_eq_ok_iff.2 hp, ht.coherent.perform hload hp,
    ht.midway.perform_early (e := .fold v) trivial hp, ?_⟩
  cases hp with
  | foldAway hr => exact ht.unreserved
  | foldAbsent hr hh => exact ht.unreserved
  | fold hr hh he => exact (evict_empties he).reserved.trans ht.unreserved

/-- **Reads can be carried out** when the registers of what is read do not overlap. -/
theorem reads_succeed (id : Site) (hc : c.target = .x64) (hstore : StoresAll c made)
    (hi : i.Lowerable c.func c.alloc)
    (hslot : ∀ v, i.Names v → ∃ o, c.alloc.slot? v = .ok o) (h : Between c made s) :
    ∃ s', ((i.operands.filterMap Event.ofRead?).forM (Event.perform c id)) s = .ok () s' := by
  have hload : c.target.LoadsOnly := hc ▸ Target.x64_loadsOnly
  suffices hsteps : ∀ done e rest, i.operands.filterMap Event.ofRead? = done ++ e :: rest →
      ∀ t, Coherent c t ∧ Midway c made [] t ∧ Reading c done t →
        ∃ t', e.perform c id t = .ok () t' ∧
          Coherent c t' ∧ Midway c made [] t' ∧ Reading c (done ++ [e]) t' by
    obtain ⟨s', hs', -⟩ := forM_builds_succeeds
      (P := fun done t => Coherent c t ∧ Midway c made [] t ∧ Reading c done t)
      hsteps ⟨h.coherent, h.midway, .start h.unreserved⟩
    exact ⟨s', hs'⟩
  rintro done e rest hall t ⟨hco, hmid, hread⟩
  have hmem : ∀ {e'}, e' ∈ done ++ [e] → ∃ v, e' = .read v ∧ i.Reads v := by
    intro e' he'
    have hall' : e' ∈ i.operands.filterMap Event.ofRead? := by
      rw [hall]
      rcases List.mem_append.1 he' with h | h <;> simp_all
    obtain ⟨o, ho, hoe⟩ := List.mem_filterMap.1 hall'
    obtain ⟨v, a, rfl, ha⟩ := Event.ofRead?_eq_some_iff.1 hoe
    exact ⟨v, rfl, o, ho, a, ha⟩
  obtain ⟨v, rfl, hv⟩ : ∃ v, e = .read v ∧ i.Reads v := hmem (by simp)
  obtain ⟨r, hr⟩ := hi.assigned (Or.inl hv)
  have hperform : ∃ t', Performed c t (.read v) t' := by
    cases hh : t.table.holds r v with
    | true => exact ⟨_, .readHeld hr hh⟩
    | false =>
      obtain ⟨u, he⟩ : ∃ u, evict c r t = .ok () u := by
        refine evict_succeeds_iff.2 fun q hq => hmid.vacatable hstore hco fun hres => ?_
        -- The register of something that was read is in the way.
        obtain ⟨w, hw, hwq⟩ := hread.only hres
        obtain ⟨w', hw', hreads⟩ := hmem (List.mem_append_left _ hw)
        cases hw'
        by_cases hvw : v = w
        · subst hvw
          obtain ⟨p, hp, -, hhp⟩ := hread.held hw
          rw [Allocation.reg_unique hp hr, hh] at hhp
          cases hhp
        · exact absurd hq (Bool.eq_false_iff.1 (hi.reads_apart hv hreads hvw hr hwq))
      obtain ⟨_ | slot, hs⟩ := hslot v (Or.inl hv)
      · exact ⟨_, .readFound hr hh he hs⟩
      · obtain ⟨r', hr', hcls⟩ := hi.fitting (Or.inl hv) hs
        obtain rfl := Allocation.reg_unique hr hr'
        obtain ⟨j, hj⟩ : ∃ j, Target.x64.load slot r r.regClass = .ok j :=
          ⟨_, Target.x64_load_eq_ok_iff.2 ⟨rfl, rfl⟩⟩
        exact ⟨_, .readLoaded hr hh he hs hcls (hc ▸ hj)⟩
  obtain ⟨t', hp⟩ := hperform
  exact ⟨t', perform_eq_ok_iff.2 hp, hco.perform hload hp,
    hmid.perform_early (e := .read v) trivial hp, hread.perform trivial hp⟩

/-! ### Behind the place of an instruction -/

/-- **The events behind the place of an instruction can be carried out** when nothing that it
overwrites is in the way of what it writes. -/
theorem after_succeeds (id : Site) (hload : c.target.LoadsOnly) (hstore : StoresAll c made)
    (hi : i.Lowerable c.func c.alloc) (h : Behind c made i m [] s) :
    ∃ s', ((Event.after i).forM (Event.perform c id)) s = .ok () s' := by
  suffices hsteps : ∀ done e rest, Event.after i = done ++ e :: rest →
      ∀ t, Behind c made i m done t →
        ∃ t', e.perform c id t = .ok () t' ∧ Behind c made i m (done ++ [e]) t' by
    obtain ⟨s', hs', -⟩ := forM_builds_succeeds hsteps h
    exact ⟨s', hs'⟩
  intro done e rest hall t ht
  have hperform : ∃ t', Performed c t e t' := by
    have hwrites : ∀ {e' v}, e' ∈ done → e'.Writes v → i.Writes v := fun he' hw =>
      Event.exists_mem_after_writes_iff.1 ⟨_, by simp [hall, he'], hw⟩
    obtain ⟨v, rfl, ho⟩ | ⟨v, rfl, ho⟩ | ⟨r, rfl, -⟩ :=
      Event.mem_after_iff.1 (Event.mem_after_of_append hall)
    · obtain ⟨r, hr, hh⟩ := ht.held (Event.modifies_of_append_modify hall)
        (Inst.reads_of_modify ho)
      obtain ⟨x, hx, -⟩ := Table.holds_iff.1 hh
      exact ⟨_, .modify hr hx⟩
    · obtain ⟨r, hr⟩ := hi.assigned (Or.inr (Or.inl ho))
      cases hh : t.table.holds r v with
      | true => exact ⟨_, .redefine hr hh⟩
      | false =>
        obtain ⟨u, he⟩ : ∃ u, evict c r t = .ok () u := by
          refine evict_succeeds_iff.2 fun q hq => ht.vacatable hstore fun x hx e' he' hw => ?_
          -- Something else that the instruction has written already is in the way.
          have hxq := ht.coherent.placed hx
          by_cases hvx : v = x.vreg
          · subst hvx
            rw [Allocation.reg_unique hr hxq, Table.holds_of_get? hx] at hh
            cases hh
          · exact absurd hq (Bool.eq_false_iff.1
              (hi.writes_apart (Or.inl ho) (hwrites he' hw) hvx hr hxq))
        exact ⟨_, .define hr hh he⟩
    · obtain ⟨u, he⟩ : ∃ u, evict c r t = .ok () u := by
        refine evict_succeeds_iff.2 fun q hq => ht.vacatable hstore fun x hx e' he' hw => ?_
        have hspares : (Event.after i).Pairwise fun e e' => e'.Spares c.alloc e :=
          Event.pairwise_spares_iff.2 ⟨hi.modify_spared, hi.write_spared, hi.define_spared⟩
        rw [hall, List.pairwise_append] at hspares
        have hspare : (Event.overwrite r).Spares c.alloc e' :=
          hspares.2.2 e' he' (.overwrite r) (by simp)
        exact absurd hq (Bool.eq_false_iff.1 (hspare hw (ht.coherent.placed hx) rfl))
      exact ⟨_, .overwrite he⟩
  obtain ⟨t', hp⟩ := hperform
  exact ⟨t', perform_eq_ok_iff.2 hp, ht.perform hload hall hp⟩

/-! ### Instructions and blocks -/

/-- **An instruction that can be lowered is lowered**, wherever it stands. -/
theorem lowerInst_succeeds (id : Site) (hc : c.target = .x64) (hstore : StoresAll c made)
    (hi : i.Lowerable c.func c.alloc)
    (hslot : ∀ v, i.Names v → ∃ o, c.alloc.slot? v = .ok o)
    (hfold : ∀ v ∈ c.alloc.foldedInto id, ∃ o, c.alloc.reg? v = .ok o)
    (h : Between c made s) : ∃ s', lowerInst c id i s = .ok () s' := by
  have hload : c.target.LoadsOnly := hc ▸ Target.x64_loadsOnly
  obtain ⟨u, hu, hbetween⟩ := folds_succeed id hload hstore hfold h
  obtain ⟨m, hm⟩ := reads_succeed id hc hstore hi hslot hbetween
  have hbefore : ((Event.before c.alloc id i).forM (Event.perform c id)) s = .ok () m :=
    forM_append_eq_ok_iff.2 ⟨u, hu, hm⟩
  obtain ⟨hco, hmid, hread⟩ := h.before hload hbefore
  obtain ⟨t, ht⟩ := after_succeeds id hload hstore hi (.start hco hmid hread)
  exact ⟨_, lowerInst_eq_ok_iff.2 ⟨m, t, hbefore, ht, rfl⟩⟩

/-- Instructions that can be lowered are lowered one after the other. -/
theorem lowerEach_succeeds {n : Nat} {l : List Inst} (hc : c.target = .x64)
    (hstore : StoresAll c made) (hmade : ∀ i ∈ l, ∀ v k j, i.Writes v → made v k j)
    (hi : ∀ i ∈ l, i.Lowerable c.func c.alloc)
    (hslot : ∀ i ∈ l, ∀ v, i.Names v → ∃ o, c.alloc.slot? v = .ok o)
    (hfold : ∀ w, ∀ v ∈ c.alloc.foldedInto ⟨c.block, w⟩, ∃ o, c.alloc.reg? v = .ok o)
    (hlen : n + l.length ≤ 2 ^ 32) (h : Between c made s) :
    ∃ s', lowerEach c n l s = .ok () s' ∧ Between c made s' := by
  have hload : c.target.LoadsOnly := hc ▸ Target.x64_loadsOnly
  induction l generalizing n s with
  | nil => exact ⟨s, lowerEach_nil_eq_ok_iff.2 rfl, h⟩
  | cons i l ih =>
    rw [List.length_cons] at hlen
    obtain ⟨w, hw⟩ := exists_word (n := n) (by omega)
    obtain ⟨t, ht⟩ := lowerInst_succeeds ⟨c.block, w⟩ hc hstore
      (hi i List.mem_cons_self) (hslot i List.mem_cons_self) (hfold w) h
    have hnext : Between c made t := h.next hload ht (fun _ _ _ hm => hm)
      fun v k hv _ => hmade i List.mem_cons_self v k _ hv
    obtain ⟨s', hs', hend⟩ := ih (n := n + 1)
      (fun j hj => hmade j (List.mem_cons_of_mem i hj))
      (fun j hj => hi j (List.mem_cons_of_mem i hj))
      (fun j hj => hslot j (List.mem_cons_of_mem i hj)) (by omega) hnext
    exact ⟨s', lowerEach_cons_eq_ok_iff.2 ⟨w, t, hw, ht, hs'⟩, hend⟩

theorem Known.reg? {f : Func} {a : Allocation} {v : VReg} (h : Known f a v) :
    ∃ o, a.reg? v = .ok o :=
  ⟨_, Allocation.reg?_eq_ok_iff.2 ⟨_, Array.getElem?_eq_getElem h.2, rfl⟩⟩

theorem Known.slot? {f : Func} {a : Allocation} {v : VReg} (h : Known f a v) :
    ∃ o, a.slot? v = .ok o :=
  ⟨_, Allocation.slot?_eq_ok_iff.2 ⟨_, Array.getElem?_eq_getElem h.2, rfl⟩⟩

/-- A value counts as made by any of some instructions that writes its virtual register,
wherever the instruction is. -/
def WrittenIn (l : List Inst) (v : VReg) (_ : Nat) (_ : Inst) : Prop := ∃ i ∈ l, i.Writes v

/-- What is written by instructions that can be lowered can be stored. -/
theorem Lowerable.storesAll {l : List Inst} (hc : c.target = .x64)
    (h : Lowerable c.func c.alloc l) : StoresAll c (WrittenIn l) := by
  rintro v - - ⟨i, hi, hv⟩ r hr
  obtain ⟨slot, hs⟩ := (h.inst hi).slotted hv
  obtain ⟨q, hq, hcls⟩ := (h.inst hi).fitting (Or.inr hv) hs
  obtain rfl := Allocation.reg_unique hr hq
  exact (storable_iff hc).2 ⟨⟨slot, hs⟩, hcls⟩

/-- A block that can be lowered is lowered. -/
theorem lowerBlock_of_lowerable {b : Block} (hc : c.target = .x64)
    (hb : c.func.block c.block = .ok b) (hlen : b.insts.length ≤ 2 ^ 32)
    (hknown : ∀ i ∈ b.insts, ∀ v, i.Names v → Known c.func c.alloc v)
    (hfold : ∀ p ∈ c.alloc.folded, p.1.block = c.block → Known c.func c.alloc p.2)
    (h : Lowerable c.func c.alloc b.insts) : ∃ x, (lowerBlock c).result = .ok x := by
  have hfolded : ∀ w, ∀ v ∈ c.alloc.foldedInto ⟨c.block, w⟩, ∃ o, c.alloc.reg? v = .ok o := by
    intro w v hv
    obtain ⟨p, hp, rfl⟩ := List.mem_map.1 hv
    obtain ⟨hmem, hid⟩ := List.mem_filter.1 hp
    refine (hfold p hmem ?_).reg?
    rw [of_decide_eq_true hid]
  have hstore := h.storesAll hc
  obtain ⟨t, heach, hbetween⟩ := lowerEach_succeeds (n := 0) hc hstore
    (fun i hi v _ _ hv => ⟨i, hi, hv⟩) (fun i hi => h.inst hi)
    (fun i hi v hv => (hknown i hi v hv).slot?) hfolded (by omega) .start
  obtain ⟨t', hflush⟩ : ∃ t', flush c t = .ok () t' := by
    refine flush_succeeds_iff.2 fun q => ?_
    exact hbetween.midway.vacatable hstore hbetween.coherent (by simp [hbetween.unreserved])
  have hinsts : lowerInsts c 0 b.insts {} = .ok () t :=
    lowerInsts_eq_ok_iff.2 ⟨terminatorsLast_iff.2 h.terminators, heach⟩
  exact ⟨_, lowerBlock_eq_ok_iff.2 ⟨b, t, t', hb, hinsts, hflush, rfl⟩⟩

/-- **A block is lowered for x64 exactly when it can be**, if the tables know the virtual
registers that it names and those that are folded into it. -/
theorem lowerBlock_succeeds_iff {f : Func} {a : Allocation} {level : Level} {id : BlockId}
    {b : Block} (hb : f.block id = .ok b) (hlen : b.insts.length < 2 ^ 32)
    (hknown : ∀ i ∈ b.insts, ∀ v, i.Names v → Known f a v)
    (hfold : ∀ p ∈ a.folded, p.1.block = id → Known f a p.2) :
    (∃ x, (lowerBlock ⟨f, a, .x64, level, id⟩).result = .ok x) ↔ Lowerable f a b.insts := by
  constructor
  · rintro ⟨x, hx⟩
    exact lowerable_of_lowerBlock rfl hb hx
  · intro h
    exact lowerBlock_of_lowerable rfl hb (Nat.le_of_lt hlen) hknown hfold h

/-- The instructions of the sum name nothing that its tables do not know. -/
theorem known_of_sumInsts (hi : i ∈ sumInsts) {v : VReg} (hv : i.Names v) :
    Known sumFunc sumHomes v := by
  have hnum : v = ⟨0⟩ ∨ v = ⟨1⟩ := by
    rw [sumInsts, List.mem_cons, List.mem_singleton] at hi
    rcases hi with rfl | rfl
    all_goals
      simp [Inst.Names, Inst.Reads, Inst.Writes, Operand.read?] at hv
      grind
  rcases hnum with rfl | rfl <;> exact ⟨by decide, by decide⟩

/-- The sum is lowered, so it could be. -/
theorem lowerBlock_succeeds_iff_sum : Lowerable sumFunc sumHomes sumInsts := by
  have hlowered : ∃ x, (lowerBlock ⟨sumFunc, sumHomes, .x64, .regEvent, ⟨0⟩⟩).result = .ok x :=
    ⟨_, rfl⟩
  exact (lowerBlock_succeeds_iff rfl (by decide) (fun _ hi _ hv => known_of_sumInsts hi hv)
    (fun _ hp _ => nomatch hp)).1 hlowered

end Residency

import Residency.Proofs.Between
import Residency.Proofs.Machine

/-!
# Lowered code computes the same

While a block is lowered, the code lowered so far can be run on the real machine
(`Residency.State.machine`). What that leads to agrees with the ideal machine, as far as the
table of residents says (`Residency.Simulates`): a value that a register holds is the one in
the cell of its virtual register, and so is the value in a slot, unless the table has a newer
one.

A store does not join the code at its end. It goes behind the instruction that defined the
value, and so it changes what is run in between. That this makes no difference but for the
slot is the heart of the matter (`Residency.State.machine_store`): nothing behind that
instruction has overwritten the register (`Residency.Coherent.untouched`) or touched the slot
(`Residency.Simulates.quiet`).
-/

namespace Residency

open Step

variable {V : Type} {c : Context} {id : Site} {i : Inst} {e : Event} {s s' : State}
  {t : Machine V} {m : Ideal V} {agenda : List (Inst × Effect V)}

/-! ### The code lowered so far -/

/-- The code of an entry: the instruction, and the stores behind it. -/
def Entry.code (e : Entry) : List Inst := e.inst :: e.stores

/-- The real machine when it has run the code lowered so far. -/
def State.machine (s : State) (a : Allocation) (t : Machine V) : Machine V :=
  t.run a (Entry.flatten s.out.toList)

theorem Entry.flatten_cons {e : Entry} {l : List Entry} :
    Entry.flatten (e :: l) = e.code ++ Entry.flatten l := List.flatMap_cons

theorem State.machine_push {a : Allocation} {j : Inst} :
    (s.push j).machine a t = (s.machine a t).step a j := by
  unfold State.machine State.push
  rw [Array.toList_push, Entry.flatten_append, Machine.run_append]
  rfl

/-- **A store behind an earlier instruction**, where nothing since then has overwritten the
register or touched the slot, does what a store at the end would do. -/
theorem State.machine_store {a : Allocation} {pos : Nat} {op : String} {slot : Slot} {r : Reg}
    (hpos : pos < s.out.size)
    (huntouched : ∀ {k : Nat} {e : Entry}, pos < k → s.out[k]? = some e → ∀ j ∈ e.code,
      j.overwrites r = false)
    (hquiet : ∀ {k : Nat} {e : Entry}, pos < k → s.out[k]? = some e → ∀ j ∈ e.code,
      ¬ j.Touches a slot) :
    (s.store pos (.store op slot r)).machine a t =
      (s.machine a t).put slot ((s.machine a t).regs r) := by
  obtain ⟨l, e, l', hout, hlen, hmodify⟩ := List.exists_of_modify
    (fun e : Entry => { e with stores := e.stores ++ [.store op slot r] })
    (l := s.out.toList) (i := pos) (by simpa using hpos)
  -- The code that was behind the place of the store.
  have hlater : ∀ j ∈ Entry.flatten l', ∃ k e', pos < k ∧ s.out[k]? = some e' ∧ j ∈ e'.code := by
    intro j hj
    obtain ⟨e', he', hj⟩ := List.mem_flatMap.1 hj
    obtain ⟨n, hn, rfl⟩ := List.getElem_of_mem he'
    refine ⟨pos + (n + 1), l'[n], by omega, ?_, hj⟩
    rw [← Array.getElem?_toList, hout, ← hlen, List.getElem?_append_right (by omega)]
    simp
  have hregs : ∀ u : Machine V, (u.run a (Entry.flatten l')).regs r = u.regs r := by
    intro u
    refine Machine.run_regs fun j hj => ?_
    obtain ⟨k, e', hk, he', hmem⟩ := hlater j hj
    exact huntouched hk he' j hmem
  have hput : ∀ (u : Machine V) x,
      (u.put slot x).run a (Entry.flatten l') = (u.run a (Entry.flatten l')).put slot x := by
    intro u x
    refine Machine.run_put fun j hj => ?_
    obtain ⟨k, e', hk, he', hmem⟩ := hlater j hj
    exact hquiet hk he' j hmem
  have hmachine : s.machine a t =
      ((t.run a (Entry.flatten l)).run a e.code).run a (Entry.flatten l') := by
    rw [State.machine, hout, Entry.flatten_append, Entry.flatten_cons, Machine.run_append,
      Machine.run_append]
  have hcode : Entry.code { e with stores := e.stores ++ [.store op slot r] } =
      e.code ++ [.store op slot r] := rfl
  have hstore : ∀ u : Machine V, u.run a [.store op slot r] = u.put slot (u.regs r) :=
    fun _ => rfl
  calc (s.store pos (.store op slot r)).machine a t
      = (((t.run a (Entry.flatten l)).run a e.code).run a [.store op slot r]).run a
          (Entry.flatten l') := by
        rw [State.machine, State.store, Array.toList_modify, hmodify, Entry.flatten_append,
          Entry.flatten_cons, hcode, Machine.run_append, Machine.run_append, Machine.run_append]
    _ = (s.machine a t).put slot ((s.machine a t).regs r) := by
        rw [hstore, hput, hmachine, hregs]

/-! ### The simulation -/

/-- Different virtual registers have different slots. -/
def SlotsApart (a : Allocation) : Prop :=
  ∀ {v w : VReg} {slot : Slot}, a.slot? v = .ok (some slot) → a.slot? w = .ok (some slot) → v = w

/-- **The code lowered so far computes the same** as the ideal machine has computed. -/
structure Simulates (c : Context) (t : Machine V) (m : Ideal V)
    (agenda : List (Inst × Effect V)) (s : State) : Prop where
  /-- What stands behind an instruction are stores. -/
  stored : ∀ {k : Nat} {e : Entry}, s.out[k]? = some e → ∀ j ∈ e.stores,
    ∃ op slot r, j = .store op slot r
  /-- Behind the instruction that made a dirty value, none has touched the slot. -/
  quiet : ∀ {r : Reg} {x : Resident} {slot : Slot}, s.table.get? r = some x → x.dirty = true →
    c.alloc.slot? x.vreg = .ok (some slot) → ∀ {k : Nat} {e : Entry}, x.since < k →
    s.out[k]? = some e → ∀ j ∈ e.code, ¬ j.Touches c.alloc slot
  /-- A value that was in a register before the instruction at hand is that of the cell. -/
  regs : ∀ {r : Reg} {x : Resident}, s.table.get? r = some x → Backed c x →
    x.since < s.out.size → (s.machine c.alloc t).regs r = m.cells x.vreg
  /-- Where no register has a newer value, the slot has that of the cell. -/
  slots : ∀ {v : VReg} {slot : Slot}, c.alloc.slot? v = .ok (some slot) →
    (∀ {r : Reg} {x : Resident}, s.table.get? r = some x → x.vreg = v → x.dirty = false) →
    (s.machine c.alloc t).slots slot = m.cells v
  /-- The same instructions are still to be executed. -/
  agenda : (s.machine c.alloc t).agenda = agenda
  /-- The same values have been read. -/
  seen : (s.machine c.alloc t).seen = m.seen

namespace Simulates

theorem congr (h : Simulates c t m agenda s) (ht : s'.table = s.table) (ho : s'.out = s.out) :
    Simulates c t m agenda s' := by
  have hmachine : s'.machine c.alloc t = s.machine c.alloc t := by
    rw [State.machine, State.machine, ho]
  refine ⟨?_, ?_, ?_, ?_, hmachine ▸ h.agenda, hmachine ▸ h.seen⟩
  · rw [ho]
    exact h.stored
  · rw [ht, ho]
    exact h.quiet
  · rw [ht, ho, hmachine]
    exact h.regs
  · rw [ht, hmachine]
    exact h.slots

/-- A clean value leaves its register. -/
theorem free {r : Reg} {x : Resident} (h : Simulates c t m agenda s)
    (hx : s.table.get? r = some x) (hd : x.dirty = false) :
    Simulates c t m agenda (s.free r) := by
  refine ⟨h.stored, fun hy => h.quiet (State.get?_free_eq_some_iff.1 hy).2,
    fun hy => h.regs (State.get?_free_eq_some_iff.1 hy).2,
    fun hslot hclean => h.slots hslot fun {q y} hy hv => ?_, h.agenda, h.seen⟩
  by_cases hq : q = r
  · subst hq
    rw [← Option.some.inj (hx.symm.trans hy), hd]
  · exact hclean (State.get?_free_eq_some_iff.2 ⟨hq, hy⟩) hv

/-- The store of a dirty value, behind the instruction that made it, puts the value into its
slot. -/
theorem machine_store {r : Reg} {x : Resident} {slot : Slot} (op : String) (hco : Coherent c s)
    (h : Simulates c t m agenda s) (hx : s.table.get? r = some x) (hd : x.dirty = true)
    (hslot : c.alloc.slot? x.vreg = .ok (some slot)) (hpos : x.since < s.out.size) :
    (s.store x.since (.store op slot r)).machine c.alloc t =
      (s.machine c.alloc t).put slot ((s.machine c.alloc t).regs r) := by
  refine State.machine_store hpos (fun hk he j hj => ?_) (h.quiet hx hd hslot)
  rcases List.mem_cons.1 hj with rfl | hj
  · exact hco.untouched hx (Or.inl hd) hk he
  · obtain ⟨op', slot', r', rfl⟩ := h.stored he j hj
    rfl

/-- A dirty value is stored, and leaves its register. -/
theorem store {r : Reg} {x : Resident} {slot : Slot} (op : String) (ha : SlotsApart c.alloc)
    (hco : Coherent c s) (h : Simulates c t m agenda s) (hx : s.table.get? r = some x)
    (hd : x.dirty = true) (hslot : c.alloc.slot? x.vreg = .ok (some slot))
    (hpos : x.since < s.out.size) :
    Simulates c t m agenda ((s.store x.since (.store op slot r)).free r) ∧
      ∀ q, (((s.store x.since (.store op slot r)).free r).machine c.alloc t).regs q =
        (s.machine c.alloc t).regs q := by
  have hmachine : ((s.store x.since (.store op slot r)).free r).machine c.alloc t =
      (s.machine c.alloc t).put slot ((s.machine c.alloc t).regs r) :=
    h.machine_store op hco hx hd hslot hpos
  have hget : ∀ {q y}, ((s.store x.since (.store op slot r)).free r).table.get? q = some y ↔
      q ≠ r ∧ s.table.get? q = some y := State.get?_free_eq_some_iff
  have hsize : (s.store x.since (.store op slot r)).out.size = s.out.size := Array.size_modify
  refine ⟨⟨fun he j hj => ?_, fun {q y slot'} hy hd' hslot' k e hk he j hj => ?_,
    fun hy hb hk => ?_, fun {v slot'} hslot' hclean => ?_, ?_, ?_⟩, fun q => ?_⟩
  · obtain ⟨e', he', -, hstores⟩ := State.entry_store he
    rcases hstores j hj with hj | rfl
    · exact h.stored he' j hj
    · exact ⟨op, slot, r, rfl⟩
  · obtain ⟨hq, hys⟩ := hget.1 hy
    obtain ⟨e', he', hinst, hstores⟩ := State.entry_store he
    have hmem : j ∈ e'.code ∨ j = .store op slot r := by
      rcases List.mem_cons.1 hj with rfl | hj
      · exact Or.inl (List.mem_cons.2 (Or.inl hinst.symm))
      · exact (hstores j hj).imp_left (List.mem_cons_of_mem _)
    rcases hmem with hmem | rfl
    · exact h.quiet hys hd' hslot' hk he' j hmem
    · -- The new store is for another virtual register, so it is to another slot.
      rintro (hmem | ⟨u, hmem, -⟩)
      · obtain rfl : slot' = slot := by simpa [Inst.store] using hmem
        have hv : x.vreg = y.vreg := ha hslot hslot'
        exact hq (hco.get?_of_vreg hys (hv ▸ hco.placed hx))
      · simp [Inst.store] at hmem
  · rw [hmachine]
    exact h.regs (hget.1 hy).2 hb (hsize ▸ hk)
  · rw [hmachine]
    by_cases hv : v = x.vreg
    · subst hv
      obtain rfl := Allocation.slot_unique hslot hslot'
      exact (Function.update_self ..).trans (h.regs hx (Or.inl hd) hpos)
    · have hne : slot' ≠ slot := by
        rintro rfl
        exact hv (ha hslot' hslot)
      refine (Function.update_of_ne hne ..).trans (h.slots hslot' fun {q y} hy hyv => ?_)
      have hq : q ≠ r := by
        rintro rfl
        obtain rfl := Option.some.inj (hx.symm.trans hy)
        exact hv hyv.symm
      exact hclean (hget.2 ⟨hq, hy⟩) hyv
  · rw [hmachine]
    exact h.agenda
  · rw [hmachine]
    exact h.seen
  · rw [hmachine]
    rfl

/-- What the eviction of one register leaves of the simulation: all of it. -/
theorem vacated {r : Reg} (hc : c.target = .x64) (ha : SlotsApart c.alloc) (hco : Coherent c s)
    (h : Simulates c t m agenda s) (hv : Vacated c r s s') :
    Simulates c t m agenda s' ∧
      ∀ q, (s'.machine c.alloc t).regs q = (s.machine c.alloc t).regs q := by
  cases hv with
  | idle hx => exact ⟨h, fun _ => rfl⟩
  | drop hx hr hd => exact ⟨(h.free hx hd).congr rfl rfl, fun _ => rfl⟩
  | store hx hr hd hs hb hcls hi =>
    rw [hc] at hi
    obtain ⟨-, rfl⟩ := Target.x64_store_eq_ok_iff.1 hi
    obtain ⟨hsim, hregs⟩ := h.store _ ha hco hx hd hs hb
    exact ⟨hsim.congr rfl rfl, hregs⟩

/-- An eviction that succeeds leaves the simulation as it is, and the registers of the real
machine. -/
theorem of_evict {r : Reg} (hc : c.target = .x64) (ha : SlotsApart c.alloc) (hco : Coherent c s)
    (h : Simulates c t m agenda s) (he : evict c r s = .ok () s') :
    Simulates c t m agenda s' ∧
      ∀ q, (s'.machine c.alloc t).regs q = (s.machine c.alloc t).regs q := by
  have hkeep : Coherent c s' ∧ Simulates c t m agenda s' ∧
      ∀ q, (s'.machine c.alloc t).regs q = (s.machine c.alloc t).regs q := by
    refine evict_keeps (P := fun u => Coherent c u ∧ Simulates c t m agenda u ∧
      ∀ q, (u.machine c.alloc t).regs q = (s.machine c.alloc t).regs q)
      (fun q u u' hu hv => ?_) ⟨hco, h, fun _ => rfl⟩ he
    obtain ⟨hco, hsim, hregs⟩ := hu
    obtain ⟨hsim', hregs'⟩ := hsim.vacated hc ha hco hv
    exact ⟨hco.of_emptied hv.empties, hsim', fun q => (hregs' q).trans (hregs q)⟩
  exact hkeep.2

/-- When everything is evicted, all values are in their slots. -/
theorem of_flush (hc : c.target = .x64) (ha : SlotsApart c.alloc) (hco : Coherent c s)
    (h : Simulates c t m agenda s) (he : flush c s = .ok () s') :
    Simulates c t m agenda s' := by
  have hkeep : Coherent c s' ∧ Simulates c t m agenda s' := by
    refine flush_keeps (P := fun u => Coherent c u ∧ Simulates c t m agenda u)
      (fun q u u' hu hv => ?_) ⟨hco, h⟩ he
    exact ⟨hu.1.of_emptied hv.empties, (hu.2.vacated hc ha hu.1 hv).1⟩
  exact hkeep.2

/-- A value comes into a register, by the instruction at hand or without one. It takes the place
of nothing, or of an older value of its virtual register. -/
theorem hold {r : Reg} {x : Resident} (h : Simulates c t m agenda s)
    (hsince : Backed c x → x.since < s.out.size →
      (s.machine c.alloc t).regs r = m.cells x.vreg)
    (hnew : x.dirty = true → s.out.size ≤ x.since)
    (hold : ∀ y, s.table.get? r = some y → x.vreg = y.vreg ∧ x.dirty = true) :
    Simulates c t m agenda (s.hold r x) := by
  refine ⟨h.stored, fun {q y slot} hy hd hslot k e hk he => ?_, fun hy hb hk => ?_,
    fun hslot hclean => h.slots hslot fun {q y} hy hv => ?_, h.agenda, h.seen⟩
  · rcases State.get?_hold_eq_some_iff.1 hy with ⟨rfl, rfl⟩ | ⟨-, hy⟩
    · have hsize : s.out.size ≤ k := Nat.le_of_lt (Nat.lt_of_le_of_lt (hnew hd) hk)
      exact absurd ((Array.getElem?_eq_none hsize).symm.trans he) nofun
    · exact h.quiet hy hd hslot hk he
  · rcases State.get?_hold_eq_some_iff.1 hy with ⟨rfl, rfl⟩ | ⟨-, hy⟩
    · exact hsince hb hk
    · exact h.regs hy hb hk
  · by_cases hq : q = r
    · subst hq
      obtain ⟨hxy, hd⟩ := hold y hy
      have hclean' := hclean (State.get?_hold_eq_some_iff.2 (Or.inl ⟨rfl, rfl⟩)) (hxy.trans hv)
      rw [hd] at hclean'
      cases hclean'
    · exact hclean (State.get?_hold_eq_some_iff.2 (Or.inr ⟨hq, hy⟩)) hv

/-- **Every event behind the place of an instruction** leaves the simulation as it is, and the
registers of the real machine: it inserts nothing but stores. -/
theorem perform_late (hc : c.target = .x64) (ha : SlotsApart c.alloc) (he : ¬ e.Early)
    (hco : Coherent c s) (h : Simulates c t m agenda s) (hp : Performed c s e s') :
    Simulates c t m agenda s' ∧
      ∀ q, (s'.machine c.alloc t).regs q = (s.machine c.alloc t).regs q := by
  cases hp with
  | foldAway hr => exact absurd trivial he
  | foldAbsent hr hh => exact absurd trivial he
  | fold hr hh hev => exact absurd trivial he
  | readHeld hr hh => exact absurd trivial he
  | readLoaded hr hh hev hs hcls hi => exact absurd trivial he
  | readFound hr hh hev hs => exact absurd trivial he
  | modify hr hx =>
    refine ⟨h.hold (fun _ hk => absurd hk (Nat.lt_irrefl _)) (fun _ => Nat.le_refl _)
      fun y hy => ?_, fun _ => rfl⟩
    obtain rfl := Option.some.inj (hx.symm.trans hy)
    exact ⟨rfl, rfl⟩
  | redefine hr hh =>
    obtain ⟨x, hx, rfl⟩ := Table.holds_iff.1 hh
    refine ⟨h.hold (fun _ hk => absurd hk (Nat.lt_irrefl _)) (fun _ => Nat.le_refl _)
      fun y hy => ?_, fun _ => rfl⟩
    obtain rfl := Option.some.inj (hx.symm.trans hy)
    exact ⟨rfl, rfl⟩
  | define hr hh hev =>
    obtain ⟨hsim, hregs⟩ := h.of_evict hc ha hco hev
    refine ⟨hsim.hold (fun _ hk => absurd hk (Nat.lt_irrefl _)) (fun _ => Nat.le_refl _)
      fun y hy => ?_, hregs⟩
    exact absurd (hy.symm.trans (get?_of_evict hev)) nofun
  | overwrite hev => exact h.of_evict hc ha hco hev

/-- A value is loaded from its slot: the slot has it, since no register does. -/
theorem load {r : Reg} {v : VReg} {slot : Slot} (op : String) (ha : SlotsApart c.alloc)
    (h : Simulates c t m agenda s)
    (hage : ∀ {q : Reg} {x : Resident}, s.table.get? q = some x → Backed c x →
      x.since < s.out.size)
    (hslot : c.alloc.slot? v = .ok (some slot))
    (habsent : ∀ {q : Reg} {x : Resident}, s.table.get? q = some x → x.vreg ≠ v)
    (hfree : ∀ q, r.overlaps q = true → s.table.get? q = none) :
    Simulates c t m agenda ((s.push (.load op r slot)).hold r ⟨v, false, s.out.size⟩) := by
  have hmachine : (s.push (.load op r slot)).machine c.alloc t =
      (s.machine c.alloc t).move (.load r slot) := State.machine_push
  have hother : ∀ {q : Reg} {x : Resident}, s.table.get? q = some x →
      ((s.push (.load op r slot)).machine c.alloc t).regs q = (s.machine c.alloc t).regs q := by
    intro q x hx
    have hov : ¬ r.overlaps q = true := fun hov =>
      absurd (hx.symm.trans (hfree q hov)) (Option.some_ne_none x)
    have hne : q ≠ r := by
      rintro rfl
      exact hov (Reg.overlaps_refl q)
    rw [hmachine]
    simp [Machine.move, hne, hov]
  have hloaded : ((s.push (.load op r slot)).machine c.alloc t).regs r = m.cells v := by
    rw [hmachine]
    refine (if_pos rfl).trans (h.slots hslot fun hy hv => ?_)
    exact absurd hv (habsent hy)
  have hpush : Simulates c t m agenda (s.push (.load op r slot)) := by
    refine ⟨fun he j hj => ?_, fun {q x slot'} hx hd hslot' k e hk he j hj => ?_,
      fun hx hb _ => (hother hx).trans (h.regs hx hb (hage hx hb)), fun hslot' hclean => ?_,
      ?_, ?_⟩
    · rcases State.entry_push he with he | ⟨-, rfl⟩
      · exact h.stored he j hj
      · cases hj
    · rcases State.entry_push he with he | ⟨-, rfl⟩
      · exact h.quiet hx hd hslot' hk he j hj
      · -- The load is from the slot of another virtual register.
        obtain rfl : j = .load op r slot := by simpa [Entry.code] using hj
        rintro (hmem | ⟨u, hmem, -⟩)
        · obtain rfl : slot' = slot := by simpa [Inst.load] using hmem
          exact habsent hx (ha hslot' hslot)
        · simp [Inst.load] at hmem
    · rw [hmachine]
      exact h.slots hslot' hclean
    · rw [hmachine]
      exact h.agenda
    · rw [hmachine]
      exact h.seen
  refine hpush.hold (fun _ _ => hloaded) (fun hd => absurd hd Bool.false_ne_true) fun y hy => ?_
  exact absurd (hy.symm.trans (hfree r (Reg.overlaps_refl r))) (Option.some_ne_none y)

/-- **Every event before the place of an instruction** leaves the simulation as it is: the
values that it loads are in their slots. -/
theorem perform_early {made : VReg → Nat → Inst → Prop} (hc : c.target = .x64)
    (ha : SlotsApart c.alloc) (he : e.Early) (hco : Coherent c s) (hmid : Midway c made [] s)
    (h : Simulates c t m agenda s) (hp : Performed c s e s') : Simulates c t m agenda s' := by
  cases hp with
  | foldAway hr => exact h
  | foldAbsent hr hh => exact h
  | fold hr hh hev =>
    have hcount : Coherent c (s.count .foldEvictions) := hco.congr rfl rfl
    have hsim : Simulates c t m agenda (s.count .foldEvictions) := h.congr rfl rfl
    exact (hsim.of_evict hc ha hcount hev).1
  | readHeld hr hh => exact h.congr (State.table_reserve _ _) (State.out_reserve _ _)
  | @readLoaded v r u slot cls i hr hh hev hs hcls hi =>
    rw [hc] at hi
    obtain ⟨-, rfl⟩ := Target.x64_load_eq_ok_iff.1 hi
    have hemp := evict_empties hev
    have hage : ∀ {q : Reg} {x : Resident}, u.table.get? q = some x → Backed c x →
        x.since < u.out.size := by
      intro q x hx hb
      exact (hmid.of_evict hev).older hx hb
    have habsent : ∀ {q : Reg} {x : Resident}, u.table.get? q = some x → x.vreg ≠ v := by
      rintro q x hx rfl
      have hxs := (hemp.resident hx).2
      rw [← hco.get?_of_vreg hxs hr, Table.holds_of_get? hxs] at hh
      cases hh
    have hload := Simulates.load cls.moveOpcode ha (h.of_evict hc ha hco hev).1 hage hs habsent
      fun q hq => hemp.get?_of_gone hq
    exact hload.congr (State.table_reserve _ _) (State.out_reserve _ _)
  | @readFound v r u hr hh hev hs =>
    have hsim := (h.of_evict hc ha hco hev).1
    refine Simulates.congr ?_ (State.table_reserve _ _) (State.out_reserve _ _)
    refine hsim.hold (fun _ hk => absurd hk (Nat.lt_irrefl _)) nofun fun y hy => ?_
    exact absurd (hy.symm.trans (get?_of_evict hev)) nofun
  | modify hr hx => exact he.elim
  | redefine hr hh => exact he.elim
  | define hr hh hev => exact he.elim
  | overwrite hev => exact he.elim

end Simulates

end Residency

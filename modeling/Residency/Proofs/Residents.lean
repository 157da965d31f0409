import Residency.Proofs.Access

/-!
# What the table of residents can be trusted with

While a block is lowered the table of residents says which value a register holds. It is
right because of a few facts that every event keeps.

* At any time (`Residency.Coherent`): no two registers that overlap hold something, a value
  is in the register of its virtual register, and no instruction behind the one that put it
  there has overwritten the register.
* Behind the place of an instruction (`Residency.Midway`): every value that the instruction
  has written so far is still where it was put, and no value that it has not written is in a
  register that it has overwritten.
* Before the place of an instruction (`Residency.Reading`): the values that it has read so
  far are in their registers, and these cannot be evicted.

The second fact is what makes it right to store a value behind the instruction that put it
into its register, however long ago that was.
-/

namespace Residency

open Step

variable {c : Context} {id : Site} {s s' t : State}

/-! ### Facts that always hold -/

/-- A value that is also known by its slot, or will be: it is dirty, or its virtual register
has a slot. -/
def Backed (c : Context) (x : Resident) : Prop :=
  x.dirty = true ∨ ∃ slot, c.alloc.slot? x.vreg = .ok (some slot)

/-- What holds of the table of residents at any time. -/
structure Coherent (c : Context) (s : State) : Prop where
  /-- Registers that overlap do not both hold something. -/
  apart : ∀ {r q : Reg} {x y : Resident}, s.table.get? r = some x → s.table.get? q = some y →
    r.overlaps q = true → r = q
  /-- A value is in the register of its virtual register. -/
  placed : ∀ {r : Reg} {x : Resident}, s.table.get? r = some x →
    c.alloc.reg? x.vreg = .ok (some r)
  /-- A clean value that has a slot could be loaded from it. -/
  loaded : ∀ {r : Reg} {x : Resident} {slot : Slot}, s.table.get? r = some x →
    x.dirty = false → c.alloc.slot? x.vreg = .ok (some slot) →
    ∃ cls i, c.func.classOf x.vreg = .ok cls ∧ c.target.load slot r cls = .ok i
  /-- Behind the instruction that put a value there, none has overwritten its register. -/
  untouched : ∀ {r : Reg} {x : Resident}, s.table.get? r = some x → Backed c x →
    ∀ {k : Nat} {e : Entry}, x.since < k → s.out[k]? = some e → e.inst.overwrites r = false

/-- A load overwrites only the register that it is for. -/
def Target.LoadsOnly (target : Target) : Prop :=
  ∀ {slot : Slot} {r : Reg} {cls : RegClass} {i : Inst}, target.load slot r cls = .ok i →
    ∀ {q : Reg}, i.overwrites q = true → r.overlaps q = true

theorem Emptied.entry {gone : Reg → Bool} (h : Emptied gone s s') {k : Nat} {e : Entry}
    (he : s'.out[k]? = some e) : ∃ e', s.out[k]? = some e' ∧ e'.inst = e.inst := by
  have hk := h.inst k
  rw [he] at hk
  exact Option.map_eq_some_iff.1 hk.symm

theorem Emptied.entry' {gone : Reg → Bool} (h : Emptied gone s s') {k : Nat} {e : Entry}
    (he : s.out[k]? = some e) : ∃ e', s'.out[k]? = some e' ∧ e'.inst = e.inst := by
  have hk := h.inst k
  rw [he] at hk
  exact Option.map_eq_some_iff.1 hk

theorem Table.holds_of_get? {tab : Table} {r : Reg} {x : Resident} (h : tab.get? r = some x) :
    tab.holds r x.vreg = true :=
  Table.holds_iff.2 ⟨x, h, rfl⟩

theorem State.get?_hold_eq_some_iff {r q : Reg} {x y : Resident} :
    (s.hold r x).table.get? q = some y ↔ (q = r ∧ y = x) ∨ (q ≠ r ∧ s.table.get? q = some y) := by
  rw [State.hold, Table.get?_hold]
  by_cases hq : q = r
  · simp [hq, eq_comm]
  · simp [hq]

theorem State.get?_free_eq_some_iff {r q : Reg} {y : Resident} :
    (s.free r).table.get? q = some y ↔ q ≠ r ∧ s.table.get? q = some y := by
  rw [State.free, Table.get?_free]
  by_cases hq : q = r
  · simp [hq]
  · simp [hq]

theorem State.size_push {s : State} {i : Inst} : (s.push i).out.size = s.out.size + 1 :=
  Array.size_push _

/-- An entry of a lowered block that has grown was there before, or is the new one. -/
theorem State.entry_push {j : Inst} {k : Nat} {e : Entry} (h : (s.push j).out[k]? = some e) :
    s.out[k]? = some e ∨ k = s.out.size ∧ e = { inst := j } := by
  rw [State.push, Array.getElem?_push] at h
  split at h
  · rename_i hk
    exact Or.inr ⟨hk, (Option.some.inj h).symm⟩
  · exact Or.inl h

/-- An entry of a lowered block behind which a store may have come was there before. -/
theorem State.entry_store {pos k : Nat} {j : Inst} {e : Entry}
    (h : (s.store pos j).out[k]? = some e) :
    ∃ e' : Entry, s.out[k]? = some e' ∧ e'.inst = e.inst ∧
      ∀ i ∈ e.stores, i ∈ e'.stores ∨ i = j := by
  rw [State.store, Array.getElem?_modify] at h
  split at h
  · obtain ⟨e', he', rfl⟩ := Option.map_eq_some_iff.1 h
    refine ⟨e', he', rfl, fun i hi => ?_⟩
    rcases List.mem_append.1 hi with hi | hi
    · exact Or.inl hi
    · exact Or.inr (List.mem_singleton.1 hi)
  · exact ⟨e, h, rfl, fun _ hi => Or.inl hi⟩

theorem Entry.flatten_append {l l' : List Entry} :
    Entry.flatten (l ++ l') = Entry.flatten l ++ Entry.flatten l' := List.flatMap_append

theorem Entry.flatten_map_mk {l : List Inst} :
    Entry.flatten (l.map fun i => { inst := i }) = l := by
  simp [Entry.flatten, List.flatMap_map]

theorem State.table_reserve (s : State) (r : Reg) : (s.reserve r).table = s.table := by
  unfold State.reserve
  split <;> rfl

theorem State.out_reserve (s : State) (r : Reg) : (s.reserve r).out = s.out := by
  unfold State.reserve
  split <;> rfl

theorem State.mem_reserve {s : State} {r q : Reg} :
    q ∈ (s.reserve r).reserved ↔ q ∈ s.reserved ∨ q = r := by
  unfold State.reserve
  split
  · rename_i h
    refine ⟨Or.inl, ?_⟩
    rintro (hq | rfl)
    · exact hq
    · exact h
  · rw [List.mem_append, List.mem_singleton]

namespace Coherent

theorem start : Coherent c {} where
  apart h := nomatch h
  placed h := nomatch h
  loaded h := nomatch h
  untouched h := nomatch h

theorem congr (h : Coherent c s) (ht : s'.table = s.table) (ho : s'.out = s.out) :
    Coherent c s' where
  apart := by
    rw [ht]
    exact h.apart
  placed := by
    rw [ht]
    exact h.placed
  loaded := by
    rw [ht]
    exact h.loaded
  untouched := by
    rw [ht, ho]
    exact h.untouched

theorem of_emptied {gone : Reg → Bool} (h : Coherent c s) (he : Emptied gone s s') :
    Coherent c s' where
  apart hx hy := h.apart (he.resident hx).2 (he.resident hy).2
  placed hx := h.placed (he.resident hx).2
  loaded hx := h.loaded (he.resident hx).2
  untouched hx hb _ _ hk hentry := by
    obtain ⟨e', he', hinst⟩ := he.entry hentry
    rw [← hinst]
    exact h.untouched (he.resident hx).2 hb hk he'

theorem hold {r : Reg} {x : Resident} (h : Coherent c s)
    (hr : c.alloc.reg? x.vreg = .ok (some r))
    (hfree : ∀ q, q ≠ r → r.overlaps q = true → s.table.get? q = none)
    (hloaded : x.dirty = false → ∀ slot, c.alloc.slot? x.vreg = .ok (some slot) →
      ∃ cls i, c.func.classOf x.vreg = .ok cls ∧ c.target.load slot r cls = .ok i)
    (huntouched : Backed c x → ∀ (k : Nat) (e : Entry), x.since < k → s.out[k]? = some e →
      e.inst.overwrites r = false) :
    Coherent c (s.hold r x) := by
  refine ⟨fun hy hz hov => ?_, fun hy => ?_, fun hy hd hs => ?_, fun hy hb _ _ hk he => ?_⟩
  · rcases State.get?_hold_eq_some_iff.1 hy with ⟨rfl, -⟩ | ⟨hne, hy'⟩ <;>
      rcases State.get?_hold_eq_some_iff.1 hz with ⟨rfl, -⟩ | ⟨hne', hz'⟩
    · rfl
    · exact absurd (hz'.symm.trans (hfree _ hne' hov)) nofun
    · exact absurd (hy'.symm.trans (hfree _ hne ((Reg.overlaps_comm _ _).trans hov))) nofun
    · exact h.apart hy' hz' hov
  · rcases State.get?_hold_eq_some_iff.1 hy with ⟨rfl, rfl⟩ | ⟨-, hy'⟩
    · exact hr
    · exact h.placed hy'
  · rcases State.get?_hold_eq_some_iff.1 hy with ⟨rfl, rfl⟩ | ⟨-, hy'⟩
    · exact hloaded hd _ hs
    · exact h.loaded hy' hd hs
  · rcases State.get?_hold_eq_some_iff.1 hy with ⟨rfl, rfl⟩ | ⟨-, hy'⟩
    · exact huntouched hb _ _ hk he
    · exact h.untouched hy' hb hk he

theorem push {i : Inst} (h : Coherent c s)
    (hi : ∀ r x, s.table.get? r = some x → Backed c x → x.since < s.out.size →
      i.overwrites r = false) :
    Coherent c (s.push i) where
  apart hx hy := h.apart hx hy
  placed hx := h.placed hx
  loaded hx := h.loaded hx
  untouched hx hb k e hk he := by
    rcases State.entry_push he with he | ⟨rfl, rfl⟩
    · exact h.untouched hx hb hk he
    · exact hi _ _ hx hb hk

/-- Nothing but itself overlaps a register that holds something. -/
theorem get?_eq_none (h : Coherent c s) {r q : Reg} {x : Resident}
    (hx : s.table.get? r = some x) (hne : q ≠ r) (hov : r.overlaps q = true) :
    s.table.get? q = none := by
  cases hy : s.table.get? q with
  | none => rfl
  | some y => exact absurd (h.apart hx hy hov).symm hne

/-- A virtual register is in at most one register. -/
theorem get?_of_vreg (h : Coherent c s) {r q : Reg} {x : Resident}
    (hx : s.table.get? q = some x) (hr : c.alloc.reg? x.vreg = .ok (some r)) : q = r :=
  Allocation.reg_unique (h.placed hx) hr

end Coherent

/-- A value that is put into a register by the instruction at hand. -/
theorem Coherent.hold_dirty {r : Reg} {v : VReg} (h : Coherent c s)
    (hr : c.alloc.reg? v = .ok (some r))
    (hfree : ∀ q, q ≠ r → r.overlaps q = true → s.table.get? q = none) :
    Coherent c (s.hold r ⟨v, true, s.out.size⟩) := by
  refine h.hold hr hfree (fun hd => absurd hd nofun) fun _ k e hk he => ?_
  rw [Array.getElem?_eq_none (Nat.le_of_lt hk)] at he
  cases he

/-- **What holds of the table at any time is kept by every event.** -/
theorem Coherent.perform {e : Event} (hload : c.target.LoadsOnly) (h : Coherent c s)
    (hp : Performed c s e s') : Coherent c s' := by
  have hevict : ∀ {r s t}, Coherent c s → evict c r s = .ok () t → Coherent c t ∧
      ∀ q, r.overlaps q = true → t.table.get? q = none := fun h he =>
    ⟨h.of_emptied (evict_empties he), fun _ hq => (evict_empties he).get?_of_gone hq⟩
  cases hp with
  | foldAway hr => exact h
  | foldAbsent hr hh => exact h
  | fold hr hh he =>
    have hcount : Coherent c (s.count .foldEvictions) := h.congr rfl rfl
    exact (hevict hcount he).1
  | readHeld hr hh => exact h.congr (s.table_reserve _) (s.out_reserve _)
  | @readLoaded v r t slot cls i hr hh he hs hc hi =>
    obtain ⟨ht, hfree⟩ := hevict h he
    refine Coherent.congr ?_ (State.table_reserve _ _) (State.out_reserve _ _)
    have hpush : Coherent c (t.push i) := ht.push fun q x hx _ _ =>
      Bool.eq_false_iff.2 fun hov => absurd (hx.symm.trans (hfree q (hload hi hov))) nofun
    have hcount : Coherent c
        ((((t.request (.load v slot r)).log c.level (.loaded c.block v slot r)).push i).count
          .reloads) :=
      hpush.congr rfl rfl
    refine hcount.hold (x := ⟨v, false, t.out.size⟩) hr (fun q _ hq => hfree q hq)
      (fun _ slot' hs' => ?_) fun _ k e hk he' => ?_
    · obtain rfl := Allocation.slot_unique hs hs'
      exact ⟨cls, i, hc, hi⟩
    · have hsize : (t.push i).out.size ≤ k := by
        rw [State.push, Array.size_push]
        exact hk
      exact absurd ((Array.getElem?_eq_none hsize).symm.trans he') nofun
  | @readFound v r t hr hh he hs =>
    obtain ⟨ht, hfree⟩ := hevict h he
    refine Coherent.congr ?_ (State.table_reserve _ _) (State.out_reserve _ _)
    refine ht.hold hr (fun q _ hq => hfree q hq) (fun _ slot hs' => ?_) fun hb k e _ _ => ?_
    · exact absurd (hs.symm.trans hs') nofun
    · rcases hb with hb | ⟨slot, hs'⟩
      · cases hb
      · exact absurd (hs.symm.trans hs') nofun
  | modify hr hx => exact h.hold_dirty (h.placed hx) fun q hne hq => h.get?_eq_none hx hne hq
  | redefine hr hh =>
    obtain ⟨x, hx, rfl⟩ := Table.holds_iff.1 hh
    exact h.hold_dirty hr fun q hne hq => h.get?_eq_none hx hne hq
  | define hr hh he =>
    obtain ⟨ht, hfree⟩ := hevict h he
    exact ht.hold_dirty hr fun q _ hq => hfree q hq
  | overwrite he => exact (hevict h he).1

end Residency

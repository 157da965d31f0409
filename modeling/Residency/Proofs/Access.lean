import Residency.Proofs.Event

/-!
# What an instruction reads and writes

Two views of an instruction have to be brought together. Before it is lowered its operands
name virtual registers, which it reads (`Residency.Inst.Reads`) or writes
(`Residency.Inst.Writes`); once it is lowered it overwrites physical registers, by an
operand or besides (`Residency.Inst.overwrites`). Its events stand between the two:
`Residency.Event.mem_before_iff` and `Residency.Event.mem_after_iff` say which events an
instruction has, and every register that a lowered instruction overwrites is hit by an event
from behind its place (`Residency.Inst.exists_hits_of_overwrites`).
-/

namespace Residency

/-! ### Virtual registers -/

/-- An instruction reads a virtual register: as an operand, as one that it overwrites in
place, or as the base of an address. -/
def Inst.Reads (i : Inst) (v : VReg) : Prop :=
  ∃ o ∈ i.operands, ∃ m, o.read? = some (.virtual v, m)

/-- An instruction writes a virtual register by an operand. -/
def Inst.Writes (i : Inst) (v : VReg) : Prop :=
  .reg (.virtual v) .write ∈ i.operands ∨ .reg (.virtual v) .modify ∈ i.operands

/-- The virtual register that an operand writes. -/
def Operand.written? : Operand → Option VReg
  | .reg (.virtual v) .write => some v
  | .reg (.virtual v) .modify => some v
  | _ => none

theorem Operand.written?_eq_some_iff {o : Operand} {v : VReg} :
    o.written? = some v ↔ o = .reg (.virtual v) .write ∨ o = .reg (.virtual v) .modify := by
  constructor
  · intro h
    unfold Operand.written? at h
    split at h
    · exact Or.inl (Option.some.inj h ▸ rfl)
    · exact Or.inr (Option.some.inj h ▸ rfl)
    · cases h
  · rintro (rfl | rfl) <;> rfl

theorem Inst.writes_iff {i : Inst} {v : VReg} :
    i.Writes v ↔ ∃ o ∈ i.operands, o.written? = some v := by
  simp only [Inst.Writes, Operand.written?_eq_some_iff]
  constructor
  · rintro (ho | ho)
    · exact ⟨_, ho, Or.inl rfl⟩
    · exact ⟨_, ho, Or.inr rfl⟩
  · rintro ⟨o, ho, rfl | rfl⟩
    · exact Or.inl ho
    · exact Or.inr ho

/-- An instruction names a virtual register by an operand, or as the base of an address. -/
def Inst.Names (i : Inst) (v : VReg) : Prop := i.Reads v ∨ i.Writes v

theorem Inst.names_iff {i : Inst} {v : VReg} :
    i.Names v ↔ ∃ o ∈ i.operands, o.ref? = some (.virtual v) := by
  constructor
  · rintro (⟨o, ho, m, hm⟩ | ho | ho)
    · refine ⟨o, ho, ?_⟩
      unfold Operand.read? at hm
      split at hm <;> cases hm <;> rfl
    · exact ⟨_, ho, rfl⟩
    · exact ⟨_, ho, rfl⟩
  · rintro ⟨o, ho, hv⟩
    cases o with
    | reg ref access =>
      obtain rfl := Option.some.inj hv
      cases access with
      | read => exact Or.inl ⟨_, ho, false, rfl⟩
      | write => exact Or.inr (Or.inl ho)
      | modify => exact Or.inr (Or.inr ho)
    | base ref off =>
      obtain rfl := Option.some.inj hv
      exact Or.inl ⟨_, ho, false, rfl⟩
    | _ => cases hv

theorem Inst.reads_of_modify {i : Inst} {v : VReg}
    (h : .reg (.virtual v) .modify ∈ i.operands) : i.Reads v :=
  ⟨_, h, true, rfl⟩

/-! ### Physical registers -/

/-- The physical register that an operand writes. -/
def Operand.output? : Operand → Option Reg
  | .reg (.physical r) .write => some r
  | .reg (.physical r) .modify => some r
  | _ => none

/-- The physical registers that the operands of an instruction write. -/
def Inst.outputs (i : Inst) : List Reg := i.operands.filterMap Operand.output?

/-- Does an instruction overwrite a part of a register, by an operand or besides? -/
def Inst.overwrites (i : Inst) (r : Reg) : Bool :=
  (i.outputs ++ i.clobbers).any fun q => q.overlaps r

theorem Inst.overwrites_iff {i : Inst} {r : Reg} :
    i.overwrites r = true ↔ ∃ q, (q ∈ i.outputs ∨ q ∈ i.clobbers) ∧ q.overlaps r = true := by
  simp only [Inst.overwrites, List.any_eq_true, List.mem_append]

theorem Operand.output?_eq_some_iff {o : Operand} {r : Reg} :
    o.output? = some r ↔ o = .reg (.physical r) .write ∨ o = .reg (.physical r) .modify := by
  constructor
  · intro h
    unfold Operand.output? at h
    split at h
    · exact Or.inl (Option.some.inj h ▸ rfl)
    · exact Or.inr (Option.some.inj h ▸ rfl)
    · cases h
  · rintro (rfl | rfl) <;> rfl

/-! ### Events -/

namespace Event

/-- An event writes a virtual register. -/
def Writes (e : Event) (v : VReg) : Prop := e = .modify v ∨ e = .define v

/-- An event writes a part of a register. -/
def Hits (a : Allocation) (r : Reg) : Event → Prop
  | .fold _ => False
  | .read _ => False
  | .modify v => ∃ q, a.reg? v = .ok (some q) ∧ q.overlaps r = true
  | .define v => ∃ q, a.reg? v = .ok (some q) ∧ q.overlaps r = true
  | .overwrite q => q.overlaps r = true

/-- An event leaves alone the register that an earlier one has written a value to. -/
def Spares (a : Allocation) (e' e : Event) : Prop :=
  ∀ {v : VReg} {r q : Reg}, e.Writes v → a.reg? v = .ok (some r) → e' = .overwrite q →
    q.overlaps r = false

theorem Writes.hits {a : Allocation} {e : Event} {v : VReg} {q r : Reg} (h : e.Writes v)
    (hq : a.reg? v = .ok (some q)) (hr : q.overlaps r = true) : e.Hits a r := by
  rcases h with rfl | rfl <;> exact ⟨q, hq, hr⟩

theorem ofRead?_eq_some_iff {o : Operand} {e : Event} :
    ofRead? o = some e ↔ ∃ v m, e = .read v ∧ o.read? = some (.virtual v, m) := by
  unfold ofRead?
  split
  · rename_i v m h
    rw [h]
    constructor
    · rintro ⟨⟩
      exact ⟨v, m, rfl, rfl⟩
    · rintro ⟨v', m', rfl, h'⟩
      cases h'
      rfl
  · rename_i h
    refine iff_of_false nofun ?_
    rintro ⟨v, m, -, h'⟩
    exact h v m h'

theorem ofModify?_eq_some_iff {o : Operand} {e : Event} :
    ofModify? o = some e ↔ ∃ v, e = .modify v ∧ o = .reg (.virtual v) .modify := by
  constructor
  · intro h
    unfold ofModify? at h
    split at h
    · exact ⟨_, (Option.some.inj h).symm, rfl⟩
    · cases h
  · rintro ⟨v, rfl, rfl⟩
    rfl

theorem ofWrite?_eq_some_iff {o : Operand} {e : Event} :
    ofWrite? o = some e ↔ (∃ v, e = .define v ∧ o = .reg (.virtual v) .write) ∨
      ∃ r, e = .overwrite r ∧ o = .reg (.physical r) .write := by
  constructor
  · intro h
    unfold ofWrite? at h
    split at h
    · exact Or.inl ⟨_, (Option.some.inj h).symm, rfl⟩
    · exact Or.inr ⟨_, (Option.some.inj h).symm, rfl⟩
    · cases h
  · rintro (⟨v, rfl, rfl⟩ | ⟨r, rfl, rfl⟩) <;> rfl

theorem ofFixedModify?_eq_some_iff {o : Operand} {e : Event} :
    ofFixedModify? o = some e ↔ ∃ r, e = .overwrite r ∧ o = .reg (.physical r) .modify := by
  constructor
  · intro h
    unfold ofFixedModify? at h
    split at h
    · exact ⟨_, (Option.some.inj h).symm, rfl⟩
    · cases h
  · rintro ⟨r, rfl, rfl⟩
    rfl

/-- **The events before the place of an instruction**: its folds and its reads. -/
theorem mem_before_iff {a : Allocation} {id : Site} {i : Inst} {e : Event} :
    e ∈ before a id i ↔ (∃ v, e = .fold v ∧ v ∈ a.foldedInto id) ∨
      ∃ v, e = .read v ∧ i.Reads v := by
  unfold before Inst.Reads
  rw [List.mem_append, List.mem_map, List.mem_filterMap]
  refine or_congr ⟨?_, ?_⟩ ⟨?_, ?_⟩
  · rintro ⟨v, hv, rfl⟩
    exact ⟨v, rfl, hv⟩
  · rintro ⟨v, rfl, hv⟩
    exact ⟨v, hv, rfl⟩
  · rintro ⟨o, ho, he⟩
    obtain ⟨v, m, rfl, hm⟩ := ofRead?_eq_some_iff.1 he
    exact ⟨v, rfl, o, ho, m, hm⟩
  · rintro ⟨v, rfl, o, ho, m, hm⟩
    exact ⟨o, ho, ofRead?_eq_some_iff.2 ⟨v, m, rfl, hm⟩⟩

/-- The events behind the place of an instruction that are no changes in place: what it
overwrites besides, its writes, and the physical registers that it changes in place. -/
def writes (i : Inst) : List Event :=
  i.clobbers.map .overwrite ++ i.operands.filterMap ofWrite? ++
    i.operands.filterMap ofFixedModify?

theorem after_eq_append {i : Inst} :
    after i = i.operands.filterMap ofModify? ++ writes i := by
  simp [after, writes]

theorem mem_modifies_iff {i : Inst} {e : Event} :
    e ∈ i.operands.filterMap ofModify? ↔
      ∃ v, e = .modify v ∧ .reg (.virtual v) .modify ∈ i.operands := by
  rw [List.mem_filterMap]
  constructor
  · rintro ⟨o, ho, he⟩
    obtain ⟨v, rfl, rfl⟩ := ofModify?_eq_some_iff.1 he
    exact ⟨v, rfl, ho⟩
  · rintro ⟨v, rfl, ho⟩
    exact ⟨_, ho, rfl⟩

theorem mem_writes_iff {i : Inst} {e : Event} :
    e ∈ writes i ↔ (∃ v, e = .define v ∧ .reg (.virtual v) .write ∈ i.operands) ∨
      ∃ r, e = .overwrite r ∧ (r ∈ i.clobbers ∨ r ∈ i.outputs) := by
  unfold writes Inst.outputs
  simp only [List.mem_append, List.mem_map, List.mem_filterMap]
  constructor
  · rintro ((⟨r, hr, rfl⟩ | ⟨o, ho, he⟩) | ⟨o, ho, he⟩)
    · exact Or.inr ⟨r, rfl, Or.inl hr⟩
    · obtain ⟨v, rfl, rfl⟩ | ⟨r, rfl, rfl⟩ := ofWrite?_eq_some_iff.1 he
      · exact Or.inl ⟨v, rfl, ho⟩
      · exact Or.inr ⟨r, rfl, Or.inr ⟨_, ho, rfl⟩⟩
    · obtain ⟨r, rfl, rfl⟩ := ofFixedModify?_eq_some_iff.1 he
      exact Or.inr ⟨r, rfl, Or.inr ⟨_, ho, rfl⟩⟩
  · rintro (⟨v, rfl, ho⟩ | ⟨r, rfl, hr | ⟨o, ho, he⟩⟩)
    · exact Or.inl (Or.inr ⟨_, ho, rfl⟩)
    · exact Or.inl (Or.inl ⟨r, hr, rfl⟩)
    · rcases Operand.output?_eq_some_iff.1 he with rfl | rfl
      · exact Or.inl (Or.inr ⟨_, ho, rfl⟩)
      · exact Or.inr ⟨_, ho, rfl⟩

/-- **The events behind the place of an instruction**: the virtual registers that it changes
in place or writes, and the physical registers that it overwrites. -/
theorem mem_after_iff {i : Inst} {e : Event} :
    e ∈ after i ↔ (∃ v, e = .modify v ∧ .reg (.virtual v) .modify ∈ i.operands) ∨
      (∃ v, e = .define v ∧ .reg (.virtual v) .write ∈ i.operands) ∨
      ∃ r, e = .overwrite r ∧ (r ∈ i.clobbers ∨ r ∈ i.outputs) := by
  rw [after_eq_append, List.mem_append, mem_modifies_iff, mem_writes_iff]

/-- An instruction writes the virtual registers that an event behind its place writes. -/
theorem exists_mem_after_writes_iff {i : Inst} {v : VReg} :
    (∃ e ∈ after i, e.Writes v) ↔ i.Writes v := by
  constructor
  · rintro ⟨e, he, rfl | rfl⟩
    · obtain ⟨u, hu, ho⟩ | ⟨u, hu, -⟩ | ⟨r, hr, -⟩ := mem_after_iff.1 he
      · cases hu
        exact Or.inr ho
      · cases hu
      · cases hr
    · obtain ⟨u, hu, -⟩ | ⟨u, hu, ho⟩ | ⟨r, hr, -⟩ := mem_after_iff.1 he
      · cases hu
      · cases hu
        exact Or.inl ho
      · cases hr
  · rintro (ho | ho)
    · exact ⟨.define v, mem_after_iff.2 (Or.inr (Or.inl ⟨v, rfl, ho⟩)), Or.inr rfl⟩
    · exact ⟨.modify v, mem_after_iff.2 (Or.inl ⟨v, rfl, ho⟩), Or.inl rfl⟩

end Event

/-! ### Lowered instructions -/

namespace Allocation

variable {a : Allocation} {v : VReg} {r : Reg}

theorem reg?_eq_ok_iff {o : Option Reg} :
    a.reg? v = .ok o ↔ ∃ p, a.placements[v.index]? = some p ∧ p.reg = o := by
  simp only [reg?, map_eq_ok_iff, entry_eq_ok_iff]

theorem slot?_eq_ok_iff {o : Option Slot} :
    a.slot? v = .ok o ↔ ∃ p, a.placements[v.index]? = some p ∧ p.slot = o := by
  simp only [slot?, map_eq_ok_iff, entry_eq_ok_iff]

/-- A virtual register has at most one register. -/
theorem reg_unique {q : Reg} (hr : a.reg? v = .ok (some r)) (hq : a.reg? v = .ok (some q)) :
    r = q :=
  Option.some.inj (Except.ok.inj (hr.symm.trans hq))

/-- A virtual register has at most one slot. -/
theorem slot_unique {s t : Slot} (hs : a.slot? v = .ok (some s))
    (ht : a.slot? v = .ok (some t)) : s = t :=
  Option.some.inj (Except.ok.inj (hs.symm.trans ht))

/-- A virtual register gives way to its register, if it has one. -/
theorem substitute_virtual_eq_iff :
    a.substitute (.virtual v) = .physical r ↔ a.reg? v = .ok (some r) := by
  rw [reg?_eq_ok_iff]
  cases hp : a.placements[v.index]? with
  | none => simp [substitute, hp]
  | some p =>
    obtain ⟨_ | q, slot⟩ := p <;> simp [substitute, hp]

end Allocation

/-- What a lowered operand writes is what it wrote before, or the register of the virtual
register that it wrote. -/
theorem Operand.output?_lowered_iff {a : Allocation} {o : Operand} {r : Reg} :
    (o.mapRef a.substitute).output? = some r ↔
      o.output? = some r ∨ ∃ v, o.written? = some v ∧ a.reg? v = .ok (some r) := by
  cases o with
  | reg ref access =>
    cases ref with
    | physical q =>
      have hw : (Operand.reg (.physical q) access).written? = none := by cases access <;> rfl
      simp [hw, Operand.mapRef, Allocation.substitute]
    | virtual v =>
      have ho : (Operand.reg (.virtual v) access).output? = none := by cases access <;> rfl
      rw [Operand.output?_eq_some_iff, ho, Operand.mapRef]
      cases access <;> simp [Operand.written?, Allocation.substitute_virtual_eq_iff]
  | _ => simp [Operand.mapRef, Operand.output?, Operand.written?]

namespace Inst

variable {a : Allocation} {i : Inst} {r : Reg}

/-- **What a lowered instruction writes by its operands**: the physical registers that they
named before, and the registers of the virtual registers that it writes. -/
theorem mem_outputs_lowered_iff :
    r ∈ (i.mapRefs a.substitute).outputs ↔
      r ∈ i.outputs ∨ ∃ v, i.Writes v ∧ a.reg? v = .ok (some r) := by
  simp only [outputs, mapRefs, List.mem_filterMap, List.mem_map, writes_iff,
    exists_exists_and_eq_and, Operand.output?_lowered_iff]
  constructor
  · rintro ⟨o, ho, hr | ⟨v, hv, hr⟩⟩
    · exact Or.inl ⟨o, ho, hr⟩
    · exact Or.inr ⟨v, ⟨o, ho, hv⟩, hr⟩
  · rintro (⟨o, ho, hr⟩ | ⟨v, ⟨o, ho, hv⟩, hr⟩)
    · exact ⟨o, ho, Or.inl hr⟩
    · exact ⟨o, ho, Or.inr ⟨v, hv, hr⟩⟩

/-- **Every register that a lowered instruction overwrites is hit by one of its events.** -/
theorem exists_hits_of_overwrites (h : (i.mapRefs a.substitute).overwrites r = true) :
    ∃ e ∈ Event.after i, e.Hits a r := by
  obtain ⟨q, hq | hq, hr⟩ := overwrites_iff.1 h
  · rcases mem_outputs_lowered_iff.1 hq with hq | ⟨v, hv, hq⟩
    · exact ⟨.overwrite q,
        Event.mem_after_iff.2 (Or.inr (Or.inr ⟨q, rfl, Or.inr hq⟩)), hr⟩
    · obtain ⟨e, he, hw⟩ := Event.exists_mem_after_writes_iff.2 hv
      exact ⟨e, he, hw.hits hq hr⟩
  · exact ⟨.overwrite q,
      Event.mem_after_iff.2 (Or.inr (Or.inr ⟨q, rfl, Or.inl hq⟩)), hr⟩

/-- An instruction overwrites, once it is lowered, every register that one of its events hits. -/
theorem overwrites_of_hits {e : Event} (he : e ∈ Event.after i) (hh : e.Hits a r) :
    (i.mapRefs a.substitute).overwrites r = true := by
  rw [overwrites_iff]
  obtain ⟨v, rfl, ho⟩ | ⟨v, rfl, ho⟩ | ⟨q, rfl, hq⟩ := Event.mem_after_iff.1 he
  · obtain ⟨q, hq, hov⟩ := hh
    exact ⟨q, Or.inl (mem_outputs_lowered_iff.2 (Or.inr ⟨v, Or.inr ho, hq⟩)), hov⟩
  · obtain ⟨q, hq, hov⟩ := hh
    exact ⟨q, Or.inl (mem_outputs_lowered_iff.2 (Or.inr ⟨v, Or.inl ho, hq⟩)), hov⟩
  · rcases hq with hq | hq
    · exact ⟨q, Or.inr hq, hh⟩
    · exact ⟨q, Or.inl (mem_outputs_lowered_iff.2 (Or.inl hq)), hh⟩

end Inst

/-! ### Registers that the events of an instruction spare -/

/-- An event that writes no virtual register leaves nothing to be spared. -/
theorem Event.spares_overwrite {a : Allocation} {e : Event} {r : Reg} :
    e.Spares a (.overwrite r) := by
  rintro v q p (h | h) <;> cases h

theorem Inst.mem_outputs_of_write {i : Inst} {r : Reg}
    (h : .reg (.physical r) .write ∈ i.operands) : r ∈ i.outputs :=
  List.mem_filterMap.2 ⟨_, h, rfl⟩

/-- The writes among the operands spare each other when a physical register that is written
does not overlap the register of an earlier one. -/
theorem Event.pairwise_ofWrite?_iff {a : Allocation} {os : List Operand} :
    (os.filterMap Event.ofWrite?).Pairwise (fun e e' => e'.Spares a e) ↔
      os.Pairwise fun o o' => ∀ {v : VReg} {r q : Reg},
        o = .reg (.virtual v) .write → a.reg? v = .ok (some r) →
        o' = .reg (.physical q) .write → q.overlaps r = false := by
  rw [List.pairwise_filterMap]
  constructor
  · intro h
    refine h.imp fun {o o'} hoo v r q ho hr ho' => ?_
    exact hoo (.define v) (by rw [ho]; rfl) (.overwrite q) (by rw [ho']; rfl) (Or.inr rfl) hr rfl
  · intro h
    refine h.imp fun {o o'} hoo e he e' he' v r q hw hr hover => ?_
    subst hover
    obtain ⟨u, rfl, ho⟩ | ⟨p, rfl, -⟩ := Event.ofWrite?_eq_some_iff.1 he
    · obtain rfl : u = v := by rcases hw with hw | hw <;> cases hw; rfl
      obtain ⟨w, hw', -⟩ | ⟨p, hp, ho'⟩ := Event.ofWrite?_eq_some_iff.1 he'
      · cases hw'
      · cases hp
        exact hoo ho hr ho'
    · rcases hw with hw | hw <;> cases hw

/-- **No event behind the place of an instruction hits what an earlier one wrote**: said of
events, and said of operands. -/
theorem Event.pairwise_spares_iff {a : Allocation} {i : Inst} :
    (Event.after i).Pairwise (fun e e' => e'.Spares a e) ↔
      (∀ {v : VReg} {r q : Reg}, .reg (.virtual v) .modify ∈ i.operands →
        a.reg? v = .ok (some r) → q ∈ i.clobbers ∨ .reg (.physical q) .write ∈ i.operands →
        q.overlaps r = false) ∧
      (∀ {v : VReg} {r q : Reg}, i.Writes v → a.reg? v = .ok (some r) →
        .reg (.physical q) .modify ∈ i.operands → q.overlaps r = false) ∧
      i.operands.Pairwise fun o o' => ∀ {v : VReg} {r q : Reg},
        o = .reg (.virtual v) .write → a.reg? v = .ok (some r) →
        o' = .reg (.physical q) .write → q.overlaps r = false := by
  rw [Event.after_eq_append, Event.writes, List.pairwise_append, List.pairwise_append,
    List.pairwise_append, ← Event.pairwise_ofWrite?_iff]
  constructor
  · rintro ⟨-, ⟨⟨-, hwrites, -⟩, -, hfixed⟩, hmodify⟩
    refine ⟨fun {v r q} ho hr hq => ?_, fun {v r q} hv hr hq => ?_, hwrites⟩
    · refine hmodify _ (Event.mem_modifies_iff.2 ⟨v, rfl, ho⟩) (.overwrite q)
        (Event.mem_writes_iff.2 (Or.inr ⟨q, rfl, ?_⟩)) (Or.inl rfl) hr rfl
      exact hq.imp_right Inst.mem_outputs_of_write
    · have hover : .overwrite q ∈ i.operands.filterMap Event.ofFixedModify? :=
        List.mem_filterMap.2 ⟨_, hq, rfl⟩
      rcases hv with hv | hv
      · exact hfixed (.define v) (List.mem_append_right _ (List.mem_filterMap.2 ⟨_, hv, rfl⟩)) _
          hover (Or.inr rfl) hr rfl
      · exact hmodify (.modify v) (Event.mem_modifies_iff.2 ⟨v, rfl, hv⟩) _
          (List.mem_append_right _ hover) (Or.inl rfl) hr rfl
  · rintro ⟨hmodify, hfixed, hwrites⟩
    have hclobber : ∀ e ∈ i.clobbers.map Event.overwrite, ∀ e' : Event, e'.Spares a e := by
      intro e he e'
      obtain ⟨r, -, rfl⟩ := List.mem_map.1 he
      exact Event.spares_overwrite
    refine ⟨?_, ⟨⟨?_, hwrites, fun e he e' _ => hclobber e he e'⟩, ?_, ?_⟩, ?_⟩
    · refine List.pairwise_of_forall_mem_list fun e _ e' he' v r q _ _ hover => ?_
      obtain ⟨u, rfl, -⟩ := Event.mem_modifies_iff.1 he'
      cases hover
    · exact List.pairwise_of_forall_mem_list fun e he e' _ => hclobber e he e'
    · refine List.pairwise_of_forall_mem_list fun e he e' _ => ?_
      obtain ⟨o, -, ho⟩ := List.mem_filterMap.1 he
      obtain ⟨r, rfl, -⟩ := Event.ofFixedModify?_eq_some_iff.1 ho
      exact Event.spares_overwrite
    · intro e he e' he' v r q hw hr hover
      rcases List.mem_append.1 he with he | he
      · exact hclobber e he e' hw hr hover
      · have hv : i.Writes v := Event.exists_mem_after_writes_iff.1
          ⟨e, by simp [Event.after_eq_append, Event.writes, he], hw⟩
        obtain ⟨o, ho, hoo⟩ := List.mem_filterMap.1 he'
        obtain ⟨p, rfl, rfl⟩ := Event.ofFixedModify?_eq_some_iff.1 hoo
        cases hover
        exact hfixed hv hr ho
    · intro e he e' he' v r q hw hr hover
      subst hover
      obtain ⟨u, rfl, ho⟩ := Event.mem_modifies_iff.1 he
      obtain rfl : u = v := by rcases hw with hw | hw <;> cases hw; rfl
      obtain ⟨w, hw', -⟩ | ⟨p, hp, hq⟩ := Event.mem_writes_iff.1 he'
      · cases hw'
      · cases hp
        rcases hq with hq | hq
        · exact hmodify ho hr (Or.inl hq)
        · obtain ⟨o', ho', hq'⟩ := List.mem_filterMap.1 hq
          rcases Operand.output?_eq_some_iff.1 hq' with rfl | rfl
          · exact hmodify ho hr (Or.inr ho')
          · exact hfixed (Or.inr ho) hr ho'

end Residency

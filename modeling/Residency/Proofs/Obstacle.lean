import Residency.Proofs.Event

/-!
# What stands in the way

A step of a lowering that fails says why. The eviction of what a register holds can fail for
six reasons (`Residency.Stuck`), and none of them is made by the registers that were emptied
before it: an eviction of a register and its aliases fails for one that was there when it began
(`Residency.stuck_of_evict`).

An event of an instruction fails because an eviction does, because something about its virtual
register is not known, because the target refuses a load, or because a register that must hold a
value holds none (`Residency.Obstacle`, `Residency.obstacle_of_perform`). This is the other half
of `Residency.Performed`: together they say everything that an event can do. The assertions that
guard a load and a store are not among the reasons, since nothing gets as far as they.
-/

namespace Residency

open Step

variable {c : Context} {id : Site} {r : Reg} {v : VReg} {s s' t : State} {x : Resident}
  {e : Failure}

/-! ### Evictions -/

/-- Why what a register holds cannot be taken out of it. -/
inductive Stuck (c : Context) (r : Reg) (s : State) : Failure → Prop
  /-- It is still to be read. -/
  | reserved {x : Resident} (hx : s.table.get? r = some x) (hr : r ∈ s.reserved) :
      Stuck c r s (.fault (.readWouldBeLost c.block s.out.size r x.vreg))
  /-- It is dirty, and its virtual register has no placement. -/
  | unknown {x : Resident} {f : Fault} (hx : s.table.get? r = some x) (hd : x.dirty = true)
      (hs : c.alloc.slot? x.vreg = .error f) : Stuck c r s (.fault f)
  /-- It is dirty and has no slot. -/
  | slotless {x : Resident} (hx : s.table.get? r = some x) (hd : x.dirty = true)
      (hs : c.alloc.slot? x.vreg = .ok none) :
      Stuck c r s (.fault (.slotless c.block x.vreg r))
  /-- It is dirty, and the instruction that made it is not in its place yet. -/
  | early {x : Resident} {slot : Slot} (hx : s.table.get? r = some x) (hd : x.dirty = true)
      (hs : c.alloc.slot? x.vreg = .ok (some slot)) (hb : s.out.size ≤ x.since) :
      Stuck c r s (.fault (.writtenTwice c.block x.since r x.vreg))
  /-- It is dirty, and its virtual register has no class. -/
  | classless {x : Resident} {slot : Slot} {f : Fault} (hx : s.table.get? r = some x)
      (hd : x.dirty = true) (hs : c.alloc.slot? x.vreg = .ok (some slot))
      (hb : x.since < s.out.size) (hc : c.func.classOf x.vreg = .error f) : Stuck c r s (.fault f)
  /-- It is dirty, and the target has no store for it. -/
  | refused {x : Resident} {slot : Slot} {cls : RegClass} {e : LoweringError}
      (hx : s.table.get? r = some x) (hd : x.dirty = true)
      (hs : c.alloc.slot? x.vreg = .ok (some slot)) (hb : x.since < s.out.size)
      (hc : c.func.classOf x.vreg = .ok cls) (hi : c.target.store r slot cls = .error e) :
      Stuck c r s (.error e)

theorem stuck_of_storeDirty (hx : s.table.get? r = some x) (hd : x.dirty = true)
    (h : storeDirty c r x s = .error e s') :
    Stuck c r s e ∧ ∃ asked, s' = { s with asked := asked } := by
  unfold storeDirty at h
  rcases bind_eq_error_iff.1 h with h | ⟨o, t, hknown, h⟩
  · obtain ⟨f, hf, rfl, rfl⟩ := known_eq_error_iff.1 h
    exact ⟨.unknown hx hd hf, _, rfl⟩
  obtain ⟨ho, rfl⟩ := known_eq_ok_iff.1 hknown
  cases o with
  | none =>
    obtain ⟨rfl, rfl⟩ := fault_eq_error_iff.1 h
    exact ⟨.slotless hx hd ho, _, rfl⟩
  | some slot =>
    rcases bind_eq_error_iff.1 h with h | ⟨t, t', hget, h⟩
    · cases h
    obtain ⟨rfl, rfl⟩ := get_eq_ok_iff.1 hget
    by_cases hb : s.out.size ≤ x.since
    · rw [if_pos hb] at h
      obtain ⟨rfl, rfl⟩ := fault_eq_error_iff.1 h
      exact ⟨.early hx hd ho hb, _, rfl⟩
    rw [if_neg hb] at h
    have hlt : x.since < s.out.size := Nat.lt_of_not_le hb
    rcases bind_eq_error_iff.1 h with h | ⟨cls, t, hknown, h⟩
    · obtain ⟨f, hf, rfl, rfl⟩ := known_eq_error_iff.1 h
      exact ⟨.classless hx hd ho hlt hf, _, rfl⟩
    obtain ⟨hcls, rfl⟩ := known_eq_ok_iff.1 hknown
    rcases bind_eq_error_iff.1 h with h | ⟨i, t, hask, h⟩
    · obtain ⟨f, hf, rfl, rfl⟩ := ask_eq_error_iff.1 h
      exact ⟨.refused hx hd ho hlt hcls hf, _, rfl⟩
    obtain ⟨-, rfl⟩ := ask_eq_ok_iff.1 hask
    -- The instruction that the value is as old as has its place, so the store finds it.
    rcases bind_eq_error_iff.1 h with h | ⟨_, t, hlog, h⟩
    · cases h
    obtain rfl := modify_eq_ok_iff.1 hlog
    rcases bind_eq_error_iff.1 h with h | ⟨_, t, hget, h⟩
    · cases h
    obtain ⟨rfl, rfl⟩ := get_eq_ok_iff.1 hget
    have hentry : entry s.out x.since = .ok _ :=
      entry_eq_ok_iff.2 (Array.getElem?_eq_getElem hlt)
    rcases bind_eq_error_iff.1 h with h | ⟨_, t, -, h⟩
    · obtain ⟨f, hf, -⟩ := known_eq_error_iff.1 h
      cases hentry.symm.trans hf
    · cases h

/-- What stands in the way of emptying a register leaves everything as it is, but for what was asked
of the target. -/
theorem stuck_of_vacate (h : vacate c r s = .error e s') :
    Stuck c r s e ∧ ∃ asked, s' = { s with asked := asked } := by
  unfold vacate at h
  rcases bind_eq_error_iff.1 h with h | ⟨t, t', hget, h⟩
  · cases h
  obtain ⟨rfl, rfl⟩ := get_eq_ok_iff.1 hget
  cases hx : s.table.get? r with
  | none =>
    rw [hx] at h
    cases h
  | some x =>
    rw [hx] at h
    by_cases hr : r ∈ s.reserved
    · simp only [if_pos hr] at h
      obtain ⟨rfl, rfl⟩ := fault_eq_error_iff.1 h
      exact ⟨.reserved hx hr, _, rfl⟩
    simp only [if_neg hr] at h
    cases hd : x.dirty with
    | true =>
      simp only [hd, if_true] at h
      rcases bind_eq_error_iff.1 h with h | ⟨_, t, -, h⟩
      · exact stuck_of_storeDirty hx hd h
      · cases h
    | false =>
      simp only [hd, Bool.false_eq_true, if_false] at h
      rcases bind_eq_error_iff.1 h with h | ⟨_, t, -, h⟩
      · cases h
      · cases h

/-- What stands in the way after some registers are emptied stood there before. -/
theorem Stuck.of_emptied {gone : Reg → Bool} (hemp : Emptied gone s t) (h : Stuck c r t e) :
    Stuck c r s e := by
  cases h with
  | reserved hx hr =>
    rw [hemp.size]
    exact .reserved (hemp.resident hx).2 (hemp.reserved ▸ hr)
  | unknown hx hd hs => exact .unknown (hemp.resident hx).2 hd hs
  | slotless hx hd hs => exact .slotless (hemp.resident hx).2 hd hs
  | early hx hd hs hb => exact .early (hemp.resident hx).2 hd hs (hemp.size ▸ hb)
  | classless hx hd hs hb hc =>
    exact .classless (hemp.resident hx).2 hd hs (hemp.size ▸ hb) hc
  | refused hx hd hs hb hc hi =>
    exact .refused (hemp.resident hx).2 hd hs (hemp.size ▸ hb) hc hi

theorem stuck_of_vacates {l : List Reg} (h : (l.forM (vacate c)) s = .error e s') :
    ∃ q ∈ l, Stuck c q s e := by
  obtain ⟨done, q, rest, t, rfl, hdone, hq⟩ := exists_of_forM_eq_error h
  exact ⟨q, by simp, (stuck_of_vacate hq).1.of_emptied (vacates_empties hdone)⟩

/-- **An eviction fails** because of a register that overlaps the evicted one. -/
theorem stuck_of_evict (h : evict c r s = .error e s') :
    ∃ q, r.overlaps q = true ∧ Stuck c q s e := by
  obtain ⟨q, hq, hstuck⟩ := stuck_of_vacates (evict_eq_forM ▸ h)
  exact ⟨q, Reg.mem_cons_aliases.1 hq, hstuck⟩

/-! ### Events -/

/-- An event needs a register to be evicted. -/
inductive Event.Evicts (c : Context) (s : State) (r : Reg) : Event → Prop
  /-- A folded value leaves its register. -/
  | fold {v : VReg} (hr : c.alloc.reg? v = .ok (some r)) (hh : s.table.holds r v = true) :
      Evicts c s r (.fold v)
  /-- A value that is read takes its register. -/
  | read {v : VReg} (hr : c.alloc.reg? v = .ok (some r)) (hh : s.table.holds r v = false) :
      Evicts c s r (.read v)
  /-- A value that is written takes its register. -/
  | define {v : VReg} (hr : c.alloc.reg? v = .ok (some r)) (hh : s.table.holds r v = false) :
      Evicts c s r (.define v)
  /-- A physical register is overwritten. -/
  | overwrite : Evicts c s r (.overwrite r)

/-- An event is about a virtual register. -/
inductive Event.About (v : VReg) : Event → Prop
  /-- It is used in its slot. -/
  | fold : About v (.fold v)
  /-- It is read. -/
  | read : About v (.read v)
  /-- It is overwritten in place. -/
  | modify : About v (.modify v)
  /-- It is written. -/
  | define : About v (.define v)

/-- Why an event cannot be carried out. -/
inductive Obstacle (c : Context) (id : Site) (s : State) : Event → Failure → Prop
  /-- Its virtual register has no placement, or no class. -/
  | unknown {ev : Event} {v : VReg} {f : Fault} (hv : ev.About v)
      (hf : c.alloc.reg? v = .error f ∨ c.alloc.slot? v = .error f ∨ c.func.classOf v = .error f) :
      Obstacle c id s ev (.fault f)
  /-- Its virtual register is an operand and has no register. -/
  | unassigned {ev : Event} {v : VReg} (hv : ev.About v) (hfold : ev ≠ .fold v)
      (hr : c.alloc.reg? v = .ok none) : Obstacle c id s ev (.fault (.unassigned id v))
  /-- A register that it needs cannot be emptied. -/
  | stuck {ev : Event} {r q : Reg} {e : Failure} (hev : ev.Evicts c s r)
      (hq : r.overlaps q = true) (h : Stuck c q s e) : Obstacle c id s ev e
  /-- The value is not in its register, and the target has no load for it. -/
  | refused {v : VReg} {r : Reg} {slot : Slot} {cls : RegClass} {e : LoweringError}
      (hr : c.alloc.reg? v = .ok (some r)) (hh : s.table.holds r v = false)
      (hs : c.alloc.slot? v = .ok (some slot)) (hc : c.func.classOf v = .ok cls)
      (hi : c.target.load slot r cls = .error e) : Obstacle c id s (.read v) (.error e)
  /-- A value is to be changed in place, and its register is free. -/
  | free {v : VReg} {r : Reg} (hr : c.alloc.reg? v = .ok (some r))
      (hx : s.table.get? r = none) : Obstacle c id s (.modify v) (.fault (.registerFree r))

theorem Obstacle.of_assigned {ev : Event} (hv : ev.About v) (hfold : ev ≠ .fold v)
    (h : assigned c id v s = .error e s') : Obstacle c id t ev e := by
  unfold assigned at h
  rcases bind_eq_error_iff.1 h with h | ⟨o, u, hknown, h⟩
  · obtain ⟨f, hf, rfl, -⟩ := known_eq_error_iff.1 h
    exact .unknown hv (Or.inl hf)
  obtain ⟨ho, rfl⟩ := known_eq_ok_iff.1 hknown
  cases o with
  | none =>
    obtain ⟨rfl, -⟩ := fault_eq_error_iff.1 h
    exact .unassigned hv hfold ho
  | some q => cases h

theorem Obstacle.of_evict {ev : Event} (hev : ev.Evicts c s r)
    (h : evict c r s = .error e s') : Obstacle c id s ev e := by
  obtain ⟨q, hq, hstuck⟩ := stuck_of_evict h
  exact .stuck hev hq hstuck

theorem Obstacle.of_load (hr : c.alloc.reg? v = .ok (some r))
    (hh : s.table.holds r v = false) (h : load c r v s = .error e s') :
    Obstacle c id s (.read v) e := by
  unfold load at h
  rcases bind_eq_error_iff.1 h with h | ⟨t, t', hget, h⟩
  · cases h
  obtain ⟨rfl, rfl⟩ := get_eq_ok_iff.1 hget
  simp only [hh, Bool.false_eq_true, if_false] at h
  rcases bind_eq_error_iff.1 h with h | ⟨_, t, -, h⟩
  · exact .of_evict (.read hr hh) h
  rcases bind_eq_error_iff.1 h with h | ⟨o, u, hknown, h⟩
  · obtain ⟨f, hf, rfl, -⟩ := known_eq_error_iff.1 h
    exact .unknown .read (Or.inr (Or.inl hf))
  obtain ⟨hslot, rfl⟩ := known_eq_ok_iff.1 hknown
  cases o with
  | none => cases h
  | some slot =>
    rcases bind_eq_error_iff.1 h with h | ⟨cls, u, hknown, h⟩
    · obtain ⟨f, hf, rfl, -⟩ := known_eq_error_iff.1 h
      exact .unknown .read (Or.inr (Or.inr hf))
    obtain ⟨hcls, rfl⟩ := known_eq_ok_iff.1 hknown
    rcases bind_eq_error_iff.1 h with h | ⟨i, u, -, h⟩
    · obtain ⟨f, hf, rfl, -⟩ := ask_eq_error_iff.1 h
      exact .refused hr hh hslot hcls hf
    · cases h

theorem Obstacle.of_touchFolded (h : touchFolded c v s = .error e s') :
    Obstacle c id s (.fold v) e := by
  unfold touchFolded at h
  rcases bind_eq_error_iff.1 h with h | ⟨o, t, hknown, h⟩
  · obtain ⟨f, hf, rfl, -⟩ := known_eq_error_iff.1 h
    exact .unknown .fold (Or.inl hf)
  obtain ⟨hr, rfl⟩ := known_eq_ok_iff.1 hknown
  cases o with
  | none => cases h
  | some r =>
    rcases bind_eq_error_iff.1 h with h | ⟨t, t', hget, h⟩
    · cases h
    obtain ⟨rfl, rfl⟩ := get_eq_ok_iff.1 hget
    cases hh : s.table.holds r v with
    | false =>
      simp only [hh, Bool.false_eq_true, if_false] at h
      cases h
    | true =>
      simp only [hh, if_true] at h
      rcases bind_eq_error_iff.1 h with h | ⟨_, t, hcount, h⟩
      · cases h
      obtain rfl := modify_eq_ok_iff.1 hcount
      obtain ⟨q, hq, hstuck⟩ := stuck_of_evict h
      have hcount : Emptied (fun _ => false) s (s.count .foldEvictions) :=
        ⟨fun q => by simp [State.count], rfl, rfl, fun _ => rfl⟩
      exact .stuck (.fold hr hh) hq (hstuck.of_emptied hcount)

theorem Obstacle.of_touchRead (h : touchRead c id v s = .error e s') :
    Obstacle c id s (.read v) e := by
  unfold touchRead at h
  rcases bind_eq_error_iff.1 h with h | ⟨r, t, hassigned, h⟩
  · exact .of_assigned .read nofun h
  obtain ⟨hr, rfl⟩ := assigned_eq_ok_iff.1 hassigned
  rcases bind_eq_error_iff.1 h with h | ⟨t, t', hget, h⟩
  · cases h
  obtain ⟨rfl, rfl⟩ := get_eq_ok_iff.1 hget
  cases hh : s.table.holds r v with
  | true =>
    simp only [hh, Bool.not_true, Bool.false_eq_true, if_false] at h
    cases h
  | false =>
    simp only [hh, Bool.not_false, if_true] at h
    rcases bind_eq_error_iff.1 h with h | ⟨_, t, -, h⟩
    · exact .of_load hr hh h
    · cases h

theorem Obstacle.of_touchModified (h : touchModified c id v s = .error e s') :
    Obstacle c id s (.modify v) e := by
  unfold touchModified at h
  rcases bind_eq_error_iff.1 h with h | ⟨r, t, hassigned, h⟩
  · exact .of_assigned .modify nofun h
  obtain ⟨hr, rfl⟩ := assigned_eq_ok_iff.1 hassigned
  rcases bind_eq_error_iff.1 h with h | ⟨t, t', hget, h⟩
  · cases h
  obtain ⟨rfl, rfl⟩ := get_eq_ok_iff.1 hget
  cases hx : s.table.get? r with
  | none =>
    simp only [hx] at h
    obtain ⟨rfl, -⟩ := fault_eq_error_iff.1 h
    exact .free hr hx
  | some x =>
    simp only [hx] at h
    cases h

theorem Obstacle.of_touchDefined (h : touchDefined c id v s = .error e s') :
    Obstacle c id s (.define v) e := by
  unfold touchDefined at h
  rcases bind_eq_error_iff.1 h with h | ⟨r, t, hassigned, h⟩
  · exact .of_assigned .define nofun h
  obtain ⟨hr, rfl⟩ := assigned_eq_ok_iff.1 hassigned
  rcases bind_eq_error_iff.1 h with h | ⟨t, t', hget, h⟩
  · cases h
  obtain ⟨rfl, rfl⟩ := get_eq_ok_iff.1 hget
  cases hh : s.table.holds r v with
  | true =>
    simp only [hh, Bool.not_true, Bool.false_eq_true, if_false] at h
    cases h
  | false =>
    simp only [hh, Bool.not_false, if_true] at h
    rcases bind_eq_error_iff.1 h with h | ⟨_, t, -, h⟩
    · exact .of_evict (.define hr hh) h
    · cases h

/-- **An event fails because of an obstacle**, and of no other kind. -/
theorem obstacle_of_perform {ev : Event} (h : ev.perform c id s = .error e s') :
    Obstacle c id s ev e := by
  cases ev with
  | fold v => exact .of_touchFolded h
  | read v => exact .of_touchRead h
  | modify v => exact .of_touchModified h
  | define v => exact .of_touchDefined h
  | overwrite r => exact .of_evict .overwrite h

end Residency

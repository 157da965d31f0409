import Residency.Proofs.Eviction

/-!
# What an event changes

An event of an instruction can be carried out in ten ways
(`Residency.Performed`, `Residency.perform_eq_ok_iff`): a folded value is in a register or
it is not; a value that is read is in its register already, comes from its slot, or has no
slot to come from; and so on. Every proof about the state of a lowering that goes through the
events of an instruction is a case distinction over these ten, and none looks at the steps
themselves.

The second half does the same for instructions (`Residency.lowerInst_eq_ok_iff`), for
terminators (`Residency.checkTerminator_eq_ok_iff`), and for blocks
(`Residency.lowerBlock_eq_ok_iff`). A lowering of instructions from which the check of
terminators is left out, `Residency.lowerEach`, is what prefixes of a block are lowered
with.
-/

namespace Residency

open Step

variable {c : Context} {id : Site} {r : Reg} {v : VReg} {s s' : State}

/-! ### The ways of an event -/

/-- What an event makes of a state. -/
inductive Performed (c : Context) (s : State) : Event → State → Prop
  /-- A folded virtual register has no register. -/
  | foldAway {v : VReg} (hr : c.alloc.reg? v = .ok none) : Performed c s (.fold v) s
  /-- A folded value is not in its register. -/
  | foldAbsent {v : VReg} {r : Reg} (hr : c.alloc.reg? v = .ok (some r))
      (hh : s.table.holds r v = false) : Performed c s (.fold v) s
  /-- A folded value leaves its register. -/
  | fold {v : VReg} {r : Reg} {s' : State} (hr : c.alloc.reg? v = .ok (some r))
      (hh : s.table.holds r v = true)
      (he : evict c r (s.count .foldEvictions) = .ok () s') : Performed c s (.fold v) s'
  /-- A value that is read is in its register already. -/
  | readHeld {v : VReg} {r : Reg} (hr : c.alloc.reg? v = .ok (some r))
      (hh : s.table.holds r v = true) : Performed c s (.read v) (s.reserve r)
  /-- A value that is read is loaded from its slot. -/
  | readLoaded {v : VReg} {r : Reg} {t : State} {slot : Slot} {cls : RegClass} {i : Inst}
      (hr : c.alloc.reg? v = .ok (some r)) (hh : s.table.holds r v = false)
      (he : evict c r s = .ok () t) (hs : c.alloc.slot? v = .ok (some slot))
      (hc : c.func.classOf v = .ok cls) (hi : c.target.load slot r cls = .ok i) :
      Performed c s (.read v)
        ((((((t.request (.load v slot r)).log c.level (.loaded c.block v slot r)).push i).count
          .reloads).hold r ⟨v, false, t.out.size⟩).reserve r)
  /-- A value that is read has no slot, and its register is left as it is. -/
  | readFound {v : VReg} {r : Reg} {t : State} (hr : c.alloc.reg? v = .ok (some r))
      (hh : s.table.holds r v = false) (he : evict c r s = .ok () t)
      (hs : c.alloc.slot? v = .ok none) :
      Performed c s (.read v) ((t.hold r ⟨v, false, t.out.size⟩).reserve r)
  /-- The value in a register becomes dirty. -/
  | modify {v : VReg} {r : Reg} {x : Resident} (hr : c.alloc.reg? v = .ok (some r))
      (hx : s.table.get? r = some x) :
      Performed c s (.modify v) (s.hold r ⟨x.vreg, true, s.out.size⟩)
  /-- A value takes the place of an earlier one of the same virtual register. -/
  | redefine {v : VReg} {r : Reg} (hr : c.alloc.reg? v = .ok (some r))
      (hh : s.table.holds r v = true) :
      Performed c s (.define v) (s.hold r ⟨v, true, s.out.size⟩)
  /-- A value takes a register that something else may have held. -/
  | define {v : VReg} {r : Reg} {t : State} (hr : c.alloc.reg? v = .ok (some r))
      (hh : s.table.holds r v = false) (he : evict c r s = .ok () t) :
      Performed c s (.define v) (t.hold r ⟨v, true, t.out.size⟩)
  /-- A register is evicted. -/
  | overwrite {r : Reg} {s' : State} (he : evict c r s = .ok () s') :
      Performed c s (.overwrite r) s'

theorem assigned_eq_ok_iff :
    assigned c id v s = .ok r s' ↔ c.alloc.reg? v = .ok (some r) ∧ s = s' := by
  unfold assigned
  rw [bind_eq_ok_iff]
  constructor
  · rintro ⟨o, t, hknown, hrest⟩
    obtain ⟨ho, rfl⟩ := known_eq_ok_iff.1 hknown
    cases o with
    | none => exact absurd hrest fault_ne_ok
    | some q =>
      obtain ⟨rfl, rfl⟩ := pure_eq_ok_iff.1 hrest
      exact ⟨ho, rfl⟩
  · rintro ⟨ho, rfl⟩
    exact ⟨some r, s, known_eq_ok_iff.2 ⟨ho, rfl⟩, pure_eq_ok_iff.2 ⟨rfl, rfl⟩⟩

theorem load_eq_ok_iff :
    load c r v s = .ok () s' ↔ s.table.holds r v = false ∧ ∃ t, evict c r s = .ok () t ∧
      ((∃ slot cls i, c.alloc.slot? v = .ok (some slot) ∧ c.func.classOf v = .ok cls ∧
        c.target.load slot r cls = .ok i ∧
        s' = ((((t.request (.load v slot r)).log c.level (.loaded c.block v slot r)).push i).count
          .reloads).hold r ⟨v, false, t.out.size⟩) ∨
      (c.alloc.slot? v = .ok none ∧ s' = t.hold r ⟨v, false, t.out.size⟩)) := by
  unfold load
  rw [bind_eq_ok_iff]
  constructor
  · rintro ⟨t, t', hget, hrest⟩
    obtain ⟨rfl, rfl⟩ := get_eq_ok_iff.1 hget
    cases hh : s.table.holds r v with
    | true =>
      simp only [hh, if_true] at hrest
      exact absurd hrest fault_ne_ok
    | false =>
      simp only [hh, Bool.false_eq_true, if_false] at hrest
      obtain ⟨⟨⟩, t, he, hrest⟩ := bind_eq_ok_iff.1 hrest
      refine ⟨rfl, t, he, ?_⟩
      obtain ⟨o, t', hknown, hrest⟩ := bind_eq_ok_iff.1 hrest
      obtain ⟨ho, rfl⟩ := known_eq_ok_iff.1 hknown
      cases o with
      | none => exact Or.inr ⟨ho, (modify_eq_ok_iff.1 hrest).symm⟩
      | some slot =>
        obtain ⟨cls, t', hknown, hrest⟩ := bind_eq_ok_iff.1 hrest
        obtain ⟨hcls, rfl⟩ := known_eq_ok_iff.1 hknown
        obtain ⟨i, t', hask, hrest⟩ := bind_eq_ok_iff.1 hrest
        obtain ⟨hi, rfl⟩ := ask_eq_ok_iff.1 hask
        exact Or.inl ⟨slot, cls, i, ho, hcls, hi, (modify_eq_ok_iff.1 hrest).symm⟩
  · rintro ⟨hh, t, he, hrest⟩
    refine ⟨s, s, get_eq_ok_iff.2 ⟨rfl, rfl⟩, ?_⟩
    simp only [hh, Bool.false_eq_true, if_false]
    refine bind_eq_ok_iff.2 ⟨(), t, he, ?_⟩
    rcases hrest with ⟨slot, cls, i, hslot, hcls, hi, rfl⟩ | ⟨hslot, rfl⟩
    · refine bind_eq_ok_iff.2 ⟨_, t, known_eq_ok_iff.2 ⟨hslot, rfl⟩, ?_⟩
      refine bind_eq_ok_iff.2 ⟨cls, t, known_eq_ok_iff.2 ⟨hcls, rfl⟩, ?_⟩
      exact bind_eq_ok_iff.2 ⟨i, _, ask_eq_ok_iff.2 ⟨hi, rfl⟩, modify_eq_ok_iff.2 rfl⟩
    · exact bind_eq_ok_iff.2 ⟨_, t, known_eq_ok_iff.2 ⟨hslot, rfl⟩, modify_eq_ok_iff.2 rfl⟩

theorem touchFolded_eq_ok_iff :
    touchFolded c v s = .ok () s' ↔ Performed c s (.fold v) s' := by
  unfold touchFolded
  rw [bind_eq_ok_iff]
  constructor
  · rintro ⟨o, t, hknown, hrest⟩
    obtain ⟨ho, rfl⟩ := known_eq_ok_iff.1 hknown
    cases o with
    | none =>
      obtain ⟨-, rfl⟩ := pure_eq_ok_iff.1 hrest
      exact .foldAway ho
    | some r =>
      obtain ⟨t, t', hget, hrest⟩ := bind_eq_ok_iff.1 hrest
      obtain ⟨rfl, rfl⟩ := get_eq_ok_iff.1 hget
      cases hh : s.table.holds r v with
      | false =>
        simp only [hh, Bool.false_eq_true, if_false] at hrest
        obtain ⟨-, rfl⟩ := pure_eq_ok_iff.1 hrest
        exact .foldAbsent ho hh
      | true =>
        simp only [hh, if_true] at hrest
        obtain ⟨_, t, hcount, he⟩ := bind_eq_ok_iff.1 hrest
        obtain rfl := modify_eq_ok_iff.1 hcount
        exact .fold ho hh he
  · intro h
    cases h with
    | foldAway hr => exact ⟨_, s, known_eq_ok_iff.2 ⟨hr, rfl⟩, pure_eq_ok_iff.2 ⟨rfl, rfl⟩⟩
    | foldAbsent hr hh =>
      refine ⟨_, s, known_eq_ok_iff.2 ⟨hr, rfl⟩, ?_⟩
      refine bind_eq_ok_iff.2 ⟨s, s, get_eq_ok_iff.2 ⟨rfl, rfl⟩, ?_⟩
      simp only [hh, Bool.false_eq_true, if_false]
      exact pure_eq_ok_iff.2 ⟨rfl, rfl⟩
    | fold hr hh he =>
      refine ⟨_, s, known_eq_ok_iff.2 ⟨hr, rfl⟩, ?_⟩
      refine bind_eq_ok_iff.2 ⟨s, s, get_eq_ok_iff.2 ⟨rfl, rfl⟩, ?_⟩
      simp only [hh, if_true]
      exact bind_eq_ok_iff.2 ⟨⟨⟩, _, modify_eq_ok_iff.2 rfl, he⟩

theorem touchRead_eq_ok_iff :
    touchRead c id v s = .ok () s' ↔ Performed c s (.read v) s' := by
  unfold touchRead
  rw [bind_eq_ok_iff]
  constructor
  · rintro ⟨r, t, hassigned, hrest⟩
    obtain ⟨hr, rfl⟩ := assigned_eq_ok_iff.1 hassigned
    obtain ⟨t, t', hget, hrest⟩ := bind_eq_ok_iff.1 hrest
    obtain ⟨rfl, rfl⟩ := get_eq_ok_iff.1 hget
    cases hh : s.table.holds r v with
    | true =>
      simp only [hh, Bool.not_true, Bool.false_eq_true, if_false] at hrest
      obtain rfl := modify_eq_ok_iff.1 hrest
      exact .readHeld hr hh
    | false =>
      simp only [hh, Bool.not_false, if_true] at hrest
      obtain ⟨_, t, hload, hrest⟩ := bind_eq_ok_iff.1 hrest
      obtain rfl := modify_eq_ok_iff.1 hrest
      obtain ⟨-, t', he, ⟨slot, cls, i, hslot, hcls, hi, rfl⟩ | ⟨hslot, rfl⟩⟩ :=
        load_eq_ok_iff.1 hload
      · exact .readLoaded hr hh he hslot hcls hi
      · exact .readFound hr hh he hslot
  · intro h
    cases h with
    | readHeld hr hh =>
      refine ⟨_, s, assigned_eq_ok_iff.2 ⟨hr, rfl⟩, ?_⟩
      refine bind_eq_ok_iff.2 ⟨s, s, get_eq_ok_iff.2 ⟨rfl, rfl⟩, ?_⟩
      simp only [hh, Bool.not_true, Bool.false_eq_true, if_false]
      exact modify_eq_ok_iff.2 rfl
    | readLoaded hr hh he hs hcls hi =>
      refine ⟨_, s, assigned_eq_ok_iff.2 ⟨hr, rfl⟩, ?_⟩
      refine bind_eq_ok_iff.2 ⟨s, s, get_eq_ok_iff.2 ⟨rfl, rfl⟩, ?_⟩
      simp only [hh, Bool.not_false, if_true]
      exact bind_eq_ok_iff.2 ⟨⟨⟩, _, load_eq_ok_iff.2
        ⟨hh, _, he, Or.inl ⟨_, _, _, hs, hcls, hi, rfl⟩⟩, modify_eq_ok_iff.2 rfl⟩
    | readFound hr hh he hs =>
      refine ⟨_, s, assigned_eq_ok_iff.2 ⟨hr, rfl⟩, ?_⟩
      refine bind_eq_ok_iff.2 ⟨s, s, get_eq_ok_iff.2 ⟨rfl, rfl⟩, ?_⟩
      simp only [hh, Bool.not_false, if_true]
      exact bind_eq_ok_iff.2 ⟨⟨⟩, _, load_eq_ok_iff.2 ⟨hh, _, he, Or.inr ⟨hs, rfl⟩⟩,
        modify_eq_ok_iff.2 rfl⟩

theorem touchModified_eq_ok_iff :
    touchModified c id v s = .ok () s' ↔ Performed c s (.modify v) s' := by
  unfold touchModified
  rw [bind_eq_ok_iff]
  constructor
  · rintro ⟨r, t, hassigned, hrest⟩
    obtain ⟨hr, rfl⟩ := assigned_eq_ok_iff.1 hassigned
    obtain ⟨t, t', hget, hrest⟩ := bind_eq_ok_iff.1 hrest
    obtain ⟨rfl, rfl⟩ := get_eq_ok_iff.1 hget
    cases hx : s.table.get? r with
    | none =>
      simp only [hx] at hrest
      exact absurd hrest fault_ne_ok
    | some x =>
      simp only [hx] at hrest
      obtain rfl := set_eq_ok_iff.1 hrest
      exact .modify hr hx
  · intro h
    cases h with
    | modify hr hx =>
      refine ⟨_, s, assigned_eq_ok_iff.2 ⟨hr, rfl⟩, ?_⟩
      refine bind_eq_ok_iff.2 ⟨s, s, get_eq_ok_iff.2 ⟨rfl, rfl⟩, ?_⟩
      simp only [hx]
      exact set_eq_ok_iff.2 rfl

theorem touchDefined_eq_ok_iff :
    touchDefined c id v s = .ok () s' ↔ Performed c s (.define v) s' := by
  unfold touchDefined
  rw [bind_eq_ok_iff]
  constructor
  · rintro ⟨r, t, hassigned, hrest⟩
    obtain ⟨hr, rfl⟩ := assigned_eq_ok_iff.1 hassigned
    obtain ⟨t, t', hget, hrest⟩ := bind_eq_ok_iff.1 hrest
    obtain ⟨rfl, rfl⟩ := get_eq_ok_iff.1 hget
    cases hh : s.table.holds r v with
    | true =>
      simp only [hh, Bool.not_true, Bool.false_eq_true, if_false] at hrest
      obtain rfl := modify_eq_ok_iff.1 hrest
      exact .redefine hr hh
    | false =>
      simp only [hh, Bool.not_false, if_true] at hrest
      obtain ⟨_, t, he, hrest⟩ := bind_eq_ok_iff.1 hrest
      obtain rfl := modify_eq_ok_iff.1 hrest
      exact .define hr hh he
  · intro h
    cases h with
    | redefine hr hh =>
      refine ⟨_, s, assigned_eq_ok_iff.2 ⟨hr, rfl⟩, ?_⟩
      refine bind_eq_ok_iff.2 ⟨s, s, get_eq_ok_iff.2 ⟨rfl, rfl⟩, ?_⟩
      simp only [hh, Bool.not_true, Bool.false_eq_true, if_false]
      exact modify_eq_ok_iff.2 rfl
    | define hr hh he =>
      refine ⟨_, s, assigned_eq_ok_iff.2 ⟨hr, rfl⟩, ?_⟩
      refine bind_eq_ok_iff.2 ⟨s, s, get_eq_ok_iff.2 ⟨rfl, rfl⟩, ?_⟩
      simp only [hh, Bool.not_false, if_true]
      exact bind_eq_ok_iff.2 ⟨⟨⟩, _, he, modify_eq_ok_iff.2 rfl⟩

/-- **An event succeeds in ten ways**, and in no other. -/
theorem perform_eq_ok_iff {e : Event} :
    e.perform c id s = .ok () s' ↔ Performed c s e s' := by
  cases e with
  | fold v => exact touchFolded_eq_ok_iff
  | read v => exact touchRead_eq_ok_iff
  | modify v => exact touchModified_eq_ok_iff
  | define v => exact touchDefined_eq_ok_iff
  | overwrite r =>
    refine ⟨.overwrite, fun h => ?_⟩
    cases h with
    | overwrite he => exact he

/-! ### Instructions -/

/-- **The lowering of an instruction**: the events before its place, those after it, and the
instruction itself with registers in the place of virtual registers. -/
theorem lowerInst_eq_ok_iff {i : Inst} :
    lowerInst c id i s = .ok () s' ↔ ∃ m t,
      ((Event.before c.alloc id i).forM (Event.perform c id)) s = .ok () m ∧
      ((Event.after i).forM (Event.perform c id)) m.release = .ok () t ∧
      s' = t.push (i.mapRefs c.alloc.substitute) := by
  unfold lowerInst
  rw [bind_eq_ok_iff]
  constructor
  · rintro ⟨⟨⟩, m, hbefore, hrest⟩
    obtain ⟨_, t, hrelease, hrest⟩ := bind_eq_ok_iff.1 hrest
    obtain rfl := modify_eq_ok_iff.1 hrelease
    obtain ⟨⟨⟩, t, hafter, hpush⟩ := bind_eq_ok_iff.1 hrest
    exact ⟨m, t, hbefore, hafter, (modify_eq_ok_iff.1 hpush).symm⟩
  · rintro ⟨m, t, hbefore, hafter, rfl⟩
    refine ⟨(), m, hbefore, ?_⟩
    refine bind_eq_ok_iff.2 ⟨⟨⟩, _, modify_eq_ok_iff.2 rfl, ?_⟩
    exact bind_eq_ok_iff.2 ⟨(), t, hafter, modify_eq_ok_iff.2 rfl⟩

/-- **An instruction fails at one of its events**, before its place or behind it. -/
theorem lowerInst_eq_error {i : Inst} {e : Failure} (h : lowerInst c id i s = .error e s') :
    (∃ done ev rest t, Event.before c.alloc id i = done ++ ev :: rest ∧
      (done.forM (Event.perform c id)) s = .ok () t ∧ ev.perform c id t = .error e s') ∨
    ∃ m done ev rest t, ((Event.before c.alloc id i).forM (Event.perform c id)) s = .ok () m ∧
      Event.after i = done ++ ev :: rest ∧
      (done.forM (Event.perform c id)) m.release = .ok () t ∧ ev.perform c id t = .error e s' := by
  rcases bind_eq_error_iff.1 h with h | ⟨⟨⟩, m, hm, h⟩
  · exact Or.inl (exists_of_forM_eq_error h)
  rcases bind_eq_error_iff.1 h with h | ⟨_, m', hm', h⟩
  · cases h
  obtain rfl := modify_eq_ok_iff.1 hm'
  rcases bind_eq_error_iff.1 h with h | ⟨_, t, -, h⟩
  · obtain ⟨done, ev, rest, t, hsplit, hdone, hev⟩ := exists_of_forM_eq_error h
    exact Or.inr ⟨m, done, ev, rest, t, hm, hsplit, hdone, hev⟩
  · cases h

theorem checkTerminator_eq_ok_iff {i : Inst} {isLast : Bool} :
    checkTerminator id i isLast s = .ok () s' ↔
      (i.isTerminator = true → isLast = true ∧ i.writesVirtual = false) ∧ s = s' := by
  unfold checkTerminator
  cases i.isTerminator with
  | false =>
    simp only [Bool.false_eq_true, if_false, false_implies, true_and]
    exact pure_eq_ok_iff.trans (and_iff_right rfl)
  | true =>
    cases isLast with
    | false =>
      refine iff_of_false fault_ne_ok fun h => ?_
      exact absurd (h.1 rfl).1 nofun
    | true =>
      cases i.writesVirtual with
      | true =>
        refine iff_of_false fault_ne_ok fun h => ?_
        exact absurd (h.1 rfl).2 nofun
      | false =>
        simp only [Bool.not_true, Bool.false_eq_true, if_false, if_true, and_self,
          forall_const, true_and]
        exact pure_eq_ok_iff.trans (and_iff_right rfl)

/-- A terminator is refused where it is not the last instruction, and where it writes a virtual
register. -/
theorem checkTerminator_eq_error {i : Inst} {isLast : Bool} {e : Failure}
    (h : checkTerminator id i isLast s = .error e s') : i.isTerminator = true ∧
      (isLast = false ∧ e = .fault (.terminatorInside id i) ∨
        i.writesVirtual = true ∧ e = .fault (.terminatorWrites id i)) := by
  unfold checkTerminator at h
  split at h
  · rename_i ht
    refine ⟨ht, ?_⟩
    split at h
    · rename_i hlast
      rw [Bool.not_eq_true'] at hlast
      exact Or.inl ⟨hlast, (fault_eq_error_iff.1 h).1.symm⟩
    · split at h
      · rename_i hv
        exact Or.inr ⟨hv, (fault_eq_error_iff.1 h).1.symm⟩
      · cases h
  · cases h

/-! ### Blocks -/

/-- The instructions of a block from position `n` on are lowered, wherever terminators
stand. -/
def lowerEach (c : Context) : Nat → List Inst → Step Unit
  | _, [] => pure ()
  | n, i :: rest => do
    lowerInst c ⟨c.block, ← known (word n)⟩ i
    lowerEach c (n + 1) rest

theorem lowerEach_nil_eq_ok_iff {n : Nat} : lowerEach c n [] s = .ok () s' ↔ s = s' :=
  pure_eq_ok_iff.trans (and_iff_right rfl)

theorem lowerEach_cons_eq_ok_iff {n : Nat} {i : Inst} {rest : List Inst} :
    lowerEach c n (i :: rest) s = .ok () s' ↔ ∃ w t, word n = .ok w ∧
      lowerInst c ⟨c.block, w⟩ i s = .ok () t ∧ lowerEach c (n + 1) rest t = .ok () s' := by
  rw [lowerEach, bind_eq_ok_iff]
  constructor
  · rintro ⟨w, t, hknown, hrest⟩
    obtain ⟨hw, rfl⟩ := known_eq_ok_iff.1 hknown
    obtain ⟨⟨⟩, t, hi, hrest⟩ := bind_eq_ok_iff.1 hrest
    exact ⟨w, t, hw, hi, hrest⟩
  · rintro ⟨w, t, hw, hi, hrest⟩
    exact ⟨w, s, known_eq_ok_iff.2 ⟨hw, rfl⟩, bind_eq_ok_iff.2 ⟨(), t, hi, hrest⟩⟩

theorem lowerEach_append_eq_ok_iff {n : Nat} {l l' : List Inst} :
    lowerEach c n (l ++ l') s = .ok () s' ↔
      ∃ t, lowerEach c n l s = .ok () t ∧ lowerEach c (n + l.length) l' t = .ok () s' := by
  induction l generalizing n s with
  | nil =>
    refine ⟨fun h => ⟨s, lowerEach_nil_eq_ok_iff.2 rfl, h⟩, ?_⟩
    rintro ⟨t, ht, h⟩
    exact lowerEach_nil_eq_ok_iff.1 ht ▸ h
  | cons i l ih =>
    have hlen : n + (i :: l).length = n + 1 + l.length := by
      rw [List.length_cons]
      omega
    rw [List.cons_append, lowerEach_cons_eq_ok_iff, hlen]
    constructor
    · rintro ⟨w, t, hw, hi, hrest⟩
      obtain ⟨t', hl, hl'⟩ := ih.1 hrest
      exact ⟨t', lowerEach_cons_eq_ok_iff.2 ⟨w, t, hw, hi, hl⟩, hl'⟩
    · rintro ⟨t', hl, hl'⟩
      obtain ⟨w, t, hw, hi, hrest⟩ := lowerEach_cons_eq_ok_iff.1 hl
      exact ⟨w, t, hw, hi, ih.2 ⟨t', hrest, hl'⟩⟩

/-- Every terminator among some instructions is the last one and writes no virtual
register. -/
def TerminatorsLast : List Inst → Prop
  | [] => True
  | i :: rest =>
    (i.isTerminator = true → rest.isEmpty = true ∧ i.writesVirtual = false) ∧
      TerminatorsLast rest

/-- **The instructions of a block are lowered** when each of them is, and every terminator
is in its place. -/
theorem lowerInsts_eq_ok_iff {n : Nat} {l : List Inst} :
    lowerInsts c n l s = .ok () s' ↔ TerminatorsLast l ∧ lowerEach c n l s = .ok () s' := by
  induction l generalizing n s with
  | nil => exact (and_iff_right trivial).symm
  | cons i l ih =>
    rw [lowerInsts, bind_eq_ok_iff, lowerEach_cons_eq_ok_iff]
    constructor
    · rintro ⟨w, t, hknown, hrest⟩
      obtain ⟨hw, rfl⟩ := known_eq_ok_iff.1 hknown
      obtain ⟨⟨⟩, t, hterm, hrest⟩ := bind_eq_ok_iff.1 hrest
      obtain ⟨hplace, rfl⟩ := checkTerminator_eq_ok_iff.1 hterm
      obtain ⟨⟨⟩, t, hi, hrest⟩ := bind_eq_ok_iff.1 hrest
      obtain ⟨hterms, hrest⟩ := ih.1 hrest
      exact ⟨⟨hplace, hterms⟩, w, t, hw, hi, hrest⟩
    · rintro ⟨⟨hterm, hterms⟩, w, t, hw, hi, hrest⟩
      refine ⟨w, s, known_eq_ok_iff.2 ⟨hw, rfl⟩, ?_⟩
      refine bind_eq_ok_iff.2 ⟨(), s, checkTerminator_eq_ok_iff.2 ⟨hterm, rfl⟩, ?_⟩
      exact bind_eq_ok_iff.2 ⟨(), t, hi, ih.2 ⟨hterms, hrest⟩⟩

/-- **The instructions of a block fail at one of them**, after those before it are lowered: it has
no number, it is a terminator in the wrong place, or it cannot be lowered. -/
theorem lowerInsts_eq_error {n : Nat} {l : List Inst} {e : Failure}
    (h : lowerInsts c n l s = .error e s') : ∃ pre i post t, l = pre ++ i :: post ∧
      lowerEach c n pre s = .ok () t ∧
      ((∃ f, word (n + pre.length) = .error f ∧ e = .fault f) ∨ ∃ w, word (n + pre.length) = .ok w ∧
        (checkTerminator ⟨c.block, w⟩ i post.isEmpty t = .error e s' ∨
          lowerInst c ⟨c.block, w⟩ i t = .error e s')) := by
  induction l generalizing n s with
  | nil => cases h
  | cons i l ih =>
    rw [lowerInsts] at h
    rcases bind_eq_error_iff.1 h with h | ⟨w, t, hknown, h⟩
    · obtain ⟨f, hf, rfl, -⟩ := known_eq_error_iff.1 h
      exact ⟨[], i, l, s, rfl, lowerEach_nil_eq_ok_iff.2 rfl, Or.inl ⟨f, hf, rfl⟩⟩
    obtain ⟨hw, rfl⟩ := known_eq_ok_iff.1 hknown
    rcases bind_eq_error_iff.1 h with h | ⟨⟨⟩, t, hterm, h⟩
    · exact ⟨[], i, l, s, rfl, lowerEach_nil_eq_ok_iff.2 rfl, Or.inr ⟨w, hw, Or.inl h⟩⟩
    obtain ⟨-, rfl⟩ := checkTerminator_eq_ok_iff.1 hterm
    rcases bind_eq_error_iff.1 h with h | ⟨⟨⟩, t, hi, h⟩
    · exact ⟨[], i, l, s, rfl, lowerEach_nil_eq_ok_iff.2 rfl, Or.inr ⟨w, hw, Or.inr h⟩⟩
    obtain ⟨pre, j, post, u, rfl, hpre, hj⟩ := ih h
    have hlen : n + 1 + pre.length = n + (i :: pre).length := by
      rw [List.length_cons]
      omega
    rw [hlen] at hj
    exact ⟨i :: pre, j, post, u, rfl, lowerEach_cons_eq_ok_iff.2 ⟨w, t, hw, hi, hpre⟩, hj⟩

theorem lowerBlockStep_eq_ok_iff {x : List Inst × Stats} :
    lowerBlockStep c {} = .ok x s' ↔ ∃ b t t', c.func.block c.block = .ok b ∧
      lowerInsts c 0 b.insts {} = .ok () t ∧ flush c t = .ok () t' ∧
      x = (Entry.flatten t'.out.toList, t'.stats.incr .blocks) ∧
      s' = (t'.count .blocks).log c.level
        (.blockDone c.func.name c.block (t'.stats.incr .blocks)) := by
  unfold lowerBlockStep
  rw [bind_eq_ok_iff]
  constructor
  · rintro ⟨b, t, hknown, hrest⟩
    obtain ⟨hb, rfl⟩ := known_eq_ok_iff.1 hknown
    obtain ⟨⟨⟩, t, hinsts, hrest⟩ := bind_eq_ok_iff.1 hrest
    obtain ⟨⟨⟩, t', hflush, hrest⟩ := bind_eq_ok_iff.1 hrest
    obtain ⟨_, t'', hcount, hrest⟩ := bind_eq_ok_iff.1 hrest
    obtain rfl := modify_eq_ok_iff.1 hcount
    obtain ⟨_, t'', hlog, hrest⟩ := bind_eq_ok_iff.1 hrest
    obtain rfl := modify_eq_ok_iff.1 hlog
    obtain ⟨_, t'', hget, hrest⟩ := bind_eq_ok_iff.1 hrest
    obtain ⟨rfl, rfl⟩ := get_eq_ok_iff.1 hget
    obtain ⟨rfl, rfl⟩ := pure_eq_ok_iff.1 hrest
    exact ⟨b, t, t', hb, hinsts, hflush, rfl, rfl⟩
  · rintro ⟨b, t, t', hb, hinsts, hflush, rfl, rfl⟩
    refine ⟨b, _, known_eq_ok_iff.2 ⟨hb, rfl⟩, ?_⟩
    refine bind_eq_ok_iff.2 ⟨(), t, hinsts, bind_eq_ok_iff.2 ⟨(), t', hflush, ?_⟩⟩
    refine bind_eq_ok_iff.2 ⟨⟨⟩, _, modify_eq_ok_iff.2 rfl, ?_⟩
    refine bind_eq_ok_iff.2 ⟨⟨⟩, _, modify_eq_ok_iff.2 rfl, ?_⟩
    exact bind_eq_ok_iff.2 ⟨_, _, get_eq_ok_iff.2 ⟨rfl, rfl⟩, pure_eq_ok_iff.2 ⟨rfl, rfl⟩⟩

/-- **The lowering of a block**: its instructions one after the other, and an eviction of
everything. -/
theorem lowerBlock_eq_ok_iff {x : List Inst × Stats} :
    (lowerBlock c).result = .ok x ↔ ∃ b t t', c.func.block c.block = .ok b ∧
      lowerInsts c 0 b.insts {} = .ok () t ∧ flush c t = .ok () t' ∧
      x = (Entry.flatten t'.out.toList, t'.stats.incr .blocks) := by
  unfold lowerBlock
  constructor
  · intro h
    split at h
    · rename_i y s' hstep
      obtain ⟨b, t, t', hb, hinsts, hflush, hy, -⟩ := lowerBlockStep_eq_ok_iff.1 hstep
      exact ⟨b, t, t', hb, hinsts, hflush, (Except.ok.inj h).symm.trans hy⟩
    · cases h
  · rintro ⟨b, t, t', hb, hinsts, hflush, hx⟩
    rw [lowerBlockStep_eq_ok_iff.2 ⟨b, t, t', hb, hinsts, hflush, hx, rfl⟩]

/-- **A block fails** because it is not there, in its instructions, or in the eviction of everything
at its end. -/
theorem lowerBlock_eq_error {e : Failure} (h : (lowerBlock c).result = .error e) :
    (∃ f, c.func.block c.block = .error f) ∨ ∃ b, c.func.block c.block = .ok b ∧
      ((∃ s', lowerInsts c 0 b.insts {} = .error e s') ∨
        ∃ t s', lowerInsts c 0 b.insts {} = .ok () t ∧ flush c t = .error e s') := by
  unfold lowerBlock at h
  split at h
  · cases h
  rename_i e' s' hstep
  cases h
  unfold lowerBlockStep at hstep
  rcases bind_eq_error_iff.1 hstep with hstep | ⟨b, t, hknown, hstep⟩
  · obtain ⟨f, hf, -⟩ := known_eq_error_iff.1 hstep
    exact Or.inl ⟨f, hf⟩
  obtain ⟨hb, rfl⟩ := known_eq_ok_iff.1 hknown
  refine Or.inr ⟨b, hb, ?_⟩
  rcases bind_eq_error_iff.1 hstep with hstep | ⟨⟨⟩, t, hinsts, hstep⟩
  · exact Or.inl ⟨s', hstep⟩
  refine Or.inr ⟨t, s', hinsts, ?_⟩
  rcases bind_eq_error_iff.1 hstep with hstep | ⟨_, t', -, hstep⟩
  · exact hstep
  · cases hstep

end Residency

import Mathlib.Data.List.Induction
import Residency.Proofs.Between

/-!
# What is known of the values, whatever the target

A target may load a value with any instruction, and then little is known of what the registers
hold. What the table says of them does not depend on it: a value is in the register of its
virtual register, and a dirty one was written by an instruction that is done, or by an event of
the instruction at hand (`Residency.Tracked`). What an event can put into a register is
`Residency.Performed.resident`; everything else here follows from it.

Where the table says that a value which is read is in its register, that stays so until
something is written other than in place (`Residency.Held`). So a change in place
always finds its value.

In the middle of an instruction all this is at hand for whatever else its events build up one by
one: before its place (`Residency.Tracked.builds`) and behind it (`Residency.Late.builds`).
-/

namespace Residency

open Step

variable {c : Context} {id : Site} {i : Inst} {e : Event} {done : List Event} {l : List Inst}
  {s s' t m : State} {r q : Reg} {v : VReg} {x : Resident}

/-! ### What an event puts into a register -/

/-- **What a register holds after an event**: what it held before, a value that was read, what it
held before as a dirty value, or a value that was written. -/
theorem Performed.resident (h : Performed c s e s') (hx : s'.table.get? q = some x) :
    s.table.get? q = some x ∨
    (e = .read x.vreg ∧ c.alloc.reg? x.vreg = .ok (some q) ∧ x.dirty = false) ∨
    (∃ v y, e = .modify v ∧ c.alloc.reg? v = .ok (some q) ∧ s.table.get? q = some y ∧
      x = ⟨y.vreg, true, s.out.size⟩) ∨
    (e = .define x.vreg ∧ c.alloc.reg? x.vreg = .ok (some q) ∧
      x = ⟨x.vreg, true, s.out.size⟩) := by
  cases h with
  | foldAway hr => exact Or.inl hx
  | foldAbsent hr hh => exact Or.inl hx
  | fold hr hh he => exact Or.inl ((evict_empties he).resident hx).2
  | readHeld hr hh => exact Or.inl (State.table_reserve s _ ▸ hx)
  | readLoaded hr hh he hs hc hi =>
    rw [State.table_reserve] at hx
    rcases State.get?_hold_eq_some_iff.1 hx with ⟨rfl, rfl⟩ | ⟨-, hx⟩
    · exact Or.inr (Or.inl ⟨rfl, hr, rfl⟩)
    · exact Or.inl ((evict_empties he).resident hx).2
  | readFound hr hh he hs =>
    rw [State.table_reserve] at hx
    rcases State.get?_hold_eq_some_iff.1 hx with ⟨rfl, rfl⟩ | ⟨-, hx⟩
    · exact Or.inr (Or.inl ⟨rfl, hr, rfl⟩)
    · exact Or.inl ((evict_empties he).resident hx).2
  | modify hr hy =>
    rcases State.get?_hold_eq_some_iff.1 hx with ⟨rfl, rfl⟩ | ⟨-, hx⟩
    · exact Or.inr (Or.inr (Or.inl ⟨_, _, rfl, hr, hy, rfl⟩))
    · exact Or.inl hx
  | redefine hr hh =>
    rcases State.get?_hold_eq_some_iff.1 hx with ⟨rfl, rfl⟩ | ⟨-, hx⟩
    · exact Or.inr (Or.inr (Or.inr ⟨rfl, hr, rfl⟩))
    · exact Or.inl hx
  | define hr hh he =>
    rcases State.get?_hold_eq_some_iff.1 hx with ⟨rfl, rfl⟩ | ⟨-, hx⟩
    · exact Or.inr (Or.inr (Or.inr ⟨rfl, hr, by rw [(evict_empties he).size]⟩))
    · exact Or.inl ((evict_empties he).resident hx).2
  | overwrite he => exact Or.inl ((evict_empties he).resident hx).2

/-- The lowered block does not shrink. -/
theorem Performed.size_le (h : Performed c s e s') : s.out.size ≤ s'.out.size := by
  by_cases he : e.Early
  · cases h with
    | foldAway hr => exact Nat.le_refl _
    | foldAbsent hr hh => exact Nat.le_refl _
    | fold hr hh hev => exact Nat.le_of_eq (evict_empties hev).size.symm
    | readHeld hr hh => exact Nat.le_of_eq (congrArg Array.size (State.out_reserve _ _)).symm
    | @readLoaded v r t slot cls i hr hh hev hs hc hi =>
      rw [State.out_reserve]
      change s.out.size ≤ (t.push i).out.size
      rw [State.size_push, (evict_empties hev).size]
      exact Nat.le_succ _
    | @readFound v r t hr hh hev hs =>
      rw [State.out_reserve]
      exact Nat.le_of_eq (evict_empties hev).size.symm
    | modify hr hx => exact he.elim
    | redefine hr hh => exact he.elim
    | define hr hh hev => exact he.elim
    | overwrite hev => exact he.elim
  · exact Nat.le_of_eq (h.late he).1.symm

/-! ### What the table says -/

/-- What the table says of the values, when the instructions `l` and some events of the next one
are done. -/
structure Tracked (c : Context) (l : List Inst) (done : List Event) (s : State) : Prop where
  /-- A value is in the register of its virtual register. -/
  placed : ∀ {r : Reg} {x : Resident}, s.table.get? r = some x →
    c.alloc.reg? x.vreg = .ok (some r)
  /-- Registers that hold something do not overlap. -/
  apart : ∀ {r q : Reg} {x y : Resident}, s.table.get? r = some x → s.table.get? q = some y →
    r.overlaps q = true → r = q
  /-- A dirty value was written by one of the instructions, or by one of the events. -/
  written : ∀ {r : Reg} {x : Resident}, s.table.get? r = some x → x.dirty = true →
    (x.since < s.out.size ∧ ∃ i ∈ l, i.Writes x.vreg) ∨
      x.since = s.out.size ∧ ∃ e ∈ done, e.Writes x.vreg

namespace Tracked

theorem start : Tracked c [] [] {} := ⟨nofun, nofun, nofun⟩

theorem congr (h : Tracked c l done s) (ht : s'.table = s.table)
    (ho : s'.out.size = s.out.size) : Tracked c l done s' where
  placed := by
    rw [ht]
    exact h.placed
  apart := by
    rw [ht]
    exact h.apart
  written := by
    rw [ht, ho]
    exact h.written

/-- Up to the place of an instruction a dirty value is older than it. -/
theorem older (h : Tracked c l [] s) (hx : s.table.get? r = some x) (hd : x.dirty = true) :
    x.since < s.out.size ∧ ∃ i ∈ l, i.Writes x.vreg := by
  rcases h.written hx hd with hold | ⟨-, e, he, -⟩
  · exact hold
  · cases he

theorem placed_perform (h : Tracked c l done s) (hp : Performed c s e s')
    (hx : s'.table.get? r = some x) : c.alloc.reg? x.vreg = .ok (some r) := by
  rcases hp.resident hx with hx | ⟨-, hr, -⟩ | ⟨v, y, -, -, hy, rfl⟩ | ⟨-, hr, -⟩
  · exact h.placed hx
  · exact hr
  · have hplaced := h.placed hy
    exact hplaced
  · exact hr

theorem apart_hold {y : Resident} (h : Tracked c l done s)
    (hfree : ∀ q, q ≠ r → r.overlaps q = true → s.table.get? q = none) {p q : Reg}
    {x x' : Resident} (hx : (s.hold r y).table.get? p = some x)
    (hx' : (s.hold r y).table.get? q = some x') (hov : p.overlaps q = true) : p = q := by
  rcases State.get?_hold_eq_some_iff.1 hx with ⟨rfl, -⟩ | ⟨hp, hold⟩
  · rcases State.get?_hold_eq_some_iff.1 hx' with ⟨rfl, -⟩ | ⟨hq, hold'⟩
    · rfl
    · exact absurd (hold'.symm.trans (hfree q hq hov)) nofun
  · rcases State.get?_hold_eq_some_iff.1 hx' with ⟨rfl, -⟩ | ⟨-, hold'⟩
    · rw [Reg.overlaps_comm] at hov
      exact absurd (hold.symm.trans (hfree p hp hov)) nofun
    · exact h.apart hold hold' hov

/-- Where a register holds something, nothing else that overlaps it does. -/
theorem get?_eq_none (h : Tracked c l done s) (hx : s.table.get? r = some x) (hne : q ≠ r)
    (hov : r.overlaps q = true) : s.table.get? q = none := by
  cases hy : s.table.get? q with
  | none => rfl
  | some y => exact absurd (h.apart hx hy hov).symm hne

theorem of_emptied {gone : Reg → Bool} (h : Tracked c l done s) (he : Emptied gone s t) :
    Tracked c l done t where
  placed hx := h.placed (he.resident hx).2
  apart hx hy := h.apart (he.resident hx).2 (he.resident hy).2
  written hx hd := by
    rw [he.size]
    exact h.written (he.resident hx).2 hd

theorem apart_perform (h : Tracked c l done s) (hp : Performed c s e s') {p q : Reg}
    {x y : Resident} (hx : s'.table.get? p = some x) (hy : s'.table.get? q = some y)
    (hov : p.overlaps q = true) : p = q := by
  -- Whatever is put into a register, the registers that overlap it were emptied before.
  have hevict : ∀ {r s t}, Tracked c l done s → evict c r s = .ok () t → Tracked c l done t ∧
      ∀ q, q ≠ r → r.overlaps q = true → t.table.get? q = none := fun h he =>
    ⟨h.of_emptied (evict_empties he), fun _ _ hq => (evict_empties he).get?_of_gone hq⟩
  cases hp with
  | foldAway hr => exact h.apart hx hy hov
  | foldAbsent hr hh => exact h.apart hx hy hov
  | fold hr hh he =>
    have hcount : Tracked c l done (s.count .foldEvictions) := h.congr rfl rfl
    exact (hevict hcount he).1.apart hx hy hov
  | readHeld hr hh =>
    rw [State.table_reserve] at hx hy
    exact h.apart hx hy hov
  | readLoaded hr hh he hs hc hi =>
    rw [State.table_reserve] at hx hy
    obtain ⟨ht, hfree⟩ := hevict h he
    exact ht.apart_hold hfree hx hy hov
  | readFound hr hh he hs =>
    rw [State.table_reserve] at hx hy
    obtain ⟨ht, hfree⟩ := hevict h he
    exact ht.apart_hold hfree hx hy hov
  | modify hr hz => exact h.apart_hold (fun _ => h.get?_eq_none hz) hx hy hov
  | redefine hr hh =>
    obtain ⟨z, hz, -⟩ := Table.holds_iff.1 hh
    exact h.apart_hold (fun _ => h.get?_eq_none hz) hx hy hov
  | define hr hh he =>
    obtain ⟨ht, hfree⟩ := hevict h he
    exact ht.apart_hold hfree hx hy hov
  | overwrite he => exact (hevict h he).1.apart hx hy hov

/-- An event before the place of an instruction makes no dirty value. -/
theorem perform_early (he : e.Early) (h : Tracked c l [] s) (hp : Performed c s e s') :
    Tracked c l [] s' := by
  refine ⟨h.placed_perform hp, h.apart_perform hp, fun hx hd => Or.inl ?_⟩
  rcases hp.resident hx with hx | ⟨-, -, hclean⟩ | ⟨v, y, rfl, -, -, -⟩ | ⟨hdef, -, -⟩
  · exact (h.older hx hd).imp_left fun hlt => Nat.lt_of_lt_of_le hlt hp.size_le
  · exact absurd (hclean.symm.trans hd) nofun
  · exact he.elim
  · rw [hdef] at he
    exact he.elim

/-- An event behind the place of an instruction makes a dirty value of what it writes, if a change
in place finds the value that it changes. -/
theorem perform_late (he : ¬ e.Early) (h : Tracked c l done s)
    (hheld : ∀ v r, e = .modify v → c.alloc.reg? v = .ok (some r) → s.table.holds r v = true)
    (hp : Performed c s e s') : Tracked c l (done ++ [e]) s' := by
  refine ⟨h.placed_perform hp, h.apart_perform hp, fun {r x} hx hd => ?_⟩
  rw [(hp.late he).1]
  rcases hp.resident hx with hx | ⟨-, -, hclean⟩ | ⟨v, y, rfl, hr, hy, rfl⟩ | ⟨hdef, -, hxeq⟩
  · refine (h.written hx hd).imp_right fun hnew => ⟨hnew.1, ?_⟩
    obtain ⟨e', he', hw⟩ := hnew.2
    exact ⟨e', List.mem_append_left _ he', hw⟩
  · exact absurd (hclean.symm.trans hd) nofun
  · -- The dirty value is the one the register held: that is the one changed only if it was found.
    obtain ⟨z, hz, rfl⟩ := Table.holds_iff.1 (hheld v r rfl hr)
    obtain rfl := Option.some.inj (hy.symm.trans hz)
    exact Or.inr ⟨rfl, .modify y.vreg, by simp, Or.inl rfl⟩
  · refine Or.inr ⟨by rw [hxeq], e, by simp, Or.inr hdef⟩

/-- The instruction joins the lowered block, and is one of those that are done. -/
theorem push {j : Inst} (h : Tracked c l (Event.after i) s) :
    Tracked c (l ++ [i]) [] (s.push j) := by
  refine ⟨h.placed, h.apart, fun hx hd => Or.inl ?_⟩
  rw [State.size_push]
  rcases h.written hx hd with ⟨hlt, i', hi', hw⟩ | ⟨heq, hw⟩
  · exact ⟨Nat.lt_succ_of_lt hlt, i', List.mem_append_left _ hi', hw⟩
  · exact ⟨Nat.lt_succ_of_le (Nat.le_of_eq heq), i, by simp,
      Event.exists_mem_after_writes_iff.1 hw⟩

end Tracked

/-! ### A whole instruction -/

/-- Up to its place an instruction keeps what the table says. -/
theorem Tracked.before (h : Tracked c l [] s)
    (hm : ((Event.before c.alloc id i).forM (Event.perform c id)) s = .ok () m) :
    Tracked c l [] m :=
  forM_keeps (fun _ he _ _ ht hp =>
    ht.perform_early (Event.early_of_mem_before he) (perform_eq_ok_iff.1 hp)) h hm

/-- **What every event before the place of an instruction builds up**, its events build up. -/
theorem Tracked.builds {P : List Event → State → Prop} {rest : List Event}
    (htr : Tracked c l [] s) (h : P [] s) (hsplit : Event.before c.alloc id i = done ++ rest)
    (hs : (done.forM (Event.perform c id)) s = .ok () t)
    (hP : ∀ pre e u u', e.Early → Tracked c l [] u → P pre u → Performed c u e u' →
      P (pre ++ [e]) u') : P done t := by
  refine (forM_builds (P := fun done u => Tracked c l [] u ∧ P done u)
    (fun pre e post hpre u u' hu hp => ?_) ⟨htr, h⟩ hs).2
  have hmem : e ∈ Event.before c.alloc id i := by simp [hsplit, hpre]
  have hearly := Event.early_of_mem_before hmem
  have hp := perform_eq_ok_iff.1 hp
  exact ⟨hu.1.perform_early hearly hp, hP pre e u u' hearly hu.1 hu.2 hp⟩

/-- What is known behind the place of an instruction, when some of its events are done. -/
structure Late (c : Context) (l : List Inst) (i : Inst) (done : List Event) (s : State) :
    Prop where
  /-- The table says where the values are. -/
  tracked : Tracked c l done s
  /-- No register is reserved. -/
  unreserved : s.reserved = []
  /-- While values are only changed in place, what was read is still there. -/
  held : Held c i done s

namespace Late

theorem start (h : Tracked c l [] m) (hread : Reading c (Event.before c.alloc id i) m) :
    Late c l i [] m.release where
  tracked := h.congr rfl rfl
  unreserved := rfl
  held _ {_} hv := hread.held_of_reads hv

theorem perform {rest : List Event} (h : Late c l i done s)
    (hsplit : Event.after i = done ++ e :: rest) (hp : Performed c s e s') :
    Late c l i (done ++ [e]) s' := by
  have hlate := Event.not_early_of_mem_after (Event.mem_after_of_append hsplit)
  refine ⟨h.tracked.perform_late hlate ?_ hp, (hp.late hlate).2.trans h.unreserved,
    h.held.perform hp⟩
  rintro v r rfl hr
  exact h.held.found hsplit hr

end Late

/-- **What every event behind the place of an instruction builds up**, its events build up. -/
theorem Late.builds {P : List Event → State → Prop} {rest : List Event}
    (hlate : Late c l i [] m.release) (h : P [] m.release) (hsplit : Event.after i = done ++ rest)
    (hs : (done.forM (Event.perform c id)) m.release = .ok () t)
    (hP : ∀ pre e post u u', Event.after i = pre ++ e :: post → Late c l i pre u → P pre u →
      Performed c u e u' → P (pre ++ [e]) u') : P done t := by
  refine (forM_builds (P := fun done u => Late c l i done u ∧ P done u)
    (fun pre e post hpre u u' hu hp => ?_) ⟨hlate, h⟩ hs).2
  have hrest : Event.after i = pre ++ e :: (post ++ rest) := by
    rw [hsplit, hpre, List.append_assoc, List.cons_append]
  have hp := perform_eq_ok_iff.1 hp
  exact ⟨hu.1.perform hrest hp, hP pre e _ u u' hrest hu.1 hu.2 hp⟩

/-- **Behind its place**, what is known is built up event by event. -/
theorem late_of_append {rest : List Event} (h : Late c l i [] m.release)
    (hsplit : Event.after i = done ++ rest)
    (hs : (done.forM (Event.perform c id)) m.release = .ok () t) : Late c l i done t :=
  h.builds (P := Late c l i) h hsplit hs fun _ _ _ _ _ hall _ hu hp => hu.perform hall hp

/-- **An instruction keeps what the table says**, and is one of those that are done. -/
theorem Tracked.next (h : Tracked c l [] s) (hres : s.reserved = [])
    (hs : lowerInst c id i s = .ok () s') :
    Tracked c (l ++ [i]) [] s' ∧ s'.reserved = [] := by
  obtain ⟨m, t, hm, ht, rfl⟩ := lowerInst_eq_ok_iff.1 hs
  have hlate := late_of_append (.start (h.before hm) (reading_of_before hres hm))
    (List.append_nil _).symm ht
  exact ⟨hlate.tracked.push, hlate.unreserved⟩

/-- **After any prefix of a block** the table says where the values are. -/
theorem tracked_of_lowerEach (hs : lowerEach c 0 l {} = .ok () s) :
    Tracked c l [] s ∧ s.reserved = [] := by
  induction l using List.reverseRecOn generalizing s with
  | nil =>
    obtain rfl := lowerEach_nil_eq_ok_iff.1 hs
    exact ⟨.start, rfl⟩
  | append_singleton pre i ih =>
    obtain ⟨t, hpre, hlast⟩ := lowerEach_append_eq_ok_iff.1 hs
    obtain ⟨w, t', -, hi, hnil⟩ := lowerEach_cons_eq_ok_iff.1 hlast
    obtain rfl := lowerEach_nil_eq_ok_iff.1 hnil
    obtain ⟨ht, hres⟩ := ih hpre
    exact ht.next hres hi

end Residency

import Mathlib.Logic.Basic
import Residency.Proofs.Success

/-!
# What an eviction leaves

The eviction of what one register holds ends in one of three ways
(`Residency.Vacated`): there was nothing, a clean value is dropped, or a dirty one is
stored. It can be made exactly when nothing stands in its way (`Residency.Vacatable`): the
value is not to be read any more, and if it is dirty then it is older than the instruction
at hand and has a place to go to (`Residency.Storable`).

The eviction of a register and its aliases empties the registers that overlap it and no
others, and changes nothing in the instructions of the lowered block
(`Residency.evict_empties`); it can be made exactly when each of these registers can be
emptied (`Residency.evict_succeeds_iff`). An eviction of everything leaves a table without
residents (`Residency.flush_empties`).
-/

namespace Residency

open Step

variable {c : Context} {r : Reg} {s s' : State}

/-! ### One register -/

/-- What the eviction of what a register holds makes of a state. -/
inductive Vacated (c : Context) (r : Reg) (s : State) : State → Prop
  /-- The register holds nothing. -/
  | idle (hx : s.table.get? r = none) : Vacated c r s s
  /-- A clean value is dropped. -/
  | drop {x : Resident} (hx : s.table.get? r = some x) (hr : r ∉ s.reserved)
      (hd : x.dirty = false) :
      Vacated c r s
        (((s.log c.level (.dropped c.block x.vreg r)).count .cleanEvictions).free r)
  /-- A dirty value is stored behind the instruction that put it there. -/
  | store {x : Resident} {slot : Slot} {cls : RegClass} {i : Inst}
      (hx : s.table.get? r = some x) (hr : r ∉ s.reserved) (hd : x.dirty = true)
      (hs : c.alloc.slot? x.vreg = .ok (some slot)) (hb : x.since < s.out.size)
      (hc : c.func.classOf x.vreg = .ok cls) (hi : c.target.store r slot cls = .ok i) :
      Vacated c r s
        (((((s.request (.store x.vreg r slot)).log c.level
          (.stored c.block x.vreg r slot x.since)).store x.since i).count .spills).free r)

theorem storeDirty_eq_ok_iff {x : Resident} :
    storeDirty c r x s = .ok () s' ↔ ∃ slot cls i,
      c.alloc.slot? x.vreg = .ok (some slot) ∧ x.since < s.out.size ∧
      c.func.classOf x.vreg = .ok cls ∧ c.target.store r slot cls = .ok i ∧
      s' = (((s.request (.store x.vreg r slot)).log c.level
        (.stored c.block x.vreg r slot x.since)).store x.since i).count .spills := by
  unfold storeDirty
  rw [bind_eq_ok_iff]
  constructor
  · rintro ⟨o, t, h, hrest⟩
    obtain ⟨hslot, rfl⟩ := known_eq_ok_iff.1 h
    cases o with
    | none => exact absurd hrest fault_ne_ok
    | some slot =>
      obtain ⟨t, t', hget, hrest⟩ := bind_eq_ok_iff.1 hrest
      obtain ⟨rfl, rfl⟩ := get_eq_ok_iff.1 hget
      by_cases hb : s.out.size ≤ x.since
      · rw [if_pos hb] at hrest
        exact absurd hrest fault_ne_ok
      · rw [if_neg hb] at hrest
        obtain ⟨cls, t, hknown, hrest⟩ := bind_eq_ok_iff.1 hrest
        obtain ⟨hcls, rfl⟩ := known_eq_ok_iff.1 hknown
        obtain ⟨i, t, hask, hrest⟩ := bind_eq_ok_iff.1 hrest
        obtain ⟨hi, rfl⟩ := ask_eq_ok_iff.1 hask
        obtain ⟨_, t, hlog, hrest⟩ := bind_eq_ok_iff.1 hrest
        obtain rfl := modify_eq_ok_iff.1 hlog
        obtain ⟨_, t, hget, hrest⟩ := bind_eq_ok_iff.1 hrest
        obtain ⟨rfl, rfl⟩ := get_eq_ok_iff.1 hget
        obtain ⟨_, t, hentry, hrest⟩ := bind_eq_ok_iff.1 hrest
        obtain ⟨-, rfl⟩ := known_eq_ok_iff.1 hentry
        exact ⟨slot, cls, i, hslot, Nat.lt_of_not_le hb, hcls, hi,
          (modify_eq_ok_iff.1 hrest).symm⟩
  · rintro ⟨slot, cls, i, hslot, hb, hcls, hi, rfl⟩
    refine ⟨some slot, s, known_eq_ok_iff.2 ⟨hslot, rfl⟩, ?_⟩
    refine bind_eq_ok_iff.2 ⟨s, s, get_eq_ok_iff.2 ⟨rfl, rfl⟩, ?_⟩
    rw [if_neg (Nat.not_le.2 hb)]
    refine bind_eq_ok_iff.2 ⟨cls, s, known_eq_ok_iff.2 ⟨hcls, rfl⟩, ?_⟩
    refine bind_eq_ok_iff.2 ⟨i, _, ask_eq_ok_iff.2 ⟨hi, rfl⟩, ?_⟩
    refine bind_eq_ok_iff.2 ⟨⟨⟩, _, modify_eq_ok_iff.2 rfl, ?_⟩
    refine bind_eq_ok_iff.2 ⟨_, _, get_eq_ok_iff.2 ⟨rfl, rfl⟩, ?_⟩
    exact bind_eq_ok_iff.2 ⟨_, _,
      known_eq_ok_iff.2 ⟨entry_eq_ok_iff.2 (Array.getElem?_eq_getElem hb), rfl⟩,
      modify_eq_ok_iff.2 rfl⟩

/-- **The eviction of what one register holds** succeeds in three ways, and in no other. -/
theorem vacate_eq_ok_iff : vacate c r s = .ok () s' ↔ Vacated c r s s' := by
  unfold vacate
  constructor
  · intro h
    obtain ⟨t, t', hget, hrest⟩ := bind_eq_ok_iff.1 h
    obtain ⟨rfl, rfl⟩ := get_eq_ok_iff.1 hget
    cases hx : s.table.get? r with
    | none =>
      rw [hx] at hrest
      obtain ⟨-, rfl⟩ := pure_eq_ok_iff.1 hrest
      exact .idle hx
    | some x =>
      rw [hx] at hrest
      by_cases hr : r ∈ s.reserved
      · simp only [if_pos hr] at hrest
        exact absurd hrest fault_ne_ok
      · simp only [if_neg hr] at hrest
        cases hd : x.dirty with
        | true =>
          simp only [hd, if_true] at hrest
          obtain ⟨⟨⟩, t, hstore, hfree⟩ := bind_eq_ok_iff.1 hrest
          obtain ⟨slot, cls, i, hs, hb, hcls, hi, rfl⟩ := storeDirty_eq_ok_iff.1 hstore
          obtain rfl := modify_eq_ok_iff.1 hfree
          exact .store hx hr hd hs hb hcls hi
        | false =>
          simp only [hd, Bool.false_eq_true, if_false] at hrest
          obtain ⟨⟨⟩, t, hdrop, hfree⟩ := bind_eq_ok_iff.1 hrest
          obtain rfl := modify_eq_ok_iff.1 hdrop
          obtain rfl := modify_eq_ok_iff.1 hfree
          exact .drop hx hr hd
  · intro h
    refine bind_eq_ok_iff.2 ⟨s, s, get_eq_ok_iff.2 ⟨rfl, rfl⟩, ?_⟩
    cases h with
    | idle hx =>
      rw [hx]
      exact pure_eq_ok_iff.2 ⟨rfl, rfl⟩
    | drop hx hr hd =>
      rw [hx]
      simp only [if_neg hr, hd, Bool.false_eq_true, if_false]
      exact bind_eq_ok_iff.2 ⟨(), _, modify_eq_ok_iff.2 rfl, modify_eq_ok_iff.2 rfl⟩
    | store hx hr hd hs hb hcls hi =>
      rw [hx]
      simp only [if_neg hr, hd, if_true]
      exact bind_eq_ok_iff.2 ⟨(), _,
        storeDirty_eq_ok_iff.2 ⟨_, _, _, hs, hb, hcls, hi, rfl⟩, modify_eq_ok_iff.2 rfl⟩

/-! ### Whether a register can be emptied -/

/-- The value of a virtual register can be stored from a register: it has a slot and a
class, and the target has a store for them. -/
def Storable (c : Context) (r : Reg) (v : VReg) : Prop :=
  ∃ slot cls i, c.alloc.slot? v = .ok (some slot) ∧ c.func.classOf v = .ok cls ∧
    c.target.store r slot cls = .ok i

/-- Nothing stands in the way of emptying a register: what it holds is not to be read any
more, and if it is dirty, then it is older than the instruction at hand and can be stored. -/
def Vacatable (c : Context) (s : State) (r : Reg) : Prop :=
  ∀ x, s.table.get? r = some x →
    r ∉ s.reserved ∧ (x.dirty = true → x.since < s.out.size ∧ Storable c r x.vreg)

theorem Vacated.vacatable (h : Vacated c r s s') : Vacatable c s r := by
  intro y hy
  cases h with
  | idle hx => exact absurd (hx.symm.trans hy) nofun
  | drop hx hr hd =>
    obtain rfl := Option.some.inj (hx.symm.trans hy)
    exact ⟨hr, fun hd' => absurd (hd.symm.trans hd') nofun⟩
  | store hx hr hd hs hb hcls hi =>
    obtain rfl := Option.some.inj (hx.symm.trans hy)
    exact ⟨hr, fun _ => ⟨hb, _, _, _, hs, hcls, hi⟩⟩

theorem vacate_succeeds_iff : (∃ s', vacate c r s = .ok () s') ↔ Vacatable c s r := by
  constructor
  · rintro ⟨s', h⟩
    exact (vacate_eq_ok_iff.1 h).vacatable
  · intro h
    cases hx : s.table.get? r with
    | none => exact ⟨s, vacate_eq_ok_iff.2 (.idle hx)⟩
    | some x =>
      obtain ⟨hr, hdirty⟩ := h x hx
      cases hd : x.dirty with
      | false => exact ⟨_, vacate_eq_ok_iff.2 (.drop hx hr hd)⟩
      | true =>
        obtain ⟨hb, slot, cls, i, hs, hcls, hi⟩ := hdirty hd
        exact ⟨_, vacate_eq_ok_iff.2 (.store hx hr hd hs hb hcls hi)⟩

/-! ### What is seen of an eviction -/

/-- Between two states some registers are emptied and nothing else is changed, but for the
stores in the lowered block and what is counted and logged. -/
structure Emptied (gone : Reg → Bool) (s s' : State) : Prop where
  /-- The registers that are gone hold nothing, and the others what they held. -/
  get? : ∀ q, s'.table.get? q = if gone q then none else s.table.get? q
  /-- The registers still to be read are the same. -/
  reserved : s'.reserved = s.reserved
  /-- No entry joins the lowered block. -/
  size : s'.out.size = s.out.size
  /-- Its instructions are the same. -/
  inst : ∀ k : Nat, (s'.out[k]?).map Entry.inst = (s.out[k]?).map Entry.inst

theorem Emptied.resident {gone : Reg → Bool} (h : Emptied gone s s') {q : Reg} {x : Resident}
    (hx : s'.table.get? q = some x) : gone q = false ∧ s.table.get? q = some x := by
  rw [h.get? q] at hx
  cases hq : gone q with
  | true => simp [hq] at hx
  | false => exact ⟨rfl, by simpa [hq] using hx⟩

theorem Emptied.get?_of_gone {gone : Reg → Bool} (h : Emptied gone s s') {q : Reg}
    (hq : gone q = true) : s'.table.get? q = none := by
  rw [h.get? q, if_pos hq]

theorem Emptied.get?_of_kept {gone : Reg → Bool} (h : Emptied gone s s') {q : Reg}
    (hq : gone q = false) : s'.table.get? q = s.table.get? q := by
  rw [h.get? q, if_neg (by simp [hq])]

theorem Vacated.empties (h : Vacated c r s s') : Emptied (fun q => decide (q = r)) s s' := by
  cases h with
  | idle hx =>
    refine ⟨fun q => ?_, rfl, rfl, fun _ => rfl⟩
    by_cases hq : q = r
    · simp [hq, hx]
    · simp [hq]
  | drop hx hr hd => exact ⟨fun q => by simp [State.free, State.count, State.log], rfl, rfl,
      fun _ => rfl⟩
  | store hx hr hd hs hb hcls hi =>
    refine ⟨fun q => by simp [State.free, State.count, State.log, State.store, State.request],
      rfl, ?_, fun k => ?_⟩
    · simp [State.free, State.count, State.log, State.store, State.request]
    · simp only [State.free, State.count, State.log, State.store, State.request,
        Array.getElem?_modify]
      split
      · simp [Function.comp_def]
      · rfl

theorem Emptied.trans {gone gone' : Reg → Bool} {t : State} (h : Emptied gone s t)
    (h' : Emptied gone' t s') : Emptied (fun q => gone q || gone' q) s s' where
  get? q := by
    rw [h'.get? q, h.get? q]
    cases gone q <;> cases gone' q <;> rfl
  reserved := h'.reserved.trans h.reserved
  size := h'.size.trans h.size
  inst k := (h'.inst k).trans (h.inst k)

theorem vacates_empties {l : List Reg} (h : (l.forM (vacate c)) s = .ok () s') :
    Emptied (fun q => decide (q ∈ l)) s s' := by
  induction l generalizing s with
  | nil =>
    obtain rfl := forM_nil_eq_ok_iff.1 h
    exact ⟨fun q => by simp, rfl, rfl, fun _ => rfl⟩
  | cons a l ih =>
    obtain ⟨t, ha, hl⟩ := forM_cons_eq_ok_iff.1 h
    have htrans := (vacate_eq_ok_iff.1 ha).empties.trans (ih hl)
    simpa only [List.mem_cons, Bool.decide_or] using htrans

/-- **Registers can be emptied one after the other** exactly when each of them can be
emptied: to empty one puts nothing in the way of another. -/
theorem vacates_succeeds_iff {l : List Reg} :
    (∃ s', (l.forM (vacate c)) s = .ok () s') ↔ ∀ q ∈ l, Vacatable c s q := by
  induction l generalizing s with
  | nil => exact iff_of_true ⟨s, forM_nil_eq_ok_iff.2 rfl⟩ (by simp)
  | cons a l ih =>
    constructor
    · rintro ⟨s', h⟩ q hq
      obtain ⟨t, ha, hl⟩ := forM_cons_eq_ok_iff.1 h
      have hvac := vacate_eq_ok_iff.1 ha
      rcases eq_or_ne q a with rfl | hne
      · exact hvac.vacatable
      · have hrest := ih.1 ⟨s', hl⟩ q ((List.mem_cons.1 hq).resolve_left hne)
        intro x hx
        have hemp := hvac.empties
        have hxt := hrest x ((hemp.get?_of_kept (decide_eq_false hne)).trans hx)
        rwa [hemp.reserved, hemp.size] at hxt
    · intro h
      obtain ⟨t, ha⟩ := vacate_succeeds_iff.2 (h a List.mem_cons_self)
      have hemp := (vacate_eq_ok_iff.1 ha).empties
      obtain ⟨s', hl⟩ := ih.2 fun q hq x hx => by
        have hxs := h q (List.mem_cons_of_mem a hq) x (hemp.resident hx).2
        rwa [← hemp.reserved, ← hemp.size] at hxs
      exact ⟨s', forM_cons_eq_ok_iff.2 ⟨t, ha, hl⟩⟩

/-! ### A register and its aliases -/

theorem Reg.mem_cons_aliases {q : Reg} : q ∈ r :: r.aliases ↔ r.overlaps q = true := by
  rw [List.mem_cons, Reg.mem_aliases]
  constructor
  · rintro (rfl | ⟨-, h⟩)
    · exact Reg.overlaps_refl q
    · exact h
  · intro h
    exact (eq_or_ne q r).imp_right fun hne => ⟨hne, h⟩

theorem evict_eq_forM : evict c r = (r :: r.aliases).forM (vacate c) := rfl

/-- **An eviction empties the registers that overlap the evicted one**, and no other. -/
theorem evict_empties (h : evict c r s = .ok () s') : Emptied r.overlaps s s' := by
  have hemp := vacates_empties (evict_eq_forM ▸ h)
  refine ⟨fun q => ?_, hemp.reserved, hemp.size, hemp.inst⟩
  rw [hemp.get? q]
  simp only [Reg.mem_cons_aliases, Bool.decide_eq_true]

theorem get?_of_evict (h : evict c r s = .ok () s') : s'.table.get? r = none :=
  (evict_empties h).get?_of_gone (Reg.overlaps_refl r)

/-- **A register can be evicted** exactly when every register that overlaps it can be
emptied. -/
theorem evict_succeeds_iff :
    (∃ s', evict c r s = .ok () s') ↔ ∀ q, r.overlaps q = true → Vacatable c s q := by
  rw [evict_eq_forM, vacates_succeeds_iff]
  simp only [Reg.mem_cons_aliases]

/-- An eviction of everything leaves nothing in a register. -/
theorem flush_empties (h : flush c s = .ok () s') : Emptied (fun _ => true) s s' := by
  have hemp := vacates_empties h
  refine ⟨fun q => ?_, hemp.reserved, hemp.size, hemp.inst⟩
  rw [hemp.get? q, if_pos (decide_eq_true (Reg.mem_all q)), if_pos rfl]

theorem flush_succeeds_iff :
    (∃ s', flush c s = .ok () s') ↔ ∀ q, Vacatable c s q :=
  vacates_succeeds_iff.trans ⟨fun h q => h q (Reg.mem_all q), fun h q _ => h q⟩

/-- What each eviction of one register keeps, an eviction of a register and its aliases
keeps. -/
theorem evict_keeps {P : State → Prop} (hP : ∀ q t t', P t → Vacated c q t t' → P t')
    (hs : P s) (h : evict c r s = .ok () s') : P s' :=
  forM_keeps (fun q _ t t' ht hv => hP q t t' ht (vacate_eq_ok_iff.1 hv)) hs
    (evict_eq_forM ▸ h)

theorem flush_keeps {P : State → Prop} (hP : ∀ q t t', P t → Vacated c q t t' → P t')
    (hs : P s) (h : flush c s = .ok () s') : P s' :=
  forM_keeps (fun q _ t t' ht hv => hP q t t' ht (vacate_eq_ok_iff.1 hv)) hs h

end Residency

import Mathlib.Data.List.Forall2
import Mathlib.Data.List.Nodup
import Residency.Proofs.History
import Residency.Proofs.Pairwise
import Residency.Proofs.Woven

/-!
# What is stored behind an instruction

A dirty value is stored behind the instruction that made it, but not before the value has to go,
and that may be many instructions later. So what stands behind an instruction is not known when
it joins the lowered block. What is known all the time is a balance: of each value that the
instruction made there is one store behind it, or the instruction still **owes** one
(`Residency.Owes`), and never both (`Residency.Ledger`).

What becomes of the debt is decided by the events that follow. A value that lasts through them is
owed still, one that was renewed is not, and all others are stored (`Residency.Account`). At the
end of a block nothing is owed any more, so the stores behind an instruction are those of the
values that were not renewed (`Residency.Account.settled`).
-/

namespace Residency

open Step

variable {c : Context} {id : Site} {i j : Inst} {e : Event} {done later : List Event}
  {l js : List Inst} {s s' t m : State} {r q : Reg} {u v : VReg} {x : Resident} {k n : Nat}
  {of : VReg → Inst → Prop} {P Q made W : VReg → Prop}

/-! ### One instruction for each of some virtual registers -/

/-- Instructions of a kind, one for each virtual register with a property, in some order. -/
def OneEach (of : VReg → Inst → Prop) (P : VReg → Prop) (js : List Inst) : Prop :=
  ∃ vs : List VReg, vs.Nodup ∧ (∀ v, v ∈ vs ↔ P v) ∧ List.Forall₂ of vs js

namespace OneEach

theorem congr (h : OneEach of P js) (hPQ : ∀ v, P v ↔ Q v) : OneEach of Q js := by
  obtain ⟨vs, hnodup, hmem, hof⟩ := h
  exact ⟨vs, hnodup, fun v => (hmem v).trans (hPQ v), hof⟩

theorem nil (hP : ∀ v, ¬ P v) : OneEach of P [] :=
  ⟨[], List.nodup_nil, fun v => iff_of_false List.not_mem_nil (hP v), .nil⟩

theorem eq_nil (h : OneEach of P js) (hP : ∀ v, ¬ P v) : js = [] := by
  obtain ⟨vs, -, hmem, hof⟩ := h
  obtain rfl : vs = [] := List.eq_nil_iff_forall_not_mem.2 fun v hv => hP v ((hmem v).1 hv)
  exact List.forall₂_nil_left_iff.1 hof

theorem exists_mem (h : OneEach of P js) (hv : P v) : ∃ j ∈ js, of v j := by
  obtain ⟨vs, -, hmem, hof⟩ := h
  exact exists_of_forall₂ hof ((hmem v).2 hv)

theorem exists_of_mem (h : OneEach of P js) (hj : j ∈ js) : ∃ v, P v ∧ of v j := by
  obtain ⟨vs, -, hmem, hof⟩ := h
  obtain ⟨v, hv, hvj⟩ := exists_of_forall₂ hof.flip hj
  exact ⟨v, (hmem v).1 hv, hvj⟩

/-- One virtual register more. -/
theorem concat (h : OneEach of P js) (hv : ¬ P v) (hj : of v j) :
    OneEach of (fun u => P u ∨ u = v) (js ++ [j]) := by
  obtain ⟨vs, hnodup, hmem, hof⟩ := h
  refine ⟨vs ++ [v], ?_, fun u => by simp [hmem], List.rel_append hof (.cons hj .nil)⟩
  refine List.nodup_append.2 ⟨hnodup, List.nodup_singleton v, fun u hu w hw huw => ?_⟩
  obtain rfl := List.mem_singleton.1 hw
  exact hv ((hmem w).1 (huw ▸ hu))

end OneEach

/-- An instruction stores the value of a virtual register to its slot. -/
def Context.StoreOf (c : Context) (v : VReg) (j : Inst) : Prop :=
  ∃ r slot cls, c.alloc.reg? v = .ok (some r) ∧ c.alloc.slot? v = .ok (some slot) ∧
    c.func.classOf v = .ok cls ∧ c.target.store r slot cls = .ok j

/-! ### Debts -/

/-- A dirty value is in its register that is as old as the instruction at a position, which still
owes a store of it. -/
def Owes (c : Context) (s : State) (k : Nat) (v : VReg) : Prop :=
  ∃ r, c.alloc.reg? v = .ok (some r) ∧ s.table.get? r = some ⟨v, true, k⟩

theorem owes_congr (ht : s'.table = s.table) : Owes c s' k v ↔ Owes c s k v := by
  rw [Owes, Owes, ht]

theorem not_owes (hr : c.alloc.reg? v = .ok (some r)) (hx : s.table.holds r v = false) :
    ¬ Owes c s k v := by
  rintro ⟨q, hq, hy⟩
  obtain rfl := Allocation.reg_unique hr hq
  exact Bool.false_ne_true (hx.symm.trans (Table.holds_of_get? hy))

theorem owes_free_iff (hr : c.alloc.reg? x.vreg = .ok (some r))
    (hx : s.table.get? r = some x) : Owes c (s.free r) k v ↔ Owes c s k v ∧ v ≠ x.vreg := by
  constructor
  · rintro ⟨q, hq, hy⟩
    obtain ⟨hne, hy⟩ := State.get?_free_eq_some_iff.1 hy
    refine ⟨⟨q, hq, hy⟩, ?_⟩
    rintro rfl
    exact hne (Allocation.reg_unique hq hr)
  · rintro ⟨⟨q, hq, hy⟩, hne⟩
    refine ⟨q, hq, State.get?_free_eq_some_iff.2 ⟨?_, hy⟩⟩
    rintro rfl
    exact hne (congrArg Resident.vreg (Option.some.inj (hy.symm.trans hx)))

/-- A value that comes into its register, where no other one is, takes the place of what was owed
for its virtual register. -/
theorem owes_hold_iff (hr : c.alloc.reg? x.vreg = .ok (some r))
    (hown : ∀ y, s.table.get? r = some y → y.vreg = x.vreg)
    (hk : x.dirty = true → x.since ≠ k) :
    Owes c (s.hold r x) k v ↔ Owes c s k v ∧ v ≠ x.vreg := by
  constructor
  · rintro ⟨q, hq, hy⟩
    rcases State.get?_hold_eq_some_iff.1 hy with ⟨-, rfl⟩ | ⟨hne, hy⟩
    · exact absurd rfl (hk rfl)
    · refine ⟨⟨q, hq, hy⟩, ?_⟩
      rintro rfl
      exact hne (Allocation.reg_unique hq hr)
  · rintro ⟨⟨q, hq, hy⟩, hne⟩
    refine ⟨q, hq, State.get?_hold_eq_some_iff.2 (Or.inr ⟨?_, hy⟩)⟩
    rintro rfl
    exact hne (hown _ hy)

/-- **What an event does to a debt**: an older value is owed still, unless the event writes its
virtual register or displaces it. -/
theorem Performed.owes_iff (htr : Tracked c l done s) (hfinds : Finds c s e)
    (hp : Performed c s e s') (hk : k < s.out.size) :
    Owes c s' k v ↔ Owes c s k v ∧ ¬ e.Writes v ∧ e.displaces c.alloc v = false := by
  constructor
  · rintro ⟨r, hr, hx⟩
    have hw : ¬ e.Writes v := by
      intro hw
      have hage := Option.some.inj (hx.symm.trans (hp.get?_of_writes hfinds hr hw))
      exact absurd (congrArg Resident.since hage) (Nat.ne_of_lt hk)
    have hd : e.displaces c.alloc v = false := Bool.eq_false_iff.2 fun hd =>
      Bool.false_ne_true ((hp.loses htr hfinds hr hd).symm.trans (Table.holds_of_get? hx))
    refine ⟨⟨r, hr, ?_⟩, hw, hd⟩
    rcases hp.resident hx with hx | ⟨-, -, hclean⟩ | ⟨u, y, rfl, -, -, hage⟩ | ⟨rfl, -, -⟩
    · exact hx
    · cases hclean
    · exact absurd (congrArg Resident.since hage) (Nat.ne_of_lt hk)
    · exact absurd (Or.inr rfl) hw
  · rintro ⟨⟨r, hr, hx⟩, hw, hd⟩
    exact ⟨r, hr, hp.keeps htr hx hw hd⟩

/-! ### The ledger of an instruction -/

/-- The ledger of the instruction at a position. Of each value that was made there, one store
stands behind it, or is still owed. -/
structure Ledger (c : Context) (k : Nat) (j : Inst) (made : VReg → Prop) (s : State) :
    Prop where
  /-- The stores are those of the values that are no longer owed. -/
  stores : ∃ js, s.out[k]? = some ⟨j, js⟩ ∧
    OneEach c.StoreOf (fun v => made v ∧ ¬ Owes c s k v) js
  /-- Only what was made there is owed. -/
  owed : ∀ {v : VReg}, Owes c s k v → made v

namespace Ledger

theorem lt_size (h : Ledger c k j made s) : k < s.out.size := by
  obtain ⟨js, hentry, -⟩ := h.stores
  exact (Array.getElem?_eq_some_iff.1 hentry).1

theorem congr (h : Ledger c k j made s) (ht : s'.table = s.table)
    (ho : s'.out[k]? = s.out[k]?) : Ledger c k j made s' where
  stores := by
    obtain ⟨js, hentry, hjs⟩ := h.stores
    exact ⟨js, ho.trans hentry, hjs.congr fun v => by rw [owes_congr ht]⟩
  owed hv := h.owed ((owes_congr ht).1 hv)

theorem of_iff (h : Ledger c k j made s) (hmade : ∀ v, made v ↔ P v) : Ledger c k j P s where
  stores := by
    obtain ⟨js, hentry, hjs⟩ := h.stores
    exact ⟨js, hentry, hjs.congr fun v => by rw [hmade v]⟩
  owed hv := (hmade _).1 (h.owed hv)

/-- **Eviction pays debts**: the register that is emptied may hold what is owed, and then it is
stored. -/
theorem vacated (htr : Tracked c l done s) (h : Ledger c k j made s) (hv : Vacated c r s s') :
    Ledger c k j made s' := by
  obtain ⟨js, hentry, hjs⟩ := h.stores
  cases hv with
  | idle hx => exact h
  | drop hx hr hd =>
    -- What is dropped was clean, so it was not owed.
    have howes : ∀ v, Owes c (s.free r) k v ↔ Owes c s k v := by
      refine fun v => (owes_free_iff (htr.placed hx) hx).trans (and_iff_left_of_imp ?_)
      rintro ⟨q, hq, hy⟩ rfl
      obtain rfl := Allocation.reg_unique hq (htr.placed hx)
      rw [Option.some.inj (hx.symm.trans hy)] at hd
      cases hd
    exact ⟨⟨js, hentry, hjs.congr fun v => and_congr_right fun _ => not_congr (howes v).symm⟩,
      fun hv => h.owed ((howes _).1 hv)⟩
  | @store x slot cls i hx hr hd hs hb hcls hi =>
    have howes : ∀ v, Owes c (s.free r) k v ↔ Owes c s k v ∧ v ≠ x.vreg := fun v =>
      owes_free_iff (htr.placed hx) hx
    refine ⟨?_, fun hv => h.owed ((howes _).1 hv).1⟩
    by_cases hk : x.since = k
    · -- The debt is paid: one store more, and one value less that is owed.
      have howed : Owes c s k x.vreg := by
        refine ⟨r, htr.placed hx, hx.trans (congrArg some ?_)⟩
        rw [← hd, ← hk]
      have hpaid := hjs.concat (v := x.vreg) (j := i) (fun hno => hno.2 howed)
        ⟨r, slot, cls, htr.placed hx, hs, hcls, hi⟩
      refine ⟨js ++ [i], ?_, hpaid.congr fun v => ?_⟩
      · simp [State.free, State.count, State.store, State.log, State.request,
          Array.getElem?_modify, hk, hentry]
      · change (made v ∧ ¬ Owes c s k v) ∨ v = x.vreg ↔ made v ∧ ¬ Owes c (s.free r) k v
        rw [howes v]
        by_cases hv : v = x.vreg
        · subst hv
          simpa using h.owed howed
        · simp [hv]
    · -- It is another instruction's debt.
      refine ⟨js, ?_, hjs.congr fun v => ?_⟩
      · simp [State.free, State.count, State.store, State.log, State.request,
          Array.getElem?_modify, hk, hentry]
      · refine and_congr_right fun _ => not_congr ?_
        refine ((howes v).trans (and_iff_left_of_imp ?_)).symm
        rintro ⟨q, hq, hy⟩ rfl
        obtain rfl := Allocation.reg_unique hq (htr.placed hx)
        exact hk (congrArg Resident.since (Option.some.inj (hx.symm.trans hy)))

theorem vacates (htr : Tracked c l done s) (h : Ledger c k j made s) {rs : List Reg}
    (hs : (rs.forM (vacate c)) s = .ok () t) : Ledger c k j made t := by
  refine (forM_keeps (P := fun u => Tracked c l done u ∧ Ledger c k j made u)
    (fun q _ u u' hu hv => ?_) ⟨htr, h⟩ hs).2
  have hv := vacate_eq_ok_iff.1 hv
  exact ⟨hu.1.of_emptied hv.empties, hu.2.vacated hu.1 hv⟩

theorem of_evict (htr : Tracked c l done s) (h : Ledger c k j made s)
    (he : evict c r s = .ok () t) : Ledger c k j made t :=
  h.vacates htr (evict_eq_forM ▸ he)

/-- A value comes into its register, and takes the place of what was owed for its virtual
register: that was not stored, and need not be. -/
theorem hold (h : Ledger c k j made s) (hr : c.alloc.reg? x.vreg = .ok (some r))
    (hown : ∀ y, s.table.get? r = some y → y.vreg = x.vreg)
    (hk : x.dirty = true → x.since ≠ k) :
    Ledger c k j (fun v => made v ∧ ¬ (Owes c s k v ∧ v = x.vreg)) (s.hold r x) where
  stores := by
    obtain ⟨js, hentry, hjs⟩ := h.stores
    refine ⟨js, hentry, hjs.congr fun v => ?_⟩
    rw [owes_hold_iff hr hown hk, and_assoc]
    refine and_congr_right fun _ => ⟨fun hno => ⟨fun hy => hno hy.1, fun hy => hno hy.1⟩, ?_⟩
    rintro ⟨hold, hnew⟩ howes
    exact hnew ⟨howes, fun hv => hold ⟨howes, hv⟩⟩
  owed hv := by
    obtain ⟨hv, hne⟩ := (owes_hold_iff hr hown hk).1 hv
    exact ⟨h.owed hv, fun hx => hne hx.2⟩

/-- A value comes into a register that is free. -/
theorem arrive (h : Ledger c k j made s) (hr : c.alloc.reg? x.vreg = .ok (some r))
    (hfree : s.table.get? r = none) (hk : x.dirty = true → x.since ≠ k) :
    Ledger c k j made (s.hold r x) := by
  have hown : ∀ y, s.table.get? r = some y → y.vreg = x.vreg := fun y hy =>
    absurd (hy.symm.trans hfree) (Option.some_ne_none y)
  refine (h.hold hr hown hk).of_iff fun v => ?_
  refine and_iff_left_of_imp fun _ => ?_
  rintro ⟨howes, rfl⟩
  exact not_owes hr (Table.holds_eq_false hfree) howes

theorem push (h : Ledger c k j made s) : Ledger c k j made (s.push i) :=
  h.congr rfl (by rw [State.push, Array.getElem?_push, if_neg (Nat.ne_of_lt h.lt_size)])

theorem reserve (h : Ledger c k j made s) : Ledger c k j made (s.reserve r) :=
  h.congr (State.table_reserve s r) (by rw [State.out_reserve])

/-- **Every event keeps the ledger**, but for what it writes: a value that was owed for the same
virtual register is forgotten. -/
theorem perform (htr : Tracked c l done s) (hfinds : Finds c s e) (h : Ledger c k j made s)
    (hp : Performed c s e s') :
    Ledger c k j (fun v => made v ∧ ¬ (Owes c s k v ∧ e.Writes v)) s' := by
  have hsame : ∀ {t}, Ledger c k j made t → (∀ v, Owes c s k v → ¬ e.Writes v) →
      Ledger c k j (fun v => made v ∧ ¬ (Owes c s k v ∧ e.Writes v)) t := fun ht hno =>
    ht.of_iff fun v => (and_iff_left fun hv => hno v hv.1 hv.2).symm
  have hage : ∀ {t : State} {v : VReg}, Ledger c k j made t →
      (⟨v, true, t.out.size⟩ : Resident).dirty = true → t.out.size ≠ k := fun ht _ =>
    Nat.ne_of_gt ht.lt_size
  -- A value is written where one of the same virtual register is.
  have hrenew : ∀ {r v}, c.alloc.reg? v = .ok (some r) → s.table.holds r v = true →
      e.Writes v → Ledger c k j (fun v => made v ∧ ¬ (Owes c s k v ∧ e.Writes v))
        (s.hold r ⟨v, true, s.out.size⟩) := by
    intro r v hr hh hw
    obtain ⟨y, hy, hyv⟩ := Table.holds_iff.1 hh
    have hown : ∀ z, s.table.get? r = some z → z.vreg = v := fun z hz =>
      Option.some.inj (hz.symm.trans hy) ▸ hyv
    refine (h.hold (x := ⟨v, true, s.out.size⟩) hr hown (hage (v := v) h)).of_iff fun w => ?_
    refine and_congr_right fun _ => not_congr (and_congr_right fun _ => ⟨?_, fun hw' => ?_⟩)
    · rintro rfl
      exact hw
    · exact Option.some.inj (hw'.accessed?.symm.trans hw.accessed?)
  cases hp with
  | foldAway hr => exact hsame h fun _ _ => Event.not_writes_fold
  | foldAbsent hr hh => exact hsame h fun _ _ => Event.not_writes_fold
  | fold hr hh he =>
    have hcount : Ledger c k j made (s.count .foldEvictions) := h.congr rfl rfl
    have htr : Tracked c l done (s.count .foldEvictions) := htr.congr rfl rfl
    exact hsame (hcount.of_evict htr he) fun _ _ => Event.not_writes_fold
  | readHeld hr hh => exact hsame h.reserve fun _ _ => Event.not_writes_read
  | @readLoaded v r t slot cls i hr hh he hs hc hi =>
    have hload : Ledger c k j made
        ((((t.request (.load v slot r)).log c.level (.loaded c.block v slot r)).push i).count
          .reloads) :=
      (h.of_evict htr he).push.congr rfl rfl
    have hfree := get?_of_evict he
    exact hsame (hload.arrive (x := ⟨v, false, t.out.size⟩) hr hfree nofun).reserve
      fun _ _ => Event.not_writes_read
  | @readFound v r t hr hh he hs =>
    have hfree := get?_of_evict he
    exact hsame ((h.of_evict htr he).arrive (x := ⟨v, false, t.out.size⟩) hr hfree nofun).reserve
      fun _ _ => Event.not_writes_read
  | modify hr hx =>
    have hh := hfinds _ _ rfl hr
    obtain ⟨y, hy, rfl⟩ := Table.holds_iff.1 hh
    obtain rfl := Option.some.inj (hx.symm.trans hy)
    exact hrenew hr hh (Or.inl rfl)
  | redefine hr hh => exact hrenew hr hh (Or.inr rfl)
  | @define v r t hr hh he =>
    have ht := h.of_evict htr he
    have hfree := get?_of_evict he
    refine hsame (ht.arrive (x := ⟨v, true, t.out.size⟩) hr hfree (hage (v := v) ht))
      fun w howes hw => ?_
    obtain rfl : v = w := Option.some.inj hw.accessed?
    exact not_owes hr hh howes
  | overwrite he => exact hsame (h.of_evict htr he) fun _ _ => Event.not_writes_overwrite

end Ledger

/-! ### What becomes of a debt -/

/-- The account of the instruction at a position, which made the values `W`, after the events that
followed it: a value that lasts is owed, and one that was renewed is not stored. -/
structure Account (c : Context) (W : VReg → Prop) (k : Nat) (j : Inst) (later : List Event)
    (s : State) : Prop where
  /-- Renewed values are not stored. -/
  ledger : Ledger c k j (fun v => W v ∧ ¬ Renewed c.alloc later v) s
  /-- Lasting values are owed. -/
  owes_iff : ∀ v, Owes c s k v ↔ W v ∧ Lasts c.alloc later v

namespace Account

theorem congr (h : Account c W k j later s) (ht : s'.table = s.table)
    (ho : s'.out[k]? = s.out[k]?) : Account c W k j later s' where
  ledger := h.ledger.congr ht ho
  owes_iff v := (owes_congr ht).trans (h.owes_iff v)

theorem push (h : Account c W k j later s) : Account c W k j later (s.push i) where
  ledger := h.ledger.push
  owes_iff v := (owes_congr rfl).trans (h.owes_iff v)

/-- An instruction that has just joined the lowered block owes everything that it made. -/
theorem join (howes : ∀ v, Owes c s s.out.size v ↔ W v) :
    Account c W s.out.size j [] (s.push j) where
  ledger := by
    have hpush : ∀ v, Owes c (s.push j) s.out.size v ↔ W v := howes
    refine ⟨⟨[], by simp [State.push], .nil fun v hv => ?_⟩, fun hv => ?_⟩
    · exact hv.2 ((hpush v).2 hv.1.1)
    · exact ⟨(hpush _).1 hv, not_renewed_nil⟩
  owes_iff v := (howes v).trans (and_iff_left lasts_nil).symm

/-- Where nothing was made it does not matter what has followed. -/
theorem of_idle (h : Ledger c k j (fun _ => False) s) :
    Account c (fun _ => False) k j later s where
  ledger := h.of_iff fun _ => iff_of_false id And.left
  owes_iff _ := iff_of_false h.owed And.left

/-- **Every event keeps the account.** -/
theorem perform (htr : Tracked c l done s) (hfinds : Finds c s e) (h : Account c W k j later s)
    (hp : Performed c s e s') : Account c W k j (later ++ [e]) s' where
  ledger := by
    refine (h.ledger.perform htr hfinds hp).of_iff fun v => ?_
    rw [h.owes_iff v, renewed_concat_iff]
    constructor
    · rintro ⟨⟨hv, hold⟩, hnew⟩
      refine ⟨hv, ?_⟩
      rintro (hrenewed | ⟨hlasts, hw⟩)
      · exact hold hrenewed
      · exact hnew ⟨⟨hv, hlasts⟩, hw⟩
    · rintro ⟨hv, hnot⟩
      exact ⟨⟨hv, fun hrenewed => hnot (Or.inl hrenewed)⟩, fun hnew =>
        hnot (Or.inr ⟨hnew.1.2, hnew.2⟩)⟩
  owes_iff v := by
    rw [hp.owes_iff htr hfinds h.ledger.lt_size, h.owes_iff v, lasts_concat_iff, and_assoc]

theorem before (htr : Tracked c l [] s) (h : Account c W k j later s)
    (hm : ((Event.before c.alloc id i).forM (Event.perform c id)) s = .ok () m) :
    Account c W k j (later ++ Event.before c.alloc id i) m := by
  refine htr.builds (P := fun done => Account c W k j (later ++ done))
    ((List.append_nil later).symm ▸ h) (List.append_nil _).symm hm
    fun pre e u u' he htr haccount hp => ?_
  rw [← List.append_assoc]
  exact haccount.perform htr (finds_of_early he) hp

theorem after (hlate : Late c l i [] m.release) (h : Account c W k j later m)
    (ht : ((Event.after i).forM (Event.perform c id)) m.release = .ok () t) :
    Account c W k j (later ++ Event.after i) t := by
  refine hlate.builds (P := fun done => Account c W k j (later ++ done))
    ((List.append_nil later).symm ▸ h.congr rfl rfl) (List.append_nil _).symm ht
    fun pre e post u u' hall hlate haccount hp => ?_
  rw [← List.append_assoc]
  exact haccount.perform hlate.tracked (hlate.finds hall) hp

/-- **Every instruction that follows keeps the account.** -/
theorem next (htr : Tracked c l [] s) (hres : s.reserved = []) (h : Account c W k j later s)
    (hs : lowerInst c id i s = .ok () s') :
    Account c W k j (later ++ Event.ofInst c.alloc id i) s' := by
  obtain ⟨m, t, hm, ht, rfl⟩ := lowerInst_eq_ok_iff.1 hs
  have hlate := Late.start (i := i) (htr.before hm) (reading_of_before hres hm)
  rw [Event.ofInst, ← List.append_assoc]
  exact ((h.before htr hm).after hlate ht).push

/-- **At the end of a block** an instruction has behind it one store of each value that it made and
that was not renewed by what followed. -/
theorem settled {l' : List Inst} (htr : Tracked c l [] s) (hres : s.reserved = [])
    (h : Account c W k j later s) (hs : lowerEach c n l' s = .ok () t)
    (hflush : flush c t = .ok () s') : ∃ js, s'.out[k]? = some ⟨j, js⟩ ∧
      OneEach c.StoreOf
        (fun v => W v ∧ ¬ Renewed c.alloc (later ++ history c.alloc c.block n l') v) js := by
  induction l' generalizing l n later s with
  | nil =>
    obtain rfl := lowerEach_nil_eq_ok_iff.1 hs
    obtain ⟨js, hentry, hjs⟩ := (h.ledger.vacates htr hflush).stores
    refine ⟨js, hentry, hjs.congr fun v => ?_⟩
    rw [history, List.append_nil]
    refine and_iff_left ?_
    rintro ⟨r, -, hx⟩
    exact Option.some_ne_none _ (hx.symm.trans ((flush_empties hflush).get?_of_gone rfl))
  | cons i l' ih =>
    obtain ⟨w, u, hw, hi, hrest⟩ := lowerEach_cons_eq_ok_iff.1 hs
    obtain ⟨htr', hres'⟩ := htr.next hres hi
    rw [history, ← List.append_assoc, ← eq_ofNat_of_word hw]
    exact ih htr' hres' (h.next htr hres hi) hrest

end Account

end Residency

import Residency.Proofs.Residents

/-!
# Inside an instruction

Between two instructions every value that counts is older than the instruction to come. The
events of an instruction disturb that and put it right again, and what holds in between
depends on the events that are done.

* Before the place of the instruction, the values read so far are held in registers that are
  reserved for them (`Residency.Reading`).
* Behind its place, a value is either older than the instruction, and then in a register that
  no event so far has hit, or written by an event so far (`Residency.Midway`). No event hits
  the register of a value that an earlier event has written, except to write it again.

When all events are done and the instruction joins the lowered block, the second fact becomes
the first fact of the next instruction (`Residency.Between.next`).
-/

namespace Residency

open Step

variable {c : Context} {id : Site} {i : Inst} {e : Event} {done : List Event}
  {s s' t m : State} {made made' : VReg → Nat → Inst → Prop}

/-- What a successful eviction says of the values that it evicts. -/
theorem vacatable_of_evict {r q : Reg} (he : evict c r s = .ok () s')
    (hq : r.overlaps q = true) : Vacatable c s q :=
  evict_succeeds_iff.1 ⟨s', he⟩ q hq

/-- An eviction that succeeds spares the values that the instruction at hand has written: they have
no place yet that a store could stand behind. -/
theorem overlaps_eq_false_of_evict {r q : Reg} {v : VReg} (he : evict c r s = .ok () s')
    (hx : s.table.get? q = some ⟨v, true, s.out.size⟩) : r.overlaps q = false :=
  Bool.eq_false_iff.2 fun hov =>
    absurd ((vacatable_of_evict he hov _ hx).2 rfl).1 (Nat.lt_irrefl _)

/-! ### Before the place of an instruction -/

/-- Events of an instruction before its place: folds and reads. -/
def Event.Early : Event → Prop
  | .fold _ => True
  | .read _ => True
  | _ => False

theorem Event.early_of_mem_before {a : Allocation} (h : e ∈ Event.before a id i) : e.Early := by
  rcases Event.mem_before_iff.1 h with ⟨v, rfl, -⟩ | ⟨v, rfl, -⟩ <;> trivial

theorem Event.not_early_of_mem_after (h : e ∈ Event.after i) : ¬ e.Early := by
  rcases Event.mem_after_iff.1 h with ⟨v, rfl, -⟩ | ⟨v, rfl, -⟩ | ⟨r, rfl, -⟩ <;> exact not_false

/-- What holds before the place of an instruction, when some of its events are done. -/
structure Reading (c : Context) (done : List Event) (s : State) : Prop where
  /-- A value that was read is in its register, which is reserved for it. -/
  held : ∀ {v : VReg}, .read v ∈ done →
    ∃ r, c.alloc.reg? v = .ok (some r) ∧ r ∈ s.reserved ∧ s.table.holds r v = true
  /-- No other register is reserved. -/
  only : ∀ {r : Reg}, r ∈ s.reserved → ∃ v, .read v ∈ done ∧ c.alloc.reg? v = .ok (some r)

theorem Reading.start (h : s.reserved = []) : Reading c [] s where
  held h := nomatch h
  only hr := by
    rw [h] at hr
    cases hr

/-- An eviction that succeeds spares the registers that are reserved. -/
theorem Reading.of_evict {r : Reg} (h : Reading c done s) (he : evict c r s = .ok () t) :
    Reading c done t where
  held hv := by
    obtain ⟨q, hq, hres, hh⟩ := h.held hv
    refine ⟨q, hq, (evict_empties he).reserved ▸ hres, ?_⟩
    obtain ⟨x, hx, hxv⟩ := Table.holds_iff.1 hh
    refine Table.holds_iff.2 ⟨x, ?_, hxv⟩
    rw [(evict_empties he).get?_of_kept, hx]
    exact Bool.eq_false_iff.2 fun hov => (vacatable_of_evict he hov x hx).1 hres
  only hr := h.only ((evict_empties he).reserved ▸ hr)

/-- A value that is read next: it is in its register, which is reserved from now on. -/
theorem Reading.reserve {v : VReg} {r : Reg} (h : Reading c done s)
    (hr : c.alloc.reg? v = .ok (some r)) (hh : s.table.holds r v = true) :
    Reading c (done ++ [.read v]) (s.reserve r) where
  held {u} hu := by
    rw [State.table_reserve]
    rcases List.mem_append.1 hu with hu | hu
    · obtain ⟨q, hq, hres, hhq⟩ := h.held hu
      exact ⟨q, hq, State.mem_reserve.2 (Or.inl hres), hhq⟩
    · obtain rfl : u = v := by simpa using hu
      exact ⟨r, hr, State.mem_reserve.2 (Or.inr rfl), hh⟩
  only {q} hq := by
    rcases State.mem_reserve.1 hq with hq | rfl
    · obtain ⟨u, hu, hq⟩ := h.only hq
      exact ⟨u, List.mem_append_left _ hu, hq⟩
    · exact ⟨v, by simp, hr⟩

/-- A value comes into a register that was evicted for it. -/
theorem Reading.hold {x : Resident} {r : Reg} (h : Reading c done s)
    (hfree : s.table.get? r = none) : Reading c done (s.hold r x) where
  held hv := by
    obtain ⟨q, hq, hres, hh⟩ := h.held hv
    obtain ⟨y, hy, hyv⟩ := Table.holds_iff.1 hh
    have hne : q ≠ r := by
      rintro rfl
      exact absurd (hy.symm.trans hfree) nofun
    exact ⟨q, hq, hres, Table.holds_iff.2
      ⟨y, by rw [State.hold, Table.get?_hold, if_neg hne, hy], hyv⟩⟩
  only hr := h.only hr

theorem Reading.congr (h : Reading c done s) (ht : s'.table = s.table)
    (hr : s'.reserved = s.reserved) : Reading c done s' where
  held := by
    rw [ht, hr]
    exact h.held
  only := by
    rw [hr]
    exact h.only

/-- A fold adds nothing to what was read. -/
theorem Reading.fold {v : VReg} (h : Reading c done s) : Reading c (done ++ [.fold v]) s where
  held hu := h.held (by simpa using hu)
  only hr := by
    obtain ⟨u, hu, hr⟩ := h.only hr
    exact ⟨u, List.mem_append_left _ hu, hr⟩

/-- **Every event before the place of an instruction keeps the values that it reads.** -/
theorem Reading.perform (he : e.Early) (h : Reading c done s) (hp : Performed c s e s') :
    Reading c (done ++ [e]) s' := by
  cases hp with
  | foldAway hr => exact h.fold
  | foldAbsent hr hh => exact h.fold
  | fold hr hh hev =>
    have hcount : Reading c done (s.count .foldEvictions) := h.congr rfl rfl
    exact (hcount.of_evict hev).fold
  | readHeld hr hh => exact h.reserve hr hh
  | @readLoaded v r t slot cls i hr hh hev hs hc hi =>
    have hfree := get?_of_evict hev
    have hcount : Reading c done
        ((((t.request (.load v slot r)).log c.level (.loaded c.block v slot r)).push i).count
          .reloads) :=
      (h.of_evict hev).congr rfl rfl
    exact (hcount.hold hfree).reserve hr
      (Table.holds_of_get? (x := ⟨v, false, t.out.size⟩) (by simp [State.hold]))
  | @readFound v r t hr hh hev hs =>
    have hfree := get?_of_evict hev
    exact ((h.of_evict hev).hold hfree).reserve hr
      (Table.holds_of_get? (x := ⟨v, false, t.out.size⟩) (by simp [State.hold]))
  | modify hr hx => exact he.elim
  | redefine hr hh => exact he.elim
  | define hr hh hev => exact he.elim
  | overwrite hev => exact he.elim

theorem reading_of_before (h : s.reserved = [])
    (hs : ((Event.before c.alloc id i).forM (Event.perform c id)) s = .ok () m) :
    Reading c (Event.before c.alloc id i) m := by
  refine forM_builds (P := Reading c) (fun done e rest hall t t' ht hp => ?_) (.start h) hs
  have hmem : e ∈ Event.before c.alloc id i := by simp [hall]
  exact ht.perform (Event.early_of_mem_before hmem) (perform_eq_ok_iff.1 hp)

/-- At the place of an instruction, everything that it reads is in its register. -/
theorem Reading.held_of_reads {v : VReg} (h : Reading c (Event.before c.alloc id i) s)
    (hv : i.Reads v) : ∃ r, c.alloc.reg? v = .ok (some r) ∧ s.table.holds r v = true := by
  obtain ⟨r, hr, -, hh⟩ := h.held (Event.mem_before_iff.2 (Or.inr ⟨v, rfl, hv⟩))
  exact ⟨r, hr, hh⟩

/-! ### Behind the place of an instruction -/

/-- What holds behind the place of an instruction, when some of its events are done. A value
that an earlier instruction put into its register was `made` there, and the position at which
it was made is that of the instruction. -/
structure Midway (c : Context) (made : VReg → Nat → Inst → Prop) (done : List Event)
    (s : State) : Prop where
  /-- A value that counts is older than the instruction, or written by it. -/
  age : ∀ {r : Reg} {x : Resident}, s.table.get? r = some x → Backed c x →
    x.since < s.out.size ∨
      x.dirty = true ∧ x.since = s.out.size ∧ ∃ e ∈ done, e.Writes x.vreg
  /-- An older value that is dirty was made by the instruction at its position. -/
  maker : ∀ {r : Reg} {x : Resident}, s.table.get? r = some x → x.dirty = true →
    x.since < s.out.size → ∃ e, s.out[x.since]? = some e ∧ made x.vreg x.since e.inst
  /-- No event has hit the register of an older value. -/
  spared : ∀ {r : Reg} {x : Resident}, s.table.get? r = some x → Backed c x →
    x.since < s.out.size → ∀ {e : Event}, e ∈ done → ¬ e.Hits c.alloc r
  /-- A value that was written is still there. -/
  kept : ∀ {e : Event} {v : VReg}, e ∈ done → e.Writes v →
    ∃ r, c.alloc.reg? v = .ok (some r) ∧ s.table.get? r = some ⟨v, true, s.out.size⟩
  /-- No event has overwritten a register that an earlier one wrote a value to. -/
  clash : done.Pairwise fun e e' => e'.Spares c.alloc e

namespace Midway

theorem start : Midway c made [] {} where
  age h := nomatch h
  maker h := nomatch h
  spared h := nomatch h
  kept h := nomatch h
  clash := .nil

theorem congr (h : Midway c made done s) (ht : s'.table = s.table) (ho : s'.out = s.out) :
    Midway c made done s' where
  age := by
    rw [ht, ho]
    exact h.age
  maker := by
    rw [ht, ho]
    exact h.maker
  spared := by
    rw [ht, ho]
    exact h.spared
  kept := by
    rw [ht, ho]
    exact h.kept
  clash := h.clash

/-- Before the place of an instruction every value that counts is older than it. -/
theorem older {r : Reg} {x : Resident} (h : Midway c made [] s) (hx : s.table.get? r = some x)
    (hb : Backed c x) : x.since < s.out.size := by
  rcases h.age hx hb with hlt | ⟨-, -, e, hmem, -⟩
  · exact hlt
  · cases hmem

/-- An eviction that succeeds spares the registers of the virtual registers that were written. -/
theorem not_overlaps_of_evict {r q : Reg} {v : VReg} (h : Midway c made done s)
    (he : evict c r s = .ok () t) (hmem : e ∈ done) (hw : e.Writes v)
    (hq : c.alloc.reg? v = .ok (some q)) : r.overlaps q = false := by
  obtain ⟨q', hq', hx⟩ := h.kept hmem hw
  obtain rfl := Allocation.reg_unique hq hq'
  exact overlaps_eq_false_of_evict he hx

theorem of_evict {r : Reg} (h : Midway c made done s) (he : evict c r s = .ok () t) :
    Midway c made done t where
  age hx hb := by
    rw [(evict_empties he).size]
    exact h.age ((evict_empties he).resident hx).2 hb
  maker hx hd hk := by
    rw [(evict_empties he).size] at hk
    obtain ⟨e, hentry, hmade⟩ := h.maker ((evict_empties he).resident hx).2 hd hk
    obtain ⟨e', hentry', hinst⟩ := (evict_empties he).entry' hentry
    exact ⟨e', hentry', hinst ▸ hmade⟩
  spared hx hb hk := by
    rw [(evict_empties he).size] at hk
    exact h.spared ((evict_empties he).resident hx).2 hb hk
  kept hmem hw := by
    obtain ⟨q, hq, hx⟩ := h.kept hmem hw
    refine ⟨q, hq, ?_⟩
    rw [(evict_empties he).get?_of_kept (h.not_overlaps_of_evict he hmem hw hq), hx,
      (evict_empties he).size]
  clash := h.clash

/-- A register is overwritten that was evicted for it. -/
theorem overwrite {r : Reg} (h : Midway c made done s) (he : evict c r s = .ok () t) :
    Midway c made (done ++ [.overwrite r]) t where
  age hx hb := by
    rcases (h.of_evict he).age hx hb with hlt | ⟨hd, heq, e, hmem, hw⟩
    · exact Or.inl hlt
    · exact Or.inr ⟨hd, heq, e, List.mem_append_left _ hmem, hw⟩
  maker := (h.of_evict he).maker
  spared hx hb hk e hmem := by
    rcases List.mem_append.1 hmem with hmem | hmem
    · exact (h.of_evict he).spared hx hb hk hmem
    · obtain rfl : e = .overwrite r := by simpa using hmem
      exact Bool.eq_false_iff.1 ((evict_empties he).resident hx).1
  kept hmem hw := by
    rcases List.mem_append.1 hmem with hmem | hmem
    · exact (h.of_evict he).kept hmem hw
    · rw [List.mem_singleton.1 hmem] at hw
      rcases hw with hw | hw <;> cases hw
  clash := by
    refine List.pairwise_append.2 ⟨h.clash, by simp, fun e hmem e' he' v q q' hw hq hover => ?_⟩
    obtain rfl : e' = .overwrite r := by simpa using he'
    cases hover
    exact h.not_overlaps_of_evict he hmem hw hq

/-- A value is written into its register, in which nothing else is any more. -/
theorem write {r : Reg} {v : VReg} (h : Midway c made done s) (hw : e.Writes v)
    (hr : c.alloc.reg? v = .ok (some r))
    (hfree : ∀ q, q ≠ r → r.overlaps q = true → s.table.get? q = none)
    (hsame : ∀ x, s.table.get? r = some x → x.vreg = v) :
    Midway c made (done ++ [e]) (s.hold r ⟨v, true, s.out.size⟩) := by
  refine ⟨fun hx hb => ?_, fun hx hd hk => ?_, fun {q _} hx hb hk e' hmem => ?_,
    fun {e' u} hmem hw' => ?_, ?_⟩
  · rcases State.get?_hold_eq_some_iff.1 hx with ⟨-, rfl⟩ | ⟨-, hx'⟩
    · exact Or.inr ⟨rfl, rfl, e, by simp, hw⟩
    · rcases h.age hx' hb with hlt | ⟨hd, heq, e', hmem, hw'⟩
      · exact Or.inl hlt
      · exact Or.inr ⟨hd, heq, e', List.mem_append_left _ hmem, hw'⟩
  · rcases State.get?_hold_eq_some_iff.1 hx with ⟨-, rfl⟩ | ⟨-, hx'⟩
    · exact absurd hk (Nat.lt_irrefl _)
    · exact h.maker hx' hd hk
  · rcases State.get?_hold_eq_some_iff.1 hx with ⟨-, rfl⟩ | ⟨hne, hx'⟩
    · exact absurd hk (Nat.lt_irrefl _)
    · rcases List.mem_append.1 hmem with hmem | hmem
      · exact h.spared hx' hb hk hmem
      · obtain rfl : e' = e := by simpa using hmem
        have hhit : ¬ ∃ p, c.alloc.reg? v = .ok (some p) ∧ p.overlaps q = true := by
          rintro ⟨p, hp, hov⟩
          obtain rfl := Allocation.reg_unique hr hp
          exact absurd (hx'.symm.trans (hfree _ hne hov)) nofun
        rcases hw with rfl | rfl <;> exact hhit
  · have hnew : ∀ {u}, u = v → ∃ q, c.alloc.reg? u = .ok (some q) ∧
        (s.hold r ⟨v, true, s.out.size⟩).table.get? q = some ⟨u, true, s.out.size⟩ := by
      rintro u rfl
      exact ⟨r, hr, by simp [State.hold]⟩
    rcases List.mem_append.1 hmem with hmem | hmem
    · obtain ⟨q, hq, hx⟩ := h.kept hmem hw'
      by_cases hqr : q = r
      · exact hnew (hsame _ (hqr ▸ hx))
      · exact ⟨q, hq, by rw [State.hold, Table.get?_hold, if_neg hqr, hx]⟩
    · obtain rfl : e' = e := by simpa using hmem
      refine hnew ?_
      rcases hw with rfl | rfl <;> rcases hw' with hw' | hw' <;> cases hw' <;> rfl
  · refine List.pairwise_append.2 ⟨h.clash, by simp, fun e₁ _ e' he' _ _ q _ _ hover => ?_⟩
    obtain rfl : e' = e := by simpa using he'
    rcases hw with rfl | rfl <;> cases hover

/-- A value is loaded into a register that was evicted for it. -/
theorem load {r : Reg} {v : VReg} (h : Midway c made [] s) :
    Midway c made [] ((s.push i).hold r ⟨v, false, s.out.size⟩) where
  age {q x} hx hb := by
    refine Or.inl ?_
    change x.since < (s.push i).out.size
    refine State.size_push ▸ Nat.lt_succ_of_le ?_
    rcases State.get?_hold_eq_some_iff.1 hx with ⟨-, rfl⟩ | ⟨-, hx'⟩
    · exact Nat.le_refl _
    · exact Nat.le_of_lt (h.older hx' hb)
  maker hx hd _ := by
    rcases State.get?_hold_eq_some_iff.1 hx with ⟨-, rfl⟩ | ⟨-, hx'⟩
    · cases hd
    · have hlt := h.older hx' (Or.inl hd)
      obtain ⟨e, he, hmade⟩ := h.maker hx' hd hlt
      refine ⟨e, ?_, hmade⟩
      rw [State.hold, State.push, Array.getElem?_push, if_neg (Nat.ne_of_lt hlt), he]
  spared _ _ _ _ hmem := nomatch hmem
  kept hmem := nomatch hmem
  clash := .nil

/-- A value without a slot is taken to be in its register. -/
theorem find {r : Reg} {v : VReg} (h : Midway c made [] s) (hs : c.alloc.slot? v = .ok none) :
    Midway c made [] (s.hold r ⟨v, false, s.out.size⟩) where
  age hx hb := by
    rcases State.get?_hold_eq_some_iff.1 hx with ⟨-, rfl⟩ | ⟨-, hx'⟩
    · rcases hb with hb | ⟨slot, hs'⟩
      · cases hb
      · exact absurd (hs.symm.trans hs') nofun
    · exact h.age hx' hb
  maker hx hd hk := by
    rcases State.get?_hold_eq_some_iff.1 hx with ⟨-, rfl⟩ | ⟨-, hx'⟩
    · cases hd
    · exact h.maker hx' hd hk
  spared _ _ _ _ hmem := nomatch hmem
  kept hmem := nomatch hmem
  clash := .nil

theorem perform_early (he : e.Early) (h : Midway c made [] s) (hp : Performed c s e s') :
    Midway c made [] s' := by
  cases hp with
  | foldAway hr => exact h
  | foldAbsent hr hh => exact h
  | fold hr hh hev =>
    have hcount : Midway c made [] (s.count .foldEvictions) := h.congr rfl rfl
    exact hcount.of_evict hev
  | readHeld hr hh => exact h.congr (State.table_reserve _ _) (State.out_reserve _ _)
  | readLoaded hr hh hev hs hc hi =>
    exact (h.of_evict hev).load.congr (State.table_reserve _ _) (State.out_reserve _ _)
  | readFound hr hh hev hs =>
    exact ((h.of_evict hev).find hs).congr (State.table_reserve _ _) (State.out_reserve _ _)
  | modify hr hx => exact he.elim
  | redefine hr hh => exact he.elim
  | define hr hh hev => exact he.elim
  | overwrite hev => exact he.elim

/-- **Every event behind the place of an instruction** adds to what has been written and
hit. A value that is changed in place must be there. -/
theorem perform_late (he : ¬ e.Early) (hco : Coherent c s) (h : Midway c made done s)
    (hheld : ∀ v r, e = .modify v → c.alloc.reg? v = .ok (some r) →
      s.table.holds r v = true)
    (hp : Performed c s e s') : Midway c made (done ++ [e]) s' := by
  cases hp with
  | foldAway hr => exact absurd trivial he
  | foldAbsent hr hh => exact absurd trivial he
  | fold hr hh hev => exact absurd trivial he
  | readHeld hr hh => exact absurd trivial he
  | readLoaded hr hh hev hs hc hi => exact absurd trivial he
  | readFound hr hh hev hs => exact absurd trivial he
  | @modify v r x hr hx =>
    obtain ⟨y, hy, hv⟩ := Table.holds_iff.1 (hheld v r rfl hr)
    obtain rfl := Option.some.inj (hx.symm.trans hy)
    rw [hv]
    refine h.write (Or.inl rfl) hr (fun q hne hq => hco.get?_eq_none hx hne hq) fun z hz => ?_
    rw [← hv, Option.some.inj (hz.symm.trans hx)]
  | @redefine v r hr hh =>
    obtain ⟨x, hx, hv⟩ := Table.holds_iff.1 hh
    refine h.write (Or.inr rfl) hr (fun q hne hq => hco.get?_eq_none hx hne hq) fun z hz => ?_
    rw [← hv, Option.some.inj (hz.symm.trans hx)]
  | @define v r t hr hh hev =>
    refine (h.of_evict hev).write (Or.inr rfl) hr
      (fun q _ hq => (evict_empties hev).get?_of_gone hq) fun z hz => ?_
    exact absurd (hz.symm.trans (get?_of_evict hev)) nofun
  | overwrite hev => exact h.overwrite hev

/-- When all events are done, everything that the instruction writes is in its register. -/
theorem kept_of_writes {v : VReg} (h : Midway c made (Event.after i) s) (hv : i.Writes v) :
    ∃ r, c.alloc.reg? v = .ok (some r) ∧ s.table.get? r = some ⟨v, true, s.out.size⟩ := by
  obtain ⟨e, he, hw⟩ := Event.exists_mem_after_writes_iff.2 hv
  exact h.kept he hw

/-- **The instruction takes its place**: what it has written is older than the next one. -/
theorem push {j : Inst} (h : Midway c made (Event.after i) s)
    (hmono : ∀ v k j, made v k j → made' v k j)
    (hnew : ∀ v, i.Writes v → made' v s.out.size j) : Midway c made' [] (s.push j) where
  age hx hb := by
    refine Or.inl (State.size_push ▸ Nat.lt_succ_of_le ?_)
    rcases h.age hx hb with hlt | ⟨-, heq, -⟩
    · exact Nat.le_of_lt hlt
    · exact Nat.le_of_eq heq
  maker hx hd _ := by
    rcases h.age hx (Or.inl hd) with hlt | ⟨-, heq, hw⟩
    · obtain ⟨e, he, hmade⟩ := h.maker hx hd hlt
      refine ⟨e, ?_, hmono _ _ _ hmade⟩
      rw [State.push, Array.getElem?_push, if_neg (Nat.ne_of_lt hlt), he]
    · refine ⟨{ inst := j }, ?_, ?_⟩
      · rw [State.push, heq, Array.getElem?_push_size]
      · rw [heq]
        exact hnew _ (Event.exists_mem_after_writes_iff.1 hw)
  spared _ _ _ _ hmem := nomatch hmem
  kept hmem := nomatch hmem
  clash := .nil

end Midway

end Residency

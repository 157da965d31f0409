import Residency.Proofs.Tracked
import Residency.Proofs.Trustworthy

/-!
# Which folded values stay in a register

An instruction that a value is folded into works on the slot of the value, so a copy in a
register is out of date afterwards unless the instruction has written it as well. Before the
instruction is in its place, the copy is evicted; but then the reads follow, and an operand that
reads the value brings it back (`Residency.Event.before`).

So a copy is left behind in two cases (`Residency.folded_left_iff`). A dirty copy is left exactly
when the instruction writes the virtual register. A clean one is left exactly when the
instruction reads the virtual register by an operand and does not overwrite its register. In the
second case nothing says that the copy is still what the slot holds
(`Residency.folded_copy_not_always_written`).
-/

namespace Residency

open Step

variable {c : Context} {id : Site} {i : Inst} {e : Event} {done : List Event} {l : List Inst}
  {s s' t m : State} {r q : Reg} {v : VReg} {x : Resident}

/-! ### Up to the place of an instruction -/

/-- A value that was folded and is in a register all the same has been read, and is clean. -/
def ReadBack (done : List Event) (s : State) : Prop :=
  ∀ (r : Reg) (x : Resident), s.table.get? r = some x → .fold x.vreg ∈ done →
    .read x.vreg ∈ done ∧ x.dirty = false

/-- Behind a fold its value is in no register. -/
theorem Tracked.ne_of_fold (h : Tracked c l [] s) (hp : Performed c s (.fold v) s')
    (hx : s'.table.get? r = some x) : x.vreg ≠ v := by
  rintro rfl
  cases hp with
  | foldAway hr => cases hr.symm.trans (h.placed hx)
  | foldAbsent hr hh =>
    obtain rfl := Allocation.reg_unique hr (h.placed hx)
    exact absurd (hh.symm.trans (Table.holds_of_get? hx)) nofun
  | fold hr hh he =>
    obtain ⟨hkept, hx⟩ := (evict_empties he).resident hx
    obtain rfl := Allocation.reg_unique hr (h.placed hx)
    exact absurd (hkept.symm.trans (Reg.overlaps_refl _)) nofun

theorem ReadBack.perform (he : e.Early) (htr : Tracked c l [] s) (h : ReadBack done s)
    (hp : Performed c s e s') : ReadBack (done ++ [e]) s' := by
  intro r x hx hfold
  rcases hp.resident hx with hold | ⟨rfl, -, hclean⟩ | ⟨v, y, rfl, -⟩ | ⟨rfl, -⟩
  · have hmem : .fold x.vreg ∈ done := by
      rcases List.mem_append.1 hfold with hmem | hmem
      · exact hmem
      · obtain rfl := List.mem_singleton.1 hmem
        exact absurd rfl (htr.ne_of_fold hp hx)
    exact (h r x hold hmem).imp_left fun hread => List.mem_append_left _ hread
  · exact ⟨by simp, hclean⟩
  · exact he.elim
  · exact he.elim

theorem readBack_of_before (htr : Tracked c l [] s)
    (hm : ((Event.before c.alloc id i).forM (Event.perform c id)) s = .ok () m) :
    ReadBack (Event.before c.alloc id i) m :=
  htr.builds (P := ReadBack) (fun _ _ _ h => nomatch h) (List.append_nil _).symm hm
    fun _ _ _ _ he htr hread hp => hread.perform he htr hp

/-! ### Behind the place of an instruction -/

/-- What some events behind the place of an instruction have made of the values that were in the
registers, in the state `m`, when its place was settled. -/
structure Changed (c : Context) (m : State) (done : List Event) (s : State) : Prop where
  /-- A value was written by one of the events, or no event has hit its register. -/
  origin : ∀ {r : Reg} {x : Resident}, s.table.get? r = some x →
    (x.dirty = true ∧ ∃ e ∈ done, e.Writes x.vreg) ∨
      m.table.get? r = some x ∧ ∀ e ∈ done, ¬ e.Hits c.alloc r
  /-- What no event has hit is as it was. -/
  spared : ∀ {r : Reg}, (∀ e ∈ done, ¬ e.Hits c.alloc r) → s.table.get? r = m.table.get? r
  /-- What was written is there, and as old as the instruction. -/
  kept : ∀ {e : Event} {v : VReg}, e ∈ done → e.Writes v →
    ∃ r, c.alloc.reg? v = .ok (some r) ∧ s.table.get? r = some ⟨v, true, s.out.size⟩

namespace Changed

theorem start : Changed c m [] m.release where
  origin hx := Or.inr ⟨hx, nofun⟩
  spared _ := rfl
  kept h := nomatch h

/-- A register that no other event has hit. -/
theorem not_hits_concat (h : ∀ e' ∈ done, ¬ e'.Hits c.alloc r) (he : ¬ e.Hits c.alloc r) :
    ∀ e' ∈ done ++ [e], ¬ e'.Hits c.alloc r := by
  intro e' he'
  rcases List.mem_append.1 he' with he' | he'
  · exact h e' he'
  · obtain rfl := List.mem_singleton.1 he'
    exact he

/-- An eviction that succeeds spares the registers of the virtual registers that were written. -/
theorem not_overlaps (h : Changed c m done s) (he : evict c r s = .ok () t) (hmem : e ∈ done)
    (hw : e.Writes v) (hq : c.alloc.reg? v = .ok (some q)) : r.overlaps q = false := by
  obtain ⟨q', hq', hx⟩ := h.kept hmem hw
  obtain rfl := Allocation.reg_unique hq hq'
  exact overlaps_eq_false_of_evict he hx

/-- A register is overwritten that was evicted for it. -/
theorem overwrite (h : Changed c m done s) (he : evict c r s = .ok () t) :
    Changed c m (done ++ [.overwrite r]) t where
  origin {q x} hx := by
    obtain ⟨hov, hold⟩ := (evict_empties he).resident hx
    rcases h.origin hold with ⟨hd, e, hmem, hw⟩ | ⟨hm, hspared⟩
    · exact Or.inl ⟨hd, e, List.mem_append_left _ hmem, hw⟩
    · exact Or.inr ⟨hm, not_hits_concat hspared (Bool.eq_false_iff.1 hov)⟩
  spared {q} hq := by
    have hov : r.overlaps q = false := Bool.eq_false_iff.2 (hq (.overwrite r) (by simp))
    rw [(evict_empties he).get?_of_kept hov]
    exact h.spared fun e hmem => hq e (List.mem_append_left _ hmem)
  kept hmem hw := by
    rcases List.mem_append.1 hmem with hmem | hmem
    · obtain ⟨q, hq, hx⟩ := h.kept hmem hw
      refine ⟨q, hq, ?_⟩
      rw [(evict_empties he).get?_of_kept (h.not_overlaps he hmem hw hq), hx,
        (evict_empties he).size]
    · rw [List.mem_singleton.1 hmem] at hw
      rcases hw with hw | hw <;> cases hw

/-- A value is written into its register. What overlapped the register is gone, unless it was an
earlier value that the instruction at hand has written to the same virtual register. -/
theorem write (h : Changed c m done s) (hw : e.Writes v) (hr : c.alloc.reg? v = .ok (some r))
    (hsize : t.out.size = s.out.size)
    (hkept : ∀ q, r.overlaps q = false → t.table.get? q = s.table.get? q)
    (hgone : ∀ q, q ≠ r → r.overlaps q = true → t.table.get? q = none)
    (hown : ∀ q x, s.table.get? q = some x → r.overlaps q = true → x.dirty = true →
      x.since = s.out.size → x.vreg = v) :
    Changed c m (done ++ [e]) (t.hold r ⟨v, true, t.out.size⟩) := by
  have hhits : ∀ {q}, e.Hits c.alloc q → r.overlaps q = true := by
    rintro q hq
    rcases hw with rfl | rfl <;>
    · obtain ⟨p, hp, hov⟩ := hq
      rwa [Allocation.reg_unique hr hp]
  refine ⟨fun {q x} hx => ?_, fun {q} hq => ?_, fun {e' u} hmem hw' => ?_⟩
  · rcases State.get?_hold_eq_some_iff.1 hx with ⟨-, rfl⟩ | ⟨hne, hold⟩
    · exact Or.inl ⟨rfl, e, by simp, hw⟩
    · have hov : r.overlaps q = false := Bool.eq_false_iff.2 fun hov =>
        absurd (hold.symm.trans (hgone q hne hov)) nofun
      rcases h.origin ((hkept q hov).symm.trans hold) with ⟨hd, e', hmem, hw'⟩ | ⟨hm, hspared⟩
      · exact Or.inl ⟨hd, e', List.mem_append_left _ hmem, hw'⟩
      · refine Or.inr ⟨hm, not_hits_concat hspared fun hhit => ?_⟩
        exact absurd (hov.symm.trans (hhits hhit)) nofun
  · have hov : r.overlaps q = false := Bool.eq_false_iff.2 fun hov =>
      hq e (by simp) (hw.hits hr hov)
    have hne : q ≠ r := by
      rintro rfl
      exact absurd (hov.symm.trans (Reg.overlaps_refl q)) nofun
    rw [State.hold, Table.get?_hold, if_neg hne, hkept q hov]
    exact h.spared fun e' hmem => hq e' (List.mem_append_left _ hmem)
  · have hnew : ∃ q, c.alloc.reg? v = .ok (some q) ∧
        (t.hold r ⟨v, true, t.out.size⟩).table.get? q = some ⟨v, true, t.out.size⟩ :=
      ⟨r, hr, by simp [State.hold]⟩
    rcases List.mem_append.1 hmem with hmem | hmem
    · obtain ⟨q, hq, hx⟩ := h.kept hmem hw'
      -- Two values written by one instruction overlap only if they are of one virtual register.
      cases hov : r.overlaps q with
      | true =>
        obtain rfl : u = v := hown q _ hx hov rfl rfl
        exact hnew
      | false =>
        have hne : q ≠ r := by
          rintro rfl
          exact absurd (hov.symm.trans (Reg.overlaps_refl q)) nofun
        refine ⟨q, hq, ?_⟩
        rw [State.hold, Table.get?_hold, if_neg hne, hkept q hov, hx]
        exact congrArg (fun k => some (Resident.mk u true k)) hsize.symm
    · obtain rfl := List.mem_singleton.1 hmem
      obtain rfl : u = v := by
        rcases hw with rfl | rfl <;> rcases hw' with hw' | hw' <;> cases hw' <;> rfl
      exact hnew

/-- A value takes the place of one of the same virtual register. -/
theorem rewrite (htr : Tracked c l done s) (h : Changed c m done s) (hw : e.Writes v)
    (hr : c.alloc.reg? v = .ok (some r)) (hh : s.table.holds r v = true) :
    Changed c m (done ++ [e]) (s.hold r ⟨v, true, s.out.size⟩) := by
  obtain ⟨y, hy, rfl⟩ := Table.holds_iff.1 hh
  refine h.write hw hr rfl (fun _ _ => rfl) (fun _ => htr.get?_eq_none hy) fun q x hx hov _ _ => ?_
  obtain rfl := htr.apart hy hx hov
  exact congrArg Resident.vreg (Option.some.inj (hx.symm.trans hy))

theorem perform {rest : List Event} (hlate : Late c l i done s) (h : Changed c m done s)
    (hsplit : Event.after i = done ++ e :: rest) (hp : Performed c s e s') :
    Changed c m (done ++ [e]) s' := by
  have he := Event.not_early_of_mem_after (Event.mem_after_of_append hsplit)
  cases hp with
  | foldAway hr => exact absurd trivial he
  | foldAbsent hr hh => exact absurd trivial he
  | fold hr hh hev => exact absurd trivial he
  | readHeld hr hh => exact absurd trivial he
  | readLoaded hr hh hev hs hc hi => exact absurd trivial he
  | readFound hr hh hev hs => exact absurd trivial he
  | modify hr hx =>
    have hh := hlate.held.found hsplit hr
    obtain ⟨y, hy, rfl⟩ := Table.holds_iff.1 hh
    obtain rfl := Option.some.inj (hx.symm.trans hy)
    exact h.rewrite hlate.tracked (Or.inl rfl) hr hh
  | redefine hr hh => exact h.rewrite hlate.tracked (Or.inr rfl) hr hh
  | define hr hh hev =>
    -- The eviction succeeded, so every dirty value that it moved is older than the instruction.
    refine h.write (Or.inr rfl) hr (evict_empties hev).size
      (fun _ => (evict_empties hev).get?_of_kept)
      (fun _ _ => (evict_empties hev).get?_of_gone) fun q x hx hov hd hk => ?_
    exact absurd ((vacatable_of_evict hev hov x hx).2 hd).1 (Nat.not_lt.2 (Nat.le_of_eq hk.symm))
  | overwrite hev => exact h.overwrite hev

end Changed

theorem changed_of_after (hlate : Late c l i [] m.release)
    (ht : ((Event.after i).forM (Event.perform c id)) m.release = .ok () t) :
    Changed c m (Event.after i) t :=
  hlate.builds (P := Changed c m) .start (List.append_nil _).symm ht
    fun _ _ _ _ _ hall hlate hchanged hp => hchanged.perform hlate hall hp

/-! ### A whole instruction -/

/-- What is left in the registers of a value that was folded into an instruction. -/
structure FoldedLeft (c : Context) (i : Inst) (v : VReg) (s : State) : Prop where
  /-- A dirty copy is left exactly when the instruction writes the virtual register. -/
  dirty_iff : (∃ r x, s.table.get? r = some x ∧ x.vreg = v ∧ x.dirty = true) ↔ i.Writes v
  /-- A clean copy is left exactly when the instruction reads the virtual register by an operand
  and leaves its register alone. -/
  clean_iff : (∃ r x, s.table.get? r = some x ∧ x.vreg = v ∧ x.dirty = false) ↔
    i.Reads v ∧ ∀ r, c.alloc.reg? v = .ok (some r) →
      (i.mapRefs c.alloc.substitute).overwrites r = false

theorem Tracked.foldedLeft (h : Tracked c l [] s) (hres : s.reserved = [])
    (hs : lowerInst c id i s = .ok () s') (hv : v ∈ c.alloc.foldedInto id) :
    FoldedLeft c i v s' := by
  obtain ⟨m, t, hm, ht, rfl⟩ := lowerInst_eq_ok_iff.1 hs
  have hreading := reading_of_before hres hm
  have hmid := h.before hm
  have hlate := late_of_append (.start hmid hreading) (List.append_nil _).symm ht
  have hchanged := changed_of_after (.start hmid hreading) ht
  have hback := readBack_of_before h hm
  have hfold : .fold v ∈ Event.before c.alloc id i := Event.mem_before_iff.2 (Or.inl ⟨v, rfl, hv⟩)
  constructor
  · constructor
    · rintro ⟨r, x, hx, rfl, hd⟩
      rcases hchanged.origin hx with ⟨-, hw⟩ | ⟨hold, -⟩
      · exact Event.exists_mem_after_writes_iff.1 hw
      · exact absurd ((hback r x hold hfold).2.symm.trans hd) nofun
    · intro hw
      obtain ⟨e, he, hw⟩ := Event.exists_mem_after_writes_iff.2 hw
      obtain ⟨r, -, hx⟩ := hchanged.kept he hw
      exact ⟨r, _, hx, rfl, rfl⟩
  · constructor
    · rintro ⟨r, x, hx, rfl, hd⟩
      rcases hchanged.origin hx with ⟨hd', -⟩ | ⟨hold, hspared⟩
      · exact absurd (hd.symm.trans hd') nofun
      obtain ⟨u, hu, -⟩ | ⟨u, hu, hread⟩ := Event.mem_before_iff.1 (hback r x hold hfold).1
      · cases hu
      cases hu
      refine ⟨hread, fun q hq => Bool.eq_false_iff.2 fun hover => ?_⟩
      obtain rfl := Allocation.reg_unique (hmid.placed hold) hq
      obtain ⟨e, he, hhit⟩ := Inst.exists_hits_of_overwrites hover
      exact hspared e he hhit
    · rintro ⟨hread, hover⟩
      obtain ⟨r, hr, hh⟩ := hreading.held_of_reads hread
      obtain ⟨x, hold, rfl⟩ := Table.holds_iff.1 hh
      have hspared : ∀ e ∈ Event.after i, ¬ e.Hits c.alloc r := fun e he hhit =>
        absurd ((hover r hr).symm.trans (Inst.overwrites_of_hits he hhit)) nofun
      exact ⟨r, x, (hchanged.spared hspared).trans hold, rfl, (hback r x hold hfold).2⟩

/-- **What is left of a folded value.** After an instruction, wherever it stands in a block, a
value that was folded into it is in a register in two cases: dirty, if the instruction writes the
virtual register, and clean, if it reads the virtual register by another operand and leaves the
register alone. -/
theorem folded_left_iff {pre : List Inst} {w : UInt32}
    (hs : lowerEach c 0 (pre ++ [i]) {} = .ok () s) (hw : word pre.length = .ok w)
    (hv : v ∈ c.alloc.foldedInto ⟨c.block, w⟩) : FoldedLeft c i v s := by
  obtain ⟨t, hpre, hlast⟩ := lowerEach_append_eq_ok_iff.1 hs
  obtain ⟨w', t', hw', hi, hnil⟩ := lowerEach_cons_eq_ok_iff.1 hlast
  obtain rfl := lowerEach_nil_eq_ok_iff.1 hnil
  rw [Nat.zero_add, hw] at hw'
  cases hw'
  obtain ⟨htr, hres⟩ := tracked_of_lowerEach hpre
  exact htr.foldedLeft hres hi hv

/-! ### A sum with itself -/

/-- A virtual register with a register and a slot, folded into the first instruction. -/
def doubleHomes : Allocation where
  placements := #[⟨some .rax, some ⟨0⟩⟩]
  folded := [(⟨⟨0⟩, 0⟩, ⟨0⟩)]

/-- An instruction that adds a value to itself, in its slot. -/
def doubleInst : Inst := ⟨"add", [.folded ⟨0⟩, .reg (.virtual ⟨0⟩) .read], [], false⟩

/-- A function of that instruction. -/
def doubleFunc : Func := ⟨"double", #[.gpr64], #[⟨[doubleInst]⟩]⟩

/-- The value is doubled in its slot, and the register keeps what it was before. -/
theorem folded_left_iff_double : ∃ s : State,
    lowerEach ⟨doubleFunc, doubleHomes, .x64, .regEvent, ⟨0⟩⟩ 0 [doubleInst] {} = .ok () s ∧
      s.table.get? .rax = some ⟨⟨0⟩, false, 0⟩ ∧
      FoldedLeft ⟨doubleFunc, doubleHomes, .x64, .regEvent, ⟨0⟩⟩ doubleInst ⟨0⟩ s := by
  have hword : word ([] : List Inst).length = .ok 0 := rfl
  exact ⟨_, rfl, rfl, folded_left_iff rfl hword (by decide)⟩

/-- So a folded value may be in a register although the instruction has not written it. -/
theorem folded_copy_not_always_written :
    ¬ ∀ (c : Context) (pre : List Inst) (i : Inst) (w : UInt32) (s : State) (v : VReg) (r : Reg)
      (x : Resident), lowerEach c 0 (pre ++ [i]) {} = .ok () s → word pre.length = .ok w →
      v ∈ c.alloc.foldedInto ⟨c.block, w⟩ → s.table.get? r = some x → x.vreg = v →
      i.Writes v := by
  intro hall
  have hw := hall ⟨doubleFunc, doubleHomes, .x64, .regEvent, ⟨0⟩⟩ [] doubleInst 0 _ ⟨0⟩ .rax
    ⟨⟨0⟩, false, 0⟩ rfl rfl (by decide) rfl rfl
  rcases hw with hw | hw <;> simp [doubleInst] at hw

end Residency

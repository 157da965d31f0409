import Residency.Proofs.Lowerable

/-!
# What a lowered block consists of

A lowered block consists of the instructions of the block, with registers in the place of
virtual registers, and of loads and stores between them (`Residency.Composes`). Nothing is
said here of what the loads and stores do; all that is asked of the target is that they are
plain: they end no block, name no virtual register and fold none (`Residency.Inst.Plain`).

The one thing that takes an argument is where terminators end up. Stores join the block late,
behind the instruction that made a dirty value, and so a terminator stays the last instruction
only because it makes no value. While a block is lowered this is a fact about the table of
residents: a dirty value stems from an instruction that is no terminator
(`Residency.Composed.behind`).
-/

namespace Residency

open Step

/-! ### Plain instructions -/

/-- An instruction is **plain** when it ends no block, names no virtual register and folds
none. -/
structure Inst.Plain (i : Inst) : Prop where
  /-- It ends no block. -/
  goes_on : i.isTerminator = false
  /-- No operand names a virtual register. -/
  fixed : ∀ o ∈ i.operands, ∀ v, o.ref? ≠ some (.virtual v)
  /-- No operand is a folded virtual register. -/
  unfolded : ∀ v, .folded v ∉ i.operands

/-- The loads and stores of a target are plain. -/
structure Target.Plain (target : Target) : Prop where
  /-- Loads are plain. -/
  load : ∀ {slot : Slot} {r : Reg} {cls : RegClass} {i : Inst},
    target.load slot r cls = .ok i → i.Plain
  /-- Stores are plain. -/
  store : ∀ {r : Reg} {slot : Slot} {cls : RegClass} {i : Inst},
    target.store r slot cls = .ok i → i.Plain

/-- The loads and stores of x64 are plain. -/
theorem Target.x64_plain : Target.x64.Plain where
  load hi := by
    obtain ⟨-, rfl⟩ := Target.x64_load_eq_ok_iff.1 hi
    exact ⟨rfl, by simp [Inst.load, Operand.ref?], by simp [Inst.load]⟩
  store hi := by
    obtain ⟨-, rfl⟩ := Target.x64_store_eq_ok_iff.1 hi
    exact ⟨rfl, by simp [Inst.store, Operand.ref?], by simp [Inst.store]⟩

/-! ### While a block is lowered -/

variable {c : Context} {id : Site} {i : Inst} {e : Event} {l : List Inst} {writing : Prop}
  {s s' t : State}

/-- What the lowered block consists of when the instructions `l` are lowered; `writing` is what
has to hold for the instruction at hand to write virtual registers. -/
structure Composed (c : Context) (l : List Inst) (writing : Prop) (s : State) : Prop where
  /-- An entry is a plain instruction, or the lowered form of an instruction. -/
  entry : ∀ {k : Nat} {e : Entry}, s.out[k]? = some e →
    e.inst.Plain ∨ ∃ i ∈ l, e.inst = i.mapRefs c.alloc.substitute
  /-- Every instruction has its entry. -/
  joined : ∀ i ∈ l, ∃ (k : Nat) (e : Entry),
    s.out[k]? = some e ∧ e.inst = i.mapRefs c.alloc.substitute
  /-- Stores are plain. -/
  stores : ∀ {k : Nat} {e : Entry}, s.out[k]? = some e → ∀ j ∈ e.stores, j.Plain
  /-- No store stands behind a terminator. -/
  bare : ∀ {k : Nat} {e : Entry}, s.out[k]? = some e → e.inst.isTerminator = true → e.stores = []
  /-- A dirty value stems from an instruction that is no terminator, or from the instruction at
  hand. -/
  behind : ∀ {r : Reg} {x : Resident}, s.table.get? r = some x → x.dirty = true →
    (∃ e, s.out[x.since]? = some e ∧ e.inst.isTerminator = false) ∨ x.since = s.out.size ∧ writing

namespace Composed

theorem start : Composed c [] writing {} where
  entry h := nomatch h
  joined _ h := nomatch h
  stores h := nomatch h
  bare h := nomatch h
  behind h := nomatch h

/-- A change of the table adds no dirty value, or one that the instruction at hand makes. -/
theorem table (h : Composed c l writing s) (hout : s'.out = s.out)
    (htable : ∀ {r : Reg} {x : Resident}, s'.table.get? r = some x → x.dirty = true →
      s.table.get? r = some x ∨ x.since = s.out.size ∧ writing) :
    Composed c l writing s' := by
  refine ⟨?_, ?_, ?_, ?_, fun hx hd => ?_⟩
  · rw [hout]
    exact h.entry
  · rw [hout]
    exact h.joined
  · rw [hout]
    exact h.stores
  · rw [hout]
    exact h.bare
  · rw [hout]
    rcases htable hx hd with hx | hnew
    · exact h.behind hx hd
    · exact Or.inr hnew

theorem congr (h : Composed c l writing s) (ht : s'.table = s.table) (ho : s'.out = s.out) :
    Composed c l writing s' :=
  h.table ho fun hx _ => Or.inl (ht ▸ hx)

theorem mono {writing' : Prop} (h : Composed c l writing s) (hw : writing → writing') :
    Composed c l writing' s :=
  { h with behind := fun hx hd => (h.behind hx hd).imp_right (And.imp_right hw) }

/-- A value comes into a register, clean or made by the instruction at hand. -/
theorem hold {r : Reg} {x : Resident} (h : Composed c l writing s)
    (hx : x.dirty = true → x.since = s.out.size ∧ writing) :
    Composed c l writing (s.hold r x) := by
  refine h.table rfl fun hy hd => ?_
  rcases State.get?_hold_eq_some_iff.1 hy with ⟨-, rfl⟩ | ⟨-, hy⟩
  · exact Or.inr (hx hd)
  · exact Or.inl hy

/-- A store behind an entry that is no terminator. -/
theorem store {pos : Nat} {j : Inst} {e : Entry} (h : Composed c l writing s)
    (he : s.out[pos]? = some e) (hterm : e.inst.isTerminator = false) (hj : j.Plain) :
    Composed c l writing (s.store pos j) := by
  have hsame : ∀ {k : Nat} {e : Entry}, s.out[k]? = some e →
      ∃ e', (s.store pos j).out[k]? = some e' ∧ e'.inst = e.inst := by
    intro k e hk
    rw [State.store, Array.getElem?_modify, hk]
    split <;> exact ⟨_, rfl, rfl⟩
  refine ⟨fun hk => ?_, fun i hi => ?_, fun hk j' hj' => ?_, fun {k e'} hk ht => ?_,
    fun hx hd => ?_⟩
  · obtain ⟨e', he', hinst, -⟩ := State.entry_store hk
    rw [← hinst]
    exact h.entry he'
  · obtain ⟨k, e', hk, hinst⟩ := h.joined i hi
    obtain ⟨e'', he'', hinst'⟩ := hsame hk
    exact ⟨k, e'', he'', hinst'.trans hinst⟩
  · obtain ⟨e', he', -, hstores⟩ := State.entry_store hk
    rcases hstores j' hj' with hj' | rfl
    · exact h.stores he' j' hj'
    · exact hj
  · rw [State.store, Array.getElem?_modify] at hk
    split at hk
    · rename_i hpos
      subst hpos
      obtain ⟨e'', he'', rfl⟩ := Option.map_eq_some_iff.1 hk
      obtain rfl := Option.some.inj (he.symm.trans he'')
      exact absurd (hterm.symm.trans ht) Bool.false_ne_true
    · exact h.bare hk ht
  · rcases h.behind hx hd with ⟨e', he', ht⟩ | ⟨hsince, hw⟩
    · obtain ⟨e'', he'', hinst⟩ := hsame he'
      exact Or.inl ⟨e'', he'', hinst ▸ ht⟩
    · exact Or.inr ⟨hsince.trans Array.size_modify.symm, hw⟩

/-- A plain instruction joins the block, or the lowered form of an instruction that is one of
those that count as lowered from now on. -/
theorem join {l' : List Inst} {writing' : Prop} {j : Inst} (h : Composed c l writing s)
    (hj : j.Plain ∨ ∃ i ∈ l', j = i.mapRefs c.alloc.substitute) (hl : ∀ i ∈ l, i ∈ l')
    (hjoined : ∀ i ∈ l', i ∈ l ∨ j = i.mapRefs c.alloc.substitute)
    (hterm : writing → j.isTerminator = false) : Composed c l' writing' (s.push j) := by
  have hold : ∀ {k : Nat} {e : Entry}, s.out[k]? = some e → (s.push j).out[k]? = some e := by
    intro k e hk
    have hlt := (Array.getElem?_eq_some_iff.1 hk).1
    rw [State.push, Array.getElem?_push, if_neg (Nat.ne_of_lt hlt), hk]
  have hnew : (s.push j).out[s.out.size]? = some { inst := j } := Array.getElem?_push_size
  refine ⟨fun hk => ?_, fun i hi => ?_, fun hk => ?_, fun hk ht => ?_, fun hx hd => ?_⟩
  · rcases State.entry_push hk with hk | ⟨-, rfl⟩
    · refine (h.entry hk).imp_right ?_
      rintro ⟨i, hi, hinst⟩
      exact ⟨i, hl i hi, hinst⟩
    · exact hj
  · rcases hjoined i hi with hi | hinst
    · obtain ⟨k, e, hk, hinst⟩ := h.joined i hi
      exact ⟨k, e, hold hk, hinst⟩
    · exact ⟨s.out.size, _, hnew, hinst⟩
  · rcases State.entry_push hk with hk | ⟨-, rfl⟩
    · exact h.stores hk
    · exact fun j' hj' => absurd hj' List.not_mem_nil
  · rcases State.entry_push hk with hk | ⟨-, rfl⟩
    · exact h.bare hk ht
    · rfl
  · rcases h.behind hx hd with ⟨e, he, ht⟩ | ⟨hsince, hw⟩
    · exact Or.inl ⟨e, hold he, ht⟩
    · exact Or.inl ⟨_, hsince ▸ hnew, hterm hw⟩

/-! ### Events -/

theorem vacated {r : Reg} (htarget : c.target.Plain) (h : Composed c l writing s)
    (hv : Vacated c r s s') : Composed c l writing s' := by
  cases hv with
  | idle hx => exact h
  | drop hx hr hd => exact h.table rfl fun hy _ => Or.inl (State.get?_free_eq_some_iff.1 hy).2
  | @store x slot cls j hx hr hd hs hb hc hi =>
    rcases h.behind hx hd with ⟨e, he, ht⟩ | ⟨hsince, -⟩
    · have hlog : Composed c l writing ((s.request (.store x.vreg r slot)).log c.level
          (.stored c.block x.vreg r slot x.since)) := h.congr rfl rfl
      have hstore := hlog.store he ht (htarget.store hi)
      exact hstore.table rfl fun hy _ => Or.inl (State.get?_free_eq_some_iff.1 hy).2
    · exact absurd hsince (Nat.ne_of_lt hb)

theorem of_evict {r : Reg} (htarget : c.target.Plain) (h : Composed c l writing s)
    (he : evict c r s = .ok () t) : Composed c l writing t :=
  evict_keeps (P := Composed c l writing) (fun _ _ _ ht hv => ht.vacated htarget hv) h he

/-- **An event leaves a lowered block that consists of the same**, but for loads and stores. -/
theorem perform (htarget : c.target.Plain) (h : Composed c l writing s)
    (hw : ∀ v, e.Writes v → writing) (hp : Performed c s e s') : Composed c l writing s' := by
  cases hp with
  | foldAway hr => exact h
  | foldAbsent hr hh => exact h
  | fold hr hh he =>
    have hcount : Composed c l writing (s.count .foldEvictions) := h.congr rfl rfl
    exact hcount.of_evict htarget he
  | readHeld hr hh => exact h.congr (s.table_reserve _) (s.out_reserve _)
  | @readLoaded v r t slot cls j hr hh he hs hc hi =>
    have hplain := htarget.load hi
    have hpush : Composed c l writing (t.push j) :=
      (h.of_evict htarget he).join (Or.inl hplain) (fun _ hi => hi) (fun _ hi => Or.inl hi)
        fun _ => hplain.goes_on
    have hcount : Composed c l writing
        ((((t.request (.load v slot r)).log c.level (.loaded c.block v slot r)).push j).count
          .reloads) :=
      hpush.congr rfl rfl
    refine Composed.congr ?_ (State.table_reserve _ _) (State.out_reserve _ _)
    exact hcount.hold fun hd => absurd hd nofun
  | readFound hr hh he hs =>
    refine Composed.congr ?_ (State.table_reserve _ _) (State.out_reserve _ _)
    exact (h.of_evict htarget he).hold fun hd => absurd hd nofun
  | modify hr hx => exact h.hold fun _ => ⟨rfl, hw _ (Or.inl rfl)⟩
  | redefine hr hh => exact h.hold fun _ => ⟨rfl, hw _ (Or.inr rfl)⟩
  | define hr hh he => exact (h.of_evict htarget he).hold fun _ => ⟨rfl, hw _ (Or.inr rfl)⟩
  | overwrite he => exact h.of_evict htarget he

theorem performs {es : List Event} (htarget : c.target.Plain) (h : Composed c l writing s)
    (hw : ∀ e ∈ es, ∀ v, e.Writes v → writing)
    (hs : (es.forM (Event.perform c id)) s = .ok () s') : Composed c l writing s' :=
  forM_keeps (P := Composed c l writing)
    (fun e he _ _ ht hp => ht.perform htarget (hw e he) (perform_eq_ok_iff.1 hp)) h hs

/-! ### Instructions -/

/-- Up to its place in the block an instruction adds loads and stores, and then it joins the
block itself. -/
theorem lowerInst (htarget : c.target.Plain) (h : Composed c l False s)
    (hterm : i.isTerminator = true → i.writesVirtual = false)
    (hs : lowerInst c id i s = .ok () s') :
    Composed c (l ++ [i]) False s' ∧ ∃ t, Composed c l (i.isTerminator = false) t ∧
      s' = t.push (i.mapRefs c.alloc.substitute) := by
  obtain ⟨m, t, hm, ht, rfl⟩ := lowerInst_eq_ok_iff.1 hs
  have hstart : Composed c l (i.isTerminator = false) s := h.mono False.elim
  have hbefore : Composed c l (i.isTerminator = false) m := by
    refine hstart.performs htarget (fun e he v hw => ?_) hm
    rcases Event.mem_before_iff.1 he with ⟨u, rfl, -⟩ | ⟨u, rfl, -⟩ <;>
      rcases hw with hw | hw <;> cases hw
  have hrelease : Composed c l (i.isTerminator = false) m.release := hbefore.congr rfl rfl
  have hafter : Composed c l (i.isTerminator = false) t := by
    refine hrelease.performs htarget (fun e he v hw => ?_) ht
    refine Bool.eq_false_iff.2 fun hi => ?_
    have hwrites : i.Writes v := Event.exists_mem_after_writes_iff.1 ⟨e, he, hw⟩
    exact Inst.writesVirtual_eq_false_iff.1 (hterm hi) v hwrites
  refine ⟨?_, t, hafter, rfl⟩
  refine hafter.join (Or.inr ⟨i, by simp, rfl⟩) (fun j hj => List.mem_append_left _ hj)
    (fun j hj => ?_) (fun hi => hi)
  rcases List.mem_append.1 hj with hj | hj
  · exact Or.inl hj
  · exact Or.inr (List.mem_singleton.1 hj ▸ rfl)

theorem lowerEach {done : List Inst} {n : Nat} (htarget : c.target.Plain)
    (h : Composed c done False s)
    (hterm : ∀ i ∈ l, i.isTerminator = true → i.writesVirtual = false)
    (hs : lowerEach c n l s = .ok () s') : Composed c (done ++ l) False s' := by
  induction l generalizing done n s with
  | nil =>
    obtain rfl := lowerEach_nil_eq_ok_iff.1 hs
    rwa [List.append_nil]
  | cons i l ih =>
    obtain ⟨w, t, -, hi, hrest⟩ := lowerEach_cons_eq_ok_iff.1 hs
    have hnext := (h.lowerInst htarget (hterm i List.mem_cons_self) hi).1
    have hlater := ih hnext (fun j hj => hterm j (List.mem_cons_of_mem i hj)) hrest
    rwa [List.append_assoc] at hlater

end Composed

/-! ### Where terminators stand -/

/-- Only the last of some instructions may end a block. -/
def Closed (l : List Inst) : Prop := l.Pairwise fun i _ => i.isTerminator = false

theorem closed_cons_iff {i : Inst} {l : List Inst} :
    Closed (i :: l) ↔ (i.isTerminator = true → l = []) ∧ Closed l := by
  rw [Closed, List.pairwise_cons]
  refine and_congr_left fun _ => ⟨fun h hi => ?_, fun h j hj => ?_⟩
  · refine List.eq_nil_iff_forall_not_mem.2 fun j hj => ?_
    exact absurd ((h j hj).symm.trans hi) nofun
  · refine Bool.eq_false_iff.2 fun hi => ?_
    rw [h hi] at hj
    cases hj

theorem terminatorsLast_iff_closed : TerminatorsLast l ↔
    Closed l ∧ ∀ i ∈ l, i.isTerminator = true → i.writesVirtual = false := by
  induction l with
  | nil => exact iff_of_true trivial ⟨.nil, nofun⟩
  | cons i l ih =>
    rw [TerminatorsLast, ih, closed_cons_iff, List.forall_mem_cons]
    constructor
    · rintro ⟨hi, hclosed, hwrites⟩
      exact ⟨⟨fun ht => List.isEmpty_iff.1 (hi ht).1, hclosed⟩, fun ht => (hi ht).2, hwrites⟩
    · rintro ⟨⟨hlast, hclosed⟩, hi, hwrites⟩
      exact ⟨fun ht => ⟨List.isEmpty_iff.2 (hlast ht), hi ht⟩, hclosed, hwrites⟩

/-- A terminator among instructions of which only the last one may be one is the last one. -/
theorem Closed.getLast?_eq {j : Inst} (h : Closed l) (hj : j ∈ l) (ht : j.isTerminator = true) :
    l.getLast? = some j := by
  induction l with
  | nil => cases hj
  | cons i l ih =>
    obtain ⟨hlast, hclosed⟩ := closed_cons_iff.1 h
    rcases List.mem_cons.1 hj with rfl | hj
    · rw [hlast ht]
      rfl
    · have hne : l ≠ [] := List.ne_nil_of_mem hj
      rw [List.getLast?_cons_of_ne_nil hne]
      exact ih hclosed hj

/-- The code of entries is closed when the entries are and no store ends a block. -/
theorem closed_flatten {es : List Entry} (hentries : Closed (es.map Entry.inst))
    (hstores : ∀ e ∈ es, ∀ j ∈ e.stores, j.Plain)
    (hbare : ∀ e ∈ es, e.inst.isTerminator = true → e.stores = []) :
    Closed (Entry.flatten es) := by
  refine List.pairwise_flatMap.2 ⟨fun e he => ?_, ?_⟩
  · rw [List.pairwise_cons]
    refine ⟨fun j hj => Bool.eq_false_iff.2 fun ht => ?_, ?_⟩
    · rw [hbare e he ht] at hj
      cases hj
    · exact List.pairwise_of_forall_mem_list fun j hj _ _ => (hstores e he j hj).goes_on
  · refine (List.pairwise_map.1 hentries).imp_of_mem fun {e e'} he _ ht j hj _ _ => ?_
    rcases List.mem_cons.1 hj with rfl | hj
    · exact ht
    · exact (hstores e he j hj).goes_on

/-! ### Lowered blocks -/

/-- Every virtual register that an instruction that is lowered names has a register. -/
theorem exists_reg_of_lowerInst {v : VReg} (hv : i.Names v)
    (hs : lowerInst c id i s = .ok () s') : ∃ r, c.alloc.reg? v = .ok (some r) := by
  obtain ⟨m, t, hm, ht, -⟩ := lowerInst_eq_ok_iff.1 hs
  rcases hv with hv | hv
  · obtain ⟨u, u', hu⟩ := exists_of_mem_forM (Event.mem_before_iff.2 (Or.inr ⟨v, rfl, hv⟩)) hm
    cases perform_eq_ok_iff.1 hu with
    | readHeld hr => exact ⟨_, hr⟩
    | readLoaded hr => exact ⟨_, hr⟩
    | readFound hr => exact ⟨_, hr⟩
  · obtain ⟨e, he, hw⟩ := Event.exists_mem_after_writes_iff.2 hv
    obtain ⟨u, u', hu⟩ := exists_of_mem_forM he ht
    rcases hw with rfl | rfl
    · cases perform_eq_ok_iff.1 hu with
      | modify hr => exact ⟨_, hr⟩
    · cases perform_eq_ok_iff.1 hu with
      | redefine hr => exact ⟨_, hr⟩
      | define hr => exact ⟨_, hr⟩

/-- **What a lowered block consists of**: the instructions of the block, lowered, and plain
ones; a terminator is still the last instruction. -/
structure Composes (a : Allocation) (insts out : List Inst) : Prop where
  /-- An instruction of the lowered block is plain, or the lowered form of one of the block. -/
  made : ∀ j ∈ out, j.Plain ∨ ∃ i ∈ insts, j = i.mapRefs a.substitute
  /-- Every instruction of the block is there, lowered. -/
  kept : ∀ i ∈ insts, i.mapRefs a.substitute ∈ out
  /-- Every virtual register that an instruction names has a register. -/
  assigned : ∀ i ∈ insts, ∀ v, i.Names v → ∃ r, a.reg? v = .ok (some r)
  /-- Only the last instruction may be a terminator. -/
  closed : Closed out

theorem Emptied.map_inst {gone : Reg → Bool} (h : Emptied gone s s') :
    s'.out.toList.map Entry.inst = s.out.toList.map Entry.inst := by
  refine List.ext_getElem? fun k => ?_
  rw [List.getElem?_map, List.getElem?_map, Array.getElem?_toList, Array.getElem?_toList]
  exact h.inst k

/-- When only the last of some instructions may be a terminator, so it is with their entries: of
those that joined the block before the last instruction, none is a terminator. -/
theorem closed_of_lowerEach (htarget : c.target.Plain) (hclosed : Closed l)
    (hwrites : ∀ i ∈ l, i.isTerminator = true → i.writesVirtual = false)
    (hs : lowerEach c 0 l {} = .ok () s) : Closed (s.out.toList.map Entry.inst) := by
  rcases List.eq_nil_or_concat l with rfl | ⟨pre, i, rfl⟩
  · obtain rfl := lowerEach_nil_eq_ok_iff.1 hs
    exact .nil
  · rw [List.concat_eq_append] at hclosed hwrites hs
    obtain ⟨t, hpre, hlast⟩ := lowerEach_append_eq_ok_iff.1 hs
    obtain ⟨w, u, -, hi, hnil⟩ := lowerEach_cons_eq_ok_iff.1 hlast
    obtain rfl := lowerEach_nil_eq_ok_iff.1 hnil
    have ht : Composed c pre False t := Composed.start.lowerEach htarget
      (fun j hj => hwrites j (List.mem_append_left _ hj)) hpre
    obtain ⟨-, m, hm, rfl⟩ := ht.lowerInst htarget (hwrites i (by simp)) hi
    have hgoes_on : ∀ j ∈ m.out.toList.map Entry.inst, j.isTerminator = false := by
      intro j hj
      obtain ⟨e, he, rfl⟩ := List.mem_map.1 hj
      obtain ⟨k, hk⟩ := List.mem_iff_getElem?.1 he
      rcases hm.entry (Array.getElem?_toList.symm.trans hk) with hplain | ⟨j, hj, hinst⟩
      · exact hplain.goes_on
      · rw [hinst]
        exact (List.pairwise_append.1 hclosed).2.2 j hj i (by simp)
    rw [State.push, Array.toList_push, List.map_append]
    refine List.pairwise_append.2 ⟨?_, List.pairwise_singleton _ _, fun j hj _ _ => hgoes_on j hj⟩
    exact List.pairwise_of_forall_mem_list fun j hj _ _ => hgoes_on j hj

/-- **A block that is lowered consists of its instructions and plain ones**, for any target whose
loads and stores are plain. -/
theorem composes_of_lowerBlock {b : Block} {x : List Inst × Stats} (htarget : c.target.Plain)
    (hb : c.func.block c.block = .ok b) (hx : (lowerBlock c).result = .ok x) :
    Composes c.alloc b.insts x.1 := by
  obtain ⟨b', t, t', hb', hinsts, hflush, rfl⟩ := lowerBlock_eq_ok_iff.1 hx
  obtain rfl := Except.ok.inj (hb.symm.trans hb')
  obtain ⟨hterm, heach⟩ := lowerInsts_eq_ok_iff.1 hinsts
  obtain ⟨hclosed, hwrites⟩ := terminatorsLast_iff_closed.1 hterm
  have ht : Composed c b.insts False t := Composed.start.lowerEach htarget hwrites heach
  have ht' : Composed c b.insts False t' :=
    flush_keeps (P := Composed c b.insts False) (fun _ _ _ hu hv => hu.vacated htarget hv) ht
      hflush
  have hmem : ∀ {e}, e ∈ t'.out.toList ↔ ∃ k : Nat, t'.out[k]? = some e := by
    intro e
    simp only [List.mem_iff_getElem?, Array.getElem?_toList]
  refine ⟨fun j hj => ?_, fun i hi => ?_, fun i hi v hv => ?_, closed_flatten ?_ ?_ ?_⟩
  · obtain ⟨e, he, hj⟩ := List.mem_flatMap.1 hj
    obtain ⟨k, hk⟩ := hmem.1 he
    rcases List.mem_cons.1 hj with rfl | hj
    · exact ht'.entry hk
    · exact Or.inl (ht'.stores hk j hj)
  · obtain ⟨k, e, hk, hinst⟩ := ht'.joined i hi
    exact List.mem_flatMap.2 ⟨e, hmem.2 ⟨k, hk⟩, hinst ▸ List.mem_cons_self⟩
  · obtain ⟨pre, post, hsplit⟩ := List.append_of_mem hi
    rw [hsplit] at heach
    obtain ⟨u, -, hrest⟩ := lowerEach_append_eq_ok_iff.1 heach
    obtain ⟨w, u', -, hs, -⟩ := lowerEach_cons_eq_ok_iff.1 hrest
    exact exists_reg_of_lowerInst hv hs
  · rw [(flush_empties hflush).map_inst]
    exact closed_of_lowerEach htarget hclosed hwrites heach
  · intro e he
    obtain ⟨k, hk⟩ := hmem.1 he
    exact ht'.stores hk
  · intro e he
    obtain ⟨k, hk⟩ := hmem.1 he
    exact ht'.bare hk

theorem Operand.ref?_mapRef {f : RegRef → RegRef} {o : Operand} :
    (o.mapRef f).ref? = o.ref?.map f := by
  cases o <;> rfl

theorem Operand.mapRef_eq_folded_iff {f : RegRef → RegRef} {o : Operand} {v : VReg} :
    o.mapRef f = .folded v ↔ o = .folded v := by
  cases o <;> simp [Operand.mapRef]

namespace Composes

variable {a : Allocation} {insts out : List Inst}

/-- **No virtual register is left** in a lowered block. -/
theorem fixed (h : Composes a insts out) {j : Inst} (hj : j ∈ out) {o : Operand}
    (ho : o ∈ j.operands) (v : VReg) : o.ref? ≠ some (.virtual v) := by
  rcases h.made j hj with hplain | ⟨i, hi, rfl⟩
  · exact hplain.fixed o ho v
  · obtain ⟨o', ho', rfl⟩ := List.mem_map.1 ho
    rw [Operand.ref?_mapRef]
    intro href
    obtain ⟨ref, hr, hsub⟩ := Option.map_eq_some_iff.1 href
    cases ref with
    | physical r => cases hsub
    | virtual u =>
      obtain ⟨r, hreg⟩ := h.assigned i hi u (Inst.names_iff.2 ⟨o', ho', hr⟩)
      rw [Allocation.substitute_virtual_eq_iff.2 hreg] at hsub
      cases hsub

/-- What is folded in a lowered block was folded before. -/
theorem exists_folded_iff (h : Composes a insts out) {v : VReg} :
    (∃ j ∈ out, .folded v ∈ j.operands) ↔ ∃ i ∈ insts, .folded v ∈ i.operands := by
  constructor
  · rintro ⟨j, hj, hv⟩
    rcases h.made j hj with hplain | ⟨i, hi, rfl⟩
    · exact absurd hv (hplain.unfolded v)
    · obtain ⟨o, ho, hov⟩ := List.mem_map.1 hv
      exact ⟨i, hi, Operand.mapRef_eq_folded_iff.1 hov ▸ ho⟩
  · rintro ⟨i, hi, hv⟩
    exact ⟨_, h.kept i hi, List.mem_map.2 ⟨_, hv, rfl⟩⟩

/-- A terminator of the block is the last instruction of the lowered block. -/
theorem getLast?_eq (h : Composes a insts out) {i : Inst} (hi : i ∈ insts)
    (ht : i.isTerminator = true) : out.getLast? = some (i.mapRefs a.substitute) :=
  h.closed.getLast?_eq (h.kept i hi) ht

end Composes

end Residency

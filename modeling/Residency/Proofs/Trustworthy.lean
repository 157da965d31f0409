import Residency.Proofs.Between

/-!
# The table of residents can be trusted

After any prefix of a block the table of residents is right (`Residency.Trustworthy`): values
are in their own registers, which do not overlap, and a dirty value was made by an instruction
of the prefix, behind which nothing has touched its register. Whatever the instruction to come
is, it finds every value that it changes in place, and takes its place where its values are
said to be made (`Residency.Proceeds`). Both are stated for x64
(`Residency.table_trustworthy`).

That a value which is changed in place is there means that one failure cannot arise at all,
the one that a register is free that must not be (`Residency.Fault.registerFree`).
-/

namespace Residency

open Step

variable {c : Context} {id : Site} {i : Inst} {e : Event} {s t : State}

/-! ### What never fails -/

theorem entry_ne_error {α : Type} {table : Array α} {k : Nat} {f : Fault}
    (h : ∀ len index, f ≠ .outOfBounds len index) : entry table k ≠ .error f := by
  unfold entry
  split
  · exact nofun
  · intro hf
    cases hf
    exact h _ _ rfl

theorem word_ne_error {n : Nat} {f : Fault} (h : ∀ n max, f ≠ .numberTooLarge n max) :
    word n ≠ .error f := by
  unfold word
  split
  · exact nofun
  · intro hf
    cases hf
    exact h _ _ rfl

theorem map_ne_error {α β : Type} {o : Except Fault α} {g : α → β} {f : Fault}
    (h : o ≠ .error f) : o.map g ≠ .error f := by
  intro hf
  cases o with
  | ok x => cases hf
  | error f' =>
    cases hf
    exact h rfl

section Free

variable {r q : Reg} {v : VReg}

private theorem avoids_lookup {α β : Type} {table : Array α} {k : Nat} {g : α → β} :
    Avoids (known ((entry table k).map g)) (.fault (.registerFree q)) :=
  avoids_known (map_ne_error (entry_ne_error nofun))

private theorem avoids_entry {α : Type} {table : Array α} {k : Nat} :
    Avoids (known (entry table k)) (.fault (.registerFree q)) :=
  avoids_known (entry_ne_error nofun)

theorem avoids_vacate : Avoids (vacate c r) (.fault (.registerFree q)) := by
  refine avoids_get.bind fun s => ?_
  split
  · exact avoids_pure
  · rename_i x _
    split
    · exact avoids_fault nofun
    · have hstore : Avoids (storeDirty c r x) (.fault (.registerFree q)) := by
        refine avoids_lookup.bind fun o => ?_
        split
        · exact avoids_fault nofun
        · refine avoids_get.bind fun s => ?_
          split
          · exact avoids_fault nofun
          · refine avoids_entry.bind fun _ => avoids_ask.bind fun _ => ?_
            refine avoids_modify.bind fun _ => avoids_get.bind fun _ => ?_
            exact avoids_entry.bind fun _ => avoids_modify
      split
      · exact hstore.bind fun _ => avoids_modify
      · exact Avoids.bind avoids_modify fun _ => avoids_modify

theorem avoids_evict : Avoids (evict c r) (.fault (.registerFree q)) :=
  avoids_vacate.bind fun _ => avoids_forM fun _ _ => avoids_vacate

theorem avoids_assigned : Avoids (assigned c id v) (.fault (.registerFree q)) := by
  refine avoids_lookup.bind fun o => ?_
  split
  · exact avoids_pure
  · exact avoids_fault nofun

theorem avoids_perform_early (he : e.Early) :
    Avoids (e.perform c id) (.fault (.registerFree q)) := by
  cases e with
  | fold v =>
    refine avoids_lookup.bind fun o => ?_
    split
    · exact avoids_pure
    · refine avoids_get.bind fun s => ?_
      split
      · exact avoids_modify.bind fun _ => avoids_evict
      · exact avoids_pure
  | read v =>
    have hload : ∀ r, Avoids (load c r v) (.fault (.registerFree q)) := by
      refine fun r => avoids_get.bind fun s => ?_
      split
      · exact avoids_fault nofun
      · refine avoids_evict.bind fun _ => avoids_lookup.bind fun o => ?_
        split
        · exact avoids_entry.bind fun _ => avoids_ask.bind fun _ => avoids_modify
        · exact avoids_modify
    refine avoids_assigned.bind fun r => avoids_get.bind fun s => ?_
    dsimp only
    split
    · exact (hload r).bind fun _ => avoids_modify
    · exact avoids_modify
  | _ => exact he.elim

end Free

/-- A change in place fails only where the register of the value is free. -/
theorem get?_of_modify_registerFree {v : VReg} {q : Reg}
    (h : (Event.modify v).perform c id s = .error (.fault (.registerFree q)) t) :
    ∀ r, c.alloc.reg? v = .ok (some r) → s.table.get? r = none := by
  intro r hr
  cases hx : s.table.get? r with
  | none => rfl
  | some x =>
    have hok : (Event.modify v).perform c id s = .ok () _ :=
      perform_eq_ok_iff.2 (.modify hr hx)
    rw [h] at hok
    cases hok

theorem avoids_define {v : VReg} {q : Reg} :
    Avoids ((Event.define v).perform c id) (.fault (.registerFree q)) := by
  refine avoids_assigned.bind fun r => avoids_get.bind fun s => ?_
  dsimp only
  split
  · exact avoids_evict.bind fun _ => avoids_modify
  · exact avoids_modify

/-- **No instruction changes a value in place that is not there.** -/
theorem lowerInst_ne_registerFree {made : VReg → Nat → Inst → Prop} {q : Reg}
    (hload : c.target.LoadsOnly) (h : Between c made s) :
    lowerInst c id i s ≠ .error (.fault (.registerFree q)) t := by
  intro herr
  obtain ⟨done, e, rest, t', hsplit, -, he⟩ | ⟨m, done, e, rest, t', hm, hsplit, hdone, he⟩ :=
    lowerInst_eq_error herr
  · have hmem : e ∈ Event.before c.alloc id i := by simp [hsplit]
    exact avoids_perform_early (Event.early_of_mem_before hmem) _ _ he
  · obtain ⟨hco, hmid, hread⟩ := h.before hload hm
    have hbehind := behind_of_append hload (.start hco hmid hread) hsplit hdone
    obtain ⟨v, rfl, ho⟩ | ⟨v, rfl, -⟩ | ⟨r, rfl, -⟩ :=
      Event.mem_after_iff.1 (Event.mem_after_of_append hsplit)
    · obtain ⟨r, hr, hh⟩ := hbehind.held (Event.modifies_of_append_modify hsplit)
        (Inst.reads_of_modify ho)
      obtain ⟨x, hx, -⟩ := Table.holds_iff.1 hh
      exact absurd (hx.symm.trans (get?_of_modify_registerFree he r hr)) nofun
    · exact avoids_define _ _ he
    · exact avoids_evict _ _ he

/-! ### The table and the instruction to come -/

/-- What the table of residents can be trusted with, when the instructions `l` of a block are
lowered. -/
structure Trustworthy (c : Context) (l : List Inst) (s : State) : Prop where
  /-- If a register holds a value, then its aliases are free. -/
  aliases_free : ∀ {r q : Reg} {x : Resident}, s.table.get? r = some x → q ∈ r.aliases →
    s.table.get? q = none
  /-- A value is in the register of its virtual register. -/
  placed : ∀ {r : Reg} {x : Resident}, s.table.get? r = some x →
    c.alloc.reg? x.vreg = .ok (some r)
  /-- No virtual register is in two registers. -/
  once : ∀ {r q : Reg} {x y : Resident}, s.table.get? r = some x → s.table.get? q = some y →
    x.vreg = y.vreg → r = q
  /-- A dirty value was made by one of the instructions. -/
  made : ∀ {r : Reg} {x : Resident}, s.table.get? r = some x → x.dirty = true →
    x.since < s.out.size ∧
      ∃ e, s.out[x.since]? = some e ∧ MadeBy c l x.vreg x.since e.inst
  /-- Behind the instruction that put a value there, none has overwritten its register. -/
  untouched : ∀ {r : Reg} {x : Resident}, s.table.get? r = some x → Backed c x →
    ∀ {k : Nat} {e : Entry}, x.since < k → s.out[k]? = some e → e.inst.overwrites r = false
  /-- No register is reserved. -/
  unreserved : s.reserved = []

/-- How an instruction proceeds from a state. -/
structure Proceeds (c : Context) (id : Site) (i : Inst) (s : State) : Prop where
  /-- A value that is changed in place is in its register at that time. -/
  found : ∀ {done rest : List Event} {v : VReg} {m t : State},
    Event.after i = done ++ .modify v :: rest →
    ((Event.before c.alloc id i).forM (Event.perform c id)) s = .ok () m →
    (done.forM (Event.perform c id)) m.release = .ok () t →
    ∃ r, c.alloc.reg? v = .ok (some r) ∧ t.table.holds r v = true
  /-- So it never fails because a register is free. -/
  never_free : ∀ {q : Reg} {t : State}, lowerInst c id i s ≠ .error (.fault (.registerFree q)) t
  /-- While its events behind its place go on, its place is the next one of the block. -/
  place_kept : ∀ {done rest : List Event} {m t : State}, Event.after i = done ++ rest →
    ((Event.before c.alloc id i).forM (Event.perform c id)) s = .ok () m →
    (done.forM (Event.perform c id)) m.release = .ok () t → t.out.size = m.out.size
  /-- It joins the lowered block in its place. -/
  place_taken : ∀ {t : State}, lowerInst c id i s = .ok () t →
    ∃ m, ((Event.before c.alloc id i).forM (Event.perform c id)) s = .ok () m ∧
      t.out.size = m.out.size + 1 ∧
      t.out[m.out.size]? = some { inst := i.mapRefs c.alloc.substitute }

theorem Between.trustworthy {l : List Inst} (h : Between c (MadeBy c l) s) :
    Trustworthy c l s where
  aliases_free hx hq :=
    h.coherent.get?_eq_none hx (Reg.mem_aliases.1 hq).1 (Reg.mem_aliases.1 hq).2
  placed hx := h.coherent.placed hx
  once hx hy hv := Allocation.reg_unique (h.coherent.placed hx) (hv ▸ h.coherent.placed hy)
  made hx hd := by
    have hlt := h.midway.older hx (Or.inl hd)
    exact ⟨hlt, h.midway.maker hx hd hlt⟩
  untouched hx hb := h.coherent.untouched hx hb
  unreserved := h.unreserved

theorem Between.proceeds {made : VReg → Nat → Inst → Prop} (hload : c.target.LoadsOnly)
    (h : Between c made s) : Proceeds c id i s where
  found {done rest v m t} hsplit hm ht := by
    obtain ⟨hco, hmid, hread⟩ := h.before hload hm
    have hbehind := behind_of_append hload (.start hco hmid hread) hsplit ht
    obtain ⟨u, hu, ho⟩ | ⟨u, hu, -⟩ | ⟨r, hr, -⟩ :=
      Event.mem_after_iff.1 (Event.mem_after_of_append hsplit)
    · cases hu
      exact hbehind.held (Event.modifies_of_append_modify hsplit) (Inst.reads_of_modify ho)
    · cases hu
    · cases hr
  never_free := lowerInst_ne_registerFree hload h
  place_kept hsplit hm ht := by
    obtain ⟨hco, hmid, hread⟩ := h.before hload hm
    exact (behind_of_append hload (.start hco hmid hread) hsplit ht).size
  place_taken hs := by
    obtain ⟨m, t, hm, ht, rfl⟩ := lowerInst_eq_ok_iff.1 hs
    obtain ⟨hco, hmid, hread⟩ := h.before hload hm
    have hbehind := behind_of_append hload (.start hco hmid hread) (List.append_nil _).symm ht
    refine ⟨m, hm, State.size_push.trans (congrArg (· + 1) hbehind.size), ?_⟩
    rw [← hbehind.size, State.push, Array.getElem?_push_size]

/-- **The table of residents can be trusted** after any prefix `l` of any block, and whatever
instruction comes next proceeds from there as it should. -/
theorem table_trustworthy {f : Func} {a : Allocation} {level : Level} {b : BlockId}
    {l : List Inst} {s : State} (hs : lowerEach ⟨f, a, .x64, level, b⟩ 0 l {} = .ok () s) :
    Trustworthy ⟨f, a, .x64, level, b⟩ l s ∧
      ∀ id i, Proceeds ⟨f, a, .x64, level, b⟩ id i s := by
  have hbetween : Between _ (MadeBy ⟨f, a, .x64, level, b⟩ l) s :=
    between_of_lowerEach Target.x64_loadsOnly hs
  exact ⟨hbetween.trustworthy, fun id i => hbetween.proceeds Target.x64_loadsOnly⟩

/-! ### A block with a sum -/

/-- The first register. -/
def Reg.rax : Reg := .gpr 0 .quad

/-- Two virtual registers with a register and a slot each. -/
def sumHomes : Allocation where
  placements :=
    #[⟨some (.gpr 0 .quad), some ⟨0⟩⟩, ⟨some (.gpr 1 .quad), some ⟨1⟩⟩]

/-- A block that sets the first of them to one and then adds the second. -/
def sumInsts : List Inst :=
  [⟨"mov", [.reg (.virtual ⟨0⟩) .write, .imm 1], [], false⟩,
    ⟨"add", [.reg (.virtual ⟨0⟩) .modify, .reg (.virtual ⟨1⟩) .read], [], false⟩]

/-- A function of that block. -/
def sumFunc : Func := ⟨"sum", #[.gpr64, .gpr64], #[⟨sumInsts⟩]⟩

/-- When the sum is lowered, it is in its register, changed by the instruction at position two:
the second value was loaded behind the first instruction. -/
theorem table_trustworthy_sum : ∃ s : State,
    lowerEach ⟨sumFunc, sumHomes, .x64, .regEvent, ⟨0⟩⟩ 0 sumInsts {} = .ok () s ∧
      s.table.get? (.gpr 0 .quad) = some ⟨⟨0⟩, true, 2⟩ ∧
      Trustworthy ⟨sumFunc, sumHomes, .x64, .regEvent, ⟨0⟩⟩ sumInsts s :=
  ⟨_, rfl, rfl, (table_trustworthy rfl).1⟩

end Residency

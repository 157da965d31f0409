import Residency.Proofs.Composition
import Residency.Proofs.Tracked

/-!
# The order of a lowered block

A lowered block has the instructions of the block in their order, with loads and stores woven in
between (`Residency.Woven`). Leaving the stores aside, which join the block late, there is more to
say: entries are only ever added at the end, and what an instruction adds is the loads for values
that it reads, and then itself (`Residency.Laid`). So an instruction has its place in the lowered
block as soon as the loads for it are there, and everything before it stems from the instructions
before it or is one of these loads (`Residency.exists_stands_of_lowerBlock`).
-/

namespace Residency

open Step

variable {c : Context} {id : Site} {i j : Inst} {e : Event} {l l' out out' : List Inst}
  {s s' t m : State} {r : Reg} {v : VReg}

/-! ### Loads and stores -/

/-- An instruction is one of the stores of a target. -/
def Target.Stores (target : Target) (j : Inst) : Prop :=
  ∃ r slot cls, target.store r slot cls = .ok j

/-- An instruction is a load or a store of a target. -/
def Target.Moves (target : Target) (j : Inst) : Prop :=
  (∃ slot r cls, target.load slot r cls = .ok j) ∨ target.Stores j

/-- An instruction loads the value of a virtual register from its slot into its register. -/
def Context.Loads (c : Context) (v : VReg) (j : Inst) : Prop :=
  ∃ r slot cls, c.alloc.reg? v = .ok (some r) ∧ c.alloc.slot? v = .ok (some slot) ∧
    c.target.load slot r cls = .ok j

theorem Context.Loads.moves (h : c.Loads v j) : c.target.Moves j := by
  obtain ⟨r, slot, cls, -, -, hj⟩ := h
  exact Or.inl ⟨slot, r, cls, hj⟩

/-! ### Instructions in their order -/

/-- Instructions, lowered and in their order, with loads and stores woven in between. -/
inductive Woven (c : Context) : List Inst → List Inst → Prop
  /-- Nothing. -/
  | nil : Woven c [] []
  /-- The next instruction. -/
  | own {i : Inst} {l out : List Inst} (h : Woven c l out) :
      Woven c (i :: l) (i.mapRefs c.alloc.substitute :: out)
  /-- A load or a store. -/
  | move {j : Inst} {l out : List Inst} (hj : c.target.Moves j) (h : Woven c l out) :
      Woven c l (j :: out)

/-- Instructions, lowered and in their order, each behind loads of values that it reads. -/
inductive Laid (c : Context) : List Inst → List Inst → Prop
  /-- Nothing. -/
  | nil : Laid c [] []
  /-- Loads, and the instruction that they are for. -/
  | cons {i : Inst} {l loads out : List Inst} (hloads : ∀ j ∈ loads, ∃ v, i.Reads v ∧ c.Loads v j)
      (h : Laid c l out) : Laid c (i :: l) (loads ++ i.mapRefs c.alloc.substitute :: out)

theorem Woven.moves_append (h : Woven c l out) {moves : List Inst}
    (hmoves : ∀ j ∈ moves, c.target.Moves j) : Woven c l (moves ++ out) := by
  induction moves with
  | nil => exact h
  | cons j moves ih =>
    obtain ⟨hj, hrest⟩ := List.forall_mem_cons.1 hmoves
    exact .move hj (ih hrest)

theorem Woven.append (h : Woven c l out) (h' : Woven c l' out') :
    Woven c (l ++ l') (out ++ out') := by
  induction h with
  | nil => exact h'
  | own _ ih => exact .own ih
  | move hj _ ih => exact .move hj ih

/-- Loads, with stores behind them, are loads and stores. -/
theorem moves_flatten {es : List Entry} (hloads : ∀ j ∈ es.map Entry.inst, c.target.Moves j)
    (hstores : ∀ e ∈ es, ∀ j ∈ e.stores, c.target.Stores j) :
    ∀ j ∈ Entry.flatten es, c.target.Moves j := by
  intro j hj
  obtain ⟨e, he, hj⟩ := List.mem_flatMap.1 hj
  rcases List.mem_cons.1 hj with rfl | hj
  · exact hloads _ (List.mem_map_of_mem he)
  · exact Or.inr (hstores e he j hj)

/-- Every instruction is there. -/
theorem Woven.mem (h : Woven c l out) (hi : i ∈ l) : i.mapRefs c.alloc.substitute ∈ out := by
  induction h with
  | nil => cases hi
  | own _ ih =>
    rcases List.mem_cons.1 hi with rfl | hi
    · exact List.mem_cons_self
    · exact List.mem_cons_of_mem _ (ih hi)
  | move _ _ ih => exact List.mem_cons_of_mem _ (ih hi)

/-- What is there is one of the instructions, or a load of a value that one of them reads. -/
theorem Laid.origin (h : Laid c l out) (hj : j ∈ out) :
    ∃ i ∈ l, j = i.mapRefs c.alloc.substitute ∨ ∃ v, i.Reads v ∧ c.Loads v j := by
  induction h with
  | nil => cases hj
  | @cons i l loads out hloads _ ih =>
    rcases List.mem_append.1 hj with hj | hj
    · exact ⟨i, List.mem_cons_self, Or.inr (hloads j hj)⟩
    · rcases List.mem_cons.1 hj with rfl | hj
      · exact ⟨i, List.mem_cons_self, Or.inl rfl⟩
      · obtain ⟨i', hi', horigin⟩ := ih hj
        exact ⟨i', List.mem_cons_of_mem i hi', horigin⟩

/-- Stores join the block behind its instructions. -/
theorem Laid.woven (h : Laid c l out) {es : List Entry} (hes : es.map Entry.inst = out)
    (hstores : ∀ e ∈ es, ∀ j ∈ e.stores, c.target.Stores j) : Woven c l (Entry.flatten es) := by
  induction h generalizing es with
  | nil =>
    obtain rfl := List.map_eq_nil_iff.1 hes
    exact .nil
  | @cons i l loads out hloads _ ih =>
    -- The entries come apart as the code does: loads, the instruction that they are for, the rest.
    obtain ⟨es₁, es₂, rfl, hes₁, hes₂⟩ := List.map_eq_append_iff.1 hes
    obtain ⟨e, es₂, rfl, hinst, hes₂⟩ := List.map_eq_cons_iff.1 hes₂
    have hrest : Woven c l (Entry.flatten es₂) :=
      ih hes₂ fun e' he' => hstores e' (by simp [he'])
    have hbehind : Woven c l (e.stores ++ Entry.flatten es₂) :=
      hrest.moves_append fun j hj => Or.inr (hstores e (by simp) j hj)
    have hbefore : ∀ j ∈ Entry.flatten es₁, c.target.Moves j := by
      refine moves_flatten (fun j hj => ?_) fun e' he' => hstores e' (by simp [he'])
      obtain ⟨v, -, hload⟩ := hloads j (hes₁ ▸ hj)
      exact hload.moves
    have hown := (Woven.own (i := i) hbehind).moves_append hbefore
    rw [← hinst] at hown
    simpa [Entry.flatten] using hown

/-! ### Entries are added at the end -/

/-- The instructions lowered so far and the loads for them, without stores. -/
def State.code (s : State) : List Inst := s.out.toList.map Entry.inst

section Code

variable {x : Resident} {k : Counter} {level : Level} {msg : Message} {req : Request}

@[simp]
theorem State.code_push : (s.push j).code = s.code ++ [j] := by
  simp [State.code, State.push]

@[simp]
theorem State.code_hold : (s.hold r x).code = s.code := rfl

@[simp]
theorem State.code_count : (s.count k).code = s.code := rfl

@[simp]
theorem State.code_log : (s.log level msg).code = s.code := rfl

@[simp]
theorem State.code_request : (s.request req).code = s.code := rfl

@[simp]
theorem State.code_release : s.release.code = s.code := rfl

@[simp]
theorem State.code_reserve : (s.reserve r).code = s.code := by
  rw [State.code, State.out_reserve]
  rfl

end Code

theorem code_of_evict (h : evict c r s = .ok () t) : t.code = s.code :=
  (evict_empties h).map_inst

/-- Before the place of an instruction a load may join the block, for a value that is read. -/
theorem Performed.code_early (he : e.Early) (hp : Performed c s e s') :
    s'.code = s.code ∨ ∃ v j, e = .read v ∧ c.Loads v j ∧ s'.code = s.code ++ [j] := by
  cases hp with
  | foldAway hr => exact Or.inl rfl
  | foldAbsent hr hh => exact Or.inl rfl
  | fold hr hh hev => exact Or.inl ((code_of_evict hev).trans State.code_count)
  | readHeld hr hh => exact Or.inl State.code_reserve
  | @readLoaded v r t slot cls j hr hh hev hs hc hj =>
    exact Or.inr ⟨v, j, rfl, ⟨r, slot, cls, hr, hs, hj⟩, by simp [code_of_evict hev]⟩
  | readFound hr hh hev hs => exact Or.inl (by simp [code_of_evict hev])
  | modify hr hx => exact he.elim
  | redefine hr hh => exact he.elim
  | define hr hh hev => exact he.elim
  | overwrite hev => exact he.elim

/-- Behind its place nothing does. -/
theorem Performed.code_late (he : ¬ e.Early) (hp : Performed c s e s') : s'.code = s.code := by
  cases hp with
  | foldAway hr => exact absurd trivial he
  | foldAbsent hr hh => exact absurd trivial he
  | fold hr hh hev => exact absurd trivial he
  | readHeld hr hh => exact absurd trivial he
  | readLoaded hr hh hev hs hc hi => exact absurd trivial he
  | readFound hr hh hev hs => exact absurd trivial he
  | modify hr hx => exact State.code_hold
  | redefine hr hh => exact State.code_hold
  | define hr hh hev => exact State.code_hold.trans (code_of_evict hev)
  | overwrite hev => exact code_of_evict hev

theorem code_of_before
    (hm : ((Event.before c.alloc id i).forM (Event.perform c id)) s = .ok () m) :
    ∃ loads, m.code = s.code ++ loads ∧ ∀ j ∈ loads, ∃ v, i.Reads v ∧ c.Loads v j := by
  refine forM_keeps (P := fun t => ∃ loads, t.code = s.code ++ loads ∧
    ∀ j ∈ loads, ∃ v, i.Reads v ∧ c.Loads v j) (fun e he t t' ht hp => ?_)
    ⟨[], (List.append_nil _).symm, nofun⟩ hm
  obtain ⟨loads, hcode, hloads⟩ := ht
  rcases (perform_eq_ok_iff.1 hp).code_early (Event.early_of_mem_before he) with
    hsame | ⟨v, j, rfl, hj, hnew⟩
  · exact ⟨loads, hsame.trans hcode, hloads⟩
  · have hread : i.Reads v := by
      obtain ⟨u, hu, -⟩ | ⟨u, hu, hread⟩ := Event.mem_before_iff.1 he <;> cases hu
      exact hread
    refine ⟨loads ++ [j], by rw [hnew, hcode, List.append_assoc], fun j' hj' => ?_⟩
    rcases List.mem_append.1 hj' with hj' | hj'
    · exact hloads j' hj'
    · obtain rfl := List.mem_singleton.1 hj'
      exact ⟨v, hread, hj⟩

theorem code_of_after (ht : ((Event.after i).forM (Event.perform c id)) s = .ok () t) :
    t.code = s.code :=
  forM_keeps (P := fun u => u.code = s.code)
    (fun _ he _ _ hu hp => ((perform_eq_ok_iff.1 hp).code_late
      (Event.not_early_of_mem_after he)).trans hu) rfl ht

/-- An instruction joins the block behind the loads for it. -/
theorem code_of_lowerInst (hs : lowerInst c id i s = .ok () s') :
    ∃ m, ((Event.before c.alloc id i).forM (Event.perform c id)) s = .ok () m ∧
      s'.code = m.code ++ [i.mapRefs c.alloc.substitute] := by
  obtain ⟨m, t, hm, ht, rfl⟩ := lowerInst_eq_ok_iff.1 hs
  exact ⟨m, hm, by rw [State.code_push, code_of_after ht]; rfl⟩

/-- **Instructions join the block one after the other**, each behind the loads for it. -/
theorem laid_of_lowerEach {n : Nat} (hs : lowerEach c n l s = .ok () s') :
    ∃ out, s'.code = s.code ++ out ∧ Laid c l out := by
  induction l generalizing n s with
  | nil =>
    obtain rfl := lowerEach_nil_eq_ok_iff.1 hs
    exact ⟨[], (List.append_nil _).symm, .nil⟩
  | cons i l ih =>
    -- What the next instruction adds comes before what the others add, since nothing is inserted.
    obtain ⟨w, t, -, hi, hrest⟩ := lowerEach_cons_eq_ok_iff.1 hs
    obtain ⟨m, hm, ht⟩ := code_of_lowerInst hi
    obtain ⟨loads, hloads, hreads⟩ := code_of_before hm
    obtain ⟨out, hout, hlaid⟩ := ih hrest
    refine ⟨loads ++ i.mapRefs c.alloc.substitute :: out, ?_, .cons hreads hlaid⟩
    rw [hout, ht, hloads]
    simp

/-! ### Stores -/

/-- Whatever stands behind an instruction as a store is one. -/
def State.StoresOnly (c : Context) (s : State) : Prop :=
  ∀ (k : Nat) (e : Entry), s.out[k]? = some e → ∀ j ∈ e.stores, c.target.Stores j

namespace State.StoresOnly

theorem congr (h : s.StoresOnly c) (ho : s'.out = s.out) : s'.StoresOnly c := by
  rw [State.StoresOnly, ho]
  exact h

theorem push (h : s.StoresOnly c) : (s.push j).StoresOnly c := by
  intro k e hk j' hj'
  rcases State.entry_push hk with hk | ⟨-, rfl⟩
  · exact h k e hk j' hj'
  · cases hj'

theorem vacated (h : s.StoresOnly c) (hv : Vacated c r s s') : s'.StoresOnly c := by
  cases hv with
  | idle hx => exact h
  | drop hx hr hd => exact h.congr rfl
  | @store x slot cls j hx hr hd hs hb hc hi =>
    have hstore : (s.store x.since j).StoresOnly c := by
      intro k e hk j' hj'
      obtain ⟨e', he', -, hstores⟩ := State.entry_store hk
      rcases hstores j' hj' with hj' | rfl
      · exact h k e' he' j' hj'
      · exact ⟨r, slot, cls, hi⟩
    exact hstore.congr rfl

theorem of_evict (h : s.StoresOnly c) (he : evict c r s = .ok () t) : t.StoresOnly c :=
  evict_keeps (P := State.StoresOnly c) (fun _ _ _ ht hv => ht.vacated hv) h he

theorem perform (h : s.StoresOnly c) (hp : Performed c s e s') : s'.StoresOnly c := by
  cases hp with
  | foldAway hr => exact h
  | foldAbsent hr hh => exact h
  | fold hr hh he =>
    have hcount : (s.count .foldEvictions).StoresOnly c := h.congr rfl
    exact hcount.of_evict he
  | readHeld hr hh => exact h.congr (s.out_reserve _)
  | @readLoaded v r t slot cls j hr hh he hs hc hi =>
    exact (h.of_evict he).push.congr (State.out_reserve _ _)
  | readFound hr hh he hs => exact (h.of_evict he).congr (State.out_reserve _ _)
  | modify hr hx => exact h.congr rfl
  | redefine hr hh => exact h.congr rfl
  | define hr hh he => exact (h.of_evict he).congr rfl
  | overwrite he => exact h.of_evict he

theorem lowerInst (h : s.StoresOnly c) (hs : lowerInst c id i s = .ok () s') :
    s'.StoresOnly c := by
  obtain ⟨m, t, hm, ht, rfl⟩ := lowerInst_eq_ok_iff.1 hs
  have hkeep : ∀ {es : List Event} {u u' : State}, u.StoresOnly c →
      (es.forM (Event.perform c id)) u = .ok () u' → u'.StoresOnly c := fun hu he =>
    forM_keeps (P := State.StoresOnly c) (fun _ _ _ _ hw hp => hw.perform (perform_eq_ok_iff.1 hp))
      hu he
  have hmid : m.release.StoresOnly c := (hkeep h hm).congr rfl
  exact (hkeep hmid ht).push

theorem lowerEach {n : Nat} (h : s.StoresOnly c) (hs : lowerEach c n l s = .ok () s') :
    s'.StoresOnly c := by
  induction l generalizing n s with
  | nil => exact lowerEach_nil_eq_ok_iff.1 hs ▸ h
  | cons i l ih =>
    obtain ⟨w, t, -, hi, hrest⟩ := lowerEach_cons_eq_ok_iff.1 hs
    exact ih (h.lowerInst hi) hrest

end State.StoresOnly

/-- Whatever stands behind an instruction of a lowered block as a store is one. -/
theorem stores_of_flush {n : Nat} (hs : lowerEach c n l {} = .ok () s)
    (hflush : flush c s = .ok () s') : ∀ e ∈ s'.out.toList, ∀ j ∈ e.stores, c.target.Stores j := by
  have hstart : State.StoresOnly c {} := fun _ _ h => nomatch h
  have hend : s'.StoresOnly c := flush_keeps (P := State.StoresOnly c)
    (fun _ _ _ hv hv' => hv.vacated hv') (hstart.lowerEach hs) hflush
  intro e he
  obtain ⟨k, hk⟩ := List.mem_iff_getElem?.1 he
  exact hend k e (Array.getElem?_toList.symm.trans hk)

/-! ### The place of an instruction -/

section Place

variable {pre post out₁ loads out₂ : List Inst}

/-- The code of a block, taken apart where one of its instructions is. -/
theorem exists_code_of_lowerEach (hs : lowerEach c 0 (pre ++ i :: post) {} = .ok () s) :
    ∃ t w m out₁ loads out₂, lowerEach c 0 pre {} = .ok () t ∧ word pre.length = .ok w ∧
      ((Event.before c.alloc ⟨c.block, w⟩ i).forM (Event.perform c ⟨c.block, w⟩)) t = .ok () m ∧
      m.code = out₁ ++ loads ∧ s.code = (out₁ ++ loads) ++ i.mapRefs c.alloc.substitute :: out₂ ∧
      Laid c pre out₁ ∧ (∀ j ∈ loads, ∃ v, i.Reads v ∧ c.Loads v j) ∧ Laid c post out₂ := by
  obtain ⟨t, hpre, hrest⟩ := lowerEach_append_eq_ok_iff.1 hs
  obtain ⟨w, u, hw, hi, hpost⟩ := lowerEach_cons_eq_ok_iff.1 hrest
  rw [Nat.zero_add] at hw
  obtain ⟨m, hm, hu⟩ := code_of_lowerInst hi
  obtain ⟨out₁, ht, hlaid₁⟩ := laid_of_lowerEach hpre
  obtain ⟨loads, hmt, hloads⟩ := code_of_before hm
  obtain ⟨out₂, hs, hlaid₂⟩ := laid_of_lowerEach hpost
  have hmcode : m.code = out₁ ++ loads := by
    rw [hmt, ht]
    simp [State.code]
  refine ⟨t, w, m, out₁, loads, out₂, hpre, hw, hm, hmcode, ?_, hlaid₁, hloads, hlaid₂⟩
  rw [hs, hu, hmcode]
  simp

/-- The stores take nothing out of its order. -/
theorem exists_woven_of_entries {es : List Entry}
    (hes : es.map Entry.inst = (out₁ ++ loads) ++ i.mapRefs c.alloc.substitute :: out₂)
    (hstores : ∀ e ∈ es, ∀ j ∈ e.stores, c.target.Stores j) (hlaid₁ : Laid c pre out₁)
    (hloads : ∀ j ∈ loads, ∃ v, i.Reads v ∧ c.Loads v j) (hlaid₂ : Laid c post out₂) :
    ∃ front back, Entry.flatten es = front ++ i.mapRefs c.alloc.substitute :: back ∧
      (∀ j ∈ out₁ ++ loads, j ∈ front) ∧
      (∀ j ∈ front, j ∈ out₁ ++ loads ∨ c.target.Stores j) ∧ Woven c pre front ∧
      Woven c post back := by
  obtain ⟨es', es₂, rfl, hes', hes₂⟩ := List.map_eq_append_iff.1 hes
  obtain ⟨e, es₃, rfl, hinst, hes₃⟩ := List.map_eq_cons_iff.1 hes₂
  obtain ⟨es₁, esl, rfl, hes₁, hesl⟩ := List.map_eq_append_iff.1 hes'
  refine ⟨Entry.flatten (es₁ ++ esl), e.stores ++ Entry.flatten es₃, ?_, fun j hj => ?_,
    fun j hj => ?_, ?_, ?_⟩
  · rw [← hinst]
    simp [Entry.flatten]
  · rw [← hes'] at hj
    obtain ⟨e', he', rfl⟩ := List.mem_map.1 hj
    exact List.mem_flatMap.2 ⟨e', he', List.mem_cons_self⟩
  · obtain ⟨e', he', hj⟩ := List.mem_flatMap.1 hj
    rcases List.mem_cons.1 hj with rfl | hj
    · exact Or.inl (hes' ▸ List.mem_map_of_mem he')
    · exact Or.inr (hstores e' (List.mem_append_left _ he') j hj)
  · -- The loads for the instruction itself belong to none of those before it.
    have hmoves : ∀ j ∈ Entry.flatten esl, c.target.Moves j := by
      refine moves_flatten (fun j hj => ?_) fun e' he' => hstores e' (by simp [he'])
      obtain ⟨v, -, hload⟩ := hloads j (hesl ▸ hj)
      exact hload.moves
    have hwoven := (hlaid₁.woven hes₁ fun e' he' => hstores e' (by simp [he'])).append
      (Woven.nil.moves_append hmoves)
    simpa [Entry.flatten] using hwoven
  · exact (hlaid₂.woven hes₃ fun e' he' => hstores e' (by simp [he'])).moves_append
      fun j hj => Or.inr (hstores e (by simp) j hj)

/-- **The place of an instruction in a lowered block**: the instructions `pre` come before it and
`post` behind it, and the lowered block is `front`, the instruction, and `back`. Its place is
settled in the state `m`. -/
structure Stands (c : Context) (pre : List Inst) (i : Inst) (post out : List Inst) (m : State)
    (front back : List Inst) : Prop where
  /-- The place is settled when the instructions before it are lowered and the loads for it are
  there. -/
  settled : ∃ t w, lowerEach c 0 pre {} = .ok () t ∧ word pre.length = .ok w ∧
    ((Event.before c.alloc ⟨c.block, w⟩ i).forM (Event.perform c ⟨c.block, w⟩)) t = .ok () m
  /-- The lowered block, taken apart at the place. -/
  split : out = front ++ i.mapRefs c.alloc.substitute :: back
  /-- What is there when the place is settled comes before it. -/
  code : ∀ j ∈ m.code, j ∈ front
  /-- Nothing else does but stores. -/
  stores : ∀ j ∈ front, j ∈ m.code ∨ c.target.Stores j
  /-- The instructions before it come before it, and no others. -/
  front : Woven c pre front
  /-- The instructions behind it come behind it. -/
  back : Woven c post back

/-- **Every instruction has its place in the lowered block.** -/
theorem exists_stands_of_lowerBlock {b : Block} {x : List Inst × Stats}
    (hb : c.func.block c.block = .ok b) (hinsts : b.insts = pre ++ i :: post)
    (hx : (lowerBlock c).result = .ok x) :
    ∃ m front back, Stands c pre i post x.1 m front back := by
  obtain ⟨b', s, s', hb', hlower, hflush, rfl⟩ := lowerBlock_eq_ok_iff.1 hx
  obtain rfl := Except.ok.inj (hb.symm.trans hb')
  have heach := (lowerInsts_eq_ok_iff.1 hlower).2
  rw [hinsts] at heach
  obtain ⟨t, w, m, out₁, loads, out₂, hpre, hw, hm, hmcode, hscode, hlaid₁, hloads, hlaid₂⟩ :=
    exists_code_of_lowerEach heach
  have hcode : s'.code = (out₁ ++ loads) ++ i.mapRefs c.alloc.substitute :: out₂ :=
    (flush_empties hflush).map_inst.trans hscode
  obtain ⟨front, back, hsplit, hmem, hstores, hfront, hback⟩ :=
    exists_woven_of_entries hcode (stores_of_flush heach hflush) hlaid₁ hloads hlaid₂
  rw [← hmcode] at hmem hstores
  exact ⟨m, front, back, ⟨t, w, hpre, hw, hm⟩, hsplit, hmem, hstores, hfront, hback⟩

end Place

end Residency

import Mathlib.Data.List.Induction
import Residency.Proofs.Midway

/-!
# From one instruction to the next

What holds between two instructions of a block (`Residency.Between`) is kept by the
lowering of an instruction (`Residency.Between.next`), and so by the lowering of any
prefix of a block (`Residency.between_of_lowerEach`). What the events of an instruction build
up on the way is `Residency.Behind`.

Nothing here depends on the target but that its loads overwrite only the register that they
are for, which is so for x64 (`Residency.Target.x64_loadsOnly`).
-/

namespace Residency

open Step

variable {c : Context} {id : Site} {i : Inst} {e : Event} {done : List Event}
  {s s' t m : State} {made made' : VReg → Nat → Inst → Prop}

/-! ### Changes in place come first -/

/-- Only changes in place come before a change in place. -/
theorem Event.modifies_of_append_modify {rest : List Event} {v : VReg}
    (h : Event.after i = done ++ .modify v :: rest) : ∀ e ∈ done, ∃ u, e = .modify u := by
  rw [Event.after_eq_append, List.append_eq_append_iff] at h
  rcases h with ⟨l, rfl, hl⟩ | ⟨l, hl, -⟩
  · have hmem : .modify v ∈ Event.writes i := by simp [hl]
    rcases Event.mem_writes_iff.1 hmem with ⟨u, hu, -⟩ | ⟨r, hr, -⟩
    · cases hu
    · cases hr
  · intro e he
    have hmem : e ∈ i.operands.filterMap Event.ofModify? := by
      rw [hl]
      exact List.mem_append_left _ he
    obtain ⟨u, rfl, -⟩ := Event.mem_modifies_iff.1 hmem
    exact ⟨u, rfl⟩

/-- The part of the events behind the place of an instruction that comes first. -/
theorem Event.mem_after_of_append {rest : List Event} (h : Event.after i = done ++ e :: rest) :
    e ∈ Event.after i := by
  rw [h]
  simp

/-! ### The two parts of an instruction -/

/-- What holds between two instructions. -/
structure Between (c : Context) (made : VReg → Nat → Inst → Prop) (s : State) : Prop where
  /-- The table says what is there. -/
  coherent : Coherent c s
  /-- Every value that counts is older than the instruction to come. -/
  midway : Midway c made [] s
  /-- No register is reserved. -/
  unreserved : s.reserved = []

/-- What holds behind the place of an instruction, from the state `m` in which its place was
settled, when some of its events are done. -/
structure Behind (c : Context) (made : VReg → Nat → Inst → Prop) (i : Inst) (m : State)
    (done : List Event) (s : State) : Prop where
  /-- The table says what is there. -/
  coherent : Coherent c s
  /-- Every value that counts is older than the instruction, or written by it. -/
  midway : Midway c made done s
  /-- The place of the instruction is still the next one. -/
  size : s.out.size = m.out.size
  /-- No register is reserved. -/
  unreserved : s.reserved = []
  /-- While values are only changed in place, what was read is still there. -/
  held : (∀ e ∈ done, ∃ u, e = .modify u) → ∀ {v : VReg}, i.Reads v →
    ∃ r, c.alloc.reg? v = .ok (some r) ∧ s.table.holds r v = true

theorem Between.start : Between c made {} := ⟨.start, .start, rfl⟩

/-- **Up to its place** an instruction keeps what holds between instructions, and the values
that it reads are in their registers. -/
theorem Between.before (hload : c.target.LoadsOnly) (h : Between c made s)
    (hm : ((Event.before c.alloc id i).forM (Event.perform c id)) s = .ok () m) :
    Coherent c m ∧ Midway c made [] m ∧ Reading c (Event.before c.alloc id i) m := by
  have hkeep : Coherent c m ∧ Midway c made [] m := by
    refine forM_keeps (P := fun t => Coherent c t ∧ Midway c made [] t)
      (fun e he t t' ht hp => ?_) ⟨h.coherent, h.midway⟩ hm
    exact ⟨ht.1.perform hload (perform_eq_ok_iff.1 hp),
      ht.2.perform_early (Event.early_of_mem_before he) (perform_eq_ok_iff.1 hp)⟩
  exact ⟨hkeep.1, hkeep.2, reading_of_before h.unreserved hm⟩

theorem Behind.start (hco : Coherent c m) (hmid : Midway c made [] m)
    (hread : Reading c (Event.before c.alloc id i) m) : Behind c made i m [] m.release where
  coherent := hco.congr rfl rfl
  midway := hmid.congr rfl rfl
  size := rfl
  unreserved := rfl
  held _ {_} hv := hread.held_of_reads hv

/-- No event behind the place of an instruction adds to the lowered block or reserves a
register. -/
theorem Performed.late (he : ¬ e.Early) (hp : Performed c s e s') :
    s'.out.size = s.out.size ∧ s'.reserved = s.reserved := by
  cases hp with
  | foldAway hr => exact absurd trivial he
  | foldAbsent hr hh => exact absurd trivial he
  | fold hr hh hev => exact absurd trivial he
  | readHeld hr hh => exact absurd trivial he
  | readLoaded hr hh hev hs hc hi => exact absurd trivial he
  | readFound hr hh hev hs => exact absurd trivial he
  | modify hr hx => exact ⟨rfl, rfl⟩
  | redefine hr hh => exact ⟨rfl, rfl⟩
  | define hr hh hev => exact ⟨(evict_empties hev).size, (evict_empties hev).reserved⟩
  | overwrite hev => exact ⟨(evict_empties hev).size, (evict_empties hev).reserved⟩

/-- A change in place leaves every register with the virtual register whose value it had. -/
theorem Performed.holds_of_modify {u v : VReg} {r : Reg} (hp : Performed c s (.modify u) s')
    (hh : s.table.holds r v = true) : s'.table.holds r v = true := by
  obtain ⟨x, hx, hxv⟩ := Table.holds_iff.1 hh
  cases hp with
  | @modify _ q y hq hy =>
    by_cases hrq : r = q
    · subst hrq
      obtain rfl := Option.some.inj (hx.symm.trans hy)
      exact Table.holds_iff.2 ⟨⟨x.vreg, true, s.out.size⟩, by simp [State.hold], hxv⟩
    · exact Table.holds_iff.2 ⟨x, by simp [State.hold, hrq, hx], hxv⟩

/-- What an instruction reads is in its register, as long as values are only changed in place. -/
def Held (c : Context) (i : Inst) (done : List Event) (s : State) : Prop :=
  (∀ e ∈ done, ∃ u, e = .modify u) → ∀ {v : VReg}, i.Reads v →
    ∃ r, c.alloc.reg? v = .ok (some r) ∧ s.table.holds r v = true

/-- A change in place finds the value that it changes. -/
theorem Held.found {rest : List Event} {v : VReg} {r : Reg} (h : Held c i done s)
    (hsplit : Event.after i = done ++ .modify v :: rest) (hr : c.alloc.reg? v = .ok (some r)) :
    s.table.holds r v = true := by
  obtain ⟨u, hu, ho⟩ | ⟨u, hu, -⟩ | ⟨q, hq, -⟩ :=
    Event.mem_after_iff.1 (Event.mem_after_of_append hsplit)
  · cases hu
    obtain ⟨q, hq, hh⟩ := h (Event.modifies_of_append_modify hsplit) (Inst.reads_of_modify ho)
    exact Allocation.reg_unique hq hr ▸ hh
  · cases hu
  · cases hq

theorem Held.perform (h : Held c i done s) (hp : Performed c s e s') :
    Held c i (done ++ [e]) s' := by
  intro hmods v hv
  obtain ⟨u, rfl⟩ := hmods e (by simp)
  obtain ⟨r, hr, hh⟩ := h (fun e' he' => hmods e' (List.mem_append_left _ he')) hv
  exact ⟨r, hr, hp.holds_of_modify hh⟩

theorem Behind.perform {rest : List Event} (hload : c.target.LoadsOnly)
    (h : Behind c made i m done s) (hsplit : Event.after i = done ++ e :: rest)
    (hp : Performed c s e s') : Behind c made i m (done ++ [e]) s' := by
  have hlate := Event.not_early_of_mem_after (Event.mem_after_of_append hsplit)
  have hheld : Held c i done s := h.held
  refine ⟨h.coherent.perform hload hp, h.midway.perform_late hlate h.coherent ?_ hp,
    (hp.late hlate).1.trans h.size, (hp.late hlate).2.trans h.unreserved, hheld.perform hp⟩
  rintro v r rfl hr
  exact hheld.found hsplit hr

/-- **Behind its place**, what holds is built up event by event. -/
theorem behind_of_append {rest : List Event} (hload : c.target.LoadsOnly)
    (h : Behind c made i m [] m.release) (hsplit : Event.after i = done ++ rest)
    (hs : (done.forM (Event.perform c id)) m.release = .ok () t) :
    Behind c made i m done t := by
  refine forM_builds (P := Behind c made i m)
    (fun pre e post hpre t t' ht hp => ?_) h hs
  have hrest : Event.after i = pre ++ e :: (post ++ rest) := by
    rw [hsplit, hpre, List.append_assoc, List.cons_append]
  exact ht.perform hload hrest (perform_eq_ok_iff.1 hp)

/-! ### A whole instruction -/

/-- **Between two instructions**: what holds before an instruction holds behind it, the values
that it has written being made by it. -/
theorem Between.next (hload : c.target.LoadsOnly) (h : Between c made s)
    (hs : lowerInst c id i s = .ok () s') (hmono : ∀ v k j, made v k j → made' v k j)
    (hnew : ∀ v k, i.Writes v → s'.out.size = k + 1 →
      made' v k (i.mapRefs c.alloc.substitute)) :
    Between c made' s' := by
  obtain ⟨m, t, hm, ht, rfl⟩ := lowerInst_eq_ok_iff.1 hs
  obtain ⟨hco, hmid, hread⟩ := h.before hload hm
  have hbehind := behind_of_append hload (.start hco hmid hread) (List.append_nil _).symm ht
  refine ⟨hbehind.coherent.push fun r x hx hb hk => ?_, hbehind.midway.push hmono
    fun v hv => hnew v _ hv State.size_push, hbehind.unreserved⟩
  refine Bool.eq_false_iff.2 fun hov => ?_
  obtain ⟨e, he, hhit⟩ := Inst.exists_hits_of_overwrites hov
  exact hbehind.midway.spared hx hb hk he hhit

/-! ### Loads of x64 -/

/-- The loads of x64 overwrite only the register that they are for. -/
theorem Target.x64_loadsOnly : Target.x64.LoadsOnly := by
  intro slot r cls i hi q hq
  obtain ⟨-, rfl⟩ := Target.x64_load_eq_ok_iff.1 hi
  obtain ⟨p, hp, hov⟩ := Inst.overwrites_iff.1 hq
  simp only [Inst.load, Inst.outputs, List.not_mem_nil, or_false] at hp
  obtain rfl : p = r := by simpa [Operand.output?] using hp
  exact hov

/-! ### A prefix of a block -/

/-- A value of a virtual register was made at a position of the lowered block: there stands an
instruction, the lowered form of one that writes the virtual register, and it is the entry
that this one has joined the block with. -/
def MadeBy (c : Context) (l : List Inst) (v : VReg) (k : Nat) (j : Inst) : Prop :=
  ∃ n i t, l[n]? = some i ∧ i.Writes v ∧ lowerEach c 0 (l.take (n + 1)) {} = .ok () t ∧
    t.out.size = k + 1 ∧ j = i.mapRefs c.alloc.substitute

theorem MadeBy.append {l : List Inst} {v : VReg} {k : Nat} {j : Inst} (h : MadeBy c l v k j) :
    MadeBy c (l ++ [i]) v k j := by
  obtain ⟨n, i', t, hn, hw, ht, hk, hj⟩ := h
  have hlt : n < l.length := (List.getElem?_eq_some_iff.1 hn).1
  refine ⟨n, i', t, ?_, hw, ?_, hk, hj⟩
  · rw [List.getElem?_append_left hlt, hn]
  · rwa [List.take_append_of_le_length hlt]

theorem MadeBy.last {l : List Inst} {v : VReg} {k : Nat}
    (ht : lowerEach c 0 (l ++ [i]) {} = .ok () t) (hv : i.Writes v) (hk : t.out.size = k + 1) :
    MadeBy c (l ++ [i]) v k (i.mapRefs c.alloc.substitute) := by
  refine ⟨l.length, i, t, by simp, hv, ?_, hk, rfl⟩
  rwa [List.take_of_length_le (by simp)]

/-- **After any prefix of a block** the values that are dirty were made by its instructions. -/
theorem between_of_lowerEach {l : List Inst} (hload : c.target.LoadsOnly)
    (hs : lowerEach c 0 l {} = .ok () s) : Between c (MadeBy c l) s := by
  induction l using List.reverseRecOn generalizing s with
  | nil =>
    obtain rfl := lowerEach_nil_eq_ok_iff.1 hs
    exact .start
  | append_singleton pre i ih =>
    obtain ⟨t, hpre, hlast⟩ := lowerEach_append_eq_ok_iff.1 hs
    obtain ⟨w, t', -, hi, hnil⟩ := lowerEach_cons_eq_ok_iff.1 hlast
    obtain rfl := lowerEach_nil_eq_ok_iff.1 hnil
    exact (ih hpre).next hload hi (fun _ _ _ h => h.append) fun v k hv hk => .last hs hv hk

end Residency

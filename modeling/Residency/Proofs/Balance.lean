import Residency.Proofs.Arranged
import Residency.Proofs.Schedule

/-!
# What a lowered block amounts to

A lowered block is the block itself, with registers in the place of virtual registers and loads
and stores put in between, and the counters say how many (`Residency.Filled`). The counters are
also balanced: a value comes into a register by a load, by a read of a value that has no slot, or
by a write, and by the end of the block each one that came has left by an eviction, clean or dirty
(`Residency.Balanced`).

In the middle of a block the difference is what the registers hold (`Residency.Tally`): an eviction
takes a value out of a register and counts it, and an event that brings a value into a register
which was free counts it as well, or is one of those to be counted (`Residency.arrivals`).
-/

namespace Residency

open Step

variable {c : Context} {a : Allocation} {id : Site} {i j : Inst} {e : Event}
  {es done future : List Event} {l l' out : List Inst} {entries : List Entry}
  {s s' t m : State} {r q : Reg} {v : VReg} {x : Resident} {n loads stores found defined : Nat}

/-! ### Instructions, lowered -/

/-- A register stands for what an operand names: a physical register for itself, and the register
of a virtual register for that one. -/
inductive RegRef.Lowers (a : Allocation) : RegRef → Reg → Prop
  /-- A virtual register. -/
  | virtual {v : VReg} {r : Reg} (hr : a.reg? v = .ok (some r)) : Lowers a (.virtual v) r
  /-- A physical register. -/
  | physical {r : Reg} : Lowers a (.physical r) r

/-- An operand, lowered: only the register that it names changes. -/
inductive Operand.Lowers (a : Allocation) : Operand → Operand → Prop
  /-- A register. -/
  | reg {ref : RegRef} {r : Reg} {access : Access} (h : ref.Lowers a r) :
      Lowers a (.reg ref access) (.reg (.physical r) access)
  /-- The memory at a distance from an address in a register. -/
  | base {ref : RegRef} {r : Reg} {offset : Int32} (h : ref.Lowers a r) :
      Lowers a (.base ref offset) (.base (.physical r) offset)
  /-- An operand that names no register. -/
  | keep {o : Operand} (h : o.ref? = none) : Lowers a o o

/-- An instruction, lowered: only the registers that its operands name change. -/
structure Inst.Lowers (a : Allocation) (i j : Inst) : Prop where
  /-- It is the same operation. -/
  opcode : j.opcode = i.opcode
  /-- The operands are lowered one by one. -/
  operands : List.Forall₂ (Operand.Lowers a) i.operands j.operands
  /-- It overwrites the same registers besides. -/
  clobbers : j.clobbers = i.clobbers
  /-- It ends the block if it did. -/
  isTerminator : j.isTerminator = i.isTerminator

theorem RegRef.lowers_substitute {ref : RegRef}
    (h : ∀ v, ref = .virtual v → ∃ r, a.reg? v = .ok (some r)) :
    ∃ r, a.substitute ref = .physical r ∧ ref.Lowers a r := by
  cases ref with
  | physical r => exact ⟨r, rfl, .physical⟩
  | virtual v =>
    obtain ⟨r, hr⟩ := h v rfl
    exact ⟨r, Allocation.substitute_virtual_eq_iff.2 hr, .virtual hr⟩

theorem Operand.lowers_mapRef {o : Operand}
    (h : ∀ v, o.ref? = some (.virtual v) → ∃ r, a.reg? v = .ok (some r)) :
    o.Lowers a (o.mapRef a.substitute) := by
  cases o with
  | reg ref access =>
    obtain ⟨r, hr, hlowers⟩ := RegRef.lowers_substitute fun v hv => h v (congrArg some hv)
    rw [Operand.mapRef, hr]
    exact .reg hlowers
  | base ref offset =>
    obtain ⟨r, hr, hlowers⟩ := RegRef.lowers_substitute fun v hv => h v (congrArg some hv)
    rw [Operand.mapRef, hr]
    exact .base hlowers
  | _ => exact .keep rfl

/-- Substitution lowers an instruction whose virtual registers all have registers. -/
theorem Inst.lowers_mapRefs (h : ∀ v, i.Names v → ∃ r, a.reg? v = .ok (some r)) :
    i.Lowers a (i.mapRefs a.substitute) where
  opcode := rfl
  operands := by
    refine List.forall₂_map_right_iff.2 (List.forall₂_same.2 fun o ho => ?_)
    exact Operand.lowers_mapRef fun v hv => h v (Inst.names_iff.2 ⟨o, ho, hv⟩)
  clobbers := rfl
  isTerminator := rfl

theorem exists_reg_of_lowerEach (hi : i ∈ l) (hv : i.Names v)
    (hs : lowerEach c n l s = .ok () t) : ∃ r, c.alloc.reg? v = .ok (some r) := by
  induction l generalizing n s with
  | nil => cases hi
  | cons k l ih =>
    obtain ⟨w, u, -, hk, hrest⟩ := lowerEach_cons_eq_ok_iff.1 hs
    rcases List.mem_cons.1 hi with rfl | hi
    · exact exists_reg_of_lowerInst hv hk
    · exact ih hi hrest

/-! ### Loads and stores, counted -/

/-- Instructions, lowered and in their order, with so many loads and so many stores put in
between. -/
inductive Filled (c : Context) : List Inst → List Inst → Nat → Nat → Prop
  /-- Nothing. -/
  | nil : Filled c [] [] 0 0
  /-- The next instruction. -/
  | own {i j : Inst} {l out : List Inst} {loads stores : Nat} (hi : i.Lowers c.alloc j)
      (h : Filled c l out loads stores) : Filled c (i :: l) (j :: out) loads stores
  /-- A load. -/
  | load {v : VReg} {j : Inst} {l out : List Inst} {loads stores : Nat} (hj : c.LoadOf v j)
      (h : Filled c l out loads stores) : Filled c l (j :: out) (loads + 1) stores
  /-- A store. -/
  | store {v : VReg} {j : Inst} {l out : List Inst} {loads stores : Nat} (hj : c.StoreOf v j)
      (h : Filled c l out loads stores) : Filled c l (j :: out) loads (stores + 1)

namespace Filled

theorem length_eq (h : Filled c l out loads stores) :
    out.length = l.length + stores + loads := by
  induction h with
  | nil => rfl
  | own _ _ ih =>
    rw [List.length_cons, List.length_cons, ih]
    omega
  | load _ _ ih =>
    rw [List.length_cons, ih]
    omega
  | store _ _ ih =>
    rw [List.length_cons, ih]
    omega

theorem loads_append {js : List Inst} {vs : List VReg} (hjs : List.Forall₂ c.LoadOf vs js)
    (h : Filled c l out loads stores) :
    Filled c l (js ++ out) (js.length + loads) stores := by
  induction hjs with
  | nil => simpa using h
  | cons hj _ ih =>
    rw [List.length_cons, Nat.add_right_comm]
    exact .load hj ih

theorem stores_append {js : List Inst} {vs : List VReg} (hjs : List.Forall₂ c.StoreOf vs js)
    (h : Filled c l out loads stores) :
    Filled c l (js ++ out) loads (js.length + stores) := by
  induction hjs with
  | nil => simpa using h
  | cons hj _ ih =>
    rw [List.length_cons, Nat.add_right_comm]
    exact .store hj ih

end Filled

/-- The number of stores behind some entries. -/
def Entry.storeCount (entries : List Entry) : Nat :=
  (entries.map fun e => e.stores.length).sum

/-- Loads, an instruction with stores behind it, and other entries. -/
theorem Entry.storeCount_append {js ks : List Inst} :
    Entry.storeCount (js.map (fun i => { inst := i }) ++ ⟨j, ks⟩ :: entries) =
      ks.length + Entry.storeCount entries := by
  simp [Entry.storeCount, Function.comp_def]

/-- One store more. -/
theorem Entry.storeCount_modify (hn : n < entries.length) :
    Entry.storeCount (entries.modify n fun e => { e with stores := e.stores ++ [j] }) =
      Entry.storeCount entries + 1 := by
  induction entries generalizing n with
  | nil => cases hn
  | cons e entries ih =>
    cases n with
    | zero => simp [Entry.storeCount, Nat.add_right_comm]
    | succ n =>
      have hrest := ih (Nat.lt_of_succ_lt_succ hn)
      simp only [Entry.storeCount] at hrest ⊢
      rw [List.modify_succ_cons, List.map_cons, List.sum_cons, hrest, List.map_cons, List.sum_cons,
        Nat.add_assoc]

theorem Entry.storeCount_push :
    Entry.storeCount (s.push j).out.toList = Entry.storeCount s.out.toList := by
  simp [Entry.storeCount, State.push]

/-- **An arranged block is the block, filled**: an entry that is not an instruction of the block is
a load. -/
theorem Arranged.filled (h : Arranged c future es n l entries)
    (hregs : ∀ i ∈ l, ∀ v, i.Names v → ∃ r, c.alloc.reg? v = .ok (some r)) :
    ∃ loads, entries.length = l.length + loads ∧
      Filled c l (Entry.flatten entries) loads (Entry.storeCount entries) := by
  induction h with
  | nil => exact ⟨0, rfl, .nil⟩
  | @cons es n i l js ks entries hloads hstores _ ih =>
    obtain ⟨hi, hregs⟩ := List.forall_mem_cons.1 hregs
    obtain ⟨loads, hlen, hfilled⟩ := ih hregs
    obtain ⟨vs, -, -, hjs⟩ := hloads
    obtain ⟨us, -, -, hks⟩ := hstores
    refine ⟨js.length + loads, by simp [hlen]; omega, ?_⟩
    have hbehind := Filled.own (Inst.lowers_mapRefs hi) (hfilled.stores_append hks)
    rw [Entry.flatten_append, Entry.flatten_map_mk, Entry.storeCount_append]
    exact hbehind.loads_append hjs

/-! ### What the registers hold -/

/-- The number of registers that hold something. -/
def Table.occupied (tab : Table) : Nat := Reg.all.countP fun r => (tab.get? r).isSome

section Occupied

variable {tab tab' : Table}

/-- Where one register more counts. -/
theorem countP_succ {rs : List Reg} {p p' : Reg → Bool} (hrs : rs.Nodup) (hr : r ∈ rs)
    (hp : p r = false) (hp' : p' r = true) (hsame : ∀ q, q ≠ r → p' q = p q) :
    rs.countP p' = rs.countP p + 1 := by
  induction rs with
  | nil => cases hr
  | cons q rs ih =>
    obtain ⟨hq, hrs⟩ := List.nodup_cons.1 hrs
    rw [List.countP_cons, List.countP_cons]
    by_cases hqr : q = r
    · subst hqr
      have hrest : rs.countP p' = rs.countP p := List.countP_congr fun q' hq' => by
        rw [hsame q' fun heq => hq (heq ▸ hq')]
      simp [hp, hp', hrest]
    · rw [ih hrs ((List.mem_cons.1 hr).resolve_left fun h => hqr h.symm), hsame q hqr,
        Nat.add_right_comm]

theorem Table.occupied_hold (h : tab.get? r = none) :
    (tab.hold r x).occupied = tab.occupied + 1 :=
  countP_succ Reg.nodup_all (Reg.mem_all r) (by rw [h]; rfl) (by simp)
    fun q hq => by simp [hq]

theorem Table.occupied_hold_of_some {y : Resident} (h : tab.get? r = some y) :
    (tab.hold r x).occupied = tab.occupied := by
  refine List.countP_congr fun q _ => ?_
  rw [Table.get?_hold]
  by_cases hq : q = r
  · simp [hq, h]
  · simp [hq]

theorem Table.occupied_free (h : tab.get? r = some x) :
    tab.occupied = (tab.free r).occupied + 1 :=
  countP_succ Reg.nodup_all (Reg.mem_all r) (by simp) (by rw [h]; rfl) fun q hq => by simp [hq]

theorem Table.occupied_le (h : ∀ q y, tab'.get? q = some y → tab.get? q = some y) :
    tab'.occupied ≤ tab.occupied := by
  refine List.countP_mono_left fun q _ hq => ?_
  obtain ⟨y, hy⟩ := Option.isSome_iff_exists.1 hq
  rw [h q y hy]
  rfl

end Occupied

/-! ### What evictions count -/

/-- What some evictions have changed of what is counted: what they took out of registers, they
stored or dropped. -/
structure Sheds (s t : State) : Prop where
  /-- What is no longer held is stored or dropped. -/
  held : t.table.occupied + (t.stats.spills + t.stats.cleanEvictions) =
    s.table.occupied + (s.stats.spills + s.stats.cleanEvictions)
  /-- Each store is there. -/
  stores : Entry.storeCount t.out.toList + s.stats.spills =
    Entry.storeCount s.out.toList + t.stats.spills
  /-- Nothing was loaded. -/
  reloads : t.stats.reloads = s.stats.reloads
  /-- The evictions for folds are counted elsewhere. -/
  folds : t.stats.foldEvictions = s.stats.foldEvictions

theorem Sheds.refl : Sheds s s := ⟨rfl, rfl, rfl, rfl⟩

theorem Sheds.trans (h : Sheds s m) (h' : Sheds m t) : Sheds s t where
  held := h'.held.trans h.held
  stores := by
    have hstores := h.stores
    have hstores' := h'.stores
    omega
  reloads := h'.reloads.trans h.reloads
  folds := h'.folds.trans h.folds

theorem Vacated.sheds (h : Vacated c r s s') : Sheds s s' := by
  cases h with
  | idle hx => exact .refl
  | drop hx hr hd =>
    have hocc := Table.occupied_free hx
    refine ⟨?_, rfl, rfl, rfl⟩
    change (s.table.free r).occupied + (s.stats.spills + (s.stats.cleanEvictions + 1)) = _
    omega
  | @store x slot cls i hx hr hd hs hb hc hi =>
    have hocc := Table.occupied_free hx
    refine ⟨?_, ?_, rfl, rfl⟩
    · change (s.table.free r).occupied + (s.stats.spills + 1 + s.stats.cleanEvictions) = _
      omega
    · change Entry.storeCount (s.store x.since i).out.toList + s.stats.spills =
        _ + (s.stats.spills + 1)
      rw [State.store, Array.toList_modify, Entry.storeCount_modify (by simpa using hb)]
      omega

theorem sheds_of_evict (h : evict c r s = .ok () t) : Sheds s t :=
  evict_keeps (P := Sheds s) (fun _ _ _ hu hv => hu.trans hv.sheds) .refl h

theorem sheds_of_flush (h : flush c s = .ok () t) : Sheds s t :=
  flush_keeps (P := Sheds s) (fun _ _ _ hu hv => hu.trans hv.sheds) .refl h

/-! ### Values that come into registers -/

namespace Event

/-- Does an event bring a value into its register that is not in place there, when other events come
before it? -/
def brings (a : Allocation) (es : List Event) (e : Event) : Bool :=
  match e.accessed? with
  | some v => decide (¬ InPlace a es v)
  | none => false

/-- Is an event the read of a value that has no slot? -/
def readsSlotless (a : Allocation) : Event → Bool
  | .read v =>
    match a.slot? v with
    | .ok none => true
    | _ => false
  | _ => false

/-- Is an event the write of a value? -/
def defines : Event → Bool
  | .define _ => true
  | _ => false

end Event

/-- How many of some events, which follow others, are of a kind and bring a value into its
register. -/
def arrivals (a : Allocation) (kind : Event → Bool) : List Event → List Event → Nat
  | _, [] => 0
  | es, e :: rest =>
    (if kind e && e.brings a es then 1 else 0) + arrivals a kind (es ++ [e]) rest

/-- **One event more** counts if it is of the kind and brings a value. -/
theorem arrivals_concat {kind : Event → Bool} :
    arrivals a kind es (done ++ [e]) = arrivals a kind es done +
      if kind e && e.brings a (es ++ done) then 1 else 0 := by
  induction done generalizing es with
  | nil => simp [arrivals]
  | cons e' done ih =>
    rw [List.cons_append, arrivals, ih, arrivals, List.append_assoc, List.singleton_append,
      Nat.add_assoc]

/-- An event brings the value that it accesses if the register does not hold it. -/
theorem Follows.brings_eq (h : Follows c es s) (ha : e.accessed? = some v)
    (hr : c.alloc.reg? v = .ok (some r)) :
    e.brings c.alloc es = !s.table.holds r v := by
  rw [Event.brings, ha, Bool.eq_iff_iff]
  simp [← h v r hr]

/-! ### The tally of a block -/

/-- What has been counted: so many reads of values without a slot, and so many writes, have brought
a value into its register, and so many instructions are in the block. -/
structure Tally (found defined own : Nat) (s : State) : Prop where
  /-- What came into a register and is no longer held was stored or dropped. -/
  held : s.table.occupied + (s.stats.spills + s.stats.cleanEvictions) =
    s.stats.reloads + found + defined
  /-- The block consists of the instructions and the loads. -/
  size : s.out.size = own + s.stats.reloads
  /-- Each store is counted. -/
  stores : Entry.storeCount s.out.toList = s.stats.spills
  /-- An eviction for a fold is an eviction. -/
  folds : s.stats.foldEvictions ≤ s.stats.spills + s.stats.cleanEvictions

namespace Tally

variable {own : Nat}

theorem start : Tally 0 0 0 {} where
  held := by decide
  size := rfl
  stores := rfl
  folds := Nat.le_refl _

theorem congr (h : Tally found defined own s) (ht : s'.table = s.table) (ho : s'.out = s.out)
    (hs : s'.stats = s.stats) : Tally found defined own s' where
  held := by rw [ht, hs, h.held]
  size := by rw [ho, hs, h.size]
  stores := by rw [ho, hs, h.stores]
  folds := by
    rw [hs]
    exact h.folds

theorem shed (h : Tally found defined own s) (hsheds : Sheds s t)
    (hemp : t.out.size = s.out.size) (hle : t.table.occupied ≤ s.table.occupied) :
    Tally found defined own t := by
  obtain ⟨hheld, hstores, hreloads, hfolds⟩ := hsheds
  obtain ⟨hheld', hsize', hstores', hfolds'⟩ := h
  refine ⟨?_, ?_, ?_, ?_⟩ <;> omega

theorem of_evict (h : Tally found defined own s) (he : evict c r s = .ok () t) :
    Tally found defined own t :=
  h.shed (sheds_of_evict he) (evict_empties he).size
    (Table.occupied_le fun _ _ hy => ((evict_empties he).resident hy).2)

/-- A fold evicts a value, which is counted twice: as an eviction for a fold, and as an eviction. -/
theorem fold (h : Tally found defined own s) (hx : s.table.get? r = some x)
    (he : evict c r (s.count .foldEvictions) = .ok () t) : Tally found defined own t := by
  obtain ⟨hheld, hstores, hreloads, hfolds⟩ := sheds_of_evict he
  obtain ⟨hheld', hsize', hstores', hfolds'⟩ := h
  have hemp := evict_empties he
  have hless : t.table.occupied ≤ (s.table.free r).occupied := by
    refine Table.occupied_le fun q y hy => ?_
    obtain ⟨hov, hy⟩ := hemp.resident hy
    have hne : q ≠ r := ne_of_overlaps_eq_false hov
    rw [Table.get?_free, if_neg hne]
    exact hy
  have hocc := Table.occupied_free hx
  have hsize := hemp.size
  change t.table.occupied + _ = s.table.occupied + (s.stats.spills + s.stats.cleanEvictions)
    at hheld
  change _ + s.stats.spills = Entry.storeCount s.out.toList + _ at hstores
  change t.stats.reloads = s.stats.reloads at hreloads
  change t.stats.foldEvictions = s.stats.foldEvictions + 1 at hfolds
  change t.out.size = s.out.size at hsize
  refine ⟨?_, ?_, ?_, ?_⟩ <;> omega

theorem reserve (h : Tally found defined own s) : Tally found defined own (s.reserve r) :=
  h.congr (State.table_reserve s r) (State.out_reserve s r) State.stats_reserve

/-- A value takes the place of another one. -/
theorem replace {y : Resident} (h : Tally found defined own s) (hy : s.table.get? r = some y) :
    Tally found defined own (s.hold r x) where
  held := by
    have hocc := Table.occupied_hold_of_some (x := x) hy
    exact (congrArg (· + _) hocc).trans h.held
  size := h.size
  stores := h.stores
  folds := h.folds

/-- An instruction joins the block. -/
theorem push (h : Tally found defined own s) : Tally found defined (own + 1) (s.push j) where
  held := h.held
  size := by
    have hsize := h.size
    change (s.push j).out.size = own + 1 + s.stats.reloads
    rw [State.size_push]
    omega
  stores := Entry.storeCount_push.trans h.stores
  folds := h.folds

/-- A load joins the block, and its value comes into a register. -/
theorem fetch {req : Request} {msg : Message} (h : Tally found defined own s)
    (hfree : s.table.get? r = none) :
    Tally found defined own
      (((((s.request req).log c.level msg).push j).count .reloads).hold r x) where
  held := by
    have hocc := Table.occupied_hold (x := x) hfree
    have hheld := h.held
    change (s.table.hold r x).occupied + (s.stats.spills + s.stats.cleanEvictions) =
      s.stats.reloads + 1 + found + defined
    omega
  size := by
    have hsize := h.size
    change (s.push j).out.size = own + (s.stats.reloads + 1)
    rw [State.size_push]
    omega
  stores := Entry.storeCount_push.trans h.stores
  folds := h.folds

/-- A value that has no slot is read. -/
theorem find (h : Tally found defined own s) (hfree : s.table.get? r = none) :
    Tally (found + 1) defined own (s.hold r x) where
  held := by
    have hocc := Table.occupied_hold (x := x) hfree
    have hheld := h.held
    change (s.table.hold r x).occupied + (s.stats.spills + s.stats.cleanEvictions) =
      s.stats.reloads + (found + 1) + defined
    omega
  size := h.size
  stores := h.stores
  folds := h.folds

/-- A value is written. -/
theorem define (h : Tally found defined own s) (hfree : s.table.get? r = none) :
    Tally found (defined + 1) own (s.hold r x) where
  held := by
    have hocc := Table.occupied_hold (x := x) hfree
    have hheld := h.held
    change (s.table.hold r x).occupied + (s.stats.spills + s.stats.cleanEvictions) =
      s.stats.reloads + found + (defined + 1)
    omega
  size := h.size
  stores := h.stores
  folds := h.folds

end Tally

/-- What has been counted when some events are done, and so many instructions are in the block. -/
def Tallied (c : Context) (es : List Event) (own : Nat) (s : State) : Prop :=
  Tally (arrivals c.alloc (Event.readsSlotless c.alloc) [] es)
    (arrivals c.alloc Event.defines [] es) own s

namespace Tallied

variable {own : Nat}

/-- **Every event is tallied.** -/
theorem perform (hfollows : Follows c es s) (h : Tallied c es own s) (hp : Performed c s e s') :
    Tallied c (es ++ [e]) own s' := by
  rw [Tallied, arrivals_concat, arrivals_concat, List.nil_append]
  cases hp with
  | foldAway hr => exact h
  | foldAbsent hr hh => exact h
  | fold hr hh he =>
    obtain ⟨x, hx, -⟩ := Table.holds_iff.1 hh
    exact h.fold hx he
  | @readHeld v r hr hh =>
    rw [hfollows.brings_eq rfl hr, hh]
    simp only [Bool.not_true, Bool.and_false, Bool.false_eq_true, if_false, Nat.add_zero]
    exact h.reserve
  | readLoaded hr hh he hs hc hi =>
    simp only [Event.readsSlotless, Event.defines, hs, Bool.false_and, Bool.false_eq_true, if_false,
      Nat.add_zero]
    exact ((h.of_evict he).fetch (get?_of_evict he)).reserve
  | readFound hr hh he hs =>
    rw [hfollows.brings_eq rfl hr, hh]
    simp only [Event.readsSlotless, Event.defines, hs, Bool.not_false, Bool.and_true, if_true,
      Bool.false_eq_true, if_false, Nat.add_zero]
    exact ((h.of_evict he).find (get?_of_evict he)).reserve
  | modify hr hx => exact h.replace hx
  | redefine hr hh =>
    obtain ⟨x, hx, -⟩ := Table.holds_iff.1 hh
    rw [hfollows.brings_eq rfl hr, hh]
    simp only [Bool.not_true, Bool.and_false, Bool.false_eq_true, if_false, Nat.add_zero]
    exact h.replace hx
  | define hr hh he =>
    rw [hfollows.brings_eq rfl hr, hh]
    simp only [Event.readsSlotless, Event.defines, Bool.not_false, Bool.and_true, if_true,
      Bool.false_eq_true, if_false, Nat.add_zero]
    exact (h.of_evict he).define (get?_of_evict he)
  | overwrite he => exact h.of_evict he

theorem before (htr : Tracked c l [] s) (hres : s.reserved = []) (hfollows : Follows c es s)
    (h : Tallied c es own s)
    (hm : ((Event.before c.alloc id i).forM (Event.perform c id)) s = .ok () m) :
    Tallied c (es ++ Event.before c.alloc id i) own m := by
  refine (htr.builds (P := fun done u => Upto c l es done u ∧ Tallied c (es ++ done) own u)
    ⟨.start htr hres hfollows, (List.append_nil es).symm ▸ h⟩ (List.append_nil _).symm hm
    fun pre e u u' he _ hu hp => ⟨hu.1.perform he hp, ?_⟩).2
  rw [← List.append_assoc]
  exact hu.2.perform hu.1.follows hp

theorem after (hlate : Late c l i [] m.release) (hfollows : Follows c es m)
    (h : Tallied c es own m)
    (ht : ((Event.after i).forM (Event.perform c id)) m.release = .ok () t) :
    Tallied c (es ++ Event.after i) own t := by
  have hstart : Tallied c es own m.release := h.congr rfl rfl rfl
  refine (hlate.builds (P := fun done u => Follows c (es ++ done) u ∧ Tallied c (es ++ done) own u)
    ((List.append_nil es).symm ▸ ⟨hfollows.congr rfl, hstart⟩) (List.append_nil _).symm ht
    fun pre e post u u' hall hlate hu hp => ?_).2
  rw [← List.append_assoc]
  exact ⟨hu.1.perform hlate.tracked (hlate.finds hall) hp, hu.2.perform hu.1 hp⟩

theorem next (htr : Tracked c l [] s) (hres : s.reserved = []) (hfollows : Follows c es s)
    (h : Tallied c es own s) (hs : lowerInst c id i s = .ok () s') :
    Tallied c (es ++ Event.ofInst c.alloc id i) (own + 1) s' := by
  obtain ⟨m, t, hm, ht, rfl⟩ := lowerInst_eq_ok_iff.1 hs
  have hupto := upto_of_append (.start htr hres hfollows) (List.append_nil _).symm hm
  have hlate := Late.start (i := i) hupto.tracked hupto.reading
  rw [Event.ofInst, ← List.append_assoc]
  exact ((h.before htr hres hfollows hm).after hlate hupto.follows ht).push

/-- **Every instruction of a block is tallied.** -/
theorem lowerEach (htr : Tracked c l [] s) (hres : s.reserved = []) (hfollows : Follows c es s)
    (h : Tallied c es own s) (hs : lowerEach c n l' s = .ok () t) :
    Tallied c (es ++ history c.alloc c.block n l') (own + l'.length) t := by
  induction l' generalizing l es n own s with
  | nil =>
    obtain rfl := lowerEach_nil_eq_ok_iff.1 hs
    simpa [history] using h
  | cons i l' ih =>
    obtain ⟨w, u, hw, hi, hrest⟩ := lowerEach_cons_eq_ok_iff.1 hs
    obtain ⟨htr', hres'⟩ := htr.next hres hi
    have hlen : own + (i :: l').length = own + 1 + l'.length := by
      rw [List.length_cons]
      omega
    rw [history, ← List.append_assoc, ← eq_ofNat_of_word hw, hlen]
    exact ih htr' hres' (hfollows.next htr hres hi) (h.next htr hres hfollows hi) hrest

end Tallied

/-! ### The balance of a lowered block -/

/-- What a lowered block and its counters amount to, when the block had the instructions `l`. -/
structure Balanced (c : Context) (l : List Inst) (x : List Inst × Stats) : Prop where
  /-- The lowered block is the block, lowered, with the counted loads and stores put in between. -/
  filled : Filled c l x.1 x.2.reloads x.2.spills
  /-- So this is its length. -/
  length : x.1.length = l.length + x.2.spills + x.2.reloads
  /-- It counts as one block. -/
  blocks : x.2.blocks = 1
  /-- Every value that came into a register, by a load, by a read without a slot to load it from, or
  by a write, was evicted once. -/
  evicted : x.2.spills + x.2.cleanEvictions = x.2.reloads +
    arrivals c.alloc (Event.readsSlotless c.alloc) [] (history c.alloc c.block 0 l) +
    arrivals c.alloc Event.defines [] (history c.alloc c.block 0 l)
  /-- The evictions for folds are among them. -/
  folds : x.2.foldEvictions ≤ x.2.spills + x.2.cleanEvictions

/-- **A lowered block is the block, substituted, with counted loads and stores put in between**, and
what came into the registers is what was evicted from them. -/
theorem lowered_block_balanced {b : Block} {x : List Inst × Stats}
    (hb : c.func.block c.block = .ok b) (hx : (lowerBlock c).result = .ok x) :
    Balanced c b.insts x := by
  have hblocks := blocks_of_lowerBlock hx
  obtain ⟨b', t, s', hb', hlower, hflush, rfl⟩ := lowerBlock_eq_ok_iff.1 hx
  obtain rfl := Except.ok.inj (hb.symm.trans hb')
  have heach := (lowerInsts_eq_ok_iff.1 hlower).2
  have htallied : Tallied c ([] ++ history c.alloc c.block 0 b.insts) (0 + b.insts.length) t :=
    Tallied.lowerEach .start rfl .start .start heach
  rw [List.nil_append, Nat.zero_add] at htallied
  have hempty := flush_empties hflush
  obtain ⟨hheld, hsize, hstores, hfolds⟩ := htallied.shed (sheds_of_flush hflush) hempty.size
    (Table.occupied_le fun _ _ hy => (hempty.resident hy).2)
  -- At the end no register holds anything, so all that came in has gone out.
  have hnone : s'.table.occupied = 0 :=
    List.countP_eq_zero.2 fun q _ => by simp [hempty.get?_of_gone]
  rw [hnone, Nat.zero_add] at hheld
  obtain ⟨loads, hlen, hfilled⟩ := (arranged_of_lowerEach .start rfl .start heach hflush).filled
    fun i hi v hv => exists_reg_of_lowerEach hi hv heach
  obtain rfl : loads = s'.stats.reloads := by
    change s'.out.toList.length = _ at hlen
    rw [Array.length_toList] at hlen
    omega
  have hfilled : Filled c b.insts (Entry.flatten s'.out.toList) s'.stats.reloads s'.stats.spills :=
    hstores ▸ hfilled
  exact ⟨hfilled, hfilled.length_eq, hblocks, hheld, hfolds⟩

/-- Two values are written and one of them comes back, and so three are evicted. -/
theorem lowered_block_balanced_shared : ∃ x, (lowerBlock sharedContext).result = .ok x ∧
    x.2 = { spills := 3, reloads := 1, blocks := 1 } ∧ Balanced sharedContext sharedInsts x := by
  have hx : ∃ x, (lowerBlock sharedContext).result = .ok x ∧
      x.2 = { spills := 3, reloads := 1, blocks := 1 } := ⟨_, rfl, rfl⟩
  obtain ⟨x, hx, hstats⟩ := hx
  have hb : sharedContext.func.block sharedContext.block = .ok ⟨sharedInsts⟩ := rfl
  exact ⟨x, hx, hstats, lowered_block_balanced hb hx⟩

end Residency

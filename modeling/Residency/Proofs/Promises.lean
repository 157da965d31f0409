import Residency.Proofs.RoundTrip

/-!
# What may be relied on once a text is read

A lowering looks virtual registers up in two tables, the classes of a function and the placements
of its virtual registers, and it takes on trust which virtual registers an instruction folds. The
reader builds all three as it goes along, and this file says what comes of it
(`Residency.Text.Promises`, `Residency.Text.promises_of_read`): the two tables are of one length,
and every virtual register of the code is in them; the slots are numbered from zero in the order of
the declarations that ask for one, so that no two virtual registers share one; and the virtual
registers recorded for an instruction are those of its folded operands.

The declarations are taken one by one (`Residency.Text.Scope.Declares`). The records are made when
all blocks are read, from a list of all instructions with their names. What is recorded for a name
comes from the instructions of that name (`Residency.Text.foldedInto_foldl_recordFolds`), and there
is at most one of them: the names are positions (`Residency.Text.filter_flatten_of_blocksFrom`).
-/

namespace Residency

/-! ### Instructions and what they fold -/

/-- The virtual register that an operand folds, if it does. -/
def Operand.folded? : Operand → Option VReg
  | .folded v => some v
  | _ => none

/-- The virtual registers that an instruction folds, operand by operand. -/
def Inst.folds (i : Inst) : List VReg := i.operands.filterMap Operand.folded?

/-- The instruction of a function that has a name, if there is one. -/
def Func.inst? (f : Func) (id : Site) : Option Inst :=
  f.blocks[id.block.index]?.bind fun b => b.insts[id.pos.toNat]?

theorem Inst.mem_folds_iff {i : Inst} {v : VReg} : v ∈ i.folds ↔ .folded v ∈ i.operands := by
  rw [folds, List.mem_filterMap]
  constructor
  · rintro ⟨o, ho, hv⟩
    cases o with
    | folded u => exact Option.some.inj hv ▸ ho
    | _ => cases hv
  · exact fun ho => ⟨_, ho, rfl⟩

namespace Text

/-! ### What is recorded -/

section Record

variable {a : Allocation} {id : Site} {v : VReg} {vs : List VReg}

theorem eraseDups_concat : (vs ++ [v]).eraseDups =
    if v ∈ vs then vs.eraseDups else vs.eraseDups ++ [v] := by
  rw [List.eraseDups_append]
  split
  · rename_i hv
    simp [List.removeAll, hv]
  · rename_i hv
    simp [List.removeAll, hv, List.eraseDups_cons]

theorem mem_foldedInto_iff : v ∈ a.foldedInto id ↔ (id, v) ∈ a.folded := by
  simp [Allocation.foldedInto]

/-- One more virtual register is recorded, for an instruction that may be another one. -/
theorem foldedInto_recordFold {id' : Site} (h : a.foldedInto id = vs.eraseDups) :
    (a.recordFold id' v).foldedInto id =
      (if id' = id then vs ++ [v] else vs).eraseDups := by
  have hmem : v ∈ vs ↔ (id, v) ∈ a.folded := by
    rw [← mem_foldedInto_iff, h, List.mem_eraseDups]
  unfold Allocation.recordFold
  by_cases hid : id' = id
  · subst hid
    rw [if_pos rfl, eraseDups_concat, ← h]
    by_cases hv : v ∈ vs
    · rw [if_pos hv, if_pos (hmem.1 hv)]
    · rw [if_neg hv, if_neg fun hrec => hv (hmem.2 hrec)]
      simp [Allocation.foldedInto]
  · rw [if_neg hid, ← h]
    split
    · rfl
    · simp [Allocation.foldedInto, hid]

/-- The records of an instruction are those of the virtual registers that it folds. -/
theorem recordFolds_eq (x : Site × Inst) :
    recordFolds a x = x.2.folds.foldl (fun a v => a.recordFold x.1 v) a := by
  rw [recordFolds, Inst.folds, List.foldl_filterMap]
  refine congrArg (fun g => List.foldl g a x.2.operands) (funext fun b => funext fun o => ?_)
  cases o <;> rfl

theorem foldedInto_recordFolds {x : Site × Inst} (h : a.foldedInto id = vs.eraseDups) :
    (recordFolds a x).foldedInto id =
      (if x.1 = id then vs ++ x.2.folds else vs).eraseDups := by
  rw [recordFolds_eq]
  induction x.2.folds generalizing a vs with
  | nil => rw [List.append_nil, ite_self, List.foldl_nil, h]
  | cons v l ih =>
    rw [List.foldl_cons, ih (foldedInto_recordFold h)]
    split <;> simp

/-- **What is recorded for a name** comes from the instructions of that name, in order. -/
theorem foldedInto_foldl_recordFolds {l : List (Site × Inst)} (h : a.foldedInto id = vs.eraseDups) :
    (l.foldl recordFolds a).foldedInto id =
      (vs ++ (l.filter fun x => x.1 = id).flatMap fun x => x.2.folds).eraseDups := by
  induction l generalizing a vs with
  | nil => rw [List.filter_nil, List.flatMap_nil, List.append_nil, List.foldl_nil, h]
  | cons x l ih =>
    rw [List.foldl_cons, ih (foldedInto_recordFolds h), List.filter_cons]
    split <;> simp_all

theorem placements_foldl_recordFolds {l : List (Site × Inst)} :
    (l.foldl recordFolds a).placements = a.placements := by
  have hrecord : ∀ (a : Allocation) id v, (a.recordFold id v).placements = a.placements := by
    intro a id v
    unfold Allocation.recordFold
    split <;> rfl
  induction l generalizing a with
  | nil => rfl
  | cons x l ih =>
    rw [List.foldl_cons, ih, recordFolds_eq]
    induction x.2.folds generalizing a with
    | nil => rfl
    | cons v vs ih' => rw [List.foldl_cons, ih', hrecord]

end Record

/-! ### Names of instructions -/

section Names

variable {declared n : Nat} {id : Site}

/-- The instructions of a block are named by their positions in it. -/
theorem name_of_instsFrom {b : BlockId} {is : List InstForm} {l : List (Site × Inst)}
    (h : instsFrom declared b n is = .ok l) :
    ∀ (k : Nat) (x : Site × Inst), l[k]? = some x → x.1.block = b ∧ x.1.pos.toNat = n + k := by
  induction is generalizing n l with
  | nil =>
    cases h
    intro k x hx
    cases hx
  | cons i is ih =>
    obtain ⟨w, hw, h⟩ := except_bind_eq_ok_iff.1 h
    obtain ⟨j, -, h⟩ := except_bind_eq_ok_iff.1 h
    obtain ⟨l', hl', h⟩ := except_bind_eq_ok_iff.1 h
    cases h
    rintro (_ | k) x hx
    · cases hx
      exact ⟨rfl, toNat_of_word hw⟩
    · obtain ⟨hb, hpos⟩ := ih hl' k x hx
      exact ⟨hb, by omega⟩

/-- **The instructions of all blocks are named by their positions.** -/
theorem name_of_blocksFrom {bs : List BlockForm} {ls : List (List (Site × Inst))}
    (h : blocksFrom declared n bs = .ok ls) :
    ∀ (k : Nat) (l : List (Site × Inst)), ls[k]? = some l → ∀ (m : Nat) (x : Site × Inst),
      l[m]? = some x → x.1.block.index = n + k ∧ x.1.pos.toNat = m := by
  induction bs generalizing n ls with
  | nil =>
    cases h
    intro k l hl
    cases hl
  | cons b bs ih =>
    obtain ⟨-, w, hw, l', hl', ls', hls', rfl⟩ := blocksFrom_cons_eq_ok_iff.1 h
    rintro (_ | k) l hl m x hx
    · cases hl
      obtain ⟨hb, hpos⟩ := name_of_instsFrom hl' m x hx
      rw [hb, hpos, Nat.zero_add]
      exact ⟨toNat_of_word hw, rfl⟩
    · obtain ⟨hb, hpos⟩ := ih hls' k l hl m x hx
      exact ⟨by omega, hpos⟩

/-- What is looked for is at one place of a list, if anywhere. -/
theorem filter_eq_toList {α : Type} {p : α → Bool} {l : List α} {k : Nat}
    (h : ∀ (n : Nat) (x : α), l[n]? = some x → (p x = true ↔ n = k)) :
    l.filter p = l[k]?.toList := by
  induction l generalizing k with
  | nil => rfl
  | cons x l ih =>
    have hx := h 0 x rfl
    cases k with
    | zero =>
      have hrest : l.filter p = [] := by
        refine List.filter_eq_nil_iff.2 fun y hy hpy => ?_
        obtain ⟨n, hn⟩ := List.getElem?_of_mem hy
        exact absurd ((h (n + 1) y hn).1 hpy) (Nat.succ_ne_zero n)
      rw [List.filter_cons, if_pos (hx.2 rfl), hrest]
      rfl
    | succ k =>
      rw [List.filter_cons, if_neg fun hpx => absurd (hx.1 hpx) (Nat.succ_ne_zero k).symm]
      exact ih fun n y hy => (h (n + 1) y hy).trans Nat.succ_inj

/-- Lists of which all but one are empty. -/
theorem flatten_eq_getD {α : Type} {ls : List (List α)} {k : Nat}
    (h : ∀ (n : Nat) (l : List α), ls[n]? = some l → n ≠ k → l = []) :
    ls.flatten = ls[k]?.getD [] := by
  induction ls generalizing k with
  | nil => rfl
  | cons l ls ih =>
    rw [List.flatten_cons]
    cases k with
    | zero =>
      have hrest : ls.flatten = [] := by
        refine List.flatten_eq_nil_iff.2 fun l' hl' => ?_
        obtain ⟨n, hn⟩ := List.getElem?_of_mem hl'
        exact h (n + 1) l' hn (Nat.succ_ne_zero n)
      rw [hrest, List.append_nil]
      rfl
    | succ k =>
      rw [h 0 l rfl (Nat.succ_ne_zero k).symm, List.nil_append]
      exact ih fun n l' hl' hne => h (n + 1) l' hl' fun heq => hne (Nat.succ_inj.1 heq)

/-- **There is one instruction of a name**, at most: the one in its place. -/
theorem filter_flatten_of_blocksFrom {bs : List BlockForm} {ls : List (List (Site × Inst))}
    (h : blocksFrom declared 0 bs = .ok ls) :
    (ls.flatten.filter fun x => x.1 = id) =
      (ls[id.block.index]?.bind fun l => l[id.pos.toNat]?).toList := by
  have hname : ∀ (n : Nat) (l : List (Site × Inst)), ls[n]? = some l → ∀ (m : Nat)
      (x : Site × Inst), l[m]? = some x → (x.1 = id ↔ n = id.block.index ∧ m = id.pos.toNat) := by
    intro n l hl m x hx
    obtain ⟨hb, hpos⟩ := name_of_blocksFrom h n l hl m x hx
    rw [Nat.zero_add] at hb
    rw [← hb, ← hpos]
    constructor
    · rintro rfl
      exact ⟨rfl, rfl⟩
    · rintro ⟨hblock, hposition⟩
      obtain ⟨⟨⟨b⟩, p⟩, j⟩ := x
      obtain ⟨⟨b'⟩, p'⟩ := id
      obtain rfl : b = b' := UInt32.toNat_inj.1 hblock
      obtain rfl : p = p' := UInt32.toNat_inj.1 hposition
      rfl
  -- The block is found first, as the only one with an instruction of the name.
  rw [List.filter_flatten, flatten_eq_getD (k := id.block.index), List.getElem?_map]
  · cases hl : ls[id.block.index]? with
    | none => rfl
    | some l =>
      refine filter_eq_toList fun m x hx => ?_
      rw [decide_eq_true_iff, hname _ l hl m x hx, and_iff_right rfl]
  · intro n l' hl' hne
    rw [List.getElem?_map, Option.map_eq_some_iff] at hl'
    obtain ⟨l, hl, rfl⟩ := hl'
    refine List.filter_eq_nil_iff.2 fun x hx hpx => ?_
    obtain ⟨m, hm⟩ := List.getElem?_of_mem hx
    exact hne ((hname n l hl m x hm).1 (of_decide_eq_true hpx)).1

theorem inst?_withInsts {f : Func} {ls : List (List (Site × Inst))} :
    (f.withInsts (ls.map fun insts => insts.map Prod.snd)).inst? id =
      (ls[id.block.index]?.bind fun l => l[id.pos.toNat]?).map Prod.snd := by
  rw [Func.inst?, Func.withInsts, List.getElem?_toArray, List.getElem?_map, List.getElem?_map]
  cases ls[id.block.index]? with
  | none => rfl
  | some l => exact List.getElem?_map

end Names

/-! ### Declarations -/

/-- The number of the slot of a placement, if it has one. -/
def slotNum? (p : Placement) : Option Nat := p.slot.map fun x => x.num.toNat

/-- What is known when some declarations are done. -/
structure Scope.Declares (s : Scope) (ds : List Declaration) : Prop where
  /-- Each has its class. -/
  classes : s.func.classes.size = ds.length
  /-- Each has its placement, with a slot if it asks for one. -/
  placements : List.Forall₂ (fun (d : Declaration) p => p.slot.isSome = d.hasSlot) ds
    s.alloc.placements.toList
  /-- The slots are numbered in order. -/
  slots : s.alloc.placements.toList.filterMap slotNum? = List.range s.slots
  /-- Nothing is folded. -/
  folded : s.alloc.folded = []

theorem Scope.Declares.declare {s s' : Scope} {ds : List Declaration} {d : Declaration}
    (hs : s.Declares ds) (h : declare s d = .ok s') : s'.Declares (ds ++ [d]) := by
  obtain ⟨-, c, -, f, hf, reg, -, slot, hslot, a, ha, rfl⟩ := declare_eq_ok_iff.1 h
  obtain ⟨w, hw, rfl⟩ := map_eq_ok_iff.1 hf
  obtain ⟨u, hu, rfl⟩ := map_eq_ok_iff.1 ha
  refine ⟨?_, ?_, ?_, hs.folded⟩
  · simp [hs.classes]
  · rw [Array.toList_push]
    refine List.rel_append hs.placements (.cons ?_ .nil)
    unfold Scope.slot at hslot
    split at hslot
    · rename_i hd
      obtain ⟨x, -, rfl⟩ := map_eq_ok_iff.1 hslot
      exact hd.symm
    · rename_i hd
      cases hslot
      exact (Bool.eq_false_iff.2 hd).symm
  · rw [Array.toList_push, List.filterMap_append, hs.slots]
    unfold Scope.slot at hslot
    split at hslot
    · rename_i hd
      obtain ⟨x, hx, rfl⟩ := map_eq_ok_iff.1 hslot
      simp [slotNum?, hd, toNat_of_word hx, List.range_succ]
    · rename_i hd
      cases hslot
      simp [slotNum?, hd]

theorem Scope.Declares.foldlM {s s' : Scope} {ds ds' : List Declaration}
    (hs : s.Declares ds) (h : ds'.foldlM Text.declare s = .ok s') : s'.Declares (ds ++ ds') := by
  induction ds' generalizing s ds with
  | nil =>
    rw [List.foldlM_nil] at h
    obtain rfl := Except.ok.inj h
    rwa [List.append_nil]
  | cons d ds' ih =>
    rw [List.foldlM_cons] at h
    obtain ⟨t, ht, h⟩ := except_bind_eq_ok_iff.1 h
    have hrest := ih (hs.declare ht) h
    rwa [List.append_assoc] at hrest

/-- As many slots are given out as declarations ask for one. -/
theorem Scope.Declares.slots_eq {s : Scope} {ds : List Declaration} (hs : s.Declares ds) :
    s.slots = ds.countP Declaration.hasSlot := by
  have hcount : ∀ {ds : List Declaration} {ps : List Placement},
      List.Forall₂ (fun (d : Declaration) p => p.slot.isSome = d.hasSlot) ds ps →
      (ps.filterMap slotNum?).length = ds.countP Declaration.hasSlot := by
    intro ds ps h
    induction h with
    | nil => rfl
    | @cons d p ds ps hp _ ih =>
      rw [List.countP_cons, ← ih, ← hp, List.filterMap_cons]
      cases hslot : p.slot <;> simp [slotNum?, hslot]
  have hlen := hcount hs.placements
  rwa [hs.slots, List.length_range] at hlen

/-- Numbers given out in order are given out once. -/
theorem eq_of_slotNum? {ps : List Placement} {k n m : Nat} {p q : Placement} {x : Nat}
    (h : ps.filterMap slotNum? = List.range k) (hp : ps[n]? = some p) (hq : ps[m]? = some q)
    (hpx : slotNum? p = some x) (hqx : slotNum? q = some x) : n = m := by
  have hpair : ps.Pairwise fun p q => ∀ b, slotNum? p = some b → ∀ b', slotNum? q = some b' →
      b ≠ b' := List.pairwise_filterMap.1 (h ▸ List.nodup_range)
  obtain ⟨hn, rfl⟩ := List.getElem?_eq_some_iff.1 hp
  obtain ⟨hm, rfl⟩ := List.getElem?_eq_some_iff.1 hq
  rw [List.pairwise_iff_getElem] at hpair
  rcases Nat.lt_trichotomy n m with hlt | heq | hlt
  · exact absurd rfl (hpair n m hn hm hlt x hpx x hqx)
  · exact heq
  · exact absurd rfl (hpair m n hm hn hlt x hqx x hpx)

/-! ### What a reader makes of its source -/

section Read

variable {name : String} {s : Source} {f : Func} {a : Allocation}

/-- A reader does the declarations first, and then the blocks. -/
theorem exists_scope_of_read (h : s.read name = .ok (f, a)) :
    ∃ (scope : Scope) (ls : List (List (Site × Inst))), scope.Declares s.declarations ∧
      blocksFrom scope.func.classes.size 0 s.blocks = .ok ls ∧
      f = scope.func.withInsts (ls.map fun insts => insts.map Prod.snd) ∧
      a = ls.flatten.foldl recordFolds scope.alloc := by
  obtain ⟨scope, hscope, h⟩ := except_bind_eq_ok_iff.1 h
  obtain ⟨ls, hls, h⟩ := except_bind_eq_ok_iff.1 h
  cases h
  have hdecl : scope.Declares ([] ++ s.declarations) :=
    Scope.Declares.foldlM ⟨rfl, .nil, rfl, rfl⟩ hscope
  exact ⟨scope, ls, hdecl, hls, rfl, rfl⟩

/-- There are as many placements as virtual registers, one for each declaration. -/
theorem sized_of_read (h : s.read name = .ok (f, a)) :
    a.placements.size = f.classes.size ∧ f.classes.size = s.declarations.length := by
  obtain ⟨scope, ls, hdecl, -, rfl, rfl⟩ := exists_scope_of_read h
  refine ⟨?_, hdecl.classes⟩
  rw [placements_foldl_recordFolds, ← Array.length_toList, ← hdecl.placements.length_eq]
  exact hdecl.classes.symm

/-- **What is recorded for an instruction is what it folds**, and nothing is recorded elsewhere. -/
theorem foldedInto_of_read (h : s.read name = .ok (f, a)) (id : Site) :
    a.foldedInto id = ((f.inst? id).elim [] Inst.folds).eraseDups := by
  obtain ⟨scope, ls, hdecl, hls, rfl, rfl⟩ := exists_scope_of_read h
  have hnone : scope.alloc.foldedInto id = ([] : List VReg).eraseDups := by
    simp [Allocation.foldedInto, hdecl.folded]
  rw [foldedInto_foldl_recordFolds hnone, filter_flatten_of_blocksFrom hls, List.nil_append,
    inst?_withInsts]
  cases ls[id.block.index]?.bind fun l => l[id.pos.toNat]? with
  | none => rfl
  | some x => simp

end Read

/-! ### What is promised -/

/-- **What the reader promises** of a text that spells out `s`: the function `f` and the placements
`a` fit together. -/
structure Promises (s : Source) (f : Func) (a : Allocation) : Prop where
  /-- There are as many placements as virtual registers, one for each declaration. -/
  sized : a.placements.size = f.classes.size ∧ f.classes.size = s.declarations.length
  /-- Every virtual register of the code is one of them. -/
  declared : f.Declared
  /-- A virtual register has a slot just if its declaration asks for one. -/
  slotted : ∀ (n : Nat) (d : Declaration), s.declarations[n]? = some d →
    ∃ p : Placement, a.placements[n]? = some p ∧ p.slot.isSome = d.hasSlot
  /-- The slots are numbered from zero, in the order of the declarations. -/
  slots : a.placements.toList.filterMap slotNum? =
    List.range (s.declarations.countP Declaration.hasSlot)
  /-- No two virtual registers share a slot. -/
  slots_apart : ∀ u v slot, a.slot? u = .ok (some slot) → a.slot? v = .ok (some slot) → u = v
  /-- What is recorded for an instruction is what it folds, each virtual register once and in the
  order of its first operand; nothing is recorded elsewhere. -/
  folded : ∀ id, a.foldedInto id = ((f.inst? id).elim [] Inst.folds).eraseDups
  /-- No operand is a stack slot. -/
  slotless : ∀ b ∈ f.blocks, ∀ i ∈ b.insts, ∀ o ∈ i.operands, ∀ x, o ≠ .slot x

/-- **Whatever is read keeps these promises.** -/
theorem promises_of_read {name text : String} {f : Func} {a : Allocation}
    (h : read name text = .ok (f, a)) : ∃ s, source? text = some s ∧ Promises s f a := by
  obtain ⟨-, hdeclared, -, hwritable⟩ := writable_of_read h
  obtain ⟨s, hs, hread⟩ := read_eq_ok_iff.1 h
  have hsized := sized_of_read hread
  have hfolded := foldedInto_of_read hread
  obtain ⟨scope, ls, hdecl, -, rfl, rfl⟩ := exists_scope_of_read hread
  have hslots := hdecl.slots
  rw [hdecl.slots_eq] at hslots
  refine ⟨s, hs, hsized, hdeclared, fun n d hd => ?_, ?_, fun u v slot hu hv => ?_, hfolded,
    fun b hb i hi => (Inst.writable_iff.1 (hwritable b hb i hi)).1⟩
  · obtain ⟨hn, rfl⟩ := List.getElem?_eq_some_iff.1 hd
    obtain ⟨hlen, hget⟩ := List.forall₂_iff_get.1 hdecl.placements
    refine ⟨_, ?_, hget n hn (hlen ▸ hn)⟩
    rw [placements_foldl_recordFolds, ← Array.getElem?_toList]
    exact List.getElem?_eq_getElem _
  · rwa [placements_foldl_recordFolds]
  · obtain ⟨p, hp, hpu⟩ := Allocation.slot?_eq_ok_iff.1 hu
    obtain ⟨q, hq, hqv⟩ := Allocation.slot?_eq_ok_iff.1 hv
    rw [placements_foldl_recordFolds, ← Array.getElem?_toList] at hp hq
    have hindex : u.index = v.index := eq_of_slotNum? hslots hp hq
      (by rw [slotNum?, hpu]; rfl) (by rw [slotNum?, hqv]; rfl)
    exact congrArg VReg.mk (UInt32.toNat_inj.1 hindex)

/-! ### A text that folds -/

/-- A text in which an instruction folds one value twice, and another one between. -/
def foldText : String :=
  "%0: gpr64 reg $RAX slot\n%1: gpr64 reg $RAX\n%2: gpr32 slot\nbb0:\n  inc %0\nbb1:\n" ++
    "  fma [fold %2], [fold %0], [fold %2]\n  term ret"

/-- The function of that text. -/
def foldFunc : Func where
  name := "fold"
  classes := #[.gpr64, .gpr64, .gpr32]
  blocks := #[
    ⟨[⟨"inc", [.reg (.virtual ⟨0⟩) .read], [], false⟩]⟩,
    ⟨[⟨"fma", [.folded ⟨2⟩, .folded ⟨0⟩, .folded ⟨2⟩], [], false⟩, ⟨"ret", [], [], true⟩]⟩]

/-- The placements of that text: two slots, and two virtual registers folded. -/
def foldHomes : Allocation where
  placements := #[⟨some .rax, some ⟨0⟩⟩, ⟨some .rax, none⟩, ⟨none, some ⟨1⟩⟩]
  folded := [(⟨⟨1⟩, 0⟩, ⟨2⟩), (⟨⟨1⟩, 0⟩, ⟨0⟩)]

/-- The promises are kept for that text. -/
theorem promises_of_read_fold : read "fold" foldText = .ok (foldFunc, foldHomes) ∧
    ∃ s, source? foldText = some s ∧ Promises s foldFunc foldHomes := by
  have hread : read "fold" foldText = .ok (foldFunc, foldHomes) := by decide +kernel
  exact ⟨hread, promises_of_read hread⟩

end Text

end Residency

import Residency.Proofs.Arranged
import Residency.Proofs.Slotless

/-!
# Physical registers that an instruction reads

The registers of the values that an instruction has read so far are reserved, so no load for
another of its operands can take one of them: such an instruction is not lowered. A physical
register that an operand reads as it is gets no such protection. Nothing is known of what it holds,
and a load may overwrite it before the instruction is in its place
(`Residency.fixed_read_not_always_intact`).

When that happens is said by the events before the instruction and by its operands
(`Residency.fixed_read_intact_iff`): the loads for an instruction leave a physical register alone
exactly if no value that the instruction wants has a register that overlaps it.
-/

namespace Residency

open Step

variable {c : Context} {id : Site} {i j : Inst} {es : List Event} {l loads : List Inst}
  {s m : State} {r q : Reg} {u v : VReg}

/-- An instruction reads a physical register that an operand names, or that is the base of an
address. -/
def Inst.ReadsFixed (i : Inst) (q : Reg) : Prop :=
  ∃ o ∈ i.operands, ∃ m, o.read? = some (.physical q, m)

theorem Context.LoadOf.exists_reg (h : c.LoadOf v j) : ∃ r, c.alloc.reg? v = .ok (some r) := by
  obtain ⟨r, slot, cls, hr, -⟩ := h
  exact ⟨r, hr⟩

/-- A load of x64 overwrites the registers that overlap the one of its virtual register, and no
others. -/
theorem Context.LoadOf.overwrites_iff (hc : c.target = .x64) (h : c.LoadOf v j)
    (hr : c.alloc.reg? v = .ok (some r)) : j.overwrites q = true ↔ r.overlaps q = true := by
  obtain ⟨r', slot, cls, hr', -, -, hj⟩ := h
  obtain rfl := Allocation.reg_unique hr hr'
  rw [hc] at hj
  exact ⟨Target.x64_loadsOnly hj,
    Inst.overwrites_of_mem_outputs (Target.mem_outputs_of_x64_load hj)⟩

/-- **Which registers loads leave alone**: those that the register of no value that is loaded
overlaps. -/
theorem OneEach.intact_iff {P : VReg → Prop} (hc : c.target = .x64)
    (h : OneEach c.LoadOf P loads) : (∀ j ∈ loads, j.overwrites q = false) ↔
      ∀ v r, P v → c.alloc.reg? v = .ok (some r) → r.overlaps q = false := by
  constructor
  · intro hintact v r hv hr
    obtain ⟨j, hj, hload⟩ := h.exists_mem hv
    refine Bool.eq_false_iff.2 fun hov => ?_
    exact absurd ((hintact j hj).symm.trans ((hload.overwrites_iff hc hr).2 hov)) nofun
  · intro hapart j hj
    obtain ⟨v, hv, hload⟩ := h.exists_of_mem hj
    obtain ⟨r, hr⟩ := hload.exists_reg
    refine Bool.eq_false_iff.2 fun hover => ?_
    exact absurd ((hapart v r hv hr).symm.trans ((hload.overwrites_iff hc hr).1 hover)) nofun

/-- What is wanted by the events before the place of an instruction is read by it. -/
theorem Wanted.reads (h : Wanted c.alloc es (Event.before c.alloc id i) v) : i.Reads v := by
  obtain ⟨u, hu, -⟩ | ⟨u, hu, hreads⟩ := Event.mem_before_iff.1 h.read_mem <;> cases hu
  exact hreads

/-- What the loads for an instruction that is lowered do to the registers that it reads. -/
structure Fetches (c : Context) (es : List Event) (id : Site) (i : Inst) (loads : List Inst) :
    Prop where
  /-- There is one load of each value that the instruction wants. -/
  each : OneEach c.LoadOf (Wanted c.alloc es (Event.before c.alloc id i)) loads
  /-- The register of a value that the instruction reads is overwritten only to bring the value. -/
  virtual : ∀ u p, i.Reads u → c.alloc.reg? u = .ok (some p) →
    ∀ j ∈ loads, j.overwrites p = true → c.LoadOf u j
  /-- A physical register that it reads is left alone exactly if no value that the instruction wants
  has a register that overlaps it. -/
  fixed_iff : ∀ q, i.ReadsFixed q → ((∀ j ∈ loads, j.overwrites q = false) ↔
    ∀ v r, Wanted c.alloc es (Event.before c.alloc id i) v → c.alloc.reg? v = .ok (some r) →
      r.overlaps q = false)

theorem Tracked.fetches (hc : c.target = .x64) (htr : Tracked c l [] m)
    (hreading : Reading c (Event.before c.alloc id i) m)
    (h : OneEach c.LoadOf (Wanted c.alloc es (Event.before c.alloc id i)) loads) :
    Fetches c es id i loads where
  each := h
  virtual u p hu hp j hj hover := by
    obtain ⟨v, hv, hload⟩ := h.exists_of_mem hj
    obtain ⟨r, hr⟩ := hload.exists_reg
    have hov := (hload.overwrites_iff hc hr).1 hover
    obtain rfl := htr.eq_of_reads hreading hv.reads hu hr hp hov
    exact hload
  fixed_iff _ _ := h.intact_iff hc

/-- **What becomes of a physical register that an instruction reads.** In a lowered block, the loads
for an instruction stand right before it, behind the instructions that come before it. They take the
register of no value that the instruction reads for another value, but a physical register that
the instruction reads stays as it was only if no value that the instruction wants has a register
that overlaps it. -/
theorem fixed_read_intact_iff {b : Block} {pre post : List Inst} {x : List Inst × Stats}
    (hc : c.target = .x64) (hb : c.func.block c.block = .ok b) (hinsts : b.insts = pre ++ i :: post)
    (hx : (lowerBlock c).result = .ok x) :
    ∃ front loads back,
      x.1 = Entry.flatten front ++ loads ++ i.mapRefs c.alloc.substitute :: back ∧
      Arranged c (history c.alloc c.block pre.length (i :: post)) [] 0 pre front ∧
      Fetches c (history c.alloc c.block 0 pre) ⟨c.block, UInt32.ofNat pre.length⟩ i loads := by
  obtain ⟨b', t, s', hb', hlower, hflush, rfl⟩ := lowerBlock_eq_ok_iff.1 hx
  obtain rfl := Except.ok.inj (hb.symm.trans hb')
  have heach := (lowerInsts_eq_ok_iff.1 hlower).2
  have harranged := arranged_of_lowerEach .start rfl .start heach hflush
  rw [hinsts] at heach harranged
  obtain ⟨front, rest, hsplit, hfront, hrest⟩ := harranged.split
  -- The state in which the place of the instruction is settled shows what its reads are.
  obtain ⟨u, hpre, hlast⟩ := lowerEach_append_eq_ok_iff.1 heach
  obtain ⟨w, u', hw, hi, -⟩ := lowerEach_cons_eq_ok_iff.1 hlast
  obtain ⟨m, -, hm, -⟩ := lowerInst_eq_ok_iff.1 hi
  obtain ⟨htr, hres⟩ := tracked_of_lowerEach hpre
  rw [Nat.zero_add] at hw hrest hfront
  obtain rfl := eq_ofNat_of_word hw
  cases hrest with
  | @cons _ _ _ _ loads stores back hloads =>
    refine ⟨front, loads, stores ++ Entry.flatten back, ?_,
      List.append_nil (history _ _ _ _) ▸ hfront,
      (htr.before hm).fetches hc (reading_of_before hres hm) hloads⟩
    have hflatten := congrArg Entry.flatten hsplit
    rw [Entry.flatten_append, Entry.flatten_append, Entry.flatten_map_mk] at hflatten
    rw [List.append_assoc]
    exact hflatten

/-! ### A comparison of a value with its own register -/

/-- A virtual register with a register and a slot. -/
def ownHomes : Allocation where
  placements := #[⟨some .rax, some ⟨0⟩⟩]

/-- An instruction that compares the register of the value with the value. -/
def ownInst : Inst := ⟨"cmp", [.reg (.physical .rax) .read, .reg (.virtual ⟨0⟩) .read], [], false⟩

/-- What a block of that instruction is lowered with. -/
def ownContext : Context :=
  ⟨⟨"own", #[.gpr64], #[⟨[ownInst]⟩]⟩, ownHomes, .x64, .regEvent, ⟨0⟩⟩

/-- What has become of the block: the register is loaded and then compared with itself. -/
def ownCode : List Inst :=
  [.load "mov" .rax ⟨0⟩, ⟨"cmp", [.reg (.physical .rax) .read, .reg (.physical .rax) .read], [],
    false⟩]

theorem ownCode_of_lowerBlock :
    ∃ x, (lowerBlock ownContext).result = .ok x ∧ x.1 = ownCode := ⟨_, rfl, rfl⟩

theorem wanted_own : Wanted ownHomes [] (Event.before ownHomes ⟨⟨0⟩, 0⟩ ownInst) ⟨0⟩ :=
  ⟨⟨⟨0⟩, rfl⟩, [], [], rfl, List.not_mem_nil, not_inPlace_nil⟩

/-- The register that the comparison reads is not left alone by the load for it. -/
theorem fixed_read_intact_iff_own : ∃ x front loads back,
    (lowerBlock ownContext).result = .ok x ∧ x.1 = ownCode ∧
      x.1 = Entry.flatten front ++ loads ++ ownInst.mapRefs ownHomes.substitute :: back ∧
      Fetches ownContext [] ⟨⟨0⟩, 0⟩ ownInst loads ∧ ¬ ∀ j ∈ loads, j.overwrites .rax = false := by
  obtain ⟨x, hx, hcode⟩ := ownCode_of_lowerBlock
  have hb : ownContext.func.block ownContext.block = .ok ⟨[ownInst]⟩ := rfl
  have hinsts : (Block.mk [ownInst]).insts = [] ++ ownInst :: [] := rfl
  obtain ⟨front, loads, back, hsplit, -, hfetches⟩ := fixed_read_intact_iff rfl hb hinsts hx
  refine ⟨x, front, loads, back, hx, hcode, hsplit, hfetches, fun hintact => ?_⟩
  have hreads : ownInst.ReadsFixed .rax := ⟨_, List.mem_cons_self, false, rfl⟩
  have hapart := (hfetches.fixed_iff .rax hreads).1 hintact ⟨0⟩ .rax wanted_own rfl
  exact absurd hapart (by decide)

/-- So it does not hold that the loads for an instruction leave the physical registers alone that
the instruction reads. -/
theorem fixed_read_not_always_intact :
    ¬ ∀ (c : Context) (b : Block) (pre post : List Inst) (i : Inst) (x : List Inst × Stats),
      c.target = .x64 → c.func.block c.block = .ok b → b.insts = pre ++ i :: post →
      (lowerBlock c).result = .ok x →
      ∃ front loads back, x.1 = front ++ loads ++ i.mapRefs c.alloc.substitute :: back ∧
        OneEach c.LoadOf (Wanted c.alloc (history c.alloc c.block 0 pre)
          (Event.before c.alloc ⟨c.block, UInt32.ofNat pre.length⟩ i)) loads ∧
        ∀ q, i.ReadsFixed q → ∀ j ∈ loads, j.overwrites q = false := by
  intro hall
  obtain ⟨x, hx, -⟩ := ownCode_of_lowerBlock
  obtain ⟨front, loads, back, -, heach, hintact⟩ :=
    hall ownContext ⟨[ownInst]⟩ [] [] ownInst x rfl rfl rfl hx
  have hreads : ownInst.ReadsFixed .rax := ⟨_, List.mem_cons_self, false, rfl⟩
  have hapart := (heach.intact_iff rfl).1 (hintact .rax hreads) ⟨0⟩ .rax wanted_own rfl
  exact absurd hapart (by decide)

end Residency

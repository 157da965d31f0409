import Residency.Proofs.Execution
import Residency.Proofs.Schedule

/-!
# A lowered function computes the same

A run of a function visits its blocks, one after the other and in whatever order control flow
takes them (`Residency.Visit`). What an instruction does is different from visit to visit, and
so a visit comes with an effect for each of them. The ideal machine runs the blocks as they
are, and the real machine runs them lowered.

Between two visits the machines agree (`Residency.Agrees`): every stack slot holds the value of
its virtual register, and everything seen so far was the same. No more than that can be carried
from block to block, for a lowering starts each block with nothing in registers, and it need
not be more, for it ends each block with everything in its slot.

The lowering of a block is simulated instruction by instruction
(`Residency.simulates_of_lowerEach`). So a visit leads from agreement to agreement
(`Residency.Agrees.visit`), and so does a run (`Residency.values_preserved`).
-/

namespace Residency

open Step

variable {V : Type}

/-! ### Visits -/

/-- A visit of a block. -/
structure Visit (V : Type) where
  /-- The position of the block in its function. -/
  block : Nat
  /-- What the instruction at each position of the block does this time. -/
  effect : Nat → Effect V

/-- The instructions to be executed from position `n` of the block on, and what they do. -/
def Visit.agenda (p : Visit V) : Nat → List Inst → List (Inst × Effect V)
  | _, [] => []
  | n, i :: rest => (i, p.effect n) :: p.agenda (n + 1) rest

/-- The ideal machine visits a block of a function. -/
def Ideal.visit (f : Func) (a : Allocation) (m : Ideal V) (p : Visit V) : Ideal V :=
  match f.blocks[p.block]? with
  | some b => m.run a (p.agenda 0 b.insts)
  | none => m

/-- The real machine visits a block of a function `f` in its lowered form, which stands at the
same place of `g`. -/
def Machine.visit (f g : Func) (a : Allocation) (t : Machine V) (p : Visit V) : Machine V :=
  match f.blocks[p.block]?, g.blocks[p.block]? with
  | some b, some b' => { t with agenda := p.agenda 0 b.insts }.run a b'.insts
  | _, _ => t

/-- **The machines agree** between two visits. -/
structure Agrees (a : Allocation) (m : Ideal V) (t : Machine V) : Prop where
  /-- A slot holds the value of its virtual register. -/
  slots : ∀ {v : VReg} {slot : Slot}, a.slot? v = .ok (some slot) → t.slots slot = m.cells v
  /-- The same values have been read. -/
  seen : t.seen = m.seen

/-- **It is clear what a function writes.** -/
structure Func.Clear (f : Func) (a : Allocation) : Prop where
  /-- Different virtual registers have different slots. -/
  slots_apart : SlotsApart a
  /-- It is clear what each of its instructions writes. -/
  insts_clear : ∀ {id : Site} {b : Block} {i : Inst}, f.blocks[id.block.index]? = some b →
    b.insts[id.pos.toNat]? = some i → i.Clear a id

/-! ### A visit -/

section Visits

variable {c : Context} {b : Block} {p : Visit V} {m : Ideal V} {t : Machine V} {s s' : State}

/-- Before its first instruction, a block that is lowered has nothing in registers. -/
theorem Simulates.start {agenda : List (Inst × Effect V)} (h : Agrees c.alloc m t) :
    Simulates c { t with agenda := agenda } m agenda {} where
  stored he := nomatch he
  quiet hx := nomatch hx
  regs hx := nomatch hx
  slots hslot _ := h.slots hslot
  agenda := rfl
  seen := h.seen

/-- **The instructions of a block compute the same**, from any position on. -/
theorem simulates_of_lowerEach {n : Nat} {l : List Inst} (hc : c.target = .x64)
    (ha : SlotsApart c.alloc)
    (hclear : ∀ (k : Nat) (i : Inst) (w : UInt32), l[k]? = some i → word (n + k) = .ok w →
      i.Clear c.alloc ⟨c.block, w⟩)
    (hbetween : Between c (fun _ _ _ => True) s) (h : Simulates c t m (p.agenda n l) s)
    (hs : lowerEach c n l s = .ok () s') :
    Coherent c s' ∧ Simulates c t (m.run c.alloc (p.agenda n l)) [] s' := by
  induction l generalizing n m s with
  | nil =>
    obtain rfl := lowerEach_nil_eq_ok_iff.1 hs
    exact ⟨hbetween.coherent, h⟩
  | cons i l ih =>
    obtain ⟨w, u, hw, hi, hrest⟩ := lowerEach_cons_eq_ok_iff.1 hs
    have hload : c.target.LoadsOnly := hc ▸ Target.x64_loadsOnly
    have hnext : Between c (fun _ _ _ => True) u :=
      hbetween.next hload hi (fun _ _ _ h => h) fun _ _ _ _ => trivial
    have hstep := lowerInst_simulates hc ha (hclear 0 i w rfl hw) hbetween h hi
    refine ih (fun k j w hj hw => hclear (k + 1) j w hj ?_) hnext hstep hrest
    rwa [Nat.add_comm k, ← Nat.add_assoc]

/-- **A visit of a lowered block** leads from agreement to agreement: at its end every value is
in its slot. -/
theorem agrees_of_lowerBlock {x : List Inst × Stats} (hc : c.target = .x64)
    (hb : c.func.block c.block = .ok b) (hf : c.func.Clear c.alloc)
    (hx : (lowerBlock c).result = .ok x) (h : Agrees c.alloc m t) :
    Agrees c.alloc (m.run c.alloc (p.agenda 0 b.insts))
      ({ t with agenda := p.agenda 0 b.insts }.run c.alloc x.1) := by
  obtain ⟨b', u, w, hb', hinsts, hflush, rfl⟩ := lowerBlock_eq_ok_iff.1 hx
  obtain rfl := Except.ok.inj (hb.symm.trans hb')
  obtain ⟨-, heach⟩ := lowerInsts_eq_ok_iff.1 hinsts
  have hclear : ∀ (k : Nat) (i : Inst) (w : UInt32), b.insts[k]? = some i →
      word (0 + k) = .ok w → i.Clear c.alloc ⟨c.block, w⟩ := by
    intro k i w hi hw
    rw [Nat.zero_add] at hw
    refine hf.insts_clear (entry_eq_ok_iff.1 hb) ?_
    rw [toNat_of_word hw]
    exact hi
  obtain ⟨hco, hsim⟩ :=
    simulates_of_lowerEach hc hf.slots_apart hclear .start (.start h) heach
  have hend := hsim.of_flush hc hf.slots_apart hco hflush
  refine ⟨fun hslot => hend.slots hslot fun hy _ => ?_, hend.seen⟩
  exact absurd (hy.symm.trans ((flush_empties hflush).get?_of_gone rfl)) nofun

end Visits

/-! ### A run -/

section Runs

variable {f : Func} {a : Allocation} {c : Settings} {stats : Stats} {p : Visit V} {m : Ideal V}
  {t : Machine V}

/-- Where a function that is lowered has a block, its lowered form has the lowered block. -/
theorem exists_lowered_block {k : Nat} {b : Block}
    (h : (lowerFunc f a .x64 c).result = .ok stats) (hb : f.blocks[k]? = some b) :
    ∃ n x, f.block n = .ok b ∧ (lowerNth f a .x64 c n).result = .ok x ∧
      (lowerFunc f a .x64 c).func.blocks[k]? = some ⟨x.1⟩ := by
  obtain ⟨blocks, xs, hblocks, hxs, hfunc⟩ := lowerFunc_eq_ok h
  obtain ⟨hlen, hindex⟩ := Func.index_of_blockIds hblocks
  rw [List.forall₂_iff_get] at hxs
  have hk : k < blocks.length := by
    rw [hlen]
    exact (Array.getElem?_eq_some_iff.1 hb).1
  have hk' : k < xs.length := hxs.1 ▸ hk
  refine ⟨blocks[k], xs[k], ?_, hxs.2 k hk hk', ?_⟩
  · rw [Func.block, entry_eq_ok_iff, hindex k _ (List.getElem?_eq_getElem hk), hb]
  · rw [hfunc, Func.withInsts, List.getElem?_toArray, List.getElem?_map, List.getElem?_map,
      List.getElem?_eq_getElem hk']
    rfl

/-- **A visit** leads from agreement to agreement. -/
theorem Agrees.visit (h : Agrees a m t) (hok : (lowerFunc f a .x64 c).result = .ok stats)
    (hf : f.Clear a) :
    Agrees a (m.visit f a p) (t.visit f (lowerFunc f a .x64 c).func a p) := by
  unfold Ideal.visit Machine.visit
  cases hb : f.blocks[p.block]? with
  | none => exact h
  | some b =>
    obtain ⟨n, x, hn, hx, hlowered⟩ := exists_lowered_block hok hb
    rw [hlowered]
    exact agrees_of_lowerBlock (c := ⟨f, a, .x64, c.log.level, n⟩) rfl hn hf hx h

/-- **A run of a lowered function computes what a run of the function computes**: whichever
blocks are visited, and whatever their instructions do, the machines that start in agreement
agree at the end. -/
theorem values_preserved (hok : (lowerFunc f a .x64 c).result = .ok stats) (hf : f.Clear a)
    (h : Agrees a m t) (visits : List (Visit V)) :
    Agrees a (visits.foldl (Ideal.visit f a) m)
      (visits.foldl (Machine.visit f (lowerFunc f a .x64 c).func a) t) := by
  induction visits generalizing m t with
  | nil => exact h
  | cons p visits ih => exact ih (h.visit hok hf)

end Runs

/-! ### Two values that take turns -/

/-- Two virtual registers that share a register. The second one is folded into the instruction
at position two of the first block. -/
def turnsHomes : Allocation where
  placements := #[⟨some .rax, some ⟨0⟩⟩, ⟨some .rax, some ⟨1⟩⟩]
  folded := [(⟨⟨0⟩, 2⟩, ⟨1⟩)]

/-- A function that sets both of them and adds the second to the first, and has another block
that gives them out. -/
def turnsFunc : Func where
  name := "turns"
  classes := #[.gpr64, .gpr64]
  blocks := #[
    ⟨[⟨"mov", [.reg (.virtual ⟨0⟩) .write, .imm 1], [], false⟩,
      ⟨"mov", [.reg (.virtual ⟨1⟩) .write, .imm 2], [], false⟩,
      ⟨"add", [.reg (.virtual ⟨0⟩) .modify, .folded ⟨1⟩], [], false⟩]⟩,
    ⟨[⟨"out", [.reg (.virtual ⟨1⟩) .read], [], false⟩,
      ⟨"out", [.reg (.virtual ⟨0⟩) .read], [], false⟩]⟩]

theorem slotsApart_turnsHomes : SlotsApart turnsHomes := by
  have hnum : ∀ {v : VReg} {slot : Slot}, turnsHomes.slot? v = .ok (some slot) →
      v.num.toNat = slot.num.toNat := by
    intro v slot h
    obtain ⟨p, hp, hslot⟩ := Allocation.slot?_eq_ok_iff.1 h
    rw [VReg.index] at hp
    generalize v.num.toNat = k at hp ⊢
    match k, hp with
    | 0, hp | 1, hp =>
      cases hp
      cases hslot
      rfl
    | k + 2, hp => cases hp
  intro v w slot hv hw
  exact congrArg VReg.mk (UInt32.toNat_inj.1 ((hnum hv).trans (hnum hw).symm))

/-- It is clear what an instruction writes that has only virtual registers and constants for
operands. -/
theorem Inst.clear_of_forall {a : Allocation} {id : Site} {i : Inst}
    (h : ∀ o ∈ i.operands, (∃ v access, o = .reg (.virtual v) access) ∨ ∃ x, o = .imm x) :
    i.Clear a id := by
  refine ⟨fun hf => ?_, fun hf => ?_, fun hs => ?_, fun _ _ hq => ?_⟩
  · rcases h _ hf with ⟨_, _, ho⟩ | ⟨_, ho⟩ <;> cases ho
  · rcases h _ hf with ⟨_, _, ho⟩ | ⟨_, ho⟩ <;> cases ho
  · rcases h _ hs with ⟨_, _, ho⟩ | ⟨_, ho⟩ <;> cases ho
  · rcases h _ hq with ⟨_, _, ho⟩ | ⟨_, ho⟩ <;> cases ho

theorem clear_turnsFunc : turnsFunc.Clear turnsHomes := by
  refine ⟨slotsApart_turnsHomes, fun {id b i} hb hi => ?_⟩
  have hid : id = ⟨⟨UInt32.ofNat id.block.index⟩, UInt32.ofNat id.pos.toNat⟩ := by
    simp [BlockId.index]
  rw [hid]
  generalize id.block.index = k at hb ⊢
  generalize id.pos.toNat = n at hi ⊢
  match k, n, hb with
  | 0, 0, hb | 0, 1, hb | 1, 0, hb | 1, 1, hb =>
    cases hb
    cases hi
    exact Inst.clear_of_forall (by simp)
  | 0, 2, hb =>
    cases hb
    cases hi
    refine ⟨fun {v} hv => ?_, fun {v} hv => ?_, by simp, by simp⟩
    all_goals obtain rfl : v = ⟨1⟩ := by simpa using hv
    · exact ⟨by decide, ⟨1⟩, rfl⟩
    · simp [Inst.Names, Inst.Reads, Inst.Writes, Operand.read?]
  | 0, n + 3, hb | 1, n + 2, hb =>
    cases hb
    cases hi

/-- The first block and then the second. What an instruction of the first block writes can be
told by its position and the number of the virtual register, and it writes both that it may. -/
def turnsVisits : List (Visit Nat) :=
  [⟨0, fun n => ⟨fun v => 10 * (n + 1) + v.index, fun _ => true⟩⟩,
    ⟨1, fun _ => ⟨fun _ => 0, fun _ => false⟩⟩]

/-- The lowered blocks give out what the addition has written: the one value from its register,
and the other from its slot. -/
theorem values_preserved_turns :
    (lowerFunc turnsFunc turnsHomes .x64 { verify := true }).result = .ok ⟨3, 3, 2, 1, 2⟩ ∧
    turnsFunc.Clear turnsHomes ∧
    (turnsVisits.foldl
      (Machine.visit turnsFunc (lowerFunc turnsFunc turnsHomes .x64 { verify := true }).func
        turnsHomes)
      ⟨fun _ => 0, fun _ => 0, fun n _ => n, [], []⟩).seen =
      [("mov", [none, none]), ("mov", [none, none]), ("add", [some 10, some 21]),
        ("out", [some 31]), ("out", [some 30])] := by
  have hok : (lowerFunc turnsFunc turnsHomes .x64 { verify := true }).result =
      .ok ⟨3, 3, 2, 1, 2⟩ := rfl
  have hstart : Agrees turnsHomes ⟨fun _ => 0, []⟩ ⟨fun _ => 0, fun _ => 0, fun n _ => n, [], []⟩ :=
    ⟨fun _ => rfl, rfl⟩
  exact ⟨hok, clear_turnsFunc,
    (values_preserved hok clear_turnsFunc hstart turnsVisits).seen.trans rfl⟩

end Residency

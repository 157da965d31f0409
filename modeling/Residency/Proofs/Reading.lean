import Residency.Proofs.Meaning

/-!
# A text is read as what it means

`Residency.Text.Source.read` looks at one word after the other, checks it, and builds up a function
meanwhile. It succeeds just if every word has a meaning, and what it builds up is the function that
the text denotes (`Residency.Text.Source.denotes_of_read`, `Residency.Text.Source.exists_read`).

For an operand or an instruction this is one statement: it is read as `x` just if it is meaningful
and denotes `x` (`Residency.Text.OperandForm.read_eq_ok_iff`,
`Residency.Text.InstForm.read_eq_ok_iff`). Declarations and blocks are numbered on the way, so what
they mean depends on how many there are before them
(`Residency.Text.DeclarationsMeaningful`, `Residency.Text.BlocksMeaningful`).
-/

namespace Residency.Text

/-! ### Reading operands and instructions -/

section Read

variable {t : Token} {declared : Nat}

theorem Token.Is.mem_digits_of_virtual (h : t.Is .virtual) : t.word.drop 1 ∈ digits := by
  obtain ⟨u, hu, hw⟩ := mem_exactly_mul.1 h.mem
  rwa [hw]

theorem Token.Is.mem_digits_of_label (h : t.Is .label) : t.word.drop 3 ∈ digits := by
  obtain ⟨u, hu, hw⟩ := mem_exactly_mul.1 h.mem
  rwa [hw]

theorem Token.Is.mem_digits_of_block (h : t.Is .block) : t.word.drop 2 ∈ digits := by
  obtain ⟨u, hu, hw⟩ := mem_exactly_mul.1 h.mem
  rwa [hw]

theorem Reference.read_eq_ok_iff {r : Reference} {ref : RegRef} (h : r.Lexed)
    (hdecl : declared ≤ 2 ^ 32) :
    reference declared r = .ok ref ↔ r.Meaningful declared ∧ r.Denotes ref := by
  cases r with
  | virtual t =>
    rw [reference, map_eq_ok_iff]
    simp only [tokenVReg_eq_ok_iff h.mem_digits_of_virtual hdecl]
    constructor
    · rintro ⟨v, ⟨hv, hlt⟩, rfl⟩
      exact ⟨hlt, hv⟩
    · rintro ⟨hlt, hv⟩
      cases ref with
      | virtual v => exact ⟨v, ⟨hv, hlt⟩, rfl⟩
      | physical r => cases hv
  | physical t =>
    rw [reference, map_eq_ok_iff]
    simp only [tokenReg_eq_ok_iff]
    constructor
    · rintro ⟨r, hr, rfl⟩
      exact ⟨⟨r, hr⟩, hr⟩
    · rintro ⟨-, hr⟩
      cases ref with
      | virtual v => cases hr
      | physical r => exact ⟨r, hr, rfl⟩

/-- The distance is read before the register is. -/
theorem OperandForm.read_base_eq_ok_iff {r : Reference} {off : Option Token} {op : Operand} :
    operand declared (.base r off) = .ok op ↔
      ∃ x, off.elim (.ok 0) (tokenInt 32) = .ok x ∧
        ∃ ref, reference declared r = .ok ref ∧ .base ref (Int32.ofInt x) = op := by
  cases off with
  | none => simp [operand, except_bind_eq_ok_iff, pure, Except.pure]
  | some t => simp [operand, except_bind_eq_ok_iff, pure, Except.pure]

theorem distance_eq_ok_iff {off : Option Token} {x : Int} (h : ∀ t ∈ off, t.Is .number) :
    off.elim (.ok 0) (tokenInt 32) = .ok x ↔ x = distance off ∧ -2 ^ 31 ≤ x ∧ x < 2 ^ 31 := by
  cases off with
  | none =>
    simp only [Option.elim_none, Except.ok.injEq, distance]
    omega
  | some t => exact tokenInt_eq_ok_iff (h t rfl).mem

theorem OperandForm.read_eq_ok_iff {o : OperandForm} {op : Operand} (h : o.Lexed)
    (hdecl : declared ≤ 2 ^ 32) :
    operand declared o = .ok op ↔ o.Meaningful declared ∧ o.Denotes op := by
  cases o with
  | reg r a =>
    rw [operand, map_eq_ok_iff]
    simp only [Reference.read_eq_ok_iff h hdecl]
    constructor
    · rintro ⟨ref, ⟨hm, hd⟩, rfl⟩
      exact ⟨hm, hd, rfl⟩
    · rintro ⟨hm, hd⟩
      cases op with
      | reg ref access =>
        obtain ⟨hd, rfl⟩ := hd
        exact ⟨ref, ⟨hm, hd⟩, rfl⟩
      | _ => cases hd
  | imm t =>
    rw [operand, map_eq_ok_iff]
    simp only [tokenInt_eq_ok_iff h.mem]
    constructor
    · rintro ⟨x, ⟨rfl, hlo, hhi⟩, rfl⟩
      exact ⟨⟨hlo, hhi⟩, Int64.toInt_ofInt_of_le hlo hhi⟩
    · rintro ⟨⟨hlo, hhi⟩, hd⟩
      cases op with
      | imm x => exact ⟨_, ⟨rfl, hlo, hhi⟩, congrArg Operand.imm (hd ▸ Int64.ofInt_toInt x)⟩
      | _ => cases hd
  | label t =>
    rw [operand, except_bind_eq_ok_iff]
    simp only [tokenNat_eq_ok_iff (Token.Is.mem_digits_of_label h)]
    constructor
    · rintro ⟨n, ⟨rfl, -⟩, h⟩
      obtain ⟨w, hw, hop⟩ := except_bind_eq_ok_iff.1 h
      cases hop
      -- The number is in range because there is a word of it.
      have hnum := toNat_of_word hw
      have := w.toNat_lt
      exact ⟨show t.nat 3 ≤ 4294967295 by omega, hnum⟩
    · rintro ⟨hle, hd⟩
      cases op with
      | label b =>
        have hw : word (t.nat 3) = .ok b.num := by
          rw [← show b.num.toNat = t.nat 3 from hd, word_toNat]
        have hlt : t.nat 3 ≤ 4294967295 := hle
        refine ⟨_, ⟨rfl, by omega⟩, except_bind_eq_ok_iff.2 ⟨_, hw, rfl⟩⟩
      | _ => cases hd
  | folded t =>
    rw [operand, map_eq_ok_iff]
    simp only [tokenVReg_eq_ok_iff (Token.Is.mem_digits_of_virtual h) hdecl]
    constructor
    · rintro ⟨v, ⟨hv, hlt⟩, rfl⟩
      exact ⟨hlt, hv⟩
    · rintro ⟨hlt, hv⟩
      cases op with
      | folded v => exact ⟨v, ⟨hv, hlt⟩, rfl⟩
      | _ => cases hv
  | base r off =>
    rw [read_base_eq_ok_iff]
    simp only [distance_eq_ok_iff h.2, Reference.read_eq_ok_iff h.1 hdecl]
    constructor
    · rintro ⟨x, ⟨rfl, hlo, hhi⟩, ref, ⟨hm, hd⟩, rfl⟩
      exact ⟨⟨hm, hlo, hhi⟩, hd, Int32.toInt_ofInt_of_le hlo hhi⟩
    · rintro ⟨⟨hm, hlo, hhi⟩, hd⟩
      cases op with
      | base ref x =>
        exact ⟨_, ⟨rfl, hlo, hhi⟩, ref, ⟨hm, hd.1⟩,
          congrArg (Operand.base ref) (hd.2 ▸ Int32.ofInt_toInt x)⟩
      | _ => cases hd

/-- The instruction is read just if its words have a meaning. -/
theorem InstForm.read_eq_ok_iff {i : InstForm} {j : Inst} (h : i.Lexed)
    (hdecl : declared ≤ 2 ^ 32) :
    inst declared i = .ok j ↔ i.Meaningful declared ∧ i.Denotes j := by
  have hops {ops : List Operand} :
      List.Forall₂ (fun o op => operand declared o = .ok op) i.operands ops ↔
        (∀ o ∈ i.operands, o.Meaningful declared) ∧
          List.Forall₂ OperandForm.Denotes i.operands ops := by
    rw [← List.forall₂_and_left]
    exact forall₂_congr_left fun o ho op => OperandForm.read_eq_ok_iff (h.operands o ho) hdecl
  rw [inst]
  simp only [except_bind_eq_ok_iff, mapM_eq_ok_iff, tokenReg_eq_ok_iff, hops]
  constructor
  · rintro ⟨ops, ⟨hm, hd⟩, rs, hrs, hj⟩
    cases hj
    refine ⟨⟨hm, fun t ht => ?_⟩, ⟨String.toList_ofList, hd, hrs, rfl⟩⟩
    obtain ⟨r, -, hr⟩ := exists_of_forall₂ hrs ht
    exact ⟨r, hr⟩
  · rintro ⟨hm, hd⟩
    refine ⟨j.operands, ⟨hm.operands, hd.operands⟩, j.clobbers, hd.clobbers, ?_⟩
    rw [← hd.opcode, String.ofList_toList, ← hd.isTerminator]
    rfl

/-! ### Reading blocks -/

theorem InstForm.denotes_of_instsFrom {b : BlockId} {n : Nat} {is : List InstForm}
    {l : List (Site × Inst)} (h : ∀ i ∈ is, i.Lexed) (hdecl : declared ≤ 2 ^ 32)
    (hread : instsFrom declared b n is = .ok l) :
    (∀ i ∈ is, i.Meaningful declared) ∧ (is = [] ∨ n + is.length ≤ 2 ^ 32) ∧
      List.Forall₂ InstForm.Denotes is (l.map Prod.snd) := by
  induction is generalizing n l with
  | nil =>
    cases hread
    exact ⟨nofun, Or.inl rfl, .nil⟩
  | cons i is ih =>
    obtain ⟨hi, his⟩ := List.forall_mem_cons.1 h
    obtain ⟨w, hw, hread⟩ := except_bind_eq_ok_iff.1 hread
    obtain ⟨j, hj, hread⟩ := except_bind_eq_ok_iff.1 hread
    obtain ⟨l', hl', hread⟩ := except_bind_eq_ok_iff.1 hread
    cases hread
    obtain ⟨hm, hlen, hd⟩ := ih his hl'
    obtain ⟨him, hid⟩ := (InstForm.read_eq_ok_iff hi hdecl).1 hj
    refine ⟨List.forall_mem_cons.2 ⟨him, hm⟩, Or.inr ?_, .cons hid hd⟩
    have := toNat_of_word hw
    have := w.toNat_lt
    rw [List.length_cons]
    rcases hlen with rfl | hlen
    · rw [List.length_nil]
      omega
    · omega

theorem InstForm.exists_instsFrom {b : BlockId} {n : Nat} {is : List InstForm}
    (h : ∀ i ∈ is, i.Lexed) (hdecl : declared ≤ 2 ^ 32)
    (hm : ∀ i ∈ is, i.Meaningful declared) (hlen : n + is.length ≤ 2 ^ 32) :
    ∃ l, instsFrom declared b n is = .ok l := by
  induction is generalizing n with
  | nil => exact ⟨[], rfl⟩
  | cons i is ih =>
    obtain ⟨hi, his⟩ := List.forall_mem_cons.1 h
    obtain ⟨him, hism⟩ := List.forall_mem_cons.1 hm
    rw [List.length_cons] at hlen
    obtain ⟨w, hw⟩ := exists_word (n := n) (by omega)
    obtain ⟨j, hj⟩ := him.exists_denotes hdecl
    have hread := (InstForm.read_eq_ok_iff hi hdecl).2 ⟨him, hj⟩
    obtain ⟨l, hl⟩ := ih his hism (n := n + 1) (by omega)
    refine ⟨_, except_bind_eq_ok_iff.2 ⟨w, hw, except_bind_eq_ok_iff.2 ⟨j, hread,
      except_bind_eq_ok_iff.2 ⟨l, hl, rfl⟩⟩⟩⟩

theorem blocksFrom_cons_eq_ok_iff {n : Nat} {b : BlockForm} {bs : List BlockForm}
    {ls : List (List (Site × Inst))} :
    blocksFrom declared n (b :: bs) = .ok ls ↔
      tokenNat 2 b.label = .ok n ∧ ∃ w, word n = .ok w ∧
        ∃ l, instsFrom declared ⟨w⟩ 0 b.insts = .ok l ∧
          ∃ ls', blocksFrom declared (n + 1) bs = .ok ls' ∧ l :: ls' = ls := by
  rw [blocksFrom, except_bind_eq_ok_iff]
  constructor
  · rintro ⟨m, hm, h⟩
    split at h
    · cases h
    · rename_i hmn
      obtain rfl := Decidable.not_not.1 hmn
      obtain ⟨w, hw, h⟩ := except_bind_eq_ok_iff.1 h
      obtain ⟨l, hl, h⟩ := except_bind_eq_ok_iff.1 h
      obtain ⟨ls', hls, h⟩ := except_bind_eq_ok_iff.1 h
      exact ⟨hm, w, hw, l, hl, ls', hls, Except.ok.inj h⟩
  · rintro ⟨hm, w, hw, l, hl, ls', hls, rfl⟩
    refine ⟨n, hm, ?_⟩
    rw [if_neg (Decidable.not_not.2 rfl)]
    exact except_bind_eq_ok_iff.2 ⟨w, hw, except_bind_eq_ok_iff.2 ⟨l, hl,
      except_bind_eq_ok_iff.2 ⟨ls', hls, rfl⟩⟩⟩

/-- Items are numbered from `n` on, and the numbers fit, just if the first one has the number `n`,
which fits, and the others are numbered from there. -/
theorem numbered_cons_iff {α : Type} (num : α → Nat) {n : Nat} {x : α} {xs : List α} :
    ((∀ k y, (x :: xs)[k]? = some y → num y = n + k) ∧
      (x :: xs = [] ∨ n + (x :: xs).length ≤ 2 ^ 32)) ↔
    num x = n ∧ n < 2 ^ 32 ∧ (∀ k y, xs[k]? = some y → num y = n + 1 + k) ∧
      (xs = [] ∨ n + 1 + xs.length ≤ 2 ^ 32) := by
  rw [List.length_cons]
  constructor
  · rintro ⟨horder, hlen⟩
    have hlen := hlen.resolve_left nofun
    refine ⟨horder 0 x rfl, by omega, fun k y hy => ?_, Or.inr (by omega)⟩
    have := horder (k + 1) y hy
    omega
  · rintro ⟨hx, hn, horder, hlen⟩
    refine ⟨?_, Or.inr ?_⟩
    · rintro (_ | k) y hy
      · cases hy
        exact hx
      · have := horder k y hy
        omega
    · rcases hlen with rfl | h
      · rw [List.length_nil]
        omega
      · omega

/-- A block of instructions with their names. -/
def bare (l : List (Site × Inst)) : Block := ⟨l.map Prod.snd⟩

/-- Blocks from number `n` on have a meaning, and they and their instructions can be numbered. -/
structure BlocksMeaningful (declared n : Nat) (bs : List BlockForm) : Prop where
  /-- They come in the order of their numbers. -/
  order : ∀ k (b : BlockForm), bs[k]? = some b → b.label.nat 2 = n + k
  /-- They can be numbered. -/
  length_le : bs = [] ∨ n + bs.length ≤ 2 ^ 32
  /-- Their instructions can be numbered. -/
  insts_length_le : ∀ b ∈ bs, b.insts.length ≤ 2 ^ 32
  /-- Every word of their instructions has a meaning. -/
  insts : ∀ b ∈ bs, ∀ i ∈ b.insts, i.Meaningful declared

theorem blocksMeaningful_nil {n : Nat} : BlocksMeaningful declared n [] :=
  ⟨nofun, Or.inl rfl, nofun, nofun⟩

theorem blocksMeaningful_cons_iff {n : Nat} {b : BlockForm} {bs : List BlockForm} :
    BlocksMeaningful declared n (b :: bs) ↔ b.label.nat 2 = n ∧ n < 2 ^ 32 ∧
      b.insts.length ≤ 2 ^ 32 ∧ (∀ i ∈ b.insts, i.Meaningful declared) ∧
        BlocksMeaningful declared (n + 1) bs := by
  constructor
  · rintro ⟨horder, hlen, hinsts, hm⟩
    obtain ⟨hb, hn, horder, hlen⟩ :=
      (numbered_cons_iff fun b : BlockForm => b.label.nat 2).1 ⟨horder, hlen⟩
    obtain ⟨hinst, hinsts⟩ := List.forall_mem_cons.1 hinsts
    obtain ⟨hbm, hm⟩ := List.forall_mem_cons.1 hm
    exact ⟨hb, hn, hinst, hbm, horder, hlen, hinsts, hm⟩
  · rintro ⟨hb, hn, hinst, hbm, horder, hlen, hinsts, hm⟩
    obtain ⟨horder, hlen⟩ :=
      (numbered_cons_iff fun b : BlockForm => b.label.nat 2).2 ⟨hb, hn, horder, hlen⟩
    exact ⟨horder, hlen, List.forall_mem_cons.2 ⟨hinst, hinsts⟩, List.forall_mem_cons.2 ⟨hbm, hm⟩⟩

theorem BlockForm.denotes_of_blocksFrom {n : Nat} {bs : List BlockForm}
    {ls : List (List (Site × Inst))} (h : ∀ b ∈ bs, b.Lexed) (hdecl : declared ≤ 2 ^ 32)
    (hread : blocksFrom declared n bs = .ok ls) :
    BlocksMeaningful declared n bs ∧ List.Forall₂ BlockForm.Denotes bs (ls.map bare) := by
  induction bs generalizing n ls with
  | nil =>
    cases hread
    exact ⟨blocksMeaningful_nil, .nil⟩
  | cons b bs ih =>
    obtain ⟨hb, hbs⟩ := List.forall_mem_cons.1 h
    obtain ⟨hlabel, w, hw, l, hl, ls', hls, rfl⟩ := blocksFrom_cons_eq_ok_iff.1 hread
    obtain ⟨hm, hd⟩ := ih hbs hls
    obtain ⟨him, hlen, hid⟩ := InstForm.denotes_of_instsFrom hb.insts hdecl hl
    obtain ⟨hnum, -⟩ := (tokenNat_eq_ok_iff hb.label.mem_digits_of_block).1 hlabel
    have hn : n < 2 ^ 32 := toNat_of_word hw ▸ w.toNat_lt
    refine ⟨blocksMeaningful_cons_iff.2 ⟨hnum.symm, hn, ?_, him, hm⟩, .cons hid hd⟩
    rcases hlen with hnil | hlen
    · rw [hnil]
      exact Nat.zero_le _
    · omega

theorem BlockForm.exists_blocksFrom {n : Nat} {bs : List BlockForm} (h : ∀ b ∈ bs, b.Lexed)
    (hdecl : declared ≤ 2 ^ 32) (hm : BlocksMeaningful declared n bs) :
    ∃ ls, blocksFrom declared n bs = .ok ls := by
  induction bs generalizing n with
  | nil => exact ⟨[], rfl⟩
  | cons b bs ih =>
    obtain ⟨hb, hbs⟩ := List.forall_mem_cons.1 h
    obtain ⟨hlabel, hn, hlen, him, hbsm⟩ := blocksMeaningful_cons_iff.1 hm
    obtain ⟨w, hw⟩ := exists_word hn
    obtain ⟨l, hl⟩ := InstForm.exists_instsFrom (b := ⟨w⟩) (n := 0) hb.insts hdecl him (by omega)
    obtain ⟨ls, hls⟩ := ih hbs hbsm
    have hnum : tokenNat 2 b.label = .ok n :=
      (tokenNat_eq_ok_iff hb.label.mem_digits_of_block).2 ⟨hlabel.symm, by omega⟩
    exact ⟨_, blocksFrom_cons_eq_ok_iff.2 ⟨hnum, w, hw, l, hl, ls, hls, rfl⟩⟩

/-! ### Reading declarations -/

/-- The slot of the next declaration. -/
def Scope.slot (s : Scope) (hasSlot : Bool) : Except Fault (Option Slot) :=
  if hasSlot then (word s.slots).map fun w => some ⟨w⟩ else .ok none

theorem declare_eq_ok_iff {s s' : Scope} {d : Declaration} :
    declare s d = .ok s' ↔
      tokenNat 1 d.vreg = .ok s.func.classes.size ∧ ∃ c, tokenClass d.cls = .ok c ∧
        ∃ f, s.func.pushVReg c = .ok f ∧ ∃ reg, d.reg.mapM tokenReg = .ok reg ∧
          ∃ slot, s.slot d.hasSlot = .ok slot ∧
            ∃ a, s.alloc.push ⟨reg, slot⟩ = .ok a ∧
              ⟨f.2, a.2, if d.hasSlot then s.slots + 1 else s.slots⟩ = s' := by
  have hdeclare : declare s d = (do
      let n ← tokenNat 1 d.vreg
      if n ≠ s.func.classes.size then refuse .declarationOrder d.vreg else do
        let c ← tokenClass d.cls
        let f ← s.func.pushVReg c
        let reg ← d.reg.mapM tokenReg
        let slot ← s.slot d.hasSlot
        let a ← s.alloc.push ⟨reg, slot⟩
        .ok ⟨f.2, a.2, if d.hasSlot then s.slots + 1 else s.slots⟩) := by
    rw [declare, Scope.slot]
    cases d.hasSlot <;> rfl
  rw [hdeclare, except_bind_eq_ok_iff]
  constructor
  · rintro ⟨m, hm, h⟩
    split at h
    · cases h
    · rename_i hmn
      obtain rfl := Decidable.not_not.1 hmn
      obtain ⟨c, hc, h⟩ := except_bind_eq_ok_iff.1 h
      obtain ⟨f, hf, h⟩ := except_bind_eq_ok_iff.1 h
      obtain ⟨reg, hreg, h⟩ := except_bind_eq_ok_iff.1 h
      obtain ⟨slot, hslot, h⟩ := except_bind_eq_ok_iff.1 h
      obtain ⟨a, ha, h⟩ := except_bind_eq_ok_iff.1 h
      exact ⟨hm, c, hc, f, hf, reg, hreg, slot, hslot, a, ha, Except.ok.inj h⟩
  · rintro ⟨hm, c, hc, f, hf, reg, hreg, slot, hslot, a, ha, rfl⟩
    refine ⟨_, hm, ?_⟩
    rw [if_neg (Decidable.not_not.2 rfl)]
    exact except_bind_eq_ok_iff.2 ⟨c, hc, except_bind_eq_ok_iff.2 ⟨f, hf,
      except_bind_eq_ok_iff.2 ⟨reg, hreg, except_bind_eq_ok_iff.2 ⟨slot, hslot,
        except_bind_eq_ok_iff.2 ⟨a, ha, rfl⟩⟩⟩⟩⟩

/-- Declarations from number `n` on have a meaning and can be numbered. -/
structure DeclarationsMeaningful (n : Nat) (ds : List Declaration) : Prop where
  /-- They come in the order of their numbers. -/
  order : ∀ k (d : Declaration), ds[k]? = some d → d.vreg.nat 1 = n + k
  /-- They can be numbered. -/
  length_le : ds = [] ∨ n + ds.length ≤ 2 ^ 32
  /-- Their classes are classes. -/
  classes : ∀ d ∈ ds, ∃ c, d.cls.NamesClass c
  /-- Their registers, if they have any, are registers. -/
  registers : ∀ d ∈ ds, ∀ t ∈ d.reg, ∃ r, t.Names r

theorem declarationsMeaningful_nil {n : Nat} : DeclarationsMeaningful n [] :=
  ⟨fun _ _ h => (nomatch h), Or.inl rfl, fun _ hd => absurd hd List.not_mem_nil,
    fun _ hd => absurd hd List.not_mem_nil⟩

theorem declarationsMeaningful_cons_iff {n : Nat} {d : Declaration} {ds : List Declaration} :
    DeclarationsMeaningful n (d :: ds) ↔ d.vreg.nat 1 = n ∧ n < 2 ^ 32 ∧
      (∃ c, d.cls.NamesClass c) ∧ (∀ t ∈ d.reg, ∃ r, t.Names r) ∧
        DeclarationsMeaningful (n + 1) ds := by
  constructor
  · rintro ⟨horder, hlen, hcls, hreg⟩
    obtain ⟨hd, hn, horder, hlen⟩ :=
      (numbered_cons_iff fun d : Declaration => d.vreg.nat 1).1 ⟨horder, hlen⟩
    obtain ⟨hdcls, hcls⟩ := List.forall_mem_cons.1 hcls
    obtain ⟨hdreg, hreg⟩ := List.forall_mem_cons.1 hreg
    exact ⟨hd, hn, hdcls, hdreg, horder, hlen, hcls, hreg⟩
  · rintro ⟨hd, hn, hdcls, hdreg, horder, hlen, hcls, hreg⟩
    obtain ⟨horder, hlen⟩ :=
      (numbered_cons_iff fun d : Declaration => d.vreg.nat 1).2 ⟨hd, hn, horder, hlen⟩
    exact ⟨horder, hlen, List.forall_mem_cons.2 ⟨hdcls, hcls⟩,
      List.forall_mem_cons.2 ⟨hdreg, hreg⟩⟩

theorem mapM_tokenReg_eq_ok_iff {o : Option Token} {reg : Option Reg} :
    o.mapM tokenReg = .ok reg ↔ Option.Rel Token.Names o reg := by
  cases o with
  | none =>
    rw [Option.mapM_none]
    constructor
    · rintro ⟨⟩
      exact .none
    · rintro ⟨⟩
      rfl
  | some t =>
    rw [Option.mapM_some, ← bind_pure_comp, except_bind_eq_ok_iff]
    simp only [tokenReg_eq_ok_iff]
    constructor
    · rintro ⟨r, hr, ⟨⟩⟩
      exact .some hr
    · rintro ⟨hr⟩
      exact ⟨_, hr, rfl⟩

/-- What one declaration adds. -/
theorem Declaration.Lexed.of_declare {s s' : Scope} {d : Declaration} (hd : d.Lexed)
    (h : declare s d = .ok s') :
    d.vreg.nat 1 = s.func.classes.size ∧ s.func.classes.size < 2 ^ 32 ∧
      (∀ t ∈ d.reg, ∃ r, t.Names r) ∧
        ∃ c, d.cls.NamesClass c ∧
          s'.func = { s.func with classes := s.func.classes.push c } := by
  obtain ⟨hnum, c, hc, f, hf, reg, hreg, slot, -, a, -, rfl⟩ := declare_eq_ok_iff.1 h
  obtain ⟨w, hw, rfl⟩ := map_eq_ok_iff.1 hf
  have hsize : s.func.classes.size < 2 ^ 32 := toNat_of_word hw ▸ w.toNat_lt
  obtain ⟨hn, -⟩ := (tokenNat_eq_ok_iff hd.vreg.mem_digits_of_virtual).1 hnum
  refine ⟨hn.symm, hsize, fun t ht => ?_, c, tokenClass_eq_ok_iff.1 hc, rfl⟩
  rw [Option.mem_def.1 ht, mapM_tokenReg_eq_ok_iff] at hreg
  cases hreg with
  | some hr => exact ⟨_, hr⟩

theorem Declaration.denotes_of_foldlM {s s' : Scope} {ds : List Declaration}
    (h : ∀ d ∈ ds, d.Lexed) (hread : ds.foldlM declare s = .ok s') :
    DeclarationsMeaningful s.func.classes.size ds ∧ ∃ cs : List RegClass,
      s'.func = { s.func with classes := s.func.classes ++ cs } ∧
        List.Forall₂ (fun d c => d.cls.NamesClass c) ds cs := by
  induction ds generalizing s with
  | nil =>
    rw [List.foldlM_nil] at hread
    obtain rfl := Except.ok.inj hread
    exact ⟨declarationsMeaningful_nil, [], by simp, .nil⟩
  | cons d ds ih =>
    obtain ⟨hd, hds⟩ := List.forall_mem_cons.1 h
    rw [List.foldlM_cons] at hread
    obtain ⟨t, ht, hread⟩ := except_bind_eq_ok_iff.1 hread
    obtain ⟨hnum, hsize, hreg, c, hc, htc⟩ := hd.of_declare ht
    obtain ⟨hm, cs, hcs, hdenotes⟩ := ih hds hread
    rw [htc, Array.size_push] at hm
    refine ⟨declarationsMeaningful_cons_iff.2 ⟨hnum, hsize, ⟨c, hc⟩, hreg, hm⟩, c :: cs, ?_,
      .cons hc hdenotes⟩
    rw [hcs, htc]
    simp

/-- What has been declared can be numbered: there is a placement for each virtual register, and no
more slots than virtual registers. -/
structure Scope.Numbered (s : Scope) (n : Nat) : Prop where
  /-- There are `n` virtual registers. -/
  size : s.func.classes.size = n
  /-- Each has a placement. -/
  placements : s.alloc.placements.size = n
  /-- There are no more slots. -/
  slots_le : s.slots ≤ n

theorem Scope.Numbered.exists_declare {s : Scope} {n : Nat} {d : Declaration} (hs : s.Numbered n)
    (hd : d.Lexed) (hnum : d.vreg.nat 1 = n) (hn : n < 2 ^ 32) (hcls : ∃ c, d.cls.NamesClass c)
    (hreg : ∀ t ∈ d.reg, ∃ r, t.Names r) :
    ∃ s', declare s d = .ok s' ∧ s'.Numbered (n + 1) := by
  obtain ⟨c, hc⟩ := hcls
  obtain ⟨w, hw⟩ := exists_word hn
  obtain ⟨u, hu⟩ := exists_word (Nat.lt_of_le_of_lt hs.slots_le hn)
  have hread : tokenNat 1 d.vreg = .ok s.func.classes.size := by
    rw [hs.size]
    exact (tokenNat_eq_ok_iff hd.vreg.mem_digits_of_virtual).2 ⟨hnum.symm, by omega⟩
  obtain ⟨reg, hreg'⟩ : ∃ reg, d.reg.mapM tokenReg = .ok reg := by
    simp only [mapM_tokenReg_eq_ok_iff]
    cases hr : d.reg with
    | none => exact ⟨none, .none⟩
    | some t =>
      obtain ⟨r, hr⟩ := hreg t hr
      exact ⟨some r, .some hr⟩
  obtain ⟨slot, hslot⟩ : ∃ slot, s.slot d.hasSlot = .ok slot := by
    rw [Scope.slot, hu]
    split
    · exact ⟨_, rfl⟩
    · exact ⟨_, rfl⟩
  have hpush : s.func.pushVReg c = .ok (⟨w⟩, { s.func with classes := s.func.classes.push c }) :=
    map_eq_ok_iff.2 ⟨w, hs.size ▸ hw, rfl⟩
  have halloc : s.alloc.push ⟨reg, slot⟩ =
      .ok (⟨w⟩, { s.alloc with placements := s.alloc.placements.push ⟨reg, slot⟩ }) :=
    map_eq_ok_iff.2 ⟨w, hs.placements ▸ hw, rfl⟩
  refine ⟨_, declare_eq_ok_iff.2 ⟨hread, c, tokenClass_eq_ok_iff.2 hc, _, hpush, reg, hreg', slot,
    hslot, _, halloc, rfl⟩, ?_, ?_, ?_⟩
  · rw [Array.size_push, hs.size]
  · rw [Array.size_push, hs.placements]
  · have := hs.slots_le
    dsimp only
    split <;> omega

theorem Declaration.exists_foldlM {s : Scope} {n : Nat} {ds : List Declaration}
    (h : ∀ d ∈ ds, d.Lexed) (hs : s.Numbered n) (hm : DeclarationsMeaningful n ds) :
    ∃ s', ds.foldlM declare s = .ok s' := by
  induction ds generalizing s n with
  | nil => exact ⟨s, rfl⟩
  | cons d ds ih =>
    obtain ⟨hd, hds⟩ := List.forall_mem_cons.1 h
    obtain ⟨hnum, hn, hcls, hreg, htail⟩ := declarationsMeaningful_cons_iff.1 hm
    obtain ⟨t, ht, hnumbered⟩ := hs.exists_declare hd hnum hn hcls hreg
    obtain ⟨s', hs'⟩ := ih hds hnumbered htail
    exact ⟨s', except_bind_eq_ok_iff.2 ⟨t, ht, hs'⟩⟩

end Read

/-! ### Reading a text -/

section Source

variable {name : String} {s : Source} {f : Func} {a : Allocation}

/-- The parts of a text have a meaning just if the whole has one. -/
theorem Source.meaningful_iff :
    DeclarationsMeaningful 0 s.declarations ∧ BlocksMeaningful s.declarations.length 0 s.blocks ↔
      s.Meaningful ∧ s.Numbered := by
  constructor
  · rintro ⟨hds, hbs⟩
    refine ⟨⟨fun n d hd => ?_, hds.classes, hds.registers, fun n b hb => ?_, hbs.insts⟩,
      ?_, ?_, hbs.insts_length_le⟩
    · rw [hds.order n d hd, Nat.zero_add]
    · rw [hbs.order n b hb, Nat.zero_add]
    · rcases hds.length_le with h | h
      · rw [h]
        exact Nat.zero_le _
      · omega
    · rcases hbs.length_le with h | h
      · rw [h]
        exact Nat.zero_le _
      · omega
  · rintro ⟨hm, hn⟩
    refine ⟨⟨fun n d hd => ?_, Or.inr ?_, hm.classes, hm.registers⟩,
      ⟨fun n b hb => ?_, Or.inr ?_, hn.insts, hm.insts⟩⟩
    · rw [hm.declarationOrder n d hd, Nat.zero_add]
    · rw [Nat.zero_add]
      exact hn.declarations
    · rw [hm.blockOrder n b hb, Nat.zero_add]
    · rw [Nat.zero_add]
      exact hn.blocks

/-- What is read has a meaning, and the function is what it denotes. -/
theorem Source.denotes_of_read (h : s.Lexed) (hread : s.read name = .ok (f, a)) :
    s.Meaningful ∧ s.Numbered ∧ f.name = name ∧ s.Denotes f := by
  obtain ⟨scope, hscope, hread⟩ := except_bind_eq_ok_iff.1 hread
  obtain ⟨ls, hls, hread⟩ := except_bind_eq_ok_iff.1 hread
  cases hread
  obtain ⟨hds, cs, hcs, hclasses⟩ := Declaration.denotes_of_foldlM h.declarations hscope
  have hsize : scope.func.classes.size = s.declarations.length := by
    rw [hcs, hclasses.length_eq]
    simp
  have hdecl : s.declarations.length ≤ 2 ^ 32 := by
    rcases hds.length_le with hnil | hle
    · rw [hnil]
      exact Nat.zero_le _
    · exact Nat.le_trans (Nat.le_add_left _ _) hle
  rw [hsize] at hls
  obtain ⟨hbs, hblocks⟩ := BlockForm.denotes_of_blocksFrom h.blocks hdecl hls
  obtain ⟨hm, hn⟩ := Source.meaningful_iff.1 ⟨hds, hbs⟩
  refine ⟨hm, hn, by rw [Func.withInsts, hcs], ?_, ?_⟩
  · rw [Func.withInsts, hcs]
    simpa using hclasses
  · rw [Func.withInsts]
    simpa [bare] using hblocks

/-- What has a meaning is read. -/
theorem Source.exists_read (h : s.Lexed) (hm : s.Meaningful) (hn : s.Numbered) :
    ∃ f a, s.read name = .ok (f, a) := by
  obtain ⟨hds, hbs⟩ := Source.meaningful_iff.2 ⟨hm, hn⟩
  obtain ⟨scope, hscope⟩ := Declaration.exists_foldlM (s := ⟨{ name := name }, {}, 0⟩)
    h.declarations ⟨rfl, rfl, Nat.le_refl 0⟩ hds
  obtain ⟨-, cs, hcs, hclasses⟩ := Declaration.denotes_of_foldlM h.declarations hscope
  have hsize : scope.func.classes.size = s.declarations.length := by
    rw [hcs, hclasses.length_eq]
    simp
  obtain ⟨ls, hls⟩ := BlockForm.exists_blocksFrom h.blocks hn.declarations hbs
  rw [← hsize] at hls
  exact ⟨_, _, except_bind_eq_ok_iff.2 ⟨scope, hscope, except_bind_eq_ok_iff.2 ⟨ls, hls, rfl⟩⟩⟩

end Source

end Residency.Text

import Residency.Proofs.Pairwise
import Residency.Proofs.Words

/-!
# What a text means

What a text spells out has a meaning just if every number and every name in it has one
(`Residency.Text.Source.Meaningful`), and then there is one function that it stands for
(`Residency.Text.Source.Denotes`, `Residency.Text.Source.Denotes.unique`). This file says both
without the order in which the words are looked at and without what is built up meanwhile. It goes
up from registers to operands, instructions, blocks and declarations.

That a word is a number at all is settled when a text is cut into tokens, and that it is one where
its form asks for one when the form is read (`Residency.Text.Source.Lexed`).
-/

namespace Residency.Text

/-! ### Words of the right kinds -/

/-- The token of a register is one. -/
def Reference.Lexed : Reference → Prop
  | .virtual t => t.Is .virtual
  | .physical t => t.Is .physical

/-- The tokens of an operand are of the kinds that its form asks for. -/
def OperandForm.Lexed : OperandForm → Prop
  | .reg r _ => r.Lexed
  | .imm t => t.Is .number
  | .label t => t.Is .label
  | .folded t => t.Is .virtual
  | .base r off => r.Lexed ∧ ∀ t ∈ off, t.Is .number

/-- The tokens of an instruction are of the kinds that its form asks for. -/
structure InstForm.Lexed (i : InstForm) : Prop where
  /-- Its opcode is a name. -/
  opcode : i.opcode.Is .name
  /-- Its operands are of the right kinds. -/
  operands : ∀ o ∈ i.operands, o.Lexed
  /-- What it overwrites besides are physical registers. -/
  clobbers : ∀ t ∈ i.clobbers, t.Is .physical

/-- The tokens of a block are of the kinds that its form asks for. -/
structure BlockForm.Lexed (b : BlockForm) : Prop where
  /-- Its label is one. -/
  label : b.label.Is .block
  /-- The tokens of its instructions are of the right kinds. -/
  insts : ∀ i ∈ b.insts, i.Lexed

/-- The tokens of a declaration are of the kinds that its form asks for. -/
structure Declaration.Lexed (d : Declaration) : Prop where
  /-- What is declared is a virtual register. -/
  vreg : d.vreg.Is .virtual
  /-- Its class is a name. -/
  cls : d.cls.Is .name
  /-- Its register is a physical one. -/
  reg : ∀ t ∈ d.reg, t.Is .physical

/-- The tokens of a text are of the kinds that its form asks for. -/
structure Source.Lexed (s : Source) : Prop where
  /-- The tokens of its declarations. -/
  declarations : ∀ d ∈ s.declarations, d.Lexed
  /-- The tokens of its blocks. -/
  blocks : ∀ b ∈ s.blocks, b.Lexed

/-! ### Meaning -/

/-- The distance from a base register: zero if it is left out. -/
def distance (off : Option Token) : Int := off.elim 0 Token.int

/-- A register that is declared or known. -/
def Reference.Meaningful (declared : Nat) : Reference → Prop
  | .virtual t => t.nat 1 < declared
  | .physical t => ∃ r, t.Names r

/-- Every word of an operand has a meaning: its registers are declared or known, and its numbers
are in range. -/
def OperandForm.Meaningful (declared : Nat) : OperandForm → Prop
  | .reg r _ => r.Meaningful declared
  | .imm t => -2 ^ 63 ≤ t.int ∧ t.int < 2 ^ 63
  | .label t => t.nat 3 ≤ 4294967295
  | .folded t => t.nat 1 < declared
  | .base r off => r.Meaningful declared ∧ -2 ^ 31 ≤ distance off ∧ distance off < 2 ^ 31

/-- Every word of an instruction has a meaning. -/
structure InstForm.Meaningful (declared : Nat) (i : InstForm) : Prop where
  /-- The words of its operands have one. -/
  operands : ∀ o ∈ i.operands, o.Meaningful declared
  /-- What it overwrites besides are registers. -/
  clobbers : ∀ t ∈ i.clobbers, ∃ r, t.Names r

/-- Every word of a text has a meaning. -/
structure Source.Meaningful (s : Source) : Prop where
  /-- Virtual registers are declared in the order of their numbers. -/
  declarationOrder : ∀ n (d : Declaration), s.declarations[n]? = some d → d.vreg.nat 1 = n
  /-- Their classes are classes. -/
  classes : ∀ d ∈ s.declarations, ∃ c, d.cls.NamesClass c
  /-- Their registers, if they have any, are registers. -/
  registers : ∀ d ∈ s.declarations, ∀ t ∈ d.reg, ∃ r, t.Names r
  /-- Blocks come in the order of their numbers. -/
  blockOrder : ∀ n (b : BlockForm), s.blocks[n]? = some b → b.label.nat 2 = n
  /-- Every word of their instructions has a meaning. -/
  insts : ∀ b ∈ s.blocks, ∀ i ∈ b.insts, i.Meaningful s.declarations.length

/-- What a text lists can be numbered. -/
structure Source.Numbered (s : Source) : Prop where
  /-- The virtual registers can. -/
  declarations : s.declarations.length ≤ 2 ^ 32
  /-- The blocks can. -/
  blocks : s.blocks.length ≤ 2 ^ 32
  /-- The instructions of each block can. -/
  insts : ∀ b ∈ s.blocks, b.insts.length ≤ 2 ^ 32

/-- The register that is spelt out. -/
def Reference.Denotes : Reference → RegRef → Prop
  | .virtual t, .virtual v => v.index = t.nat 1
  | .physical t, .physical r => t.Names r
  | _, _ => False

/-- The operand that is spelt out. -/
def OperandForm.Denotes : OperandForm → Operand → Prop
  | .reg r a, .reg ref access => r.Denotes ref ∧ access = a
  | .imm t, .imm x => x.toInt = t.int
  | .label t, .label b => b.index = t.nat 3
  | .folded t, .folded v => v.index = t.nat 1
  | .base r off, .base ref x => r.Denotes ref ∧ x.toInt = distance off
  | _, _ => False

/-- The instruction that is spelt out. -/
structure InstForm.Denotes (i : InstForm) (j : Inst) : Prop where
  /-- Its opcode is the one that is spelt out. -/
  opcode : j.opcode.toList = i.opcode.word
  /-- Its operands are, one by one. -/
  operands : List.Forall₂ OperandForm.Denotes i.operands j.operands
  /-- What it overwrites besides is, one by one. -/
  clobbers : List.Forall₂ Token.Names i.clobbers j.clobbers
  /-- It is a terminator just if it is marked as one. -/
  isTerminator : j.isTerminator = i.isTerminator

/-- The block that is spelt out: its instructions are, one by one. -/
def BlockForm.Denotes (b : BlockForm) (c : Block) : Prop :=
  List.Forall₂ InstForm.Denotes b.insts c.insts

/-- The function that is spelt out. -/
structure Source.Denotes (s : Source) (f : Func) : Prop where
  /-- The classes of its virtual registers are those of the declarations, one by one. -/
  classes : List.Forall₂ (fun d c => d.cls.NamesClass c) s.declarations f.classes.toList
  /-- Its blocks are those that are spelt out, one by one. -/
  blocks : List.Forall₂ BlockForm.Denotes s.blocks f.blocks.toList

/-! ### There is something that is meant -/

section Exists

variable {declared : Nat}

theorem Reference.Meaningful.exists_denotes {r : Reference} (h : r.Meaningful declared)
    (hdecl : declared ≤ 2 ^ 32) : ∃ ref, r.Denotes ref := by
  cases r with
  | virtual t =>
    obtain ⟨w, hw⟩ := exists_word (Nat.lt_of_lt_of_le h hdecl)
    exact ⟨.virtual ⟨w⟩, toNat_of_word hw⟩
  | physical t =>
    obtain ⟨r, hr⟩ := h
    exact ⟨.physical r, hr⟩

theorem OperandForm.Meaningful.exists_denotes {o : OperandForm} (h : o.Meaningful declared)
    (hdecl : declared ≤ 2 ^ 32) : ∃ op, o.Denotes op := by
  cases o with
  | reg r a =>
    obtain ⟨ref, hd⟩ := Reference.Meaningful.exists_denotes h hdecl
    exact ⟨.reg ref a, hd, rfl⟩
  | imm t => exact ⟨.imm (.ofInt t.int), Int64.toInt_ofInt_of_le h.1 h.2⟩
  | label t =>
    obtain ⟨w, hw⟩ := exists_word (Nat.lt_succ_of_le h)
    exact ⟨.label ⟨w⟩, toNat_of_word hw⟩
  | folded t =>
    obtain ⟨w, hw⟩ := exists_word (Nat.lt_of_lt_of_le h hdecl)
    exact ⟨.folded ⟨w⟩, toNat_of_word hw⟩
  | base r off =>
    obtain ⟨ref, hd⟩ := h.1.exists_denotes hdecl
    exact ⟨.base ref (.ofInt (distance off)), hd, Int32.toInt_ofInt_of_le h.2.1 h.2.2⟩

theorem InstForm.Meaningful.exists_denotes {i : InstForm} (h : i.Meaningful declared)
    (hdecl : declared ≤ 2 ^ 32) : ∃ j, i.Denotes j := by
  obtain ⟨ops, hops⟩ := exists_forall₂ fun o ho => (h.operands o ho).exists_denotes hdecl
  obtain ⟨rs, hrs⟩ := exists_forall₂ h.clobbers
  exact ⟨⟨String.ofList i.opcode.word, ops, rs, i.isTerminator⟩,
    String.toList_ofList, hops, hrs, rfl⟩

end Exists

/-! ### There is one thing that is meant -/

theorem rightUnique_names : Relator.RightUnique Token.Names := fun _ _ _ h h' =>
  Reg.name_injective (String.toList_inj.1 (h.trans h'.symm))

theorem rightUnique_namesClass :
    Relator.RightUnique fun (d : Declaration) c => d.cls.NamesClass c := by
  intro d b c h h'
  have hname : b.name = c.name := String.toList_inj.1 (h.trans h'.symm)
  exact Option.some.inj ((RegClass.ofName?_eq_some_iff.2 hname).symm.trans
    (RegClass.ofName?_eq_some_iff.2 rfl))

theorem Reference.rightUnique_denotes : Relator.RightUnique Reference.Denotes := by
  rintro (t | t) (v | r) (v' | r') h h'
  all_goals first | cases h | cases h' | skip
  · exact congrArg (fun n => RegRef.virtual ⟨n⟩) (UInt32.toNat_inj.1 (h.trans h'.symm))
  · exact congrArg RegRef.physical (rightUnique_names h h')

theorem OperandForm.rightUnique_denotes : Relator.RightUnique OperandForm.Denotes := by
  intro o b c h h'
  cases o with
  | reg r a =>
    cases b with
    | reg ref access =>
      cases c with
      | reg ref' access' => rw [Reference.rightUnique_denotes h.1 h'.1, h.2, h'.2]
      | _ => cases h'
    | _ => cases h
  | imm t =>
    cases b with
    | imm x =>
      cases c with
      | imm y => exact congrArg Operand.imm (Int64.toInt_inj.1 (h.trans h'.symm))
      | _ => cases h'
    | _ => cases h
  | label t =>
    cases b with
    | label l =>
      cases c with
      | label m =>
        exact congrArg (fun n => Operand.label ⟨n⟩) (UInt32.toNat_inj.1 (h.trans h'.symm))
      | _ => cases h'
    | _ => cases h
  | folded t =>
    cases b with
    | folded v =>
      cases c with
      | folded w =>
        exact congrArg (fun n => Operand.folded ⟨n⟩) (UInt32.toNat_inj.1 (h.trans h'.symm))
      | _ => cases h'
    | _ => cases h
  | base r off =>
    cases b with
    | base ref x =>
      cases c with
      | base ref' y =>
        have hx : x = y := Int32.toInt_inj.1 (h.2.trans h'.2.symm)
        rw [Reference.rightUnique_denotes h.1 h'.1, hx]
      | _ => cases h'
    | _ => cases h

theorem InstForm.rightUnique_denotes : Relator.RightUnique InstForm.Denotes := by
  intro i b c h h'
  have hopcode : b.opcode = c.opcode := String.toList_inj.1 (h.opcode.trans h'.opcode.symm)
  have hops : b.operands = c.operands :=
    List.right_unique_forall₂' OperandForm.rightUnique_denotes h.operands h'.operands
  have hclobbers : b.clobbers = c.clobbers :=
    List.right_unique_forall₂' rightUnique_names h.clobbers h'.clobbers
  cases b
  cases c
  cases hopcode
  cases hops
  cases hclobbers
  exact congrArg (Inst.mk _ _ _) (h.isTerminator.trans h'.isTerminator.symm)

theorem BlockForm.rightUnique_denotes : Relator.RightUnique BlockForm.Denotes :=
  fun _ _ _ h h' => congrArg Block.mk (List.right_unique_forall₂' InstForm.rightUnique_denotes h h')

/-- A text denotes one function, up to its name. -/
theorem Source.Denotes.unique {s : Source} {f g : Func} (hf : s.Denotes f) (hg : s.Denotes g) :
    f.classes = g.classes ∧ f.blocks = g.blocks := by
  have hclasses := List.right_unique_forall₂' rightUnique_namesClass hf.classes hg.classes
  have hblocks := List.right_unique_forall₂' BlockForm.rightUnique_denotes hf.blocks hg.blocks
  exact ⟨Array.toList_inj.1 hclasses, Array.toList_inj.1 hblocks⟩

end Residency.Text

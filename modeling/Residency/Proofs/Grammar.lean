import Residency.Text.Source

/-!
# The grammar of a text

`Residency.Text.readSource` reads from the left and decides by the next token. This file gives the
grammar that it follows without a word about how: the phrases (`Residency.Text.Phrase`), the
productions for each (`Residency.Text.Production`), and what a phrase spells out when a production
makes it up of its parts (`Residency.Text.Production.action`). Lists grow at their right end here,
while they are read from their left end.

A derivation is a tree with a production at every node (`Residency.Text.Forest`,
`Residency.Text.Derivation`). What is true of everything that is derived is proved production by
production: `Residency.Text.Forest.spelt` says that a property of phrases that every production
passes on from the parts to the whole is one of all derivations.

A derivation is settled by its productions, in order from the root, and its tokens
(`Residency.Text.Forest.eq_of_nodes`); and its productions are settled by what it spells out
(`Residency.Text.Forest.nodes_eq`). So two derivations of the same tokens that spell out the same
are one (`Residency.Text.Derivation.eq_of_value`).
-/

namespace Residency.Text

/-! ### Phrases and productions -/

/-- What a text and its parts are. -/
inductive Phrase
  /-- A whole text. -/
  | source
  /-- Declarations of virtual registers, perhaps none. -/
  | declarations
  /-- The declaration of a virtual register. -/
  | declaration
  /-- The register of a declaration, which may be left out. -/
  | place
  /-- The mark of a slot, which may be left out. -/
  | slot
  /-- Blocks, perhaps none. -/
  | blocks
  /-- A block. -/
  | block
  /-- Instructions, perhaps none. -/
  | insts
  /-- An instruction. -/
  | inst
  /-- The mark of a terminator, which may be left out. -/
  | terminator
  /-- The operands of an instruction, perhaps none. -/
  | operands
  /-- One operand or more. -/
  | operandList
  /-- An operand. -/
  | operand
  /-- A register. -/
  | reference
  /-- The registers that an instruction overwrites besides, perhaps none. -/
  | clobbers
  /-- One physical register or more. -/
  | registerList
  deriving DecidableEq, Repr

/-- What a phrase is made up of. -/
inductive Symbol
  /-- A token of a kind. -/
  | token (k : Kind)
  /-- A phrase. -/
  | phrase (n : Phrase)
  deriving DecidableEq, Repr

/-- The productions: what each phrase may be made up of. -/
inductive Production : Phrase → List Symbol → Type
  | source : Production .source [.phrase .declarations, .phrase .blocks]
  | moreDeclarations : Production .declarations [.phrase .declarations, .phrase .declaration]
  | noDeclarations : Production .declarations []
  | declaration : Production .declaration
      [.token .virtual, .token .colon, .token .name, .phrase .place, .phrase .slot]
  | place : Production .place [.token .regMark, .token .physical]
  | noPlace : Production .place []
  | slot : Production .slot [.token .slotMark]
  | noSlot : Production .slot []
  | moreBlocks : Production .blocks [.phrase .blocks, .phrase .block]
  | noBlocks : Production .blocks []
  | block : Production .block [.token .block, .token .colon, .phrase .insts]
  | moreInsts : Production .insts [.phrase .insts, .phrase .inst]
  | noInsts : Production .insts []
  | inst : Production .inst
      [.phrase .terminator, .token .name, .phrase .operands, .phrase .clobbers]
  | terminator : Production .terminator [.token .termMark]
  | noTerminator : Production .terminator []
  | operands : Production .operands [.phrase .operandList]
  | noOperands : Production .operands []
  | moreOperands : Production .operandList
      [.phrase .operandList, .token .comma, .phrase .operand]
  | oneOperand : Production .operandList [.phrase .operand]
  | read : Production .operand [.phrase .reference]
  | write : Production .operand [.token .defMark, .phrase .reference]
  | modify : Production .operand [.token .usedefMark, .phrase .reference]
  | imm : Production .operand [.token .number]
  | label : Production .operand [.token .label]
  | folded : Production .operand
      [.token .leftBracket, .token .foldMark, .token .virtual, .token .rightBracket]
  | base : Production .operand [.token .leftBracket, .phrase .reference, .token .rightBracket]
  | baseAtDistance : Production .operand
      [.token .leftBracket, .phrase .reference, .token .plus, .token .number, .token .rightBracket]
  | virtual : Production .reference [.token .virtual]
  | physical : Production .reference [.token .physical]
  | clobbers : Production .clobbers
      [.token .clobberMark, .token .leftParen, .phrase .registerList, .token .rightParen]
  | noClobbers : Production .clobbers []
  | moreRegisters : Production .registerList
      [.phrase .registerList, .token .comma, .token .physical]
  | oneRegister : Production .registerList [.token .physical]

/-! ### What is spelt out -/

/-- What a phrase spells out. -/
@[reducible] def Phrase.Value : Phrase → Type
  | .source => Source
  | .declarations => List Declaration
  | .declaration => Declaration
  | .place => Option Token
  | .slot => Bool
  | .blocks => List BlockForm
  | .block => BlockForm
  | .insts => List InstForm
  | .inst => InstForm
  | .terminator => Bool
  | .operands => List OperandForm
  | .operandList => OperandForm × List OperandForm
  | .operand => OperandForm
  | .reference => Reference
  | .clobbers => List Token
  | .registerList => Token × List Token

/-- What tokens and phrases, one after the other, spell out. -/
@[reducible] def Values : List Symbol → Type
  | [] => Unit
  | .token _ :: ss => Token × Values ss
  | .phrase n :: ss => n.Value × Values ss

/-- What a phrase spells out, from what its parts spell out. -/
def Production.action : {n : Phrase} → {rhs : List Symbol} → Production n rhs → Values rhs → n.Value
  | _, _, .source, (ds, bs, _) => ⟨ds, bs⟩
  | _, _, .moreDeclarations, (ds, d, _) => ds ++ [d]
  | _, _, .noDeclarations, _ => []
  | _, _, .declaration, (v, _, c, reg, hasSlot, _) => ⟨v, c, reg, hasSlot⟩
  | _, _, .place, (_, r, _) => some r
  | _, _, .noPlace, _ => none
  | _, _, .slot, _ => true
  | _, _, .noSlot, _ => false
  | _, _, .moreBlocks, (bs, b, _) => bs ++ [b]
  | _, _, .noBlocks, _ => []
  | _, _, .block, (l, _, is, _) => ⟨l, is⟩
  | _, _, .moreInsts, (is, i, _) => is ++ [i]
  | _, _, .noInsts, _ => []
  | _, _, .inst, (term, opcode, os, rs, _) => ⟨term, opcode, os, rs⟩
  | _, _, .terminator, _ => true
  | _, _, .noTerminator, _ => false
  | _, _, .operands, (os, _) => os.1 :: os.2
  | _, _, .noOperands, _ => []
  | _, _, .moreOperands, (os, _, o, _) => (os.1, os.2 ++ [o])
  | _, _, .oneOperand, (o, _) => (o, [])
  | _, _, .read, (r, _) => .reg r .read
  | _, _, .write, (_, r, _) => .reg r .write
  | _, _, .modify, (_, r, _) => .reg r .modify
  | _, _, .imm, (t, _) => .imm t
  | _, _, .label, (t, _) => .label t
  | _, _, .folded, (_, _, v, _, _) => .folded v
  | _, _, .base, (_, r, _, _) => .base r none
  | _, _, .baseAtDistance, (_, r, _, off, _, _) => .base r (some off)
  | _, _, .virtual, (t, _) => .virtual t
  | _, _, .physical, (t, _) => .physical t
  | _, _, .clobbers, (_, _, rs, _, _) => rs.1 :: rs.2
  | _, _, .noClobbers, _ => []
  | _, _, .moreRegisters, (rs, _, r, _) => (rs.1, rs.2 ++ [r])
  | _, _, .oneRegister, (r, _) => (r, [])

/-! ### Derivations -/

/-- Derivations of tokens and phrases, one after the other. -/
inductive Forest : List Symbol → Type
  /-- Of nothing. -/
  | nil : Forest []
  /-- Of a token and what follows it. -/
  | token {k : Kind} {ss : List Symbol} (t : Token) (kind : t.kind = k) (rest : Forest ss) :
      Forest (.token k :: ss)
  /-- Of a phrase, by a production from its parts, and what follows it. -/
  | phrase {n : Phrase} {rhs ss : List Symbol} (p : Production n rhs) (parts : Forest rhs)
      (rest : Forest ss) : Forest (.phrase n :: ss)

/-- The derivations of a phrase. -/
abbrev Derivation (n : Phrase) : Type := Forest [.phrase n]

/-- The tokens that are derived. -/
def Forest.yield : {ss : List Symbol} → Forest ss → List Token
  | _, .nil => []
  | _, .token t _ rest => t :: rest.yield
  | _, .phrase _ parts rest => parts.yield ++ rest.yield

/-- What they spell out. -/
def Forest.values : {ss : List Symbol} → Forest ss → Values ss
  | _, .nil => ()
  | _, .token t _ rest => (t, rest.values)
  | _, .phrase p parts rest => (p.action parts.values, rest.values)

/-- What a derivation spells out. -/
def Derivation.value {n : Phrase} (d : Derivation n) : n.Value := d.values.1

/-! ### What is true of all derivations -/

section Spelt

/-- The tokens of `ts` up to `rest` spell out `vs`, where `Q` says so of a phrase. -/
def Spelt (Q : (n : Phrase) → n.Value → List Token → List Token → Prop) :
    (ss : List Symbol) → Values ss → List Token → List Token → Prop
  | [], _, ts, rest => ts = rest
  | .token k :: ss, (t, vs), ts, rest => t.kind = k ∧ ∃ mid, ts = t :: mid ∧ Spelt Q ss vs mid rest
  | .phrase n :: ss, (v, vs), ts, rest => ∃ mid, Q n v ts mid ∧ Spelt Q ss vs mid rest

/-- A property of phrases is hereditary when every production passes it on from the parts to the
whole. -/
def Hereditary (Q : (n : Phrase) → n.Value → List Token → List Token → Prop) : Prop :=
  ∀ n rhs (p : Production n rhs) vs ts rest, Spelt Q rhs vs ts rest → Q n (p.action vs) ts rest

variable {Q : (n : Phrase) → n.Value → List Token → List Token → Prop} {n : Phrase}
  {rhs ss : List Symbol} {ts : List Token}

/-- What every production passes on is true of all derivations. -/
theorem Forest.spelt (hereditary : Hereditary Q) (d : Forest ss) (rest : List Token) :
    Spelt Q ss d.values (d.yield ++ rest) rest := by
  induction d generalizing rest with
  | nil => rfl
  | token t kind _ ih => exact ⟨kind, _, rfl, ih rest⟩
  | phrase p parts tail hparts htail =>
    rw [yield, List.append_assoc]
    exact ⟨_, hereditary _ _ p _ _ _ (hparts _), htail rest⟩

theorem Derivation.spelt (hereditary : Hereditary Q) (d : Derivation n) (rest : List Token) :
    Q n d.value (d.yield ++ rest) rest := by
  obtain ⟨mid, hq, rfl⟩ := Forest.spelt hereditary d rest
  exact hq

/-- The tokens of `ts` up to `rest` are derived from a phrase that spells out `v`. -/
def Derives (n : Phrase) (v : n.Value) (ts rest : List Token) : Prop :=
  ∃ d : Derivation n, d.value = v ∧ ts = d.yield ++ rest

theorem exists_forest {vs : Values ss} {rest : List Token} (h : Spelt Derives ss vs ts rest) :
    ∃ d : Forest ss, d.values = vs ∧ ts = d.yield ++ rest := by
  induction ss generalizing ts with
  | nil => exact ⟨.nil, rfl, h⟩
  | cons s ss ih =>
    cases s with
    | token k =>
      obtain ⟨kind, mid, rfl, h⟩ := h
      obtain ⟨d, hvs, rfl⟩ := ih h
      exact ⟨.token vs.1 kind d, Prod.ext rfl hvs, rfl⟩
    | phrase n =>
      obtain ⟨mid, ⟨d, hd, rfl⟩, h⟩ := h
      obtain ⟨tail, hvs, rfl⟩ := ih h
      cases d with
      | phrase p parts nothing =>
        cases nothing
        refine ⟨.phrase p parts tail, Prod.ext hd hvs, ?_⟩
        simp [Forest.yield]

/-- What the parts of a phrase are derived from, the phrase is derived from. -/
theorem Derives.node {rest : List Token} (p : Production n rhs) (vs : Values rhs)
    (h : Spelt Derives rhs vs ts rest) : Derives n (p.action vs) ts rest := by
  obtain ⟨d, rfl, rfl⟩ := exists_forest h
  exact ⟨.phrase p d .nil, rfl, congrArg (· ++ rest) (List.append_nil _).symm⟩

end Spelt

/-! ### Productions and tokens settle a derivation -/

/-- A production, for whatever phrase. -/
abbrev Node : Type := Σ n rhs, Production n rhs

/-- The productions of a derivation, in order from its root. -/
def Forest.nodes : {ss : List Symbol} → Forest ss → List Node
  | _, .nil => []
  | _, .token _ _ rest => rest.nodes
  | _, .phrase p parts rest => ⟨_, _, p⟩ :: parts.nodes ++ rest.nodes

theorem Forest.append_eq_of_nodes {ss : List Symbol} (d d' : Forest ss) {ps ps' : List Node}
    {us us' : List Token} (hnodes : d.nodes ++ ps = d'.nodes ++ ps')
    (hyield : d.yield ++ us = d'.yield ++ us') : d = d' ∧ ps = ps' ∧ us = us' := by
  -- Where the parts of a phrase end is only known once they are, so what follows is carried along.
  induction d generalizing ps ps' us us' with
  | nil =>
    cases d' with
    | nil => exact ⟨rfl, hnodes, hyield⟩
  | token t kind rest ih =>
    cases d' with
    | token t' kind' rest' =>
      obtain ⟨rfl, hrest⟩ := List.cons.inj hyield
      obtain ⟨rfl, hps, hus⟩ := ih rest' hnodes hrest
      exact ⟨rfl, hps, hus⟩
  | phrase p parts rest hparts hrest =>
    cases d' with
    | phrase p' parts' rest' =>
      rw [nodes, nodes, List.cons_append, List.cons_append, List.cons_append, List.cons_append,
        List.append_assoc, List.append_assoc] at hnodes
      rw [yield, yield, List.append_assoc, List.append_assoc] at hyield
      obtain ⟨hp, hnodes'⟩ := List.cons.inj hnodes
      cases hp
      obtain ⟨rfl, hps, hus⟩ := hparts parts' hnodes' hyield
      obtain ⟨rfl, hps, hus⟩ := hrest rest' hps hus
      exact ⟨rfl, hps, hus⟩

/-- A derivation is settled by its productions and its tokens. -/
theorem Forest.eq_of_nodes {ss : List Symbol} {d d' : Forest ss} (hnodes : d.nodes = d'.nodes)
    (hyield : d.yield = d'.yield) : d = d' :=
  (append_eq_of_nodes d d' (congrArg (· ++ []) hnodes) (congrArg (· ++ []) hyield)).1

/-! ### What is spelt out settles the productions -/

section Nodes

variable {α : Type}

/-- The productions of a list that may be empty: one for each item, one for the end, and those of
the items. -/
def manyNodes (more none : Node) (item : α → List Node) (xs : List α) : List Node :=
  List.replicate xs.length more ++ none :: xs.flatMap item

/-- The productions of a list with a first item. -/
def someNodes (more one : Node) (item : α → List Node) (xs : α × List α) : List Node :=
  List.replicate xs.2.length more ++ one :: (xs.1 :: xs.2).flatMap item

theorem manyNodes_concat (more none : Node) (item : α → List Node) (xs : List α) (x : α) :
    manyNodes more none item (xs ++ [x]) = more :: manyNodes more none item xs ++ item x := by
  simp [manyNodes, List.replicate_succ]

theorem someNodes_singleton (more one : Node) (item : α → List Node) (x : α) :
    someNodes more one item (x, []) = one :: item x := by
  simp [someNodes]

theorem someNodes_concat (more one : Node) (item : α → List Node) (xs : α × List α) (x : α) :
    someNodes more one item (xs.1, xs.2 ++ [x]) = more :: someNodes more one item xs ++ item x := by
  simp [someNodes, List.replicate_succ]

/-- The productions of a register. -/
def Reference.nodes : Reference → List Node
  | .virtual _ => [⟨_, _, .virtual⟩]
  | .physical _ => [⟨_, _, .physical⟩]

/-- The productions of an operand. -/
def OperandForm.nodes : OperandForm → List Node
  | .reg r .read => ⟨_, _, .read⟩ :: r.nodes
  | .reg r .write => ⟨_, _, .write⟩ :: r.nodes
  | .reg r .modify => ⟨_, _, .modify⟩ :: r.nodes
  | .imm _ => [⟨_, _, .imm⟩]
  | .label _ => [⟨_, _, .label⟩]
  | .folded _ => [⟨_, _, .folded⟩]
  | .base r none => ⟨_, _, .base⟩ :: r.nodes
  | .base r (some _) => ⟨_, _, .baseAtDistance⟩ :: r.nodes

/-- The productions of one operand or more. -/
def operandListNodes : OperandForm × List OperandForm → List Node :=
  someNodes ⟨_, _, .moreOperands⟩ ⟨_, _, .oneOperand⟩ OperandForm.nodes

/-- The productions of one register or more. -/
def registerListNodes : Token × List Token → List Node :=
  someNodes ⟨_, _, .moreRegisters⟩ ⟨_, _, .oneRegister⟩ fun _ => []

/-- The productions of operands. -/
def operandsNodes : List OperandForm → List Node
  | [] => [⟨_, _, .noOperands⟩]
  | o :: os => ⟨_, _, .operands⟩ :: operandListNodes (o, os)

/-- The productions of the registers that an instruction overwrites besides. -/
def clobbersNodes : List Token → List Node
  | [] => [⟨_, _, .noClobbers⟩]
  | r :: rs => ⟨_, _, .clobbers⟩ :: registerListNodes (r, rs)

/-- The productions of what may be left out. -/
def markNodes (there absent : Node) (b : Bool) : List Node := [if b then there else absent]

/-- The productions of an instruction. -/
def InstForm.nodes (i : InstForm) : List Node :=
  ⟨_, _, .inst⟩ :: markNodes ⟨_, _, .terminator⟩ ⟨_, _, .noTerminator⟩ i.isTerminator ++
    operandsNodes i.operands ++ clobbersNodes i.clobbers

/-- The productions of instructions. -/
def instsNodes : List InstForm → List Node :=
  manyNodes ⟨_, _, .moreInsts⟩ ⟨_, _, .noInsts⟩ InstForm.nodes

/-- The productions of a block. -/
def BlockForm.nodes (b : BlockForm) : List Node := ⟨_, _, .block⟩ :: instsNodes b.insts

/-- The productions of blocks. -/
def blocksNodes : List BlockForm → List Node :=
  manyNodes ⟨_, _, .moreBlocks⟩ ⟨_, _, .noBlocks⟩ BlockForm.nodes

/-- The productions of a declaration. -/
def Declaration.nodes (d : Declaration) : List Node :=
  ⟨_, _, .declaration⟩ :: markNodes ⟨_, _, .place⟩ ⟨_, _, .noPlace⟩ d.reg.isSome ++
    markNodes ⟨_, _, .slot⟩ ⟨_, _, .noSlot⟩ d.hasSlot

/-- The productions of declarations. -/
def declarationsNodes : List Declaration → List Node :=
  manyNodes ⟨_, _, .moreDeclarations⟩ ⟨_, _, .noDeclarations⟩ Declaration.nodes

/-- The productions of a derivation of a phrase, from what it spells out. -/
def Phrase.nodes : (n : Phrase) → n.Value → List Node
  | .source, s => ⟨_, _, .source⟩ :: declarationsNodes s.declarations ++ blocksNodes s.blocks
  | .declarations, ds => declarationsNodes ds
  | .declaration, d => d.nodes
  | .place, r => markNodes ⟨_, _, .place⟩ ⟨_, _, .noPlace⟩ r.isSome
  | .slot, b => markNodes ⟨_, _, .slot⟩ ⟨_, _, .noSlot⟩ b
  | .blocks, bs => blocksNodes bs
  | .block, b => b.nodes
  | .insts, is => instsNodes is
  | .inst, i => i.nodes
  | .terminator, b => markNodes ⟨_, _, .terminator⟩ ⟨_, _, .noTerminator⟩ b
  | .operands, os => operandsNodes os
  | .operandList, os => operandListNodes os
  | .operand, o => o.nodes
  | .reference, r => r.nodes
  | .clobbers, rs => clobbersNodes rs
  | .registerList, rs => registerListNodes rs

/-- The productions of derivations one after the other, from what they spell out. -/
def valuesNodes : (ss : List Symbol) → Values ss → List Node
  | [], _ => []
  | .token _ :: ss, (_, vs) => valuesNodes ss vs
  | .phrase n :: ss, (v, vs) => n.nodes v ++ valuesNodes ss vs

theorem nodes_action {n : Phrase} {rhs : List Symbol} (p : Production n rhs) (vs : Values rhs) :
    n.nodes (p.action vs) = ⟨n, rhs, p⟩ :: valuesNodes rhs vs := by
  cases p with
  | moreDeclarations | moreBlocks | moreInsts =>
    simp only [valuesNodes, List.append_nil]
    exact manyNodes_concat ..
  | moreOperands =>
    simp only [valuesNodes, List.append_nil]
    exact someNodes_concat ..
  | moreRegisters =>
    simp only [valuesNodes, List.append_nil]
    exact (someNodes_concat ..).trans (List.append_nil _)
  | oneOperand =>
    simp only [valuesNodes, List.append_nil]
    exact someNodes_singleton ..
  | _ =>
    simp only [valuesNodes, List.append_nil]
    rfl

/-- What a derivation spells out settles its productions. -/
theorem Forest.nodes_eq {ss : List Symbol} (d : Forest ss) : d.nodes = valuesNodes ss d.values := by
  induction d with
  | nil => rfl
  | token t kind rest ih => exact ih
  | phrase p parts rest hparts hrest =>
    rw [nodes, hparts, hrest, ← nodes_action]
    rfl

/-- **Two derivations of the same tokens that spell out the same are one.** -/
theorem Derivation.eq_of_value {n : Phrase} {d d' : Derivation n} (hvalue : d.value = d'.value)
    (hyield : d.yield = d'.yield) : d = d' := by
  refine Forest.eq_of_nodes ?_ hyield
  rw [Forest.nodes_eq, Forest.nodes_eq]
  exact congrArg (fun v => n.nodes v ++ []) hvalue

end Nodes

end Residency.Text

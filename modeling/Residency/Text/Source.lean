import Residency.Text.Token

/-!
# The form of a text

What a text spells out, token by token, before it is known whether its numbers and
names mean anything:

```
source      = declaration* block*
declaration = virtual ":" name ["reg" physical] ["slot"]
block       = block ":" instruction*
instruction = ["term"] name [operand ("," operand)*] ["clobber" "(" physical ("," physical)* ")"]
operand     = register | "def" register | "usedef" register | number | label
            | "[" "fold" virtual "]" | "[" register "]" | "[" register "+" number "]"
register    = virtual | physical
```

Nothing separates one instruction from the next, and nothing has to: the next token
always tells whether a list goes on. `Residency.Text.readSource` follows the form
from the left and looks at one token ahead, so a sequence of tokens has at most one
reading.
-/

namespace Residency.Text

/-! ### What is spelt out -/

/-- A register where it is used. -/
inductive Reference
  /-- A virtual register. -/
  | virtual (t : Token)
  /-- A physical register. -/
  | physical (t : Token)
  deriving DecidableEq, Repr

/-- An operand as it is spelt. -/
inductive OperandForm
  /-- A register. -/
  | reg (r : Reference) (a : Access)
  /-- A constant. -/
  | imm (t : Token)
  /-- A target. -/
  | label (t : Token)
  /-- A folded virtual register. -/
  | folded (t : Token)
  /-- Memory at a base register, perhaps at a distance. -/
  | base (r : Reference) (off : Option Token)
  deriving DecidableEq, Repr

/-- An instruction as it is spelt. -/
structure InstForm where
  /-- Is it marked as a terminator? -/
  isTerminator : Bool
  /-- Its opcode. -/
  opcode : Token
  /-- Its operands. -/
  operands : List OperandForm
  /-- The registers that it overwrites besides. -/
  clobbers : List Token
  deriving DecidableEq, Repr

/-- A block as it is spelt. -/
structure BlockForm where
  /-- Its label. -/
  label : Token
  /-- Its instructions. -/
  insts : List InstForm
  deriving DecidableEq, Repr

/-- A declaration of a virtual register as it is spelt. -/
structure Declaration where
  /-- The virtual register. -/
  vreg : Token
  /-- Its class. -/
  cls : Token
  /-- Its register, if it has one. -/
  reg : Option Token
  /-- Has it a slot? -/
  hasSlot : Bool
  deriving DecidableEq, Repr

/-- A text as it is spelt. -/
structure Source where
  /-- The declarations. -/
  declarations : List Declaration
  /-- The blocks. -/
  blocks : List BlockForm
  deriving DecidableEq, Repr

/-! ### Tokens and lists -/

/-- Is the next token of a kind? -/
def comes (k : Kind) : List Token → Bool
  | [] => false
  | t :: _ => t.kind == k

/-- The next token, which must be of a kind, and what follows. -/
def expect (k : Kind) : List Token → Option (Token × List Token)
  | [] => none
  | t :: ts => if t.kind = k then some (t, ts) else none

theorem expect_eq_some_iff {k : Kind} {ts rest : List Token} {t : Token} :
    expect k ts = some (t, rest) ↔ ts = t :: rest ∧ t.kind = k := by
  cases ts with
  | nil => simp [expect]
  | cons u us =>
    rw [expect]
    by_cases hk : u.kind = k
    · rw [if_pos hk]
      constructor
      · rintro ⟨⟩
        exact ⟨rfl, hk⟩
      · rintro ⟨⟨⟩, -⟩
        rfl
    · rw [if_neg hk]
      constructor
      · rintro ⟨⟩
      · rintro ⟨⟨⟩, h⟩
        exact absurd h hk

theorem length_of_expect {k : Kind} {ts rest : List Token} {t : Token}
    (h : expect k ts = some (t, rest)) : rest.length < ts.length := by
  rw [(expect_eq_some_iff.1 h).1]
  exact Nat.lt_succ_self _

/-- A mark that may be left out: is it there, and what follows. -/
def mark (k : Kind) (ts : List Token) : Bool × List Token :=
  if comes k ts then (true, ts.tail) else (false, ts)

theorem length_mark_le (k : Kind) (ts : List Token) : (mark k ts).2.length ≤ ts.length := by
  unfold mark
  split
  · simp
  · exact Nat.le_refl _

/-- A reader that always takes a token. -/
def Takes {α : Type} (item : List Token → Option (α × List Token)) : Prop :=
  ∀ ts x rest, item ts = some (x, rest) → rest.length < ts.length

/-- Items for as long as another one starts. Every item takes a token, so they come to an
end. -/
def many {α : Type} (starts : List Token → Bool)
    (item : List Token → Option (α × List Token)) (takes : Takes item) (ts : List Token) :
    Option (List α × List Token) :=
  if starts ts then
    match _h : item ts with
    | none => none
    | some (x, rest) => (many starts item takes rest).map fun r => (x :: r.1, r.2)
  else some ([], ts)
  termination_by ts.length
  decreasing_by exact takes _ _ _ _h

theorem length_many_le {α : Type} {starts : List Token → Bool}
    {item : List Token → Option (α × List Token)} {takes : Takes item} {ts rest : List Token}
    {xs : List α} (h : many starts item takes ts = some (xs, rest)) :
    rest.length ≤ ts.length := by
  induction hn : ts.length using Nat.strongRecOn generalizing ts xs with
  | ind n ih =>
    rw [many] at h
    split at h
    · split at h
      · cases h
      · rename_i x mid hx
        obtain ⟨⟨ys, r⟩, hr, he⟩ := Option.map_eq_some_iff.1 h
        cases he
        have hlt := takes _ _ _ hx
        exact Nat.le_trans (ih _ (hn ▸ hlt) hr rfl) (hn ▸ Nat.le_of_lt hlt)
    · cases h
      exact Nat.le_of_eq hn

/-- An item behind a comma. -/
def behindComma {α : Type} (item : List Token → Option (α × List Token)) (ts : List Token) :
    Option (α × List Token) :=
  (expect .comma ts).bind fun r => item r.2

theorem takes_behindComma {α : Type} {item : List Token → Option (α × List Token)}
    (takes : Takes item) : Takes (behindComma item) := by
  intro ts x rest h
  obtain ⟨⟨t, mid⟩, hc, hi⟩ := Option.bind_eq_some_iff.1 h
  exact Nat.lt_trans (takes _ _ _ hi) (length_of_expect hc)

/-- One item or more, with commas between neighbours. -/
def commaList {α : Type} (item : List Token → Option (α × List Token)) (takes : Takes item)
    (ts : List Token) : Option (List α × List Token) := do
  let (x, ts) ← item ts
  let (xs, ts) ← many (comes .comma) (behindComma item) (takes_behindComma takes) ts
  some (x :: xs, ts)

theorem takes_commaList {α : Type} {item : List Token → Option (α × List Token)}
    (takes : Takes item) : Takes (commaList item takes) := by
  intro ts xs rest h
  obtain ⟨⟨x, mid⟩, hx, h⟩ := Option.bind_eq_some_iff.1 h
  obtain ⟨⟨ys, rest'⟩, hys, h⟩ := Option.bind_eq_some_iff.1 h
  cases h
  exact Nat.lt_of_le_of_lt (length_many_le hys) (takes _ _ _ hx)

/-! ### Operands -/

/-- A register. -/
def readReference : List Token → Option (Reference × List Token)
  | [] => none
  | t :: ts =>
    match t.kind with
    | .virtual => some (.virtual t, ts)
    | .physical => some (.physical t, ts)
    | _ => none

theorem takes_readReference : Takes readReference := by
  intro ts r rest h
  unfold readReference at h
  split at h
  · cases h
  · split at h
    · cases h
      exact Nat.lt_succ_self _
    · cases h
      exact Nat.lt_succ_self _
    · cases h

/-- A folded operand behind its opening bracket and its mark. -/
def readFolded (ts : List Token) : Option (OperandForm × List Token) := do
  let (v, ts) ← expect .virtual ts
  let (_, ts) ← expect .rightBracket ts
  some (.folded v, ts)

theorem takes_readFolded : Takes readFolded := by
  intro ts o rest h
  obtain ⟨⟨v, ts1⟩, h1, h⟩ := Option.bind_eq_some_iff.1 h
  obtain ⟨⟨b, ts2⟩, h2, h⟩ := Option.bind_eq_some_iff.1 h
  cases h
  exact Nat.lt_trans (length_of_expect h2) (length_of_expect h1)

/-- The distance from a base register, which may be left out. -/
def readDistance (ts : List Token) : Option (Option Token × List Token) :=
  if comes .plus ts then (expect .number ts.tail).map fun r => (some r.1, r.2)
  else some (none, ts)

theorem length_readDistance_le {ts rest : List Token} {off : Option Token}
    (h : readDistance ts = some (off, rest)) : rest.length ≤ ts.length := by
  unfold readDistance at h
  split at h
  · obtain ⟨⟨n, r⟩, hn, he⟩ := Option.map_eq_some_iff.1 h
    cases he
    exact Nat.le_trans (Nat.le_of_lt (length_of_expect hn)) (by simp)
  · cases h
    exact Nat.le_refl _

/-- A memory operand at a base register behind its opening bracket. -/
def readBase (ts : List Token) : Option (OperandForm × List Token) := do
  let (r, ts) ← readReference ts
  let (off, ts) ← readDistance ts
  let (_, ts) ← expect .rightBracket ts
  some (.base r off, ts)

theorem takes_readBase : Takes readBase := by
  intro ts o rest h
  obtain ⟨⟨r, ts1⟩, h1, h⟩ := Option.bind_eq_some_iff.1 h
  obtain ⟨⟨off, ts2⟩, h2, h⟩ := Option.bind_eq_some_iff.1 h
  obtain ⟨⟨b, ts3⟩, h3, h⟩ := Option.bind_eq_some_iff.1 h
  cases h
  have := takes_readReference _ _ _ h1
  have := length_readDistance_le h2
  have := length_of_expect h3
  omega

/-- An operand. -/
def readOperand : List Token → Option (OperandForm × List Token)
  | [] => none
  | t :: ts =>
    match t.kind with
    | .virtual => some (.reg (.virtual t) .read, ts)
    | .physical => some (.reg (.physical t) .read, ts)
    | .defMark => (readReference ts).map fun r => (.reg r.1 .write, r.2)
    | .usedefMark => (readReference ts).map fun r => (.reg r.1 .modify, r.2)
    | .number => some (.imm t, ts)
    | .label => some (.label t, ts)
    | .leftBracket => if comes .foldMark ts then readFolded ts.tail else readBase ts
    | _ => none

theorem takes_readOperand : Takes readOperand := by
  intro ts o rest h
  unfold readOperand at h
  split at h
  · cases h
  · rename_i t ts
    rw [List.length_cons]
    split at h
    · cases h
      exact Nat.lt_succ_self _
    · cases h
      exact Nat.lt_succ_self _
    · obtain ⟨⟨r, rest'⟩, hr, he⟩ := Option.map_eq_some_iff.1 h
      cases he
      exact Nat.lt_succ_of_lt (takes_readReference _ _ _ hr)
    · obtain ⟨⟨r, rest'⟩, hr, he⟩ := Option.map_eq_some_iff.1 h
      cases he
      exact Nat.lt_succ_of_lt (takes_readReference _ _ _ hr)
    · cases h
      exact Nat.lt_succ_self _
    · cases h
      exact Nat.lt_succ_self _
    · split at h
      · have := takes_readFolded _ _ _ h
        rw [List.length_tail] at this
        omega
      · exact Nat.lt_succ_of_lt (takes_readBase _ _ _ h)
    · cases h

/-- Does an operand come next? -/
def operandComes (ts : List Token) : Bool :=
  [Kind.virtual, .physical, .defMark, .usedefMark, .number, .label, .leftBracket].any
    fun k => comes k ts

/-- The operands of an instruction. -/
def readOperands (ts : List Token) : Option (List OperandForm × List Token) :=
  if operandComes ts then commaList readOperand takes_readOperand ts else some ([], ts)

theorem length_readOperands_le {ts rest : List Token} {os : List OperandForm}
    (h : readOperands ts = some (os, rest)) : rest.length ≤ ts.length := by
  unfold readOperands at h
  split at h
  · exact Nat.le_of_lt (takes_commaList _ _ _ _ h)
  · cases h
    exact Nat.le_refl _

/-! ### Instructions -/

/-- Registers between parentheses. -/
def readRegisters (ts : List Token) : Option (List Token × List Token) := do
  let (_, ts) ← expect .leftParen ts
  let (rs, ts) ← commaList (expect .physical) (fun _ _ _ => length_of_expect) ts
  let (_, ts) ← expect .rightParen ts
  some (rs, ts)

theorem takes_readRegisters : Takes readRegisters := by
  intro ts rs rest h
  obtain ⟨⟨a, ts1⟩, h1, h⟩ := Option.bind_eq_some_iff.1 h
  obtain ⟨⟨rs', ts2⟩, h2, h⟩ := Option.bind_eq_some_iff.1 h
  obtain ⟨⟨b, ts3⟩, h3, h⟩ := Option.bind_eq_some_iff.1 h
  cases h
  have := length_of_expect h1
  have := takes_commaList _ _ _ _ h2
  have := length_of_expect h3
  omega

/-- The registers that an instruction overwrites besides. -/
def readClobbers (ts : List Token) : Option (List Token × List Token) :=
  if comes .clobberMark ts then readRegisters ts.tail else some ([], ts)

theorem length_readClobbers_le {ts rest : List Token} {rs : List Token}
    (h : readClobbers ts = some (rs, rest)) : rest.length ≤ ts.length := by
  unfold readClobbers at h
  split at h
  · have := takes_readRegisters _ _ _ h
    rw [List.length_tail] at this
    omega
  · cases h
    exact Nat.le_refl _

/-- An instruction. -/
def readInst (ts : List Token) : Option (InstForm × List Token) := do
  let (opcode, rest) ← expect .name (mark .termMark ts).2
  let (operands, rest) ← readOperands rest
  let (clobbers, rest) ← readClobbers rest
  some (⟨(mark .termMark ts).1, opcode, operands, clobbers⟩, rest)

theorem takes_readInst : Takes readInst := by
  intro ts i rest h
  obtain ⟨⟨opcode, ts1⟩, h1, h⟩ := Option.bind_eq_some_iff.1 h
  obtain ⟨⟨os, ts2⟩, h2, h⟩ := Option.bind_eq_some_iff.1 h
  obtain ⟨⟨rs, ts3⟩, h3, h⟩ := Option.bind_eq_some_iff.1 h
  cases h
  have := length_mark_le .termMark ts
  have := length_of_expect h1
  have := length_readOperands_le h2
  have := length_readClobbers_le h3
  omega

/-- Does an instruction come next? -/
def instComes (ts : List Token) : Bool := comes .termMark ts || comes .name ts

/-! ### Blocks and declarations -/

/-- A block. -/
def readBlock (ts : List Token) : Option (BlockForm × List Token) := do
  let (label, ts) ← expect .block ts
  let (_, ts) ← expect .colon ts
  let (insts, ts) ← many instComes readInst takes_readInst ts
  some (⟨label, insts⟩, ts)

theorem takes_readBlock : Takes readBlock := by
  intro ts b rest h
  obtain ⟨⟨label, ts1⟩, h1, h⟩ := Option.bind_eq_some_iff.1 h
  obtain ⟨⟨c, ts2⟩, h2, h⟩ := Option.bind_eq_some_iff.1 h
  obtain ⟨⟨is, ts3⟩, h3, h⟩ := Option.bind_eq_some_iff.1 h
  cases h
  have := length_of_expect h1
  have := length_of_expect h2
  have := length_many_le h3
  omega

/-- The register of a declaration, which may be left out. -/
def readPlace (ts : List Token) : Option (Option Token × List Token) :=
  if comes .regMark ts then (expect .physical ts.tail).map fun r => (some r.1, r.2)
  else some (none, ts)

theorem length_readPlace_le {ts rest : List Token} {reg : Option Token}
    (h : readPlace ts = some (reg, rest)) : rest.length ≤ ts.length := by
  unfold readPlace at h
  split at h
  · obtain ⟨⟨n, r⟩, hn, he⟩ := Option.map_eq_some_iff.1 h
    cases he
    exact Nat.le_trans (Nat.le_of_lt (length_of_expect hn)) (by simp)
  · cases h
    exact Nat.le_refl _

/-- A declaration. -/
def readDeclaration (ts : List Token) : Option (Declaration × List Token) := do
  let (vreg, ts) ← expect .virtual ts
  let (_, ts) ← expect .colon ts
  let (cls, ts) ← expect .name ts
  let (reg, ts) ← readPlace ts
  some (⟨vreg, cls, reg, (mark .slotMark ts).1⟩, (mark .slotMark ts).2)

theorem takes_readDeclaration : Takes readDeclaration := by
  intro ts d rest h
  obtain ⟨⟨vreg, ts1⟩, h1, h⟩ := Option.bind_eq_some_iff.1 h
  obtain ⟨⟨c, ts2⟩, h2, h⟩ := Option.bind_eq_some_iff.1 h
  obtain ⟨⟨cls, ts3⟩, h3, h⟩ := Option.bind_eq_some_iff.1 h
  obtain ⟨⟨reg, ts4⟩, h4, h⟩ := Option.bind_eq_some_iff.1 h
  cases h
  have := length_of_expect h1
  have := length_of_expect h2
  have := length_of_expect h3
  have := length_readPlace_le h4
  have := length_mark_le .slotMark ts4
  omega

/-! ### Whole sequences -/

/-- What a whole sequence of tokens spells out. -/
def readSource (ts : List Token) : Option Source := do
  let (declarations, ts) ← many (comes .virtual) readDeclaration takes_readDeclaration ts
  let (blocks, ts) ← many (comes .block) readBlock takes_readBlock ts
  if ts.isEmpty then some ⟨declarations, blocks⟩ else none

end Residency.Text

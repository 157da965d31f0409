import Residency.Code

/-!
# How code is written

The textual form of operands, instructions and functions. It is the form that
`Residency.Text.read` takes in, so what is written here fixes what that accepts:

```
bb0:
  mov def %0, 1
  add usedef %0, [fold %1]
  call @bb1 clobber($RAX, $RCX)
  term jmp @bb1
```

A register operand that is only read stands alone; `def` marks one that is written
and `usedef` one that is both read and written. A distance of zero from a base
register is left out.
-/

namespace Residency

/-- Texts with a separator between neighbours. -/
def separated (sep : String) : List String → String
  | [] => ""
  | [s] => s
  | s :: t :: rest => s ++ sep ++ separated sep (t :: rest)

/-- A physical register is its name behind a dollar sign. -/
def Reg.text (r : Reg) : String := "$" ++ r.name

/-- The register of an operand. -/
def RegRef.text : RegRef → String
  | .virtual v => v.text
  | .physical r => r.text

/-- An operand. -/
def Operand.text : Operand → String
  | .reg ref .read => ref.text
  | .reg ref .write => "def " ++ ref.text
  | .reg ref .modify => "usedef " ++ ref.text
  | .imm x => toString x.toInt
  | .base ref off =>
    if off = 0 then "[" ++ ref.text ++ "]"
    else "[" ++ ref.text ++ " + " ++ toString off.toInt ++ "]"
  | .slot s => "[" ++ s.text ++ "]"
  | .folded v => "[fold " ++ v.text ++ "]"
  | .label b => "@" ++ b.text

/-- The operands of an instruction, behind a blank. -/
def Inst.operandsText : List Operand → String
  | [] => ""
  | os => " " ++ separated ", " (os.map Operand.text)

/-- The registers that an instruction overwrites besides, behind a blank. -/
def Inst.clobbersText : List Reg → String
  | [] => ""
  | rs => " clobber(" ++ separated ", " (rs.map Reg.text) ++ ")"

/-- An instruction. -/
def Inst.text (i : Inst) : String :=
  (if i.isTerminator then "term " else "") ++ i.opcode ++ Inst.operandsText i.operands ++
    Inst.clobbersText i.clobbers

/-- The lines of a block: its label, then its instructions, indented. -/
def Block.lines (label : String) (b : Block) : List String :=
  (label ++ ":") :: b.insts.map fun i => "  " ++ i.text

/-- The lines of blocks numbered from `n` on. -/
def Block.linesFrom : Nat → List Block → List String
  | _, [] => []
  | n, b :: rest => b.lines ("bb" ++ toString n) ++ Block.linesFrom (n + 1) rest

/-- The lines of a function. -/
def Func.lines (f : Func) : List String := Block.linesFrom 0 f.blocks.toList

/-- Lines, each with its end, behind a text. -/
def unlinesAfter (text : String) (ls : List String) : String :=
  ls.foldl (fun text l => text ++ l ++ "\n") text

/-- Lines, each with its end. -/
def unlines (ls : List String) : String := unlinesAfter "" ls

theorem toList_unlinesAfter (text : String) (ls : List String) :
    (unlinesAfter text ls).toList = text.toList ++ ls.flatMap fun l => l.toList ++ ['\n'] := by
  induction ls generalizing text with
  | nil => simp [unlinesAfter]
  | cons l ls ih =>
    rw [unlinesAfter, List.foldl_cons]
    exact (ih _).trans (by simp)

/-- The characters of lines are those of each line, with the end of the line behind
them. -/
theorem toList_unlines (ls : List String) :
    (unlines ls).toList = ls.flatMap fun l => l.toList ++ ['\n'] :=
  (toList_unlinesAfter "" ls).trans (by simp)

/-- A function, block by block. Its name and the classes of its virtual registers
are not part of the text. -/
def Func.text (f : Func) : String := unlines f.lines

end Residency

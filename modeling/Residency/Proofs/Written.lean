import Mathlib.Data.List.Induction
import Residency.Proofs.Writing

/-!
# How code is written, phrase by phrase

From registers up to the blocks of a function, what is written for a part of a function
(`Residency.Func.text`) is a way of writing a phrase that denotes that part
(`Residency.Text.Writes`). A function is written line by line, and here the end of a line is counted
as the start of the next one (`Residency.toList_unlines_cons`). So every line after the first one
begins with a blank, and no word runs on from one line to the next.

An operand has a phrase unless it is a stack slot, and an instruction unless its opcode is no name
(`Residency.Inst.Writable`).
-/

namespace Residency

open Text

/-! ### Operands -/

theorem nat_of_word {t : Token} {l : List Char} {n : Nat} (h : t.word = l ++ (toString n).toList) :
    t.nat l.length = n := by
  rw [Token.nat, h, List.drop_left, ofDigitChars_toString]

theorem names_of_word {t : Token} {r : Reg} (h : t.word = '$' :: r.name.toList) : t.Names r :=
  (congrArg (List.drop 1) h).symm

theorem writes_reference (ref : RegRef) :
    Writes .reference (fun r => r.Denotes ref) ref.text.toList := by
  cases ref with
  | virtual v =>
    have htext : (RegRef.virtual v).text.toList = '%' :: (toString v.num.toNat).toList := by
      simp [RegRef.text, VReg.text]
    rw [htext]
    refine .of_production .virtual (.lastToken (takes_virtual _)) fun vs hw => ?_
    exact (nat_of_word (l := ['%']) hw).symm
  | physical r =>
    have htext : (RegRef.physical r).text.toList = '$' :: r.name.toList := by
      simp [RegRef.text, Reg.text]
    rw [htext]
    exact .of_production .physical (.lastToken (takes_physical r)) fun vs hw => names_of_word hw

/-- An operand is written as a phrase that denotes it, unless it is a stack slot. -/
theorem writes_operand {o : Operand} (ho : ∀ s, o ≠ .slot s) :
    Writes .operand (fun form => form.Denotes o) o.text.toList := by
  cases o with
  | slot s => exact absurd rfl (ho s)
  | reg ref access =>
    cases access with
    | read =>
      exact .of_production .read (.lastPhrase (writes_reference ref)) fun vs hd => ⟨hd, rfl⟩
    | write =>
      have htext : (Operand.reg ref .write).text.toList =
          ['d', 'e', 'f'] ++ ' ' :: ref.text.toList := by
        simp [Operand.text]
      rw [htext]
      refine .of_production .write (.token (takes_keyword rfl (by decide)) (stops_cons (by decide))
        (.blank (by decide) (.lastPhrase (writes_reference ref)))) ?_
      rintro vs ⟨-, hd⟩
      exact ⟨hd, rfl⟩
    | modify =>
      have htext : (Operand.reg ref .modify).text.toList =
          ['u', 's', 'e', 'd', 'e', 'f'] ++ ' ' :: ref.text.toList := by
        simp [Operand.text]
      rw [htext]
      refine .of_production .modify (.token (takes_keyword rfl (by decide)) (stops_cons (by decide))
        (.blank (by decide) (.lastPhrase (writes_reference ref)))) ?_
      rintro vs ⟨-, hd⟩
      exact ⟨hd, rfl⟩
  | imm x =>
    obtain ⟨htakes, hvalue⟩ := takes_number x.toInt
    refine .of_production .imm (.lastToken htakes) fun vs hw => ?_
    exact (hvalue ▸ congrArg intValue hw).symm
  | base ref off =>
    -- A distance of zero is not written, and one that is not written is zero.
    by_cases hoff : off = 0
    · have htext : (Operand.base ref off).text.toList = '[' :: (ref.text.toList ++ [']']) := by
        simp [Operand.text, hoff]
      rw [htext]
      refine .of_production .base (.mark rfl (.phrase (writes_reference ref)
        (stops_cons (by decide)) (.mark rfl .nil))) ?_
      rintro vs ⟨hd, -⟩
      exact ⟨hd, congrArg Int32.toInt hoff⟩
    · have htext : (Operand.base ref off).text.toList = '[' :: (ref.text.toList ++
          ' ' :: '+' :: ' ' :: ((toString off.toInt).toList ++ [']'])) := by
        simp [Operand.text, hoff]
      obtain ⟨htakes, hvalue⟩ := takes_number off.toInt
      rw [htext]
      refine .of_production .baseAtDistance (.mark rfl (.phrase (writes_reference ref)
        (stops_cons (by decide)) (.blank (by decide) (.mark rfl (.blank (by decide)
          (.token htakes (stops_cons (by decide)) (.mark rfl .nil))))))) ?_
      rintro vs ⟨hd, hw, -⟩
      exact ⟨hd, (hvalue ▸ congrArg intValue hw).symm⟩
  | folded v =>
    have htext : (Operand.folded v).text.toList =
        '[' :: (['f', 'o', 'l', 'd'] ++ ' ' :: ('%' :: (toString v.num.toNat).toList ++ [']'])) :=
      by simp [Operand.text, VReg.text]
    rw [htext]
    refine .of_production .folded (.mark rfl (.token (takes_keyword rfl (by decide))
      (stops_cons (by decide)) (.blank (by decide) (.token (takes_virtual _)
        (stops_cons (by decide)) (.mark rfl .nil))))) ?_
    rintro vs ⟨-, hw, -⟩
    exact (nat_of_word (l := ['%']) hw).symm
  | label b =>
    have htext : (Operand.label b).text.toList =
        '@' :: 'b' :: 'b' :: (toString b.num.toNat).toList := by
      simp [Operand.text, BlockId.text]
    rw [htext]
    refine .of_production .label (.lastToken (takes_label _)) fun vs hw => ?_
    exact (nat_of_word (l := ['@', 'b', 'b']) hw).symm

/-! ### Lists with commas -/

theorem separated_concat {sep : String} {l : List String} (s : String) (hl : l ≠ []) :
    separated sep (l ++ [s]) = separated sep l ++ sep ++ s := by
  induction l with
  | nil => exact absurd rfl hl
  | cons t l ih =>
    cases l with
    | nil => rfl
    | cons u l =>
      rw [List.cons_append, List.cons_append, separated, ← List.cons_append,
        ih (List.cons_ne_nil u l), separated]
      simp only [String.append_assoc]

/-- A list grows at its right end when it is derived, by a comma and an item. -/
theorem writes_separated {α : Type} {n : Phrase} {text : α → String} {E : List α → n.Value → Prop}
    (ok : α → Prop) (one : ∀ x, ok x → Writes n (E [x]) (text x).toList)
    (more : ∀ xs x u, ok x → Writes n (E xs) u →
      Writes n (E (xs ++ [x])) (u ++ ',' :: ' ' :: (text x).toList))
    {x : α} {xs : List α} (h : ∀ y ∈ x :: xs, ok y) :
    Writes n (E (x :: xs)) (separated ", " ((x :: xs).map text)).toList := by
  -- What is written is taken apart at the right end, where it is derived.
  induction xs using List.reverseRecOn with
  | nil => exact one x (h x List.mem_cons_self)
  | append_singleton xs y ih =>
    rw [← List.cons_append, List.forall_mem_append, List.forall_mem_singleton] at h
    have htext : (separated ", " ((x :: xs ++ [y]).map text)).toList =
        (separated ", " ((x :: xs).map text)).toList ++ ',' :: ' ' :: (text y).toList := by
      rw [List.map_append, List.map_singleton, separated_concat _ (by simp)]
      simp
    rw [← List.cons_append, htext]
    exact more (x :: xs) y _ h.2 (ih h.1)

theorem writes_operandList {o : Operand} {os : List Operand}
    (h : ∀ p ∈ o :: os, ∀ s, p ≠ .slot s) :
    Writes .operandList
      (fun forms => List.Forall₂ OperandForm.Denotes (forms.1 :: forms.2) (o :: os))
      (separated ", " ((o :: os).map Operand.text)).toList := by
  refine writes_separated (n := .operandList) (fun p => ∀ s, p ≠ .slot s)
    (E := fun ps forms => List.Forall₂ OperandForm.Denotes (forms.1 :: forms.2) ps) ?_ ?_ h
  · intro p hp
    exact .of_production .oneOperand (.lastPhrase (writes_operand hp)) fun vs hd => .cons hd .nil
  · intro ps p u hp hu
    refine .of_production .moreOperands (.phrase hu (stops_cons (by decide))
      (.mark rfl (.blank (by decide) (.lastPhrase (writes_operand hp))))) ?_
    rintro vs ⟨hds, hd⟩
    exact List.rel_append hds (.cons hd .nil)

theorem toList_operandsText_cons (o : Operand) (os : List Operand) :
    (Inst.operandsText (o :: os)).toList =
      ' ' :: (separated ", " ((o :: os).map Operand.text)).toList := by
  simp [Inst.operandsText]

theorem writes_operands {os : List Operand} (h : ∀ o ∈ os, ∀ s, o ≠ .slot s) :
    Writes .operands (fun forms => List.Forall₂ OperandForm.Denotes forms os)
      (Inst.operandsText os).toList := by
  cases os with
  | nil => exact .of_production .noOperands .nil fun _ _ => .nil
  | cons o os =>
    rw [toList_operandsText_cons]
    exact .of_production .operands (.blank (by decide) (.lastPhrase (writes_operandList h)))
      fun vs hd => hd

theorem writes_registerList (r : Reg) (rs : List Reg) :
    Writes .registerList (fun ts => List.Forall₂ Token.Names (ts.1 :: ts.2) (r :: rs))
      (separated ", " ((r :: rs).map Reg.text)).toList := by
  have htext : ∀ q : Reg, q.text.toList = '$' :: q.name.toList := by
    intro q
    simp [Reg.text]
  refine writes_separated (n := .registerList) (fun _ => True)
    (E := fun qs ts => List.Forall₂ Token.Names (ts.1 :: ts.2) qs) ?_ ?_ fun _ _ => trivial
  · intro q _
    rw [htext]
    exact .of_production .oneRegister (.lastToken (takes_physical q))
      fun vs hw => .cons (names_of_word hw) .nil
  · intro qs q u _ hu
    rw [htext]
    refine .of_production .moreRegisters (.phrase hu (stops_cons (by decide))
      (.mark rfl (.blank (by decide) (.lastToken (takes_physical q))))) ?_
    rintro vs ⟨hqs, hw⟩
    exact List.rel_append hqs (.cons (names_of_word hw) .nil)

theorem toList_clobbersText_cons (r : Reg) (rs : List Reg) :
    (Inst.clobbersText (r :: rs)).toList = ' ' :: (['c', 'l', 'o', 'b', 'b', 'e', 'r'] ++
      '(' :: ((separated ", " ((r :: rs).map Reg.text)).toList ++ [')'])) := by
  simp [Inst.clobbersText]

theorem writes_clobbers (rs : List Reg) :
    Writes .clobbers (fun ts => List.Forall₂ Token.Names ts rs) (Inst.clobbersText rs).toList := by
  cases rs with
  | nil => exact .of_production .noClobbers .nil fun _ _ => .nil
  | cons r rs =>
    rw [toList_clobbersText_cons]
    refine .of_production .clobbers (.blank (by decide) (.token (takes_keyword rfl (by decide))
      (stops_cons (by decide)) (.mark rfl (.phrase (writes_registerList r rs)
        (stops_cons (by decide)) (.mark rfl .nil))))) ?_
    rintro vs ⟨-, hd, -⟩
    exact hd

/-! ### Instructions -/

/-- An instruction has a form: it is written in such a way that it can be read. -/
structure Inst.Writable (i : Inst) : Prop where
  /-- None of its operands is a stack slot. -/
  operands : ∀ o ∈ i.operands, ∀ s, o ≠ .slot s
  /-- Its opcode is made up as names are. -/
  opcode : i.opcode.toList ∈ Kind.name.language
  /-- It is neither a word with a meaning of its own nor the label of a block. -/
  unreserved : ∀ k ∈ reservedKinds, i.opcode.toList ∉ k.language

theorem Inst.writable_iff {i : Inst} :
    i.Writable ↔ (∀ o ∈ i.operands, ∀ s, o ≠ .slot s) ∧ Kind.name.Takes i.opcode.toList := by
  rw [takes_name_iff]
  exact ⟨fun h => ⟨h.operands, h.opcode, h.unreserved⟩, fun h => ⟨h.1, h.2.1, h.2.2⟩⟩

/-- The stack slot that an operand is, if it is one. -/
def Operand.slot? : Operand → Option Slot
  | .slot s => some s
  | _ => none

theorem Operand.slot?_eq_none_iff {o : Operand} : o.slot? = none ↔ ∀ s, o ≠ .slot s := by
  cases o <;> simp [Operand.slot?]

instance (o : Operand) : Decidable (∀ s, o ≠ .slot s) :=
  decidable_of_iff _ Operand.slot?_eq_none_iff

instance (i : Inst) : Decidable i.Writable := decidable_of_iff _ Inst.writable_iff.symm

theorem stops_operandsText (os : List Operand) : Stops (Inst.operandsText os).toList := by
  cases os with
  | nil => exact stops_nil
  | cons o os =>
    rw [toList_operandsText_cons]
    exact stops_cons (by decide)

theorem stops_clobbersText (rs : List Reg) : Stops (Inst.clobbersText rs).toList := by
  cases rs with
  | nil => exact stops_nil
  | cons r rs =>
    rw [toList_clobbersText_cons]
    exact stops_cons (by decide)

theorem writes_inst {i : Inst} (h : i.Writable) :
    Writes .inst (fun form => form.Denotes i) i.text.toList := by
  obtain ⟨hoperands, hopcode⟩ := Inst.writable_iff.1 h
  have hlists := WritesAll.phrase (writes_operands hoperands) (stops_clobbersText i.clobbers)
    (.lastPhrase (writes_clobbers i.clobbers))
  have hrest := WritesAll.token hopcode
    ((stops_operandsText i.operands).append (stops_clobbersText i.clobbers)) hlists
  by_cases hterm : i.isTerminator = true
  · have htext : i.text.toList = ['t', 'e', 'r', 'm'] ++ ' ' :: (i.opcode.toList ++
        ((Inst.operandsText i.operands).toList ++ (Inst.clobbersText i.clobbers).toList)) := by
      simp [Inst.text, hterm]
    have hmark : Writes .terminator (· = true) ['t', 'e', 'r', 'm'] :=
      .of_production .terminator (.lastToken (takes_keyword rfl (by decide))) fun _ _ => rfl
    rw [htext]
    refine .of_production .inst
      (.phrase hmark (stops_cons (by decide)) (.blank (by decide) hrest)) ?_
    rintro vs ⟨ht, hw, hos, hrs⟩
    exact ⟨hw.symm, hos, hrs, hterm.trans ht.symm⟩
  · have htext : i.text.toList = i.opcode.toList ++
        ((Inst.operandsText i.operands).toList ++ (Inst.clobbersText i.clobbers).toList) := by
      simp [Inst.text, hterm]
    rw [htext]
    refine .of_production .inst (.absent .noTerminator hrest) ?_
    rintro vs ⟨ht, hw, hos, hrs⟩
    exact ⟨hw.symm, hos, hrs, (Bool.eq_false_iff.2 hterm).trans ht.symm⟩

/-! ### Lines -/

/-- Lines, each behind the end of the one before it. -/
def linesBehind (ls : List String) : List Char := ls.flatMap fun l => '\n' :: l.toList

theorem toList_unlines_cons (ls : List String) :
    '\n' :: (unlines ls).toList = linesBehind ls ++ ['\n'] := by
  rw [toList_unlines]
  induction ls with
  | nil => rfl
  | cons l ls ih =>
    rw [linesBehind, List.flatMap_cons, List.flatMap_cons, ← linesBehind]
    simp [ih]

theorem linesBehind_append (ls ls' : List String) :
    linesBehind (ls ++ ls') = linesBehind ls ++ linesBehind ls' :=
  List.flatMap_append

theorem stops_linesBehind (ls : List String) : Stops (linesBehind ls) := by
  cases ls with
  | nil => exact stops_nil
  | cons l ls => exact stops_cons (by decide)

theorem writes_insts {is : List Inst} (h : ∀ i ∈ is, i.Writable) :
    Writes .insts (fun forms => List.Forall₂ InstForm.Denotes forms is)
      (linesBehind (is.map fun i => "  " ++ i.text)) := by
  induction is using List.reverseRecOn with
  | nil => exact .of_production .noInsts .nil fun _ _ => .nil
  | append_singleton is i ih =>
    rw [List.forall_mem_append, List.forall_mem_singleton] at h
    have htext : linesBehind ((is ++ [i]).map fun i => "  " ++ i.text) =
        linesBehind (is.map fun i => "  " ++ i.text) ++
          '\n' :: ' ' :: ' ' :: i.text.toList := by
      rw [List.map_append, linesBehind_append]
      simp [linesBehind]
    rw [htext]
    refine .of_production .moreInsts (.phrase (ih h.1) (stops_cons (by decide))
      (.blank (by decide) (.blank (by decide) (.blank (by decide)
        (.lastPhrase (writes_inst h.2)))))) ?_
    rintro vs ⟨hds, hd⟩
    exact List.rel_append hds (.cons hd .nil)

/-! ### Blocks -/

theorem writes_block {b : Block} (n : Nat) (h : ∀ i ∈ b.insts, i.Writable) :
    Writes .block (fun form => form.label.nat 2 = n ∧ form.Denotes b)
      (linesBehind (b.lines ("bb" ++ toString n))) := by
  have htext : linesBehind (b.lines ("bb" ++ toString n)) =
      '\n' :: ('b' :: 'b' :: (toString n).toList ++
        ':' :: linesBehind (b.insts.map fun i => "  " ++ i.text)) := by
    simp [linesBehind, Block.lines]
  rw [htext]
  refine .of_production .block (.blank (by decide) (.token (takes_block n) (stops_cons (by decide))
    (.mark rfl (.lastPhrase (writes_insts h))))) ?_
  rintro vs ⟨hw, hd⟩
  exact ⟨nat_of_word (l := ['b', 'b']) hw, hd⟩

theorem linesFrom_concat (n : Nat) (bs : List Block) (b : Block) :
    Block.linesFrom n (bs ++ [b]) =
      Block.linesFrom n bs ++ b.lines ("bb" ++ toString (n + bs.length)) := by
  induction bs generalizing n with
  | nil => simp [Block.linesFrom]
  | cons c bs ih =>
    rw [List.cons_append, Block.linesFrom, ih, Block.linesFrom, List.append_assoc,
      List.length_cons, Nat.add_assoc, Nat.add_comm 1]

/-- The blocks of a function are written as blocks in the order of their numbers. -/
theorem writes_blocks {bs : List Block} (h : ∀ b ∈ bs, ∀ i ∈ b.insts, i.Writable) :
    Writes .blocks (fun forms => forms.map (fun form => form.label.nat 2) = List.range bs.length ∧
      List.Forall₂ BlockForm.Denotes forms bs) (linesBehind (Block.linesFrom 0 bs)) := by
  induction bs using List.reverseRecOn with
  | nil => exact .of_production .noBlocks .nil fun _ _ => ⟨rfl, .nil⟩
  | append_singleton bs b ih =>
    rw [List.forall_mem_append, List.forall_mem_singleton] at h
    rw [linesFrom_concat, linesBehind_append, Nat.zero_add]
    refine .of_production .moreBlocks (.phrase (ih h.1) (stops_linesBehind _)
      (.lastPhrase (writes_block bs.length h.2))) ?_
    rintro vs ⟨⟨hnums, hds⟩, hnum, hd⟩
    refine ⟨?_, List.rel_append hds (.cons hd .nil)⟩
    rw [List.length_append, List.length_singleton, List.range_succ, ← hnums, ← hnum]
    exact List.map_append

end Residency

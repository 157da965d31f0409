import Residency.Proofs.WellFormed
import Residency.Proofs.Written

/-!
# Written code is read back

The text of a function (`Residency.Func.text`) has its blocks and not the classes of its virtual
registers, so it is read behind a text of declarations that gives them. There it is read as what was
written just if every instruction has a form (`Residency.Inst.Writable`), and then nothing is lost:
what is read may be written and read again (`Residency.reads_back`).

One half puts the tokens of the blocks (`Residency.writes_blocks`) behind those of the declarations
and sees from what the words denote that they have a meaning
(`Residency.Text.OperandForm.meaningful_iff`). The other half does not look at what was written: no
text spells out a stack slot, nor an opcode that is not a name (`Residency.writable_of_read`).
-/

namespace Residency

open Text

/-! ### What is declared and what has a form -/

/-- The virtual register that a register operand or a base is, if it is one. -/
def RegRef.virtual? : RegRef → Option VReg
  | .virtual v => some v
  | .physical _ => none

/-- The virtual register that an operand names or folds, if any. -/
def Operand.virtual? : Operand → Option VReg
  | .reg ref _ => ref.virtual?
  | .base ref _ => ref.virtual?
  | .folded v => some v
  | .imm _ => none
  | .slot _ => none
  | .label _ => none

/-- The virtual register of an operand is one of those that are declared. -/
def Operand.Declared (declared : Nat) (o : Operand) : Prop :=
  ∀ v ∈ o.virtual?, v.index < declared

/-- The virtual registers of a function are declared, wherever an operand names or folds one. -/
def Func.Declared (f : Func) : Prop :=
  ∀ b ∈ f.blocks, ∀ i ∈ b.insts, ∀ o ∈ i.operands, o.Declared f.classes.size

instance (f : Func) : Decidable f.Declared :=
  inferInstanceAs (Decidable (∀ b ∈ f.blocks, ∀ i ∈ b.insts, ∀ o ∈ i.operands, ∀ v ∈ o.virtual?,
    v.index < f.classes.size))

/-- A function has a form: every instruction has one. -/
def Func.Writable (f : Func) : Prop := ∀ b ∈ f.blocks, ∀ i ∈ b.insts, i.Writable

instance (f : Func) : Decidable f.Writable :=
  inferInstanceAs (Decidable (∀ b ∈ f.blocks, ∀ i ∈ b.insts, i.Writable))

/-! ### What is denoted -/

section Denotes

variable {declared : Nat} {form : OperandForm} {o : Operand} {i : InstForm} {j : Inst}

theorem Text.Reference.meaningful_iff {r : Reference} {ref : RegRef} (h : r.Denotes ref) :
    r.Meaningful declared ↔ ∀ v ∈ ref.virtual?, v.index < declared := by
  cases r with
  | virtual t =>
    cases ref with
    | virtual v =>
      have hnum : v.index = t.nat 1 := h
      rw [Reference.Meaningful, ← hnum]
      simp [RegRef.virtual?]
    | physical r => cases h
  | physical t =>
    cases ref with
    | virtual v => cases h
    | physical r => exact ⟨fun _ => nofun, fun _ => ⟨r, h⟩⟩

/-- The words of an operand have a meaning just if its virtual register is declared: what is left
of it is in range by what it is. -/
theorem Text.OperandForm.meaningful_iff (h : form.Denotes o) :
    form.Meaningful declared ↔ o.Declared declared := by
  cases form with
  | reg r access =>
    cases o with
    | reg ref access' => exact Reference.meaningful_iff h.1
    | _ => cases h
  | imm t =>
    cases o with
    | imm x =>
      have hvalue : x.toInt = t.int := h
      rw [OperandForm.Meaningful, ← hvalue]
      exact ⟨fun _ => nofun, fun _ => ⟨x.le_toInt, x.toInt_lt⟩⟩
    | _ => cases h
  | label t =>
    cases o with
    | label b =>
      have hnum : b.index = t.nat 3 := h
      rw [OperandForm.Meaningful, ← hnum]
      exact ⟨fun _ => nofun, fun _ => Nat.le_of_lt_succ b.num.toNat_lt⟩
    | _ => cases h
  | folded t =>
    cases o with
    | folded v =>
      have hnum : v.index = t.nat 1 := h
      rw [OperandForm.Meaningful, ← hnum]
      simp [Operand.Declared, Operand.virtual?]
    | _ => cases h
  | base r off =>
    cases o with
    | base ref x =>
      rw [OperandForm.Meaningful, Reference.meaningful_iff h.1, ← h.2]
      exact ⟨fun hv => hv.1, fun hd => ⟨hd, x.le_toInt, x.toInt_lt⟩⟩
    | _ => cases h

theorem Text.InstForm.meaningful_iff (h : i.Denotes j) :
    i.Meaningful declared ↔ ∀ o ∈ j.operands, o.Declared declared := by
  constructor
  · intro hm o ho
    obtain ⟨form, hform, hd⟩ := exists_of_forall₂ h.operands.flip ho
    exact (OperandForm.meaningful_iff hd).1 (hm.operands form hform)
  · refine fun hdecl => ⟨fun form hform => ?_, fun t ht => ?_⟩
    · obtain ⟨o, ho, hd⟩ := exists_of_forall₂ h.operands hform
      exact (OperandForm.meaningful_iff hd).2 (hdecl o ho)
    · obtain ⟨r, -, hr⟩ := exists_of_forall₂ h.clobbers ht
      exact ⟨r, hr⟩

theorem Text.OperandForm.ne_slot (h : form.Denotes o) (s : Slot) : o ≠ .slot s := by
  rintro rfl
  cases form <;> cases h

theorem Text.InstForm.writable (hlexed : i.Lexed) (h : i.Denotes j) : j.Writable := by
  refine Inst.writable_iff.2 ⟨fun o ho => ?_, h.opcode ▸ hlexed.opcode.takes⟩
  obtain ⟨form, -, hd⟩ := exists_of_forall₂ h.operands.flip ho
  exact OperandForm.ne_slot hd

end Denotes

/-! ### What has been read -/

section Read

variable {name text : String} {f : Func} {a : Allocation} {s : Source}

/-- Every instruction of a function is spelt out somewhere. -/
theorem Text.Source.Denotes.exists_inst (h : s.Denotes f) {b : Block} (hb : b ∈ f.blocks) {j : Inst}
    (hj : j ∈ b.insts) : ∃ form ∈ s.blocks, ∃ i ∈ form.insts, i.Denotes j := by
  obtain ⟨form, hform, hd⟩ := exists_of_forall₂ h.blocks.flip hb.val
  obtain ⟨i, hi, hd⟩ := exists_of_forall₂ (List.Forall₂.flip hd) hj
  exact ⟨form, hform, i, hi, hd⟩

theorem Text.Source.length_eq (h : s.Denotes f) : s.declarations.length = f.classes.size :=
  h.classes.length_eq

/-- A function that has been read has a form, its virtual registers are declared, and its blocks and
instructions can be numbered. -/
theorem writable_of_read (h : read name text = .ok (f, a)) :
    f.name = name ∧ f.Declared ∧ f.Numbered ∧ f.Writable := by
  obtain ⟨s, hs, hread⟩ := read_eq_ok_iff.1 h
  have hlexed := lexed_of_source? hs
  obtain ⟨hm, hn, hname, hd⟩ := Source.denotes_of_read hlexed hread
  refine ⟨hname, fun b hb j hj => ?_, ⟨?_, fun b hb => ?_⟩, fun b hb j hj => ?_⟩
  · obtain ⟨form, hform, i, hi, hij⟩ := hd.exists_inst hb hj
    rw [← Source.length_eq hd]
    exact (InstForm.meaningful_iff hij).1 (hm.insts form hform i hi)
  · rw [← Array.length_toList, ← hd.blocks.length_eq]
    exact hn.blocks
  · obtain ⟨form, hform, hfb⟩ := exists_of_forall₂ hd.blocks.flip hb.val
    rw [← List.Forall₂.length_eq hfb]
    exact hn.insts form hform
  · obtain ⟨form, hform, i, hi, hij⟩ := hd.exists_inst hb hj
    exact InstForm.writable ((hlexed.blocks form hform).insts i hi) hij

end Read

/-! ### Blocks behind declarations -/

section Written

variable {name declarations : String} {classes : Array RegClass} {f : Func} {a : Allocation}
  {ds : List Declaration}

/-- Where no blocks are spelt out, all tokens are those of the declarations. -/
theorem Text.Derivation.exists_declarations {d : Derivation .source} (h : d.value = ⟨ds, []⟩) :
    ∃ d' : Derivation .declarations, d'.value = ds ∧ d'.yield = d.yield := by
  cases d with
  | phrase p parts nothing =>
    cases p with
    | source =>
      cases parts with
      | phrase q decls more =>
        cases more with
        | phrase r blocks end' =>
          cases end'
          cases nothing
          have hvalue := Source.mk.inj h
          refine ⟨.phrase q decls .nil, hvalue.1, ?_⟩
          cases r with
          | noBlocks =>
            cases blocks
            simp [Forest.yield]
          | moreBlocks => exact absurd hvalue.2 (List.append_ne_nil_of_right_ne_nil _ (by simp))

/-- Behind declarations, the text of blocks is read as those blocks. -/
theorem exists_source?_of_writable {bs : List Block} (hds : source? declarations = some ⟨ds, []⟩)
    (h : ∀ b ∈ bs, ∀ i ∈ b.insts, i.Writable) :
    ∃ forms, source? (declarations ++ "\n" ++ unlines (Block.linesFrom 0 bs)) = some ⟨ds, forms⟩ ∧
      forms.map (fun form => form.label.nat 2) = List.range bs.length ∧
      List.Forall₂ BlockForm.Denotes forms bs := by
  obtain ⟨ts, hts, d, hyield, hvalue⟩ := source?_eq_some_iff.1 hds
  obtain ⟨d', hd', hyield'⟩ := Derivation.exists_declarations hvalue
  -- The end of the last line is left over behind the blocks.
  have hstops : Stops ['\n'] := stops_cons (by decide)
  have hend (p : Place) : tokens p ['\n'] = some [] := by
    rw [tokens, if_pos (by decide), tokens]
  obtain ⟨us, hus, forms, hforms, hblocks⟩ :=
    writes_blocks h (declarations.toList.foldl Place.after {}) ['\n'] [] hstops (hend _)
  refine ⟨forms, ?_, hforms⟩
  have htext : (declarations ++ "\n" ++ unlines (Block.linesFrom 0 bs)).toList =
      declarations.toList ++ (linesBehind (Block.linesFrom 0 bs) ++ ['\n']) := by
    rw [← toList_unlines_cons]
    simp
  have htokens := hts.append ((stops_linesBehind (Block.linesFrom 0 bs)).append hstops) hus
  have hdecls : Derives .declarations ds (ts ++ us) us := ⟨d', hd', by rw [hyield', hyield]⟩
  obtain ⟨e, he, hall⟩ := Derives.node .source (ds, forms, ()) ⟨us, hdecls, [], hblocks, rfl⟩
  rw [List.append_nil] at hall
  rw [source?_eq_some_iff, htext]
  exact ⟨ts ++ us, tokens_eq_some_iff.1 htokens, e, hall.symm, he⟩

/-- Spelt-out blocks have a meaning and can be numbered behind declarations that do and can, when
what they denote is declared and numbered. -/
theorem Text.Source.Denotes.meaningful {forms : List BlockForm} (hm : Source.Meaningful ⟨ds, []⟩)
    (hn : Source.Numbered ⟨ds, []⟩) (hd : Source.Denotes ⟨ds, forms⟩ f) (hdecl : f.Declared)
    (hnum : f.Numbered)
    (horder : forms.map (fun form => form.label.nat 2) = List.range f.blocks.toList.length) :
    Source.Meaningful ⟨ds, forms⟩ ∧ Source.Numbered ⟨ds, forms⟩ := by
  refine ⟨⟨hm.declarationOrder, hm.classes, hm.registers, fun n form hform => ?_,
    fun form hform i hi => ?_⟩, hn.declarations, ?_, fun form hform => ?_⟩
  · -- The labels are the numbers from zero on, so the one at place `n` is `n`.
    have hlabel : (List.range f.blocks.toList.length)[n]? = some (form.label.nat 2) := by
      rw [← horder, List.getElem?_map, hform]
      rfl
    obtain ⟨hlt, hget⟩ := List.getElem?_eq_some_iff.1 hlabel
    rw [← hget, List.getElem_range]
  · obtain ⟨b, hb, hfb⟩ := exists_of_forall₂ hd.blocks hform
    obtain ⟨j, hj, hij⟩ := exists_of_forall₂ hfb hi
    rw [InstForm.meaningful_iff hij, Source.length_eq hd]
    exact hdecl b (Array.mem_def.2 hb) j hj
  · rw [hd.blocks.length_eq]
    exact hnum.blocks
  · obtain ⟨b, hb, hfb⟩ := exists_of_forall₂ hd.blocks hform
    rw [List.Forall₂.length_eq hfb]
    exact hnum.insts b (Array.mem_def.2 hb)

/-- A function that has a form is read back behind its declarations. -/
theorem exists_read_of_writable (hread : read name declarations = .ok (⟨name, f.classes, #[]⟩, a))
    (hdecl : f.Declared) (hnum : f.Numbered) (hw : f.Writable) :
    ∃ b, read name (declarations ++ "\n" ++ f.text) = .ok ({ f with name := name }, b) := by
  obtain ⟨⟨ds, bs⟩, hs, hread⟩ := read_eq_ok_iff.1 hread
  obtain ⟨hm, hn, -, hd⟩ := Source.denotes_of_read (lexed_of_source? hs) hread
  obtain rfl : bs = [] := List.forall₂_nil_right_iff.1 hd.blocks
  obtain ⟨forms, hforms, horder, hblocks⟩ :=
    exists_source?_of_writable hs fun b hb => hw b (Array.mem_def.2 hb)
  have hdenotes : Source.Denotes ⟨ds, forms⟩ f := ⟨hd.classes, hblocks⟩
  have hlexed := lexed_of_source? hforms
  obtain ⟨hm', hn'⟩ := hdenotes.meaningful hm hn hdecl hnum horder
  obtain ⟨g, b, hg⟩ : ∃ g b, Source.read name ⟨ds, forms⟩ = .ok (g, b) :=
    Source.exists_read hlexed hm' hn'
  obtain ⟨-, -, rfl, hdg⟩ := Source.denotes_of_read hlexed hg
  obtain ⟨hclasses, hblocks'⟩ := hdg.unique hdenotes
  have hfunc : g = { f with name := g.name } := by
    rw [← hclasses, ← hblocks']
  exact ⟨b, read_eq_ok_iff.2 ⟨_, hforms, hfunc ▸ hg⟩⟩

/-- **The text of a function is read back.** Behind a text of declarations, whatever registers and
slots it gives, the text of a function with the declared classes is read as a function with the same
blocks just if each of its instructions has a form: no stack slot is an operand, and every opcode is
a name. Whatever has been read has a form, so what is written of it is read back as it is. -/
theorem reads_back (hread : read name declarations = .ok (⟨name, classes, #[]⟩, a)) :
    (∀ f : Func, f.classes = classes → f.Declared → f.Numbered →
      ((∃ g b, read name (declarations ++ "\n" ++ f.text) = .ok (g, b) ∧
        g.classes = f.classes ∧ g.blocks = f.blocks) ↔ f.Writable)) ∧
    ∀ text g b, read name text = .ok (g, b) → g.classes = classes →
      ∃ b', read name (declarations ++ "\n" ++ g.text) = .ok (g, b') := by
  refine ⟨?_, ?_⟩
  · rintro f rfl hdecl hnum
    constructor
    · rintro ⟨g, b, hg, -, hblocks⟩
      obtain ⟨-, -, -, hw⟩ := writable_of_read hg
      rwa [Func.Writable, ← hblocks]
    · intro hw
      obtain ⟨b, hb⟩ := exists_read_of_writable hread hdecl hnum hw
      exact ⟨_, b, hb, rfl, rfl⟩
  · rintro text g b hg rfl
    obtain ⟨rfl, hdecl, hnum, hw⟩ := writable_of_read hg
    exact exists_read_of_writable hread hdecl hnum hw

end Written

/-! ### Code that is read back, and code that is not -/

/-- A value with a register and a slot, and one that has neither. -/
def writtenDeclarations : String := "%0: gpr64 reg $RAX slot\n%1: xmm"

/-- What is declared of their places. -/
def writtenHomes : Allocation where
  placements := #[⟨some .rax, some ⟨0⟩⟩, {}]

/-- Operands at the ends of their ranges, lists that are left out, and opcodes that begin as other
words do. -/
def writtenFunc : Func where
  name := "written"
  classes := #[.gpr64, .xmm]
  blocks := #[
    ⟨[⟨"deferred", [], [], false⟩,
      ⟨"mov", [.reg (.virtual ⟨0⟩) .write, .imm Int64.minValue], [], false⟩,
      ⟨"bb0.b", [.reg (.virtual ⟨1⟩) .modify, .base (.virtual ⟨0⟩) (-8), .folded ⟨1⟩], [], false⟩,
      ⟨"call", [.base (.physical .rax) 0], [.rax, .xmm 15], false⟩,
      ⟨"terminate", [.label ⟨4294967295⟩], [], true⟩]⟩,
    ⟨[]⟩]

/-- A function that stores to a stack slot, with the same declarations. -/
def writtenSlot : Func :=
  writtenFunc.withInsts [[⟨"mov", [.slot ⟨0⟩, .reg (.virtual ⟨0⟩) .read], [], false⟩]]

/-- The first of these is read back, and what is read of it is read back again. The second one is
not. -/
theorem reads_back_written :
    (∃ g b, read "written" (writtenDeclarations ++ "\n" ++ writtenFunc.text) = .ok (g, b) ∧
      g.classes = writtenFunc.classes ∧ g.blocks = writtenFunc.blocks ∧
      ∃ b', read "written" (writtenDeclarations ++ "\n" ++ g.text) = .ok (g, b')) ∧
    ¬ ∃ g b, read "written" (writtenDeclarations ++ "\n" ++ writtenSlot.text) = .ok (g, b) ∧
      g.classes = writtenSlot.classes ∧ g.blocks = writtenSlot.blocks := by
  have hread : read "written" writtenDeclarations =
      .ok (⟨"written", #[.gpr64, .xmm], #[]⟩, writtenHomes) := by
    decide +kernel
  obtain ⟨hfunc, hagain⟩ := reads_back hread
  obtain ⟨g, b, hg, hclasses, hblocks⟩ :=
    (hfunc writtenFunc rfl (by decide +kernel) ⟨by decide, by decide⟩).2 (by decide +kernel)
  refine ⟨⟨g, b, hg, hclasses, hblocks, hagain _ g b hg hclasses⟩, ?_⟩
  rw [hfunc writtenSlot rfl (by decide +kernel) ⟨by decide, by decide⟩]
  decide +kernel

end Residency

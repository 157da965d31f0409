import Residency.Proofs.Writing

/-!
# Layout means nothing

How the words of a text are set apart does not matter, as long as they are: a text with the same
words in the same order, with any blanks between neighbours and around the whole
(`Residency.Text.LaidOut`), is read as the same function with the same placements.

Two things come together here. Every word is cut off as it was, because a blank goes on with no word
(`Residency.Text.InRow.tokens`); so the tokens are the same but for their places. And a place is
looked at only where a mistake is reported. To say so, places are left out: of tokens, of what they
spell out, and of derivations, where the productions pass it on
(`Residency.Text.Production.action_unplaced`). What is read is settled by what is spelt out without
places (`Residency.Text.Source.read_unplaced_eq_ok_iff`).
-/

namespace Residency.Text

/-! ### Words that are set apart -/

/-- Words in a row. Each is followed by blanks, and the last one may be followed by none. -/
inductive InRow : List (List Char) → List Char → Prop
  /-- No words. -/
  | nil : InRow [] []
  /-- The last word. -/
  | last {w gap : List Char} (blank : ∀ c ∈ gap, isBlank c = true) : InRow [w] (w ++ gap)
  /-- A word that another one follows. -/
  | cons {w gap cs : List Char} {ws : List (List Char)} (blank : ∀ c ∈ gap, isBlank c = true)
      (apart : gap ≠ []) (rest : InRow ws cs) : InRow (w :: ws) (w ++ (gap ++ cs))

/-- A text is made up of words in a row, behind blanks or none. -/
def LaidOut (ws : List (List Char)) (text : String) : Prop :=
  ∃ lead cs, (∀ c ∈ lead, isBlank c = true) ∧ InRow ws cs ∧ text.toList = lead ++ cs

/-- The token without its place. -/
def Token.unplaced (t : Token) : Token := { t with place := {} }

theorem continuesName_of_isBlank {c : Char} (h : isBlank c = true) : continuesName c = false := by
  simp only [isBlank, Bool.or_eq_true, beq_iff_eq] at h
  rcases h with ((rfl | rfl) | rfl) | rfl <;> decide

theorem stops_of_blank {gap rest : List Char} (hblank : ∀ c ∈ gap, isBlank c = true)
    (hgap : gap ≠ []) : Stops (gap ++ rest) := by
  obtain ⟨c, gap, rfl⟩ := List.exists_cons_of_ne_nil hgap
  exact stops_cons (continuesName_of_isBlank (hblank c List.mem_cons_self))

/-- **Every word is cut off as it was**, wherever it stands now. -/
theorem InRow.tokens {ts : List Token} {cs : List Char} (h : InRow (ts.map Token.word) cs)
    (hts : ∀ t ∈ ts, t.kind.Takes t.word) (p : Place) :
    ∃ ts', Text.tokens p cs = some ts' ∧ ts'.map Token.unplaced = ts.map Token.unplaced := by
  generalize hws : ts.map Token.word = ws at h
  induction h generalizing ts p with
  | nil =>
    obtain rfl := List.map_eq_nil_iff.1 hws
    exact ⟨[], by simp [Text.tokens], rfl⟩
  | @last w gap blank =>
    obtain ⟨t, rfl, rfl⟩ := List.map_eq_singleton_iff.1 hws
    have hstops : Stops gap := fun c hc =>
      continuesName_of_isBlank (blank c (List.mem_of_mem_head? hc))
    have hcut := cut_eq_some_iff.2 ⟨rfl, (hts t List.mem_cons_self).cuts hstops⟩
    refine ⟨[⟨t.kind, t.word, p⟩], ?_, rfl⟩
    have hgap : Text.tokens (t.word.foldl Place.after p) gap = some [] := by
      rw [← List.append_nil gap, tokens_blanks blank]
      simp [Text.tokens]
    rw [tokens_token hcut, hgap]
    rfl
  | @cons w gap cs ws blank apart rest ih =>
    obtain ⟨t, us, rfl, rfl, rfl⟩ := List.map_eq_cons_iff.1 hws
    obtain ⟨ht, hus⟩ := List.forall_mem_cons.1 hts
    obtain ⟨us', hus', heq⟩ := ih hus _ rfl
    -- The blanks end the word, whatever the next one starts with.
    have hstops : Stops (gap ++ cs) := stops_of_blank blank apart
    have hcut := cut_eq_some_iff.2 ⟨rfl, ht.cuts hstops⟩
    refine ⟨⟨t.kind, t.word, p⟩ :: us', ?_, congrArg (t.unplaced :: ·) heq⟩
    rw [tokens_token hcut, tokens_blanks blank, hus']
    rfl

/-! ### What is spelt out, without places -/

/-- The register without places. -/
def Reference.unplaced : Reference → Reference
  | .virtual t => .virtual t.unplaced
  | .physical t => .physical t.unplaced

/-- The operand without places. -/
def OperandForm.unplaced : OperandForm → OperandForm
  | .reg r a => .reg r.unplaced a
  | .imm t => .imm t.unplaced
  | .label t => .label t.unplaced
  | .folded t => .folded t.unplaced
  | .base r off => .base r.unplaced (off.map Token.unplaced)

/-- The instruction without places. -/
def InstForm.unplaced (i : InstForm) : InstForm where
  isTerminator := i.isTerminator
  opcode := i.opcode.unplaced
  operands := i.operands.map OperandForm.unplaced
  clobbers := i.clobbers.map Token.unplaced

/-- The block without places. -/
def BlockForm.unplaced (b : BlockForm) : BlockForm where
  label := b.label.unplaced
  insts := b.insts.map InstForm.unplaced

/-- The declaration without places. -/
def Declaration.unplaced (d : Declaration) : Declaration where
  vreg := d.vreg.unplaced
  cls := d.cls.unplaced
  reg := d.reg.map Token.unplaced
  hasSlot := d.hasSlot

/-- What is spelt out, without places. -/
def Source.unplaced (s : Source) : Source where
  declarations := s.declarations.map Declaration.unplaced
  blocks := s.blocks.map BlockForm.unplaced

/-- What a phrase spells out, without places. -/
def Phrase.unplaced : (n : Phrase) → n.Value → n.Value
  | .source => Source.unplaced
  | .declarations => List.map Declaration.unplaced
  | .declaration => Declaration.unplaced
  | .place => Option.map Token.unplaced
  | .slot => id
  | .blocks => List.map BlockForm.unplaced
  | .block => BlockForm.unplaced
  | .insts => List.map InstForm.unplaced
  | .inst => InstForm.unplaced
  | .terminator => id
  | .operands => List.map OperandForm.unplaced
  | .operandList => Prod.map OperandForm.unplaced (List.map OperandForm.unplaced)
  | .operand => OperandForm.unplaced
  | .reference => Reference.unplaced
  | .clobbers => List.map Token.unplaced
  | .registerList => Prod.map Token.unplaced (List.map Token.unplaced)

/-- What tokens and phrases spell out, without places. -/
def valuesUnplaced : (ss : List Symbol) → Values ss → Values ss
  | [], _ => ()
  | .token _ :: ss, (t, vs) => (t.unplaced, valuesUnplaced ss vs)
  | .phrase n :: ss, (v, vs) => (n.unplaced v, valuesUnplaced ss vs)

/-- A production makes the same of parts without places, without places. -/
theorem Production.action_unplaced {n : Phrase} {rhs : List Symbol} (p : Production n rhs)
    (vs : Values rhs) : n.unplaced (p.action vs) = p.action (valuesUnplaced rhs vs) := by
  cases p with
  | moreDeclarations | moreBlocks | moreInsts => exact List.map_append
  | moreOperands | moreRegisters => exact Prod.ext rfl List.map_append
  | _ => rfl

/-- Tokens that are the same but for their places are derived by the same productions. -/
theorem Forest.exists_of_yield {ss : List Symbol} (d : Forest ss) {ts : List Token}
    (h : ts.map Token.unplaced = d.yield.map Token.unplaced) :
    ∃ d' : Forest ss, d'.yield = ts ∧ valuesUnplaced ss d'.values = valuesUnplaced ss d.values := by
  induction d generalizing ts with
  | nil =>
    obtain rfl := List.map_eq_nil_iff.1 h
    exact ⟨.nil, rfl, rfl⟩
  | token t kind rest ih =>
    obtain ⟨t', us, rfl, ht, hus⟩ := List.map_eq_cons_iff.1 h
    obtain ⟨d', rfl, hd'⟩ := ih hus
    have hkind : t'.unplaced.kind = t.unplaced.kind := congrArg Token.kind ht
    exact ⟨.token t' (hkind.trans kind) d', rfl, Prod.ext ht hd'⟩
  | phrase p parts rest hparts hrest =>
    rw [yield, List.map_append] at h
    obtain ⟨us, vs, rfl, hus, hvs⟩ := List.map_eq_append_iff.1 h
    obtain ⟨dp, rfl, hdp⟩ := hparts hus
    obtain ⟨dr, rfl, hdr⟩ := hrest hvs
    refine ⟨.phrase p dp dr, rfl, Prod.ext ?_ hdr⟩
    change Phrase.unplaced _ (p.action dp.values) = Phrase.unplaced _ (p.action parts.values)
    rw [p.action_unplaced, p.action_unplaced, hdp]

/-! ### Reading without places -/

section Read

variable {t : Token} {declared : Nat}

theorem tokenNat_unplaced_eq_ok_iff {skip n : Nat} :
    tokenNat skip t.unplaced = .ok n ↔ tokenNat skip t = .ok n := by
  unfold tokenNat Token.unplaced
  dsimp only
  split
  · exact Iff.rfl
  · exact iff_of_false nofun nofun

theorem tokenInt_unplaced_eq_ok_iff {bits : Nat} {x : Int} :
    tokenInt bits t.unplaced = .ok x ↔ tokenInt bits t = .ok x := by
  unfold tokenInt Token.unplaced
  dsimp only
  split
  · exact Iff.rfl
  · exact iff_of_false nofun nofun

theorem tokenReg_unplaced_eq_ok_iff {r : Reg} :
    tokenReg t.unplaced = .ok r ↔ tokenReg t = .ok r := by
  rw [tokenReg_eq_ok_iff, tokenReg_eq_ok_iff]
  rfl

theorem tokenClass_unplaced_eq_ok_iff {c : RegClass} :
    tokenClass t.unplaced = .ok c ↔ tokenClass t = .ok c := by
  rw [tokenClass_eq_ok_iff, tokenClass_eq_ok_iff]
  rfl

theorem tokenVReg_unplaced_eq_ok_iff {v : VReg} :
    tokenVReg declared t.unplaced = .ok v ↔ tokenVReg declared t = .ok v := by
  rw [tokenVReg, tokenVReg, except_bind_eq_ok_iff, except_bind_eq_ok_iff]
  simp only [tokenNat_unplaced_eq_ok_iff]
  refine exists_congr fun n => and_congr_right fun _ => ?_
  split
  · exact Iff.rfl
  · constructor <;> intro h <;> cases h

theorem Reference.read_unplaced_eq_ok_iff {r : Reference} {ref : RegRef} :
    reference declared r.unplaced = .ok ref ↔ reference declared r = .ok ref := by
  cases r with
  | virtual t =>
    simp only [unplaced, reference, map_eq_ok_iff, tokenVReg_unplaced_eq_ok_iff]
  | physical t =>
    simp only [unplaced, reference, map_eq_ok_iff, tokenReg_unplaced_eq_ok_iff]

theorem OperandForm.read_unplaced_eq_ok_iff {o : OperandForm} {op : Operand} :
    operand declared o.unplaced = .ok op ↔ operand declared o = .ok op := by
  cases o with
  | reg r a =>
    simp only [unplaced, operand, map_eq_ok_iff, Reference.read_unplaced_eq_ok_iff]
  | imm t => simp only [unplaced, operand, map_eq_ok_iff, tokenInt_unplaced_eq_ok_iff]
  | label t => simp only [unplaced, operand, except_bind_eq_ok_iff, tokenNat_unplaced_eq_ok_iff]
  | folded t => simp only [unplaced, operand, map_eq_ok_iff, tokenVReg_unplaced_eq_ok_iff]
  | base r off =>
    have hoff {x : Int} : (off.map Token.unplaced).elim (.ok 0) (tokenInt 32) = .ok x ↔
        off.elim (.ok 0) (tokenInt 32) = .ok x := by
      cases off with
      | none => exact Iff.rfl
      | some t => exact tokenInt_unplaced_eq_ok_iff
    simp only [unplaced, read_base_eq_ok_iff, Reference.read_unplaced_eq_ok_iff, hoff]

theorem InstForm.read_unplaced_eq_ok_iff {i : InstForm} {j : Inst} :
    inst declared i.unplaced = .ok j ↔ inst declared i = .ok j := by
  simp only [unplaced, inst, except_bind_eq_ok_iff, mapM_eq_ok_iff, List.forall₂_map_left_iff,
    OperandForm.read_unplaced_eq_ok_iff, tokenReg_unplaced_eq_ok_iff]
  rfl

theorem instsFrom_unplaced_eq_ok_iff {b : BlockId} {n : Nat} {is : List InstForm}
    {l : List (Site × Inst)} :
    instsFrom declared b n (is.map InstForm.unplaced) = .ok l ↔
      instsFrom declared b n is = .ok l := by
  induction is generalizing n l with
  | nil => exact Iff.rfl
  | cons i is ih =>
    simp only [List.map_cons, instsFrom, except_bind_eq_ok_iff, InstForm.read_unplaced_eq_ok_iff,
      ih]

theorem blocksFrom_unplaced_eq_ok_iff {n : Nat} {bs : List BlockForm}
    {ls : List (List (Site × Inst))} :
    blocksFrom declared n (bs.map BlockForm.unplaced) = .ok ls ↔
      blocksFrom declared n bs = .ok ls := by
  induction bs generalizing n ls with
  | nil => exact Iff.rfl
  | cons b bs ih =>
    simp only [List.map_cons, blocksFrom_cons_eq_ok_iff, BlockForm.unplaced,
      tokenNat_unplaced_eq_ok_iff, instsFrom_unplaced_eq_ok_iff, ih]

theorem declare_unplaced_eq_ok_iff {s s' : Scope} {d : Declaration} :
    declare s d.unplaced = .ok s' ↔ declare s d = .ok s' := by
  have hreg {reg : Option Reg} : (d.reg.map Token.unplaced).mapM tokenReg = .ok reg ↔
      d.reg.mapM tokenReg = .ok reg := by
    rw [mapM_tokenReg_eq_ok_iff, mapM_tokenReg_eq_ok_iff]
    cases d.reg <;> cases reg <;> simp [Token.Names, Token.unplaced]
  simp only [declare_eq_ok_iff, Declaration.unplaced, tokenNat_unplaced_eq_ok_iff,
    tokenClass_unplaced_eq_ok_iff, hreg]

theorem foldlM_declare_unplaced_eq_ok_iff {s s' : Scope} {ds : List Declaration} :
    (ds.map Declaration.unplaced).foldlM declare s = .ok s' ↔ ds.foldlM declare s = .ok s' := by
  induction ds generalizing s with
  | nil => exact Iff.rfl
  | cons d ds ih =>
    simp only [List.map_cons, List.foldlM_cons, except_bind_eq_ok_iff, declare_unplaced_eq_ok_iff,
      ih]

/-- **What is read is settled without places.** -/
theorem Source.read_unplaced_eq_ok_iff {name : String} {s : Source} {z : Func × Allocation} :
    s.unplaced.read name = .ok z ↔ s.read name = .ok z := by
  simp only [Source.read, Source.unplaced, except_bind_eq_ok_iff, foldlM_declare_unplaced_eq_ok_iff,
    blocksFrom_unplaced_eq_ok_iff]

end Read

/-! ### Texts that differ in layout -/

/-- **Layout means nothing.** A text that is read has words, and any text that is made up of the
same words with blanks between them is read as the same function with the same placements. -/
theorem read_of_laidOut {name text : String} {f : Func} {a : Allocation}
    (h : read name text = .ok (f, a)) :
    ∃ ts, tokens {} text.toList = some ts ∧
      ∀ text', LaidOut (ts.map Token.word) text' → read name text' = .ok (f, a) := by
  obtain ⟨s, hs, hread⟩ := read_eq_ok_iff.1 h
  obtain ⟨_, hts, d, rfl, rfl⟩ := source?_eq_some_iff.1 hs
  refine ⟨_, tokens_eq_some_iff.2 hts, ?_⟩
  rintro text' ⟨lead, cs, hlead, hrow, htext'⟩
  obtain ⟨ts', hts', hsame⟩ := hrow.tokens hts.takes (lead.foldl Place.after {})
  obtain ⟨d', hyield, hvalues⟩ := Forest.exists_of_yield d hsame
  have hsource : source? text' = some (Derivation.value d') := by
    refine source?_eq_some_iff.2 ⟨ts', tokens_eq_some_iff.1 ?_, d', hyield, rfl⟩
    rw [htext', tokens_blanks hlead, hts']
  have hvalue : Source.unplaced (Derivation.value d') = Source.unplaced (Derivation.value d) :=
    congrArg Prod.fst hvalues
  refine read_eq_ok_iff.2 ⟨_, hsource, ?_⟩
  rwa [← Source.read_unplaced_eq_ok_iff, hvalue, Source.read_unplaced_eq_ok_iff]

/-- A text that sets apart no more words than it must: a number and a name that follows it run
together. -/
def tightText : String := "%0:gpr32 slot bb0:add usedef%0,3abc term ret"

/-- The function of that text. -/
def tightFunc : Func where
  name := "tight"
  classes := #[.gpr32]
  blocks := #[⟨[⟨"add", [.reg (.virtual ⟨0⟩) .modify, .imm 3], [], false⟩, ⟨"abc", [], [], false⟩,
    ⟨"ret", [], [], true⟩]⟩]

/-- The placement of that text. -/
def tightHomes : Allocation where
  placements := #[{ slot := some ⟨0⟩ }]

/-- The words of that text may be laid out in any way. -/
theorem read_of_laidOut_tight :
    read "tight" tightText = .ok (tightFunc, tightHomes) ∧
      ∃ ts, tokens {} tightText.toList = some ts ∧
        ∀ text', LaidOut (ts.map Token.word) text' →
          read "tight" text' = .ok (tightFunc, tightHomes) := by
  have hread : read "tight" tightText = .ok (tightFunc, tightHomes) := by decide +kernel
  exact ⟨hread, read_of_laidOut hread⟩

end Residency.Text

import Residency.Proofs.Grammar

/-!
# What is read is derived

Reader by reader: every reader puts one production, or a few, on top of what the readers that it
calls have read, so whatever is read of a text has a derivation
(`Residency.Text.derives_of_readSource`). A list is read from its left end and derived at its right
end, so a derivation of what was read before grows by one item at a time
(`Residency.Text.of_many`).
-/

namespace Residency.Text

section Sound

variable {ts rest : List Token} {t : Token}

theorem comes_eq_true_iff {k : Kind} : comes k ts = true ↔ ∃ t us, ts = t :: us ∧ t.kind = k := by
  cases ts with
  | nil => simp [comes]
  | cons t us => simp [comes]

theorem derives_of_readReference {r : Reference} (h : readReference ts = some (r, rest)) :
    Derives .reference r ts rest := by
  unfold readReference at h
  split at h
  · cases h
  · rename_i t us
    split at h
    · rename_i hk
      cases h
      exact .node .virtual (t, ()) ⟨hk, _, rfl, rfl⟩
    · rename_i hk
      cases h
      exact .node .physical (t, ()) ⟨hk, _, rfl, rfl⟩
    · cases h

/-- A memory operand behind its opening bracket. -/
theorem derives_of_readFolded {o : OperandForm} (ht : t.kind = .leftBracket)
    (hts : comes .foldMark ts = true) (h : readFolded ts.tail = some (o, rest)) :
    Derives .operand o (t :: ts) rest := by
  obtain ⟨m, ts1, rfl, hm⟩ := comes_eq_true_iff.1 hts
  obtain ⟨⟨v, ts2⟩, hv, h⟩ := Option.bind_eq_some_iff.1 h
  obtain ⟨⟨b, ts3⟩, hb, h⟩ := Option.bind_eq_some_iff.1 h
  cases h
  obtain ⟨rfl, kv⟩ := expect_eq_some_iff.1 hv
  obtain ⟨rfl, kb⟩ := expect_eq_some_iff.1 hb
  exact .node .folded (t, m, v, b, ()) ⟨ht, _, rfl, hm, _, rfl, kv, _, rfl, kb, _, rfl, rfl⟩

theorem derives_of_readBase {o : OperandForm} (ht : t.kind = .leftBracket)
    (h : readBase ts = some (o, rest)) : Derives .operand o (t :: ts) rest := by
  obtain ⟨⟨r, ts1⟩, hr, h⟩ := Option.bind_eq_some_iff.1 h
  obtain ⟨⟨off, ts2⟩, hoff, h⟩ := Option.bind_eq_some_iff.1 h
  obtain ⟨⟨b, ts3⟩, hb, h⟩ := Option.bind_eq_some_iff.1 h
  cases h
  obtain ⟨rfl, kb⟩ := expect_eq_some_iff.1 hb
  unfold readDistance at hoff
  split at hoff
  · rename_i hplus
    obtain ⟨p, ts4, rfl, hp⟩ := comes_eq_true_iff.1 hplus
    obtain ⟨⟨x, ts5⟩, hx, he⟩ := Option.map_eq_some_iff.1 hoff
    cases he
    obtain ⟨rfl, kx⟩ := expect_eq_some_iff.1 hx
    exact .node .baseAtDistance (t, r, p, x, b, ())
      ⟨ht, _, rfl, _, derives_of_readReference hr, hp, _, rfl, kx, _, rfl, kb, _, rfl, rfl⟩
  · cases hoff
    exact .node .base (t, r, b, ())
      ⟨ht, _, rfl, _, derives_of_readReference hr, kb, _, rfl, rfl⟩

theorem derives_of_readOperand {o : OperandForm} (h : readOperand ts = some (o, rest)) :
    Derives .operand o ts rest := by
  unfold readOperand at h
  split at h
  · cases h
  · rename_i t ts
    split at h
    · rename_i hk
      cases h
      exact .node .read (_, ()) ⟨_, .node .virtual (t, ()) ⟨hk, _, rfl, rfl⟩, rfl⟩
    · rename_i hk
      cases h
      exact .node .read (_, ()) ⟨_, .node .physical (t, ()) ⟨hk, _, rfl, rfl⟩, rfl⟩
    · rename_i hk
      obtain ⟨⟨r, rest'⟩, hr, he⟩ := Option.map_eq_some_iff.1 h
      cases he
      exact .node .write (t, r, ()) ⟨hk, _, rfl, _, derives_of_readReference hr, rfl⟩
    · rename_i hk
      obtain ⟨⟨r, rest'⟩, hr, he⟩ := Option.map_eq_some_iff.1 h
      cases he
      exact .node .modify (t, r, ()) ⟨hk, _, rfl, _, derives_of_readReference hr, rfl⟩
    · rename_i hk
      cases h
      exact .node .imm (t, ()) ⟨hk, _, rfl, rfl⟩
    · rename_i hk
      cases h
      exact .node .label (t, ()) ⟨hk, _, rfl, rfl⟩
    · rename_i hk
      split at h
      · rename_i hfold
        exact derives_of_readFolded hk hfold h
      · exact derives_of_readBase hk h
    · cases h

/-- What `Residency.Text.many` reads is added, item by item, to what was read before. -/
theorem of_many {α : Type} {starts : List Token → Bool}
    {item : List Token → Option (α × List Token)} {takes : Takes item}
    {D : List α → List Token → Prop}
    (concat : ∀ xs x ts rest, D xs ts → item ts = some (x, rest) → D (xs ++ [x]) rest)
    {acc xs : List α} (hacc : D acc ts) (h : many starts item takes ts = some (xs, rest)) :
    D (acc ++ xs) rest := by
  -- Every item takes a token, so the induction is on how many are left.
  induction hn : ts.length using Nat.strongRecOn generalizing ts acc xs with
  | ind n ih =>
    rw [many] at h
    split at h
    · split at h
      · cases h
      · rename_i x mid hx
        obtain ⟨⟨ys, r⟩, hr, he⟩ := Option.map_eq_some_iff.1 h
        cases he
        have := ih _ (hn ▸ takes _ _ _ hx) (concat _ _ _ _ hacc hx) hr rfl
        rwa [List.append_assoc, List.singleton_append] at this
    · cases h
      rwa [List.append_nil]

theorem derives_of_readOperands {os : List OperandForm} (h : readOperands ts = some (os, rest)) :
    Derives .operands os ts rest := by
  unfold readOperands at h
  split at h
  · obtain ⟨⟨x, ts1⟩, hx, h⟩ := Option.bind_eq_some_iff.1 h
    obtain ⟨⟨xs, ts2⟩, hxs, h⟩ := Option.bind_eq_some_iff.1 h
    cases h
    have hone : Derives .operandList (x, []) ts ts1 :=
      .node .oneOperand (x, ()) ⟨_, derives_of_readOperand hx, rfl⟩
    have hall : Derives .operandList (x, [] ++ xs) ts rest := by
      refine of_many (D := fun xs rest => Derives .operandList (x, xs) ts rest) ?_ hone hxs
      intro ys y ts3 rest' hys hy
      obtain ⟨⟨c, ts4⟩, hc, hitem⟩ := Option.bind_eq_some_iff.1 hy
      obtain ⟨rfl, kc⟩ := expect_eq_some_iff.1 hc
      exact .node .moreOperands ((x, ys), c, y, ())
        ⟨_, hys, kc, _, rfl, _, derives_of_readOperand hitem, rfl⟩
    exact .node .operands ((x, xs), ()) ⟨_, hall, rfl⟩
  · cases h
    exact .node .noOperands () rfl

theorem derives_of_readClobbers {rs : List Token} (h : readClobbers ts = some (rs, rest)) :
    Derives .clobbers rs ts rest := by
  unfold readClobbers at h
  split at h
  · rename_i hmark
    obtain ⟨m, ts0, rfl, hm⟩ := comes_eq_true_iff.1 hmark
    obtain ⟨⟨a, ts1⟩, ha, h⟩ := Option.bind_eq_some_iff.1 h
    obtain ⟨⟨rs', ts2⟩, hrs, h⟩ := Option.bind_eq_some_iff.1 h
    obtain ⟨⟨b, ts3⟩, hb, h⟩ := Option.bind_eq_some_iff.1 h
    cases h
    obtain ⟨rfl, ka⟩ := expect_eq_some_iff.1 ha
    obtain ⟨rfl, kb⟩ := expect_eq_some_iff.1 hb
    obtain ⟨⟨x, ts4⟩, hx, hrs⟩ := Option.bind_eq_some_iff.1 hrs
    obtain ⟨⟨xs, ts5⟩, hxs, hrs⟩ := Option.bind_eq_some_iff.1 hrs
    cases hrs
    obtain ⟨rfl, kx⟩ := expect_eq_some_iff.1 hx
    have hone : Derives .registerList (x, []) (x :: ts4) ts4 :=
      .node .oneRegister (x, ()) ⟨kx, _, rfl, rfl⟩
    have hall : Derives .registerList (x, [] ++ xs) (x :: ts4) (b :: rest) := by
      refine of_many (D := fun xs rest => Derives .registerList (x, xs) (x :: ts4) rest) ?_ hone hxs
      intro ys y ts6 rest' hys hy
      obtain ⟨⟨c, ts7⟩, hc, hitem⟩ := Option.bind_eq_some_iff.1 hy
      obtain ⟨rfl, kc⟩ := expect_eq_some_iff.1 hc
      obtain ⟨rfl, ky⟩ := expect_eq_some_iff.1 hitem
      exact .node .moreRegisters ((x, ys), c, y, ()) ⟨_, hys, kc, _, rfl, ky, _, rfl, rfl⟩
    exact .node .clobbers (m, a, (x, xs), b, ()) ⟨hm, _, rfl, ka, _, rfl, _, hall, kb, _, rfl, rfl⟩
  · cases h
    exact .node .noClobbers () rfl

theorem derives_of_termMark (ts : List Token) :
    Derives .terminator (mark .termMark ts).1 ts (mark .termMark ts).2 := by
  unfold mark
  split
  · rename_i h
    obtain ⟨m, ts, rfl, hm⟩ := comes_eq_true_iff.1 h
    exact .node .terminator (m, ()) ⟨hm, _, rfl, rfl⟩
  · exact .node .noTerminator () rfl

theorem derives_of_readPlace {reg : Option Token} (h : readPlace ts = some (reg, rest)) :
    Derives .place reg ts rest := by
  unfold readPlace at h
  split at h
  · rename_i hmark
    obtain ⟨m, ts0, rfl, hm⟩ := comes_eq_true_iff.1 hmark
    obtain ⟨⟨r, ts1⟩, hr, he⟩ := Option.map_eq_some_iff.1 h
    cases he
    obtain ⟨rfl, kr⟩ := expect_eq_some_iff.1 hr
    exact .node .place (m, r, ()) ⟨hm, _, rfl, kr, _, rfl, rfl⟩
  · cases h
    exact .node .noPlace () rfl

theorem derives_of_slotMark (ts : List Token) :
    Derives .slot (mark .slotMark ts).1 ts (mark .slotMark ts).2 := by
  unfold mark
  split
  · rename_i h
    obtain ⟨m, ts, rfl, hm⟩ := comes_eq_true_iff.1 h
    exact .node .slot (m, ()) ⟨hm, _, rfl, rfl⟩
  · exact .node .noSlot () rfl

theorem derives_of_readInst {i : InstForm} (h : readInst ts = some (i, rest)) :
    Derives .inst i ts rest := by
  obtain ⟨⟨opcode, ts1⟩, ho, h⟩ := Option.bind_eq_some_iff.1 h
  obtain ⟨⟨os, ts2⟩, hos, h⟩ := Option.bind_eq_some_iff.1 h
  obtain ⟨⟨rs, ts3⟩, hrs, h⟩ := Option.bind_eq_some_iff.1 h
  cases h
  obtain ⟨hts, ko⟩ := expect_eq_some_iff.1 ho
  exact .node .inst (_, opcode, os, rs, ())
    ⟨_, derives_of_termMark ts, ko, _, hts, _, derives_of_readOperands hos, _,
      derives_of_readClobbers hrs, rfl⟩

theorem derives_of_readBlock {b : BlockForm} (h : readBlock ts = some (b, rest)) :
    Derives .block b ts rest := by
  obtain ⟨⟨l, ts1⟩, hl, h⟩ := Option.bind_eq_some_iff.1 h
  obtain ⟨⟨c, ts2⟩, hc, h⟩ := Option.bind_eq_some_iff.1 h
  obtain ⟨⟨is, ts3⟩, his, h⟩ := Option.bind_eq_some_iff.1 h
  cases h
  obtain ⟨rfl, kl⟩ := expect_eq_some_iff.1 hl
  obtain ⟨rfl, kc⟩ := expect_eq_some_iff.1 hc
  have hnone : Derives .insts [] ts2 ts2 := .node .noInsts () rfl
  have hall : Derives .insts ([] ++ is) ts2 rest := by
    refine of_many (D := fun is rest => Derives .insts is ts2 rest) ?_ hnone his
    intro js j ts4 rest' hjs hj
    exact .node .moreInsts (js, j, ()) ⟨_, hjs, _, derives_of_readInst hj, rfl⟩
  exact .node .block (l, c, is, ()) ⟨kl, _, rfl, kc, _, rfl, _, hall, rfl⟩

theorem derives_of_readDeclaration {d : Declaration} (h : readDeclaration ts = some (d, rest)) :
    Derives .declaration d ts rest := by
  obtain ⟨⟨v, ts1⟩, hv, h⟩ := Option.bind_eq_some_iff.1 h
  obtain ⟨⟨c, ts2⟩, hc, h⟩ := Option.bind_eq_some_iff.1 h
  obtain ⟨⟨cls, ts3⟩, hcls, h⟩ := Option.bind_eq_some_iff.1 h
  obtain ⟨⟨reg, ts4⟩, hreg, h⟩ := Option.bind_eq_some_iff.1 h
  cases h
  obtain ⟨rfl, kv⟩ := expect_eq_some_iff.1 hv
  obtain ⟨rfl, kc⟩ := expect_eq_some_iff.1 hc
  obtain ⟨rfl, kcls⟩ := expect_eq_some_iff.1 hcls
  exact .node .declaration (v, c, cls, reg, _, ())
    ⟨kv, _, rfl, kc, _, rfl, kcls, _, rfl, _, derives_of_readPlace hreg, _, derives_of_slotMark ts4,
      rfl⟩

/-- What is read is derived. -/
theorem derives_of_readSource {s : Source} (h : readSource ts = some s) :
    Derives .source s ts [] := by
  obtain ⟨⟨ds, ts1⟩, hds, h⟩ := Option.bind_eq_some_iff.1 h
  obtain ⟨⟨bs, ts2⟩, hbs, h⟩ := Option.bind_eq_some_iff.1 h
  dsimp only at h
  split at h
  · rename_i hend
    cases h
    obtain rfl := List.isEmpty_iff.1 hend
    have hdecls : Derives .declarations ([] ++ ds) ts ts1 := by
      refine of_many (D := fun ds rest => Derives .declarations ds ts rest) ?_
        (.node .noDeclarations () rfl) hds
      intro es e ts3 rest hes he
      exact .node .moreDeclarations (es, e, ()) ⟨_, hes, _, derives_of_readDeclaration he, rfl⟩
    have hblocks : Derives .blocks ([] ++ bs) ts1 [] := by
      refine of_many (D := fun bs rest => Derives .blocks bs ts1 rest) ?_
        (.node .noBlocks () rfl) hbs
      intro cs c ts3 rest hcs hc
      exact .node .moreBlocks (cs, c, ()) ⟨_, hcs, _, derives_of_readBlock hc, rfl⟩
    exact .node .source (ds, bs, ()) ⟨_, hdecls, _, hblocks, rfl⟩
  · cases h

end Sound

end Residency.Text

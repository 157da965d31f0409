import Residency.Proofs.Derived

/-!
# A text is read as it is derived

`Residency.Text.readSource` reads exactly what the grammar derives
(`Residency.Text.readSource_eq_some_iff`), and as it has one answer, no tokens are derived in two
ways (`Residency.Text.Derivation.unique`).

What is read is derived, so what is left is that what is derived is read. That goes production by
production (`Residency.Text.Production.reads`), and there the next token matters:
`Residency.Text.Phrase.first` lists the kinds that a phrase may start with and
`Residency.Text.Phrase.follow` those that may follow it. That the two tables agree with every
production is computed (`Residency.Text.Production.tables`), and from them follows what comes next
at every place of a production (`Residency.Text.Spelt.of_next`). No reader looks further than
that.
-/

namespace Residency.Text

/-! ### What comes next -/

/-- The kinds that a phrase may start with. -/
def Phrase.first : Phrase → List Kind
  | .source => [.virtual, .block]
  | .declarations => [.virtual]
  | .declaration => [.virtual]
  | .place => [.regMark]
  | .slot => [.slotMark]
  | .blocks => [.block]
  | .block => [.block]
  | .insts => [.termMark, .name]
  | .inst => [.termMark, .name]
  | .terminator => [.termMark]
  | .operands | .operandList | .operand =>
    [.virtual, .physical, .defMark, .usedefMark, .number, .label, .leftBracket]
  | .reference => [.virtual, .physical]
  | .clobbers => [.clobberMark]
  | .registerList => [.physical]

/-- May a phrase have no tokens at all? -/
def Phrase.isOptional : Phrase → Bool
  | .source | .declarations | .place | .slot | .blocks | .insts | .terminator | .operands
  | .clobbers => true
  | .declaration | .block | .inst | .operandList | .operand | .reference | .registerList => false

/-- The kinds that may follow a phrase. -/
def Phrase.follow : Phrase → List Kind
  | .source => []
  | .declarations => [.virtual, .block]
  | .declaration => [.virtual, .block]
  | .place => [.slotMark, .virtual, .block]
  | .slot => [.virtual, .block]
  | .blocks => [.block]
  | .block => [.block]
  | .insts => [.termMark, .name, .block]
  | .inst => [.termMark, .name, .block]
  | .terminator => [.name]
  | .operands => [.clobberMark, .termMark, .name, .block]
  | .operandList => [.comma, .clobberMark, .termMark, .name, .block]
  | .operand => [.comma, .clobberMark, .termMark, .name, .block]
  | .reference => [.plus, .rightBracket, .comma, .clobberMark, .termMark, .name, .block]
  | .clobbers => [.termMark, .name, .block]
  | .registerList => [.comma, .rightParen]

/-- The kinds that a sequence may start with. -/
def firsts : List Symbol → List Kind
  | [] => []
  | .token k :: _ => [k]
  | .phrase n :: ss => if n.isOptional then n.first ++ firsts ss else n.first

/-- May a sequence have no tokens at all? -/
def allOptional : List Symbol → Bool
  | [] => true
  | .token _ :: _ => false
  | .phrase n :: ss => n.isOptional && allOptional ss

/-- The tables agree with a sequence that one of `ks` follows: what follows a phrase in it is
listed as following that phrase. -/
def followed (ks : List Kind) : List Symbol → Bool
  | [] => true
  | .token _ :: ss => followed ks ss
  | .phrase n :: ss =>
    (firsts ss).all (n.follow.contains ·) && (!allOptional ss || ks.all (n.follow.contains ·)) &&
      followed ks ss

/-- The tables agree with every production. -/
theorem Production.tables {n : Phrase} {rhs : List Symbol} (p : Production n rhs) :
    firsts rhs ⊆ n.first ∧ (allOptional rhs = true → n.isOptional = true) ∧
      followed n.follow rhs = true := by
  cases p <;> decide

/-- The next token, if there is one, is of one of the kinds. -/
def Next (ks : List Kind) (ts : List Token) : Prop := ∀ t ∈ ts.head?, t.kind ∈ ks

/-- The tokens up to `rest` start with one of the kinds, or there are none and may be none. -/
def Begins (ks : List Kind) (optional : Bool) (ts rest : List Token) : Prop :=
  (∃ t us, ts = t :: us ∧ t.kind ∈ ks) ∨ (ts = rest ∧ optional = true)

section Next

variable {ks ks' : List Kind} {k : Kind} {ss : List Symbol} {vs : Values ss} {ts rest : List Token}
  {Q : (n : Phrase) → n.Value → List Token → List Token → Prop}

theorem Next.comes_eq_false (h : Next ks ts) (hk : k ∉ ks) : comes k ts = false := by
  cases ts with
  | nil => rfl
  | cons t us => exact beq_eq_false_iff_ne.2 fun ht => hk (ht ▸ h t rfl)

theorem Next.any_eq_false (h : Next ks ts) (hks : ∀ k ∈ ks', k ∉ ks) :
    (ks'.any fun k => comes k ts) = false :=
  List.any_eq_false.2 fun k hk => Bool.eq_false_iff.1 (h.comes_eq_false (hks k hk))

theorem Begins.next {b : Bool} (h : Begins ks b ts rest) (hks : ks ⊆ ks')
    (hrest : b = true → Next ks' rest) : Next ks' ts := by
  rcases h with ⟨t, us, rfl, ht⟩ | ⟨rfl, hb⟩
  · rintro u ⟨⟩
    exact hks ht
  · exact hrest hb

theorem Begins.any (h : Begins ks false ts rest) : (ks.any fun k => comes k ts) = true := by
  rcases h with ⟨t, us, rfl, ht⟩ | ⟨-, hb⟩
  · exact List.any_eq_true.2 ⟨_, ht, beq_self_eq_true _⟩
  · cases hb

theorem Begins.comes (h : Begins [k] false ts rest) : comes k ts = true := by
  simpa using h.any

/-- What every phrase starts with decides what a sequence starts with. -/
theorem Spelt.begins (h : Spelt Q ss vs ts rest)
    (hq : ∀ n v ts rest, Q n v ts rest → Begins n.first n.isOptional ts rest) :
    Begins (firsts ss) (allOptional ss) ts rest := by
  induction ss generalizing ts with
  | nil => exact Or.inr ⟨h, rfl⟩
  | cons s ss ih =>
    cases s with
    | token k =>
      obtain ⟨hk, mid, rfl, -⟩ := h
      exact Or.inl ⟨vs.1, mid, rfl, List.mem_singleton.2 hk⟩
    | phrase n =>
      obtain ⟨mid, hn, h⟩ := h
      rw [firsts, allOptional]
      rcases hq _ _ _ _ hn with ⟨t, us, rfl, ht⟩ | ⟨rfl, hb⟩
      · refine Or.inl ⟨t, us, rfl, ?_⟩
        split
        · exact List.mem_append_left _ ht
        · exact ht
      · -- The phrase is left out, so what comes behind it makes the start.
        rw [if_pos hb, hb]
        rcases ih h with ⟨t, us, rfl, ht⟩ | ⟨rfl, hrest⟩
        · exact Or.inl ⟨t, us, rfl, List.mem_append_right _ ht⟩
        · exact Or.inr ⟨rfl, hrest⟩

theorem Production.begins {n : Phrase} {rhs : List Symbol} {vs : Values rhs} (p : Production n rhs)
    (h : Spelt Q rhs vs ts rest)
    (hq : ∀ n v ts rest, Q n v ts rest → Begins n.first n.isOptional ts rest) :
    Begins n.first n.isOptional ts rest := by
  obtain ⟨hfirst, hopt, -⟩ := p.tables
  rcases h.begins hq with ⟨t, us, rfl, ht⟩ | ⟨rfl, hb⟩
  · exact Or.inl ⟨t, us, rfl, hfirst ht⟩
  · exact Or.inr ⟨rfl, hopt hb⟩

/-- What holds of a phrase where one of the listed kinds follows it holds at every place of a
sequence that the tables agree with. -/
theorem Spelt.of_next
    (h : Spelt (fun n v ts rest => Begins n.first n.isOptional ts rest ∧
      (Next n.follow rest → Q n v ts rest)) ss vs ts rest)
    (hrest : Next ks rest) (hks : followed ks ss = true) :
    Spelt (fun n v ts rest => Begins n.first n.isOptional ts rest ∧ Next n.follow rest ∧
      Q n v ts rest) ss vs ts rest := by
  induction ss generalizing ts with
  | nil => exact h
  | cons s ss ih =>
    cases s with
    | token k =>
      obtain ⟨hk, mid, hts, h⟩ := h
      exact ⟨hk, mid, hts, ih h hks⟩
    | phrase n =>
      obtain ⟨mid, ⟨hn, hq⟩, h⟩ := h
      simp only [followed, Bool.and_eq_true, Bool.or_eq_true, Bool.not_eq_true',
        List.all_eq_true, List.contains_iff_mem] at hks
      obtain ⟨⟨hfirst, hopt⟩, htail⟩ := hks
      -- Behind the phrase the rest of the sequence starts, or else it is left out as a whole and
      -- what follows the sequence comes next.
      have hnext : Next n.follow mid := by
        refine (h.begins fun _ _ _ _ => And.left).next hfirst fun hb t ht => ?_
        exact hopt.resolve_left (fun hb' => nomatch hb.symm.trans hb') _ (hrest t ht)
      exact ⟨mid, ⟨hn, hnext, hq hnext⟩, ih h htail⟩

end Next

/-! ### What is derived is read -/

section Lists

variable {α : Type} {starts : List Token → Bool} {item : List Token → Option (α × List Token)}
  {takes : Takes item} {x : α} {ts mid rest : List Token} {c : Token}

/-- Items are read, in front of those that are read next. -/
def Prepends (starts : List Token → Bool) (item : List Token → Option (α × List Token))
    (takes : Takes item) (xs : List α) (ts rest : List Token) : Prop :=
  many starts item takes ts = (many starts item takes rest).map fun r => (xs ++ r.1, r.2)

/-- One item or more are read with commas between them, in front of those that are read next. -/
def PrependsSome (item : List Token → Option (α × List Token)) (takes : Takes item)
    (xs : α × List α) (ts rest : List Token) : Prop :=
  commaList item takes ts =
    (many (comes .comma) (behindComma item) (takes_behindComma takes) rest).map
      fun r => (xs.1 :: xs.2 ++ r.1, r.2)

theorem many_of_not_starts (h : starts ts = false) : many starts item takes ts = some ([], ts) := by
  rw [many, h]
  rfl

theorem many_of_starts (hs : starts ts = true) (hx : item ts = some (x, rest)) :
    many starts item takes ts = (many starts item takes rest).map fun r => (x :: r.1, r.2) := by
  rw [many, if_pos hs]
  split
  · rename_i hnone
    exact absurd (hx.symm.trans hnone) (Option.some_ne_none _)
  · rename_i hsome
    cases hx.symm.trans hsome
    rfl

theorem Prepends.nil : Prepends starts item takes [] ts ts := by
  simp [Prepends]

theorem Prepends.concat {xs : List α} (h : Prepends starts item takes xs ts mid)
    (hs : starts mid = true) (hx : item mid = some (x, rest)) :
    Prepends starts item takes (xs ++ [x]) ts rest := by
  rw [Prepends, h, many_of_starts hs hx, Option.map_map]
  simp [Function.comp_def]

theorem Prepends.done {xs : List α} (h : Prepends starts item takes xs ts rest)
    (hs : starts rest = false) : many starts item takes ts = some (xs, rest) := by
  rw [h, many_of_not_starts hs]
  simp

theorem PrependsSome.one (hx : item ts = some (x, rest)) :
    PrependsSome item takes (x, []) ts rest := by
  rw [PrependsSome, commaList, hx]
  exact (Option.map_eq_bind ..).symm

theorem PrependsSome.concat {xs : α × List α} (h : PrependsSome item takes xs ts (c :: mid))
    (hc : c.kind = .comma) (hx : item mid = some (x, rest)) :
    PrependsSome item takes (xs.1, xs.2 ++ [x]) ts rest := by
  have hitem : behindComma item (c :: mid) = some (x, rest) := by
    rw [behindComma, expect, if_pos hc]
    exact hx
  rw [PrependsSome, h, many_of_starts (comes_eq_true_iff.2 ⟨c, mid, rfl, hc⟩) hitem, Option.map_map]
  simp [Function.comp_def]

theorem PrependsSome.done {xs : α × List α} (h : PrependsSome item takes xs ts rest)
    (hs : comes .comma rest = false) : commaList item takes ts = some (xs.1 :: xs.2, rest) := by
  rw [h, many_of_not_starts hs]
  simp

end Lists

section Tokens

variable {k : Kind} {t : Token} {ts : List Token}

theorem comes_cons (h : t.kind = k) : comes k (t :: ts) = true := beq_iff_eq.2 h

theorem comes_cons_of_ne {k' : Kind} (h : t.kind = k') (hk : k' ≠ k) : comes k (t :: ts) = false :=
  beq_eq_false_iff_ne.2 (h ▸ hk)

theorem expect_cons (h : t.kind = k) : expect k (t :: ts) = some (t, ts) := if_pos h

theorem mark_cons (h : t.kind = k) : mark k (t :: ts) = (true, ts) := if_pos (comes_cons h)

theorem mark_of_not_comes (h : comes k ts = false) : mark k ts = (false, ts) :=
  if_neg (Bool.eq_false_iff.1 h)

end Tokens

/-- The tokens of `ts` up to `rest` are read as what a phrase spells out. -/
def Reads : (n : Phrase) → n.Value → List Token → List Token → Prop
  | .source, s, ts, _ => readSource ts = some s
  | .declarations, ds, ts, rest =>
    Prepends (comes .virtual) readDeclaration takes_readDeclaration ds ts rest
  | .declaration, d, ts, rest => readDeclaration ts = some (d, rest)
  | .place, r, ts, rest => readPlace ts = some (r, rest)
  | .slot, b, ts, rest => mark .slotMark ts = (b, rest)
  | .blocks, bs, ts, rest => Prepends (comes .block) readBlock takes_readBlock bs ts rest
  | .block, b, ts, rest => readBlock ts = some (b, rest)
  | .insts, is, ts, rest => Prepends instComes readInst takes_readInst is ts rest
  | .inst, i, ts, rest => readInst ts = some (i, rest)
  | .terminator, b, ts, rest => mark .termMark ts = (b, rest)
  | .operands, os, ts, rest => readOperands ts = some (os, rest)
  | .operandList, os, ts, rest => PrependsSome readOperand takes_readOperand os ts rest
  | .operand, o, ts, rest => readOperand ts = some (o, rest)
  | .reference, r, ts, rest => readReference ts = some (r, rest)
  | .clobbers, rs, ts, rest => readClobbers ts = some (rs, rest)
  | .registerList, rs, ts, rest =>
    PrependsSome (expect .physical) (fun _ _ _ => length_of_expect) rs ts rest

section Complete

variable {n : Phrase} {rhs : List Symbol} {vs : Values rhs} {ts rest : List Token}

theorem readOperand_of_readReference {r : Reference} (h : readReference ts = some (r, rest)) :
    readOperand ts = some (.reg r .read, rest) := by
  unfold readReference at h
  split at h
  · cases h
  · split at h
    · rename_i hk
      cases h
      simp [readOperand, hk]
    · rename_i hk
      cases h
      simp [readOperand, hk]
    · cases h

/-- Every production of an operand is read, where its register is. -/
theorem Production.readOperand_eq_some (p : Production .operand rhs)
    (h : Spelt (fun n v ts rest => Begins n.first n.isOptional ts rest ∧ Next n.follow rest ∧
      Reads n v ts rest) rhs vs ts rest) : readOperand ts = some (p.action vs, rest) := by
  cases p with
  | read =>
    obtain ⟨_, ⟨-, -, hr⟩, rfl⟩ := h
    exact readOperand_of_readReference hr
  | write | modify =>
    obtain ⟨kt, _, rfl, _, ⟨-, -, hr⟩, rfl⟩ := h
    have href : readReference _ = some _ := hr
    simp [readOperand, kt, href, Production.action]
  | imm | label =>
    obtain ⟨kt, _, rfl, rfl⟩ := h
    simp [readOperand, kt, Production.action]
  | folded =>
    obtain ⟨kl, _, rfl, kf, _, rfl, kv, _, rfl, kr, _, rfl, rfl⟩ := h
    simp [readOperand, kl, comes_cons kf, readFolded, expect_cons kv, expect_cons kr,
      Production.action]
  | base =>
    obtain ⟨kl, mid, rfl, _, ⟨hb, -, hr⟩, kr, rest, rfl, rfl⟩ := h
    -- A register comes next, and no register starts with the mark of a fold.
    have hfold : comes .foldMark mid = false :=
      Next.comes_eq_false (hb.next (List.Subset.refl _) nofun) (by decide)
    have href : readReference mid = some _ := hr
    have hplus : comes .plus (_ :: rest) = false := comes_cons_of_ne kr (by decide)
    simp [readOperand, kl, hfold, readBase, href, readDistance, hplus, expect_cons kr,
      Production.action]
  | baseAtDistance =>
    obtain ⟨kl, mid, rfl, _, ⟨hb, -, hr⟩, kp, _, rfl, kn, _, rfl, kr, _, rfl, rfl⟩ := h
    have hfold : comes .foldMark mid = false :=
      Next.comes_eq_false (hb.next (List.Subset.refl _) nofun) (by decide)
    have href : readReference mid = some _ := hr
    simp [readOperand, kl, hfold, readBase, href, readDistance, comes_cons kp,
      expect_cons kn, expect_cons kr, Production.action]

/-- Every production is read: where its parts are, and what comes next is right, so is the
whole. -/
theorem Production.reads (p : Production n rhs)
    (h : Spelt (fun n v ts rest => Begins n.first n.isOptional ts rest ∧ Next n.follow rest ∧
      Reads n v ts rest) rhs vs ts rest) (hrest : Next n.follow rest) :
    Reads n (p.action vs) ts rest := by
  cases p with
  | source =>
    obtain ⟨mid, ⟨-, -, hds⟩, last, ⟨hblocks, -, hbs⟩, rfl⟩ := h
    obtain rfl : last = [] := by
      cases last with
      | nil => rfl
      | cons t us => exact absurd (hrest t rfl) List.not_mem_nil
    have hmid : Next [.block] mid := hblocks.next (List.Subset.refl _) fun _ => nofun
    have hds' := Prepends.done hds (hmid.comes_eq_false (by decide))
    have hbs' := Prepends.done hbs rfl
    rw [Reads, readSource, hds']
    simp only [Option.bind_eq_bind, Option.bind_some, hbs']
    rfl
  | moreDeclarations =>
    obtain ⟨mid, ⟨-, -, hds⟩, _, ⟨hd, -, hread⟩, rfl⟩ := h
    exact Prepends.concat hds hd.comes hread
  | moreBlocks =>
    obtain ⟨mid, ⟨-, -, hbs⟩, _, ⟨hb, -, hread⟩, rfl⟩ := h
    exact Prepends.concat hbs hb.comes hread
  | moreInsts =>
    obtain ⟨mid, ⟨-, -, his⟩, _, ⟨hi, -, hread⟩, rfl⟩ := h
    have hcomes : instComes mid = true := by simpa [instComes, Phrase.first] using hi.any
    exact Prepends.concat his hcomes hread
  | noDeclarations | noBlocks | noInsts =>
    cases h
    exact Prepends.nil
  | declaration =>
    obtain ⟨kv, _, rfl, kc, _, rfl, kcls, _, rfl, mid, ⟨-, -, hreg⟩, _, ⟨-, -, hslot⟩, rfl⟩ := h
    have hplace : readPlace _ = some _ := hreg
    have hmark : mark .slotMark mid = _ := hslot
    simp [Reads, readDeclaration, expect_cons kv, expect_cons kc, expect_cons kcls, hplace, hmark,
      Production.action]
  | place =>
    obtain ⟨km, _, rfl, kr, _, rfl, rfl⟩ := h
    simp [Reads, readPlace, comes_cons km, expect_cons kr, Production.action]
  | noPlace =>
    cases h
    have hmark : comes .regMark ts = false := hrest.comes_eq_false (by decide)
    simp [Reads, readPlace, hmark, Production.action]
  | slot | terminator =>
    obtain ⟨km, _, rfl, rfl⟩ := h
    exact mark_cons km
  | noSlot | noTerminator =>
    cases h
    exact mark_of_not_comes (hrest.comes_eq_false (by decide))
  | block =>
    obtain ⟨kl, _, rfl, kc, _, rfl, mid, ⟨-, -, his⟩, rfl⟩ := h
    have hinst : instComes mid = false := by
      rw [instComes, hrest.comes_eq_false (by decide), hrest.comes_eq_false (by decide)]
      rfl
    have his' := Prepends.done his hinst
    simp [Reads, readBlock, expect_cons kl, expect_cons kc, his', Production.action]
  | inst =>
    obtain ⟨mid, ⟨-, -, hterm⟩, ko, _, rfl, mid', ⟨-, -, hos⟩, _, ⟨-, -, hrs⟩, rfl⟩ := h
    have hmark : mark .termMark ts = _ := hterm
    have hops : readOperands _ = some _ := hos
    have hclobbers : readClobbers mid' = some _ := hrs
    simp [Reads, readInst, hmark, expect_cons ko, hops, hclobbers, Production.action]
  | operands =>
    obtain ⟨_, ⟨hb, -, hos⟩, rfl⟩ := h
    have hos' := PrependsSome.done hos (hrest.comes_eq_false (by decide))
    have hcomes : operandComes ts = true := hb.any
    rw [Reads, readOperands, if_pos hcomes, hos']
    rfl
  | noOperands =>
    cases h
    have hcomes : operandComes ts = false := hrest.any_eq_false (by decide)
    simp [Reads, readOperands, hcomes, Production.action]
  | moreOperands =>
    obtain ⟨_, ⟨-, -, hos⟩, kc, _, rfl, _, ⟨-, -, ho⟩, rfl⟩ := h
    exact PrependsSome.concat hos kc ho
  | oneOperand =>
    obtain ⟨_, ⟨-, -, ho⟩, rfl⟩ := h
    exact PrependsSome.one ho
  | read => exact Production.read.readOperand_eq_some h
  | write => exact Production.write.readOperand_eq_some h
  | modify => exact Production.modify.readOperand_eq_some h
  | imm => exact Production.imm.readOperand_eq_some h
  | label => exact Production.label.readOperand_eq_some h
  | folded => exact Production.folded.readOperand_eq_some h
  | base => exact Production.base.readOperand_eq_some h
  | baseAtDistance => exact Production.baseAtDistance.readOperand_eq_some h
  | virtual | physical =>
    obtain ⟨kt, _, rfl, rfl⟩ := h
    simp [Reads, readReference, kt, Production.action]
  | clobbers =>
    obtain ⟨km, _, rfl, kl, _, rfl, _, ⟨-, -, hrs⟩, kr, _, rfl, rfl⟩ := h
    have hrs' := PrependsSome.done hrs (comes_cons_of_ne kr (by decide))
    simp [Reads, readClobbers, comes_cons km, readRegisters, expect_cons kl, hrs', expect_cons kr,
      Production.action]
  | noClobbers =>
    cases h
    have hmark : comes .clobberMark ts = false := hrest.comes_eq_false (by decide)
    simp [Reads, readClobbers, hmark, Production.action]
  | moreRegisters =>
    obtain ⟨_, ⟨-, -, hrs⟩, kc, _, rfl, kr, _, rfl, rfl⟩ := h
    exact PrependsSome.concat hrs kc (expect_cons kr)
  | oneRegister =>
    obtain ⟨kr, _, rfl, rfl⟩ := h
    exact PrependsSome.one (expect_cons kr)

theorem hereditary_reads : Hereditary fun n v ts rest =>
    Begins n.first n.isOptional ts rest ∧ (Next n.follow rest → Reads n v ts rest) :=
  fun _ _ p _ _ _ h => ⟨p.begins h fun _ _ _ _ => And.left, fun hrest =>
    p.reads (h.of_next hrest p.tables.2.2) hrest⟩

/-- What is derived is read, where what comes next may follow it. -/
theorem Derivation.reads (d : Derivation n) (hrest : Next n.follow rest) :
    Reads n d.value (d.yield ++ rest) rest :=
  (d.spelt hereditary_reads rest).2 hrest

end Complete

section Source

variable {ts : List Token} {s : Source} {d d' : Derivation .source}

theorem Derivation.readSource_yield (d : Derivation .source) :
    readSource d.yield = some d.value := by
  have h : Reads .source d.value (d.yield ++ []) [] := d.reads nofun
  rwa [List.append_nil] at h

/-- **What is read is what is derived**: tokens are read as a source just if a derivation of them
spells it out. -/
theorem readSource_eq_some_iff :
    readSource ts = some s ↔ ∃ d : Derivation .source, d.yield = ts ∧ d.value = s := by
  constructor
  · intro h
    obtain ⟨d, hd, rfl⟩ := derives_of_readSource h
    exact ⟨d, (List.append_nil _).symm, hd⟩
  · rintro ⟨d, rfl, rfl⟩
    exact d.readSource_yield

/-- **No tokens are derived in two ways.** -/
theorem Derivation.unique (h : d.yield = d'.yield) : d = d' := by
  refine Derivation.eq_of_value (Option.some.inj ?_) h
  rw [← d.readSource_yield, ← d'.readSource_yield, h]

end Source

end Residency.Text

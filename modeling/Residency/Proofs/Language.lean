import Residency.Proofs.Parsing
import Residency.Proofs.Reading

/-!
# Which texts are read

A text is read as a function exactly when it is one (`Residency.Text.accepts_exactly`): when it can
be cut into tokens, by the longest runs that the rules for tokens take
(`Residency.Text.Tokenised`), when the grammar derives these tokens from a source
(`Residency.Text.Derivation`), and when every number and every name in it has a meaning
(`Residency.Text.Source.Meaningful`). There is then one derivation, and the function is what it
spells out.

The three parts have been settled each for itself. What joins the last two is that a derivation of
tokens puts every token where its kind is asked for (`Residency.Text.Derivation.lexed`).
-/

namespace Residency.Text

/-! ### Derivations put tokens in their places -/

/-- The tokens of a phrase are of the kinds that its form asks for. -/
def Phrase.Lexed : (n : Phrase) → n.Value → Prop
  | .source, s => s.Lexed
  | .declarations, ds => ∀ d ∈ ds, d.Lexed
  | .declaration, d => d.Lexed
  | .place, r => ∀ t ∈ r, t.Is .physical
  | .slot, _ => True
  | .blocks, bs => ∀ b ∈ bs, b.Lexed
  | .block, b => b.Lexed
  | .insts, is => ∀ i ∈ is, i.Lexed
  | .inst, i => i.Lexed
  | .terminator, _ => True
  | .operands, os => ∀ o ∈ os, o.Lexed
  | .operandList, os => ∀ o ∈ os.1 :: os.2, o.Lexed
  | .operand, o => o.Lexed
  | .reference, r => r.Lexed
  | .clobbers, ts => ∀ t ∈ ts, t.Is .physical
  | .registerList, ts => ∀ t ∈ ts.1 :: ts.2, t.Is .physical

/-- So are the tokens of a sequence. -/
def valuesLexed : (ss : List Symbol) → Values ss → Prop
  | [], _ => True
  | .token k :: ss, (t, vs) => t.Is k ∧ valuesLexed ss vs
  | .phrase n :: ss, (v, vs) => n.Lexed v ∧ valuesLexed ss vs

theorem Production.lexed {n : Phrase} {rhs : List Symbol} {vs : Values rhs} (p : Production n rhs)
    (h : valuesLexed rhs vs) : n.Lexed (p.action vs) := by
  cases p with
  | source =>
    obtain ⟨hds, hbs, -⟩ := h
    exact ⟨hds, hbs⟩
  | moreDeclarations | moreBlocks | moreInsts =>
    obtain ⟨hxs, hx, -⟩ := h
    exact List.forall_mem_append.2 ⟨hxs, List.forall_mem_singleton.2 hx⟩
  | noDeclarations | noBlocks | noInsts | noOperands | noClobbers =>
    exact fun _ hx => absurd hx List.not_mem_nil
  | declaration =>
    obtain ⟨hv, -, hc, hreg, -, -⟩ := h
    exact ⟨hv, hc, hreg⟩
  | place =>
    obtain ⟨-, hr, -⟩ := h
    rintro t ⟨⟩
    exact hr
  | noPlace => exact nofun
  | slot | noSlot | terminator | noTerminator => trivial
  | block =>
    obtain ⟨hl, -, his, -⟩ := h
    exact ⟨hl, his⟩
  | inst =>
    obtain ⟨-, ho, hos, hrs, -⟩ := h
    exact ⟨ho, hos, hrs⟩
  | operands => exact h.1
  | moreOperands =>
    obtain ⟨hos, -, ho, -⟩ := h
    exact List.forall_mem_append.2 ⟨hos, List.forall_mem_singleton.2 ho⟩
  | oneOperand => exact List.forall_mem_singleton.2 h.1
  | read => exact h.1
  | write | modify => exact h.2.1
  | imm | label | virtual | physical => exact h.1
  | folded => exact h.2.2.1
  | base => exact ⟨h.2.1, nofun⟩
  | baseAtDistance =>
    obtain ⟨-, hr, -, hn, -⟩ := h
    refine ⟨hr, ?_⟩
    rintro t ⟨⟩
    exact hn
  | clobbers => exact h.2.2.1
  | moreRegisters =>
    obtain ⟨hrs, -, hr, -⟩ := h
    exact List.forall_mem_append.2 ⟨hrs, List.forall_mem_singleton.2 hr⟩
  | oneRegister => exact List.forall_mem_singleton.2 h.1

/-- Every token of a sequence that is cut as its kind says is in its place. -/
theorem Forest.lexed {ss : List Symbol} (d : Forest ss)
    (h : ∀ t ∈ d.yield, t.kind.Takes t.word) : valuesLexed ss d.values := by
  induction d with
  | nil => trivial
  | token t kind rest ih =>
    obtain ⟨ht, hrest⟩ := List.forall_mem_cons.1 h
    exact ⟨⟨kind, kind ▸ ht⟩, ih hrest⟩
  | phrase p parts rest hparts hrest =>
    obtain ⟨hps, hts⟩ := List.forall_mem_append.1 h
    exact ⟨p.lexed (hparts hps), hrest hts⟩

theorem Derivation.lexed {n : Phrase} (d : Derivation n)
    (h : ∀ t ∈ d.yield, t.kind.Takes t.word) : n.Lexed d.value :=
  (Forest.lexed d h).1

/-- Every token is cut off as its kind says. -/
theorem Tokenised.takes {p : Place} {cs : List Char} {ts : List Token}
    (h : Tokenised p cs ts) : ∀ t ∈ ts, t.kind.Takes t.word := by
  induction h with
  | nil => exact nofun
  | blanks cuts tail ih => exact ih
  | token cuts tail ih => exact List.forall_mem_cons.2 ⟨cuts.takes, ih⟩

/-! ### What is read -/

section Language

variable {name text : String} {f : Func} {a : Allocation} {s : Source}

/-- What a text spells out is what the derivation of its tokens does. -/
theorem source?_eq_some_iff :
    source? text = some s ↔
      ∃ ts, Tokenised {} text.toList ts ∧ ∃ d : Derivation .source, d.yield = ts ∧ d.value = s := by
  rw [source?, Option.bind_eq_bind, Option.bind_eq_some_iff]
  simp only [tokens_eq_some_iff, readSource_eq_some_iff]

theorem read_eq_ok_iff :
    read name text = .ok (f, a) ↔ ∃ s, source? text = some s ∧ s.read name = .ok (f, a) := by
  unfold read
  split
  · rename_i h
    simp [h]
  · rename_i s h
    simp [h]

/-- What a text spells out has its tokens in their places. -/
theorem lexed_of_source? (h : source? text = some s) : s.Lexed := by
  obtain ⟨ts, hts, d, rfl, rfl⟩ := source?_eq_some_iff.1 h
  exact d.lexed hts.takes

/-- **Exactly the texts of the language are read.** A text is read just if it can be cut into tokens
that the grammar derives, every word has a meaning, and what it lists can be numbered – which it can
wherever there are fewer than `2 ^ 32` declarations, blocks, and instructions in each block. No
tokens are derived in two ways. And the function that is read is the one, up to its name, that the
derivation spells out. -/
theorem accepts_exactly (name text : String) :
    ((∃ f a, read name text = .ok (f, a)) ↔
      ∃ ts, Tokenised {} text.toList ts ∧ ∃ d : Derivation .source, d.yield = ts ∧
        Source.Meaningful d.value ∧ Source.Numbered d.value) ∧
    (∀ d d' : Derivation .source, d.yield = d'.yield → d = d') ∧
    ∀ f a, read name text = .ok (f, a) →
      ∃ ts, Tokenised {} text.toList ts ∧ ∃ d : Derivation .source, d.yield = ts ∧
        f.name = name ∧ Source.Denotes d.value f ∧
        ∀ g, Source.Denotes d.value g → g.classes = f.classes ∧ g.blocks = f.blocks := by
  refine ⟨⟨?_, ?_⟩, fun d d' => Derivation.unique, ?_⟩
  · rintro ⟨f, a, h⟩
    obtain ⟨s, hs, hread⟩ := read_eq_ok_iff.1 h
    obtain ⟨hm, hn, -⟩ := Source.denotes_of_read (lexed_of_source? hs) hread
    obtain ⟨ts, hts, d, hd, rfl⟩ := source?_eq_some_iff.1 hs
    exact ⟨ts, hts, d, hd, hm, hn⟩
  · rintro ⟨ts, hts, d, hd, hm, hn⟩
    have hs : source? text = some d.value := source?_eq_some_iff.2 ⟨ts, hts, d, hd, rfl⟩
    obtain ⟨f, a, hread⟩ := Source.exists_read (lexed_of_source? hs) hm hn
    exact ⟨f, a, read_eq_ok_iff.2 ⟨_, hs, hread⟩⟩
  · intro f a h
    obtain ⟨s, hs, hread⟩ := read_eq_ok_iff.1 h
    obtain ⟨-, -, hname, hdenotes⟩ := Source.denotes_of_read (lexed_of_source? hs) hread
    obtain ⟨ts, hts, d, hd, rfl⟩ := source?_eq_some_iff.1 hs
    exact ⟨ts, hts, d, hd, hname, hdenotes, fun g hg => hg.unique hdenotes⟩

end Language

end Residency.Text

import Residency.Text.Token
import Mathlib.Computability.Language
import Mathlib.Data.List.TakeWhile

/-!
# The tokens of a text are its longest runs

`Residency.Text.cut` looks at the first character of a text and then takes what may follow.
This file says what a token is without a word about how it is found: every kind of tokens is a
regular language (`Residency.Text.Kind.language`), and so are the blanks between tokens; a run is
cut off a text when it is in one of these languages, no longer run that the text starts with is in
any of them, and of the languages that it is in the first that is listed counts
(`Residency.Text.Cuts`). A text is tokenised when such runs, one after the other, use it up
(`Residency.Text.Tokenised`).

The main result is that the two agree (`Residency.Text.tokens_eq_some_iff`). A run can only be cut
off in one way (`Residency.Text.Cuts.unique`), so it is enough that what `Residency.Text.cut`
takes is cut off, and that it takes something wherever a token starts.
-/

namespace Residency.Text

open Computability

/-! ### The languages -/

/-- A run and no other. -/
def exactly (w : List Char) : Language Char := {w}

/-- The runs of one character, which is in a class. -/
def oneOf (p : Char → Bool) : Language Char := {w | ∃ c, p c = true ∧ w = [c]}

/-- The runs of decimal digits. -/
def digits : Language Char := oneOf isDigit * (oneOf isDigit)∗

/-- The tokens of a kind. -/
def Kind.language : Kind → Language Char
  | .number => (1 + exactly ['-']) * digits
  | .virtual => exactly ['%'] * digits
  | .physical => exactly ['$'] * (oneOf isLetter * (oneOf isAlphanumeric)∗)
  | .block => exactly ['b', 'b'] * digits
  | .label => exactly ['@', 'b', 'b'] * digits
  | .defMark => exactly ['d', 'e', 'f']
  | .usedefMark => exactly ['u', 's', 'e', 'd', 'e', 'f']
  | .foldMark => exactly ['f', 'o', 'l', 'd']
  | .regMark => exactly ['r', 'e', 'g']
  | .slotMark => exactly ['s', 'l', 'o', 't']
  | .clobberMark => exactly ['c', 'l', 'o', 'b', 'b', 'e', 'r']
  | .termMark => exactly ['t', 'e', 'r', 'm']
  | .name => oneOf startsName * (oneOf continuesName)∗
  | .colon => exactly [':']
  | .comma => exactly [',']
  | .leftBracket => exactly ['[']
  | .rightBracket => exactly [']']
  | .plus => exactly ['+']
  | .leftParen => exactly ['(']
  | .rightParen => exactly [')']

/-- What is cut off by a rule: the tokens of a kind, or blanks, which make no token. -/
def ruleLanguage : Option Kind → Language Char
  | some k => k.language
  | none => oneOf isBlank * (oneOf isBlank)∗

/-- The rules, in the order in which they count. -/
def rules : List (Option Kind) :=
  [some .number, some .virtual, some .physical, some .block, some .label, some .defMark,
    some .usedefMark, some .foldMark, some .regMark, some .slotMark, some .clobberMark,
    some .termMark, some .name, some .colon, some .comma, some .leftBracket, some .rightBracket,
    some .plus, some .leftParen, some .rightParen, none]

/-- A run is cut off what starts with it when no rule takes a longer one, by the first rule that
takes it. -/
structure Cuts (r : Option Kind) (w rest : List Char) : Prop where
  /-- The rule takes the run. -/
  mem : w ∈ ruleLanguage r
  /-- No rule takes a longer one. -/
  longest : ∀ r' w', w' ∈ ruleLanguage r' → w' <+: w ++ rest → w'.length ≤ w.length
  /-- No earlier rule takes the run. -/
  first : ∀ r', w ∈ ruleLanguage r' → rules.idxOf r ≤ rules.idxOf r'

/-- A run is a token of a kind when the rule of that kind takes it and no earlier rule does. -/
structure Kind.Takes (k : Kind) (w : List Char) : Prop where
  /-- The rule takes the run. -/
  mem : w ∈ k.language
  /-- No earlier rule does. -/
  first : ∀ r, w ∈ ruleLanguage r → rules.idxOf (some k) ≤ rules.idxOf r

theorem Cuts.takes {k : Kind} {w rest : List Char} (h : Cuts (some k) w rest) : k.Takes w :=
  ⟨h.mem, h.first⟩

/-- The tokens of a text that starts at a place: one run is cut off after the other, until nothing
is left. -/
inductive Tokenised : Place → List Char → List Token → Prop
  /-- There is nothing left. -/
  | nil {p : Place} : Tokenised p [] []
  /-- Blanks come first. -/
  | blanks {p : Place} {w rest : List Char} {ts : List Token} (cuts : Cuts none w rest)
      (tail : Tokenised (w.foldl Place.after p) rest ts) : Tokenised p (w ++ rest) ts
  /-- A token comes first. -/
  | token {p : Place} {k : Kind} {w rest : List Char} {ts : List Token}
      (cuts : Cuts (some k) w rest) (tail : Tokenised (w.foldl Place.after p) rest ts) :
      Tokenised p (w ++ rest) (⟨k, w, p⟩ :: ts)

/-! ### Runs of a class -/

section Runs

variable {p q : Char → Bool} {c d : Char} {v w s rest : List Char} {L : Language Char}

theorem mem_exactly : w ∈ exactly v ↔ w = v := Iff.rfl

theorem mem_exactly_mul : w ∈ exactly v * L ↔ ∃ u ∈ L, w = v ++ u := by
  rw [Language.mem_mul]
  constructor
  · rintro ⟨a, ha, b, hb, rfl⟩
    exact ⟨b, hb, by rw [mem_exactly.1 ha]⟩
  · rintro ⟨u, hu, rfl⟩
    exact ⟨v, mem_exactly.2 rfl, u, hu, rfl⟩

theorem mem_oneOf_kstar : w ∈ (oneOf q)∗ ↔ ∀ c ∈ w, q c = true := by
  rw [Language.mem_kstar]
  constructor
  · rintro ⟨l, rfl, hl⟩ c hc
    obtain ⟨u, hu, hcu⟩ := List.mem_flatten.1 hc
    obtain ⟨d, hd, rfl⟩ := hl u hu
    rwa [List.mem_singleton.1 hcu]
  · intro h
    refine ⟨w.map fun c => [c], by simp [← List.flatMap_def], fun u hu => ?_⟩
    obtain ⟨c, hc, rfl⟩ := List.mem_map.1 hu
    exact ⟨c, h c hc, rfl⟩

/-- A run that starts in one class and goes on in another. -/
theorem mem_oneOf_mul_kstar :
    w ∈ oneOf p * (oneOf q)∗ ↔ ∃ c s, w = c :: s ∧ p c = true ∧ ∀ d ∈ s, q d = true := by
  rw [Language.mem_mul]
  constructor
  · rintro ⟨a, ⟨c, hc, rfl⟩, b, hb, rfl⟩
    exact ⟨c, b, rfl, hc, mem_oneOf_kstar.1 hb⟩
  · rintro ⟨c, s, rfl, hc, hs⟩
    exact ⟨[c], ⟨c, hc, rfl⟩, s, mem_oneOf_kstar.2 hs, rfl⟩

theorem mem_digits :
    w ∈ digits ↔ ∃ c s, w = c :: s ∧ isDigit c = true ∧ ∀ d ∈ s, isDigit d = true :=
  mem_oneOf_mul_kstar

/-- A number is a run of digits, perhaps behind a minus. -/
theorem mem_number : w ∈ Kind.number.language ↔ w ∈ digits ∨ w ∈ exactly ['-'] * digits := by
  rw [Kind.language, add_mul, one_mul]
  exact Iff.rfl

/-- A run in a class that a text starts with is no longer than all that the text starts with in
that class. -/
theorem length_le_takeWhile (hs : ∀ c ∈ s, q c = true) (h : s <+: rest) :
    s.length ≤ (rest.takeWhile q).length := by
  obtain ⟨u, rfl⟩ := h
  rw [List.takeWhile_append_of_pos hs, List.length_append]
  exact Nat.le_add_right _ _

end Runs

/-! ### First characters -/

/-- The first characters of what a rule takes. -/
def opens : Option Kind → Char → Bool
  | some .number, c => c == '-' || isDigit c
  | some .virtual, c => c == '%'
  | some .physical, c => c == '$'
  | some .label, c => c == '@'
  | some .colon, c => c == ':'
  | some .comma, c => c == ','
  | some .leftBracket, c => c == '['
  | some .rightBracket, c => c == ']'
  | some .plus, c => c == '+'
  | some .leftParen, c => c == '('
  | some .rightParen, c => c == ')'
  | some _, c => startsName c
  | none, c => isBlank c

section First

variable {r : Option Kind} {k : Kind} {c : Char} {w rest : List Char}

/-- What a rule takes has a first character, and that is one of its own. -/
theorem opens_of_mem (h : w ∈ ruleLanguage r) : ∃ c s, w = c :: s ∧ opens r c = true := by
  cases r with
  | none =>
    obtain ⟨c, s, rfl, hc, -⟩ := mem_oneOf_mul_kstar.1 h
    exact ⟨c, s, rfl, hc⟩
  | some k =>
    cases k with
    | number =>
      rcases mem_number.1 h with hw | hw
      · obtain ⟨c, s, rfl, hc, -⟩ := mem_digits.1 hw
        exact ⟨c, s, rfl, by simp [opens, hc]⟩
      · obtain ⟨u, -, rfl⟩ := mem_exactly_mul.1 hw
        exact ⟨'-', u, rfl, rfl⟩
    | virtual =>
      obtain ⟨u, -, rfl⟩ := mem_exactly_mul.1 h
      exact ⟨'%', u, rfl, rfl⟩
    | physical =>
      obtain ⟨u, -, rfl⟩ := mem_exactly_mul.1 h
      exact ⟨'$', u, rfl, rfl⟩
    | block =>
      obtain ⟨u, -, rfl⟩ := mem_exactly_mul.1 h
      exact ⟨'b', 'b' :: u, rfl, by decide⟩
    | label =>
      obtain ⟨u, -, rfl⟩ := mem_exactly_mul.1 h
      exact ⟨'@', 'b' :: 'b' :: u, rfl, rfl⟩
    | name =>
      obtain ⟨c, s, rfl, hc, -⟩ := mem_oneOf_mul_kstar.1 h
      exact ⟨c, s, rfl, hc⟩
    | _ => exact ⟨_, _, mem_exactly.1 h, by decide⟩

theorem startsName_eq_false (hc : isDigit c = true) : startsName c = false := by
  rw [Bool.eq_false_iff]
  intro h
  simp only [startsName, isLetter, isDigit, Bool.or_eq_true, Bool.and_eq_true, beq_iff_eq,
    decide_eq_true_eq, Char.le_def, UInt32.le_iff_toNat_le] at h hc
  rcases h with (h | h) | rfl
  · have : ('a' : Char).val.toNat = 97 := rfl
    have : ('9' : Char).val.toNat = 57 := rfl
    omega
  · have : ('A' : Char).val.toNat = 65 := rfl
    have : ('9' : Char).val.toNat = 57 := rfl
    omega
  · exact absurd hc.2 (by decide)

theorem opens_of_cons_mem {s : List Char} (h : c :: s ∈ ruleLanguage r) : opens r c = true := by
  obtain ⟨c', s', he, hc⟩ := opens_of_mem h
  rwa [(List.cons.inj he).1]

theorem mem_rules (r : Option Kind) : r ∈ rules := by
  cases r with
  | none => decide
  | some k => cases k <;> decide

/-- A blank starts nothing but blanks. -/
theorem eq_none_of_opens (hc : isBlank c = true) (h : opens r c = true) : r = none := by
  suffices hopens : ∀ r ∈ rules, opens r c = true → r = none from hopens r (mem_rules r) h
  simp only [isBlank, Bool.or_eq_true, beq_iff_eq] at hc
  rcases hc with ((rfl | rfl) | rfl) | rfl <;> decide

/-- A digit starts nothing but a number. -/
theorem eq_number_of_opens (hc : isDigit c = true) (h : opens r c = true) :
    r = some .number := by
  cases r with
  | none =>
    have hnumber : opens (some .number) c = true := by simp [opens, hc]
    exact absurd (eq_none_of_opens h hnumber) nofun
  | some k =>
    cases k with
    | number => rfl
    | block | name | defMark | usedefMark | foldMark | regMark | slotMark | clobberMark
    | termMark => exact absurd h (Bool.eq_false_iff.1 (startsName_eq_false hc))
    | _ =>
      cases beq_iff_eq.1 h
      exact absurd hc (by decide)

/-- The kinds of what starts as a name does. -/
def wordKinds : List Kind :=
  [.block, .defMark, .usedefMark, .foldMark, .regMark, .slotMark, .clobberMark, .termMark, .name]

theorem mem_wordKinds_of_opens (hc : startsName c = true) (h : opens r c = true) :
    ∃ k ∈ wordKinds, r = some k := by
  cases r with
  | none =>
    have hname : opens (some .name) c = true := hc
    exact absurd (eq_none_of_opens h hname) nofun
  | some k =>
    refine ⟨k, ?_, rfl⟩
    cases k with
    | block | name | defMark | usedefMark | foldMark | regMark | slotMark | clobberMark
    | termMark => decide
    | number =>
      rcases Bool.or_eq_true _ _ ▸ h with h | h
      · cases beq_iff_eq.1 h
        exact absurd hc (by decide)
      · exact absurd hc (Bool.eq_false_iff.1 (startsName_eq_false h))
    | _ =>
      cases beq_iff_eq.1 h
      exact absurd hc (by decide)

end First

/-! ### Runs are cut off in one way -/

section Unique

variable {r r' : Option Kind} {w w' rest rest' : List Char}

/-- What is cut off a text, and by which rule, is settled by the text. -/
theorem Cuts.unique (h : Cuts r w rest) (h' : Cuts r' w' rest') (he : w ++ rest = w' ++ rest') :
    r = r' ∧ w = w' ∧ rest = rest' := by
  have hw : w = w' := by
    -- The text starts with both runs, so neither rule takes less than the other.
    have hle : w'.length ≤ w.length := h.longest r' w' h'.mem ⟨rest', he.symm⟩
    have hge : w.length ≤ w'.length := h'.longest r w h.mem ⟨rest, he⟩
    exact (List.append_inj he (Nat.le_antisymm hge hle)).1
  subst hw
  refine ⟨?_, rfl, List.append_cancel_left he⟩
  have hidx := Nat.le_antisymm (h.first r' h'.mem) (h'.first r h.mem)
  exact (List.idxOf_inj (mem_rules r)).1 hidx

end Unique

/-! ### What is cut off starts the text -/

section Sound

variable {p q : Char → Bool} {k : Kind} {c d : Char} {l w cs rest : List Char}

/-- Of the runs that go on, behind `l`, with one character of a class and then with those of
another, no text starts with a longer one than that which takes all it can. -/
theorem length_le_of_mem (h : w ∈ exactly l * (oneOf p * (oneOf q)∗))
    (hw : w <+: l ++ d :: cs) : w.length ≤ (l ++ d :: cs.takeWhile q).length := by
  obtain ⟨u, hu, rfl⟩ := mem_exactly_mul.1 h
  obtain ⟨c, s, rfl, -, hs⟩ := mem_oneOf_mul_kstar.1 hu
  have hs' : s <+: cs := (List.cons_prefix_cons.1 ((List.prefix_append_right_inj _).1 hw)).2
  have := length_le_takeWhile hs hs'
  simp only [List.length_append, List.length_cons]
  omega

/-- A run is cut off by a rule where no other rule takes anything. -/
theorem Cuts.of_run {r : Option Kind} (hd : p d = true)
    (mem : ∀ u ∈ exactly l * (oneOf p * (oneOf q)∗), u ∈ ruleLanguage r)
    (only : ∀ r' w, w ∈ ruleLanguage r' → w <+: l ++ d :: cs →
      r' = r ∧ w ∈ exactly l * (oneOf p * (oneOf q)∗)) :
    Cuts r (l ++ d :: cs.takeWhile q) (cs.dropWhile q) := by
  have hcs : l ++ d :: cs.takeWhile q ++ cs.dropWhile q = l ++ d :: cs := by simp
  have hrun : d :: cs.takeWhile q ∈ oneOf p * (oneOf q)∗ :=
    mem_oneOf_mul_kstar.2 ⟨d, _, rfl, hd, fun c => List.mem_takeWhile_imp⟩
  refine ⟨mem _ (mem_exactly_mul.2 ⟨_, hrun, rfl⟩), fun r w hw hp => ?_, fun r hr => ?_⟩
  · rw [hcs] at hp
    exact length_le_of_mem (only r w hw hp).2 hp
  · rw [(only r _ hr ⟨_, hcs⟩).1]

theorem exactly_nil_mul (L : Language Char) : exactly [] * L = L := by
  ext w
  simp [mem_exactly_mul]

/-- What goes on behind a fixed start is cut off by the rule of its kind where no other rule takes
anything with the same first character. -/
theorem Cuts.of_run? {k' : Kind} (h : run? k (c :: l) p q cs = some (k', w, rest))
    (mem : ∀ u ∈ exactly (c :: l) * (oneOf p * (oneOf q)∗), u ∈ k.language)
    (only : ∀ r u, c :: u ∈ ruleLanguage r →
      r = some k ∧ c :: u ∈ exactly (c :: l) * (oneOf p * (oneOf q)∗)) :
    Cuts (some k') w rest := by
  obtain ⟨d, cs', rfl, hd, ht⟩ := run?_eq_some h
  rw [run, Prod.mk.injEq, Prod.mk.injEq] at ht
  obtain ⟨rfl, rfl, rfl⟩ := ht
  rw [List.append_assoc, List.singleton_append]
  refine Cuts.of_run hd mem fun r w hw hp => ?_
  obtain ⟨c', s, rfl, -⟩ := opens_of_mem hw
  obtain rfl : c' = c := (List.cons_prefix_cons.1 hp).1
  exact only r s hw

/-- Every token that starts as a name does is in the language of names. -/
theorem mem_name_of_mem_wordKinds (hk : k ∈ wordKinds) (hw : w ∈ k.language) :
    w ∈ Kind.name.language := by
  cases k with
  | block =>
    obtain ⟨u, hu, rfl⟩ := mem_exactly_mul.1 hw
    obtain ⟨c, s, rfl, hc, hs⟩ := mem_digits.1 hu
    have hcont : ∀ d, isDigit d = true → continuesName d = true := fun d hd => by
      simp [continuesName, isAlphanumeric, hd]
    refine mem_oneOf_mul_kstar.2 ⟨'b', 'b' :: c :: s, rfl, by decide, ?_⟩
    exact List.forall_mem_cons.2 ⟨by decide, List.forall_mem_cons.2
      ⟨hcont c hc, fun d hd => hcont d (hs d hd)⟩⟩
  | name => exact hw
  | defMark | usedefMark | foldMark | regMark | slotMark | clobberMark | termMark =>
    rw [mem_exactly.1 hw]
    exact mem_oneOf_mul_kstar.2 ⟨_, _, rfl, by decide, List.all_eq_true.1 (by decide)⟩
  | _ => exact absurd hk (by decide)

/-- A run that is a name by its characters is of the kind that `Residency.Text.wordKind` gives
it. -/
theorem mem_language_wordKind (hw : w ∈ Kind.name.language) : w ∈ (wordKind w).language := by
  unfold wordKind
  split
  · exact mem_exactly.2 rfl
  · exact mem_exactly.2 rfl
  · exact mem_exactly.2 rfl
  · exact mem_exactly.2 rfl
  · exact mem_exactly.2 rfl
  · exact mem_exactly.2 rfl
  · exact mem_exactly.2 rfl
  · rename_i d rest
    split
    · rename_i hd
      rw [List.all_cons, Bool.and_eq_true, List.all_eq_true] at hd
      exact mem_exactly_mul.2 ⟨d :: rest, mem_digits.2 ⟨d, rest, rfl, hd⟩, rfl⟩
    · exact hw
  · exact hw

theorem wordKind_mem_wordKinds (w : List Char) : wordKind w ∈ wordKinds := by
  unfold wordKind
  split
  case h_8 => split <;> decide
  all_goals decide

/-- No earlier rule takes such a run. -/
theorem idxOf_wordKind_le (hk : k ∈ wordKinds) (hw : w ∈ k.language) :
    rules.idxOf (some (wordKind w)) ≤ rules.idxOf (some k) := by
  cases k with
  | block =>
    obtain ⟨u, hu, rfl⟩ := mem_exactly_mul.1 hw
    obtain ⟨c, s, rfl, hc, hs⟩ := mem_digits.1 hu
    have hall : (c :: s).all isDigit = true := List.all_eq_true.2 (List.forall_mem_cons.2 ⟨hc, hs⟩)
    have hword : wordKind (['b', 'b'] ++ c :: s) = .block := if_pos hall
    rw [hword]
  | name =>
    have hle : ∀ k ∈ wordKinds, rules.idxOf (some k) ≤ rules.idxOf (some Kind.name) := by decide
    exact hle _ (wordKind_mem_wordKinds w)
  | defMark | usedefMark | foldMark | regMark | slotMark | clobberMark | termMark =>
    rw [mem_exactly.1 hw]
    exact Nat.le_refl _
  | _ => exact absurd hk (by decide)

theorem Cuts.digits (hc : isDigit c = true) :
    Cuts (some .number) (c :: cs.takeWhile isDigit) (cs.dropWhile isDigit) := by
  refine Cuts.of_run (l := []) hc ?_ fun r w hw hp => ?_
  · rw [exactly_nil_mul]
    exact fun w hw => mem_number.2 (Or.inl hw)
  · obtain ⟨d, s, rfl, hd⟩ := opens_of_mem hw
    obtain rfl : d = c := (List.cons_prefix_cons.1 hp).1
    obtain rfl := eq_number_of_opens hc hd
    refine ⟨rfl, ?_⟩
    rw [exactly_nil_mul]
    refine (mem_number.1 hw).resolve_right fun hm => ?_
    obtain ⟨u, -, hu⟩ := mem_exactly_mul.1 hm
    rw [(List.cons.inj hu).1] at hc
    exact absurd hc (by decide)

theorem Cuts.word (hc : startsName c = true) :
    Cuts (some (wordKind (c :: cs.takeWhile continuesName))) (c :: cs.takeWhile continuesName)
      (cs.dropWhile continuesName) := by
  have hname : c :: cs.takeWhile continuesName ∈ Kind.name.language :=
    mem_oneOf_mul_kstar.2 ⟨c, _, rfl, hc, fun d => List.mem_takeWhile_imp⟩
  refine ⟨mem_language_wordKind hname, fun r w hw hp => ?_, fun r hr => ?_⟩
  · rw [List.cons_append, List.takeWhile_append_dropWhile] at hp
    obtain ⟨d, s, rfl, hd⟩ := opens_of_mem hw
    obtain rfl : d = c := (List.cons_prefix_cons.1 hp).1
    obtain ⟨k, hk, rfl⟩ := mem_wordKinds_of_opens hc hd
    refine length_le_of_mem (l := []) (p := startsName) ?_ hp
    rw [exactly_nil_mul]
    exact mem_name_of_mem_wordKinds hk hw
  · obtain ⟨k, hk, rfl⟩ := mem_wordKinds_of_opens hc (opens_of_cons_mem hr)
    exact idxOf_wordKind_le hk hr

/-- A character that starts what one rule takes, and nothing else, is cut off when it is all that
this rule takes. -/
theorem Cuts.of_opens (hopens : ∀ r ∈ rules, opens r c = true → r = some k)
    (hlang : k.language = exactly [c]) : Cuts (some k) [c] cs := by
  refine ⟨?_, fun r w hw hp => ?_, fun r hr => ?_⟩
  · rw [ruleLanguage, hlang]
    exact mem_exactly.2 rfl
  · obtain ⟨d, s, rfl, hd⟩ := opens_of_mem hw
    obtain rfl : d = c := (List.cons_prefix_cons.1 hp).1
    obtain rfl := hopens r (mem_rules r) hd
    rw [ruleLanguage, hlang] at hw
    rw [mem_exactly.1 hw]
  · rw [hopens r (mem_rules r) (opens_of_cons_mem hr)]

theorem Cuts.mark (hk : markKind? c = some k) : Cuts (some k) [c] cs := by
  unfold markKind? at hk
  split at hk <;> cases hk <;> exact Cuts.of_opens (by decide) rfl

/-- **What `Residency.Text.cut` takes is cut off**: no rule takes more, and no earlier rule takes
as much. -/
theorem cuts_of_cut (h : cut cs = some (k, w, rest)) : Cuts (some k) w rest := by
  unfold cut at h
  split at h
  · cases h
  · have hopens : ∀ r ∈ rules, opens r '-' = true → r = some .number := by decide
    refine Cuts.of_run? h (fun w hw => mem_number.2 (Or.inr hw)) fun r u hu => ?_
    obtain rfl := hopens r (mem_rules r) (opens_of_cons_mem hu)
    refine ⟨rfl, (mem_number.1 hu).resolve_left fun hd => ?_⟩
    obtain ⟨c, s, hcs, hc, -⟩ := mem_digits.1 hd
    cases hcs
    exact absurd hc (by decide)
  · have hopens : ∀ r ∈ rules, opens r '%' = true → r = some .virtual := by decide
    refine Cuts.of_run? h (fun u hu => hu) fun r u hu => ?_
    obtain rfl := hopens r (mem_rules r) (opens_of_cons_mem hu)
    exact ⟨rfl, hu⟩
  · have hopens : ∀ r ∈ rules, opens r '$' = true → r = some .physical := by decide
    refine Cuts.of_run? h (fun u hu => hu) fun r u hu => ?_
    obtain rfl := hopens r (mem_rules r) (opens_of_cons_mem hu)
    exact ⟨rfl, hu⟩
  · have hopens : ∀ r ∈ rules, opens r '@' = true → r = some .label := by decide
    refine Cuts.of_run? h (fun u hu => hu) fun r u hu => ?_
    obtain rfl := hopens r (mem_rules r) (opens_of_cons_mem hu)
    exact ⟨rfl, hu⟩
  · rename_i c cs hminus hpercent hdollar hat
    split at h
    · rename_i hc
      rw [run, List.singleton_append, Option.some.injEq, Prod.mk.injEq, Prod.mk.injEq] at h
      obtain ⟨rfl, rfl, rfl⟩ := h
      exact Cuts.digits hc
    · split at h
      · rename_i hc
        simp only [Option.some.injEq, Prod.mk.injEq] at h
        obtain ⟨rfl, rfl, rfl⟩ := h
        exact Cuts.word hc
      · obtain ⟨k', hk, hmark⟩ := Option.map_eq_some_iff.1 h
        simp only [Prod.mk.injEq] at hmark
        obtain ⟨rfl, rfl, rfl⟩ := hmark
        exact Cuts.mark hk

end Sound

/-! ### The tokens -/

section Tokens

variable {k : Kind} {c : Char} {p : Place} {w cs rest : List Char} {ts : List Token}

theorem cut_of_isDigit (hc : isDigit c = true) :
    cut (c :: cs) = some (run .number [c] isDigit cs) := by
  unfold cut
  split
  case h_6 =>
    rename_i heq
    cases heq
    exact if_pos hc
  all_goals
    rename_i heq
    cases heq
    try exact absurd hc (by decide)

theorem cut_of_startsName (hc : startsName c = true) :
    cut (c :: cs) = some (wordKind (c :: cs.takeWhile continuesName),
      c :: cs.takeWhile continuesName, cs.dropWhile continuesName) := by
  have hdigit : ¬ isDigit c = true := fun h => Bool.eq_false_iff.1 (startsName_eq_false h) hc
  unfold cut
  split
  case h_6 =>
    rename_i heq
    cases heq
    rw [if_neg hdigit, if_pos hc]
  all_goals
    rename_i heq
    cases heq
    try exact absurd hc (by decide)

theorem run?_ne_none {p q : Char → Bool} {l u : List Char}
    (hu : u ∈ oneOf p * (oneOf q)∗) : run? k l p q (u ++ rest) ≠ none := by
  obtain ⟨c, s, rfl, hc, -⟩ := mem_oneOf_mul_kstar.1 hu
  rw [List.cons_append, run?, if_pos hc]
  exact Option.some_ne_none _

/-- Something is taken wherever a token starts. -/
theorem cut_ne_none (h : w ∈ k.language) : cut (w ++ rest) ≠ none := by
  by_cases hk : k ∈ wordKinds
  · obtain ⟨c, s, rfl, hc, -⟩ := mem_oneOf_mul_kstar.1 (mem_name_of_mem_wordKinds hk h)
    rw [List.cons_append, cut_of_startsName hc]
    exact Option.some_ne_none _
  cases k with
  | number =>
    rcases mem_number.1 h with hw | hw
    · obtain ⟨c, s, rfl, hc, -⟩ := mem_digits.1 hw
      rw [List.cons_append, cut_of_isDigit hc]
      exact Option.some_ne_none _
    · obtain ⟨u, hu, rfl⟩ := mem_exactly_mul.1 hw
      exact run?_ne_none hu
  | virtual | physical | label =>
    obtain ⟨u, hu, rfl⟩ := mem_exactly_mul.1 h
    exact run?_ne_none hu
  | colon | comma | leftBracket | rightBracket | plus | leftParen | rightParen =>
    rw [mem_exactly.1 h]
    exact Option.some_ne_none _
  | _ => exact absurd (by decide) hk

theorem cut_eq_some_iff : cut cs = some (k, w, rest) ↔ cs = w ++ rest ∧ Cuts (some k) w rest := by
  constructor
  · intro h
    exact ⟨(cut_append h).symm, cuts_of_cut h⟩
  · -- Something is taken here, and there is only one thing to take.
    rintro ⟨rfl, hcuts⟩
    obtain ⟨⟨k', w', rest'⟩, hcut⟩ := Option.ne_none_iff_exists'.1 (cut_ne_none hcuts.mem)
    obtain ⟨hk, rfl, rfl⟩ := hcuts.unique (cuts_of_cut hcut) (cut_append hcut).symm
    rw [hcut, Option.some.inj hk]

/-- Blanks are cut off as one run. -/
theorem cuts_blanks (hc : isBlank c = true) :
    Cuts none (c :: cs.takeWhile isBlank) (cs.dropWhile isBlank) := by
  refine Cuts.of_run (l := []) hc (exactly_nil_mul _).le fun r w hw hp => ?_
  obtain ⟨d, s, rfl, hd⟩ := opens_of_mem hw
  obtain rfl : d = c := (List.cons_prefix_cons.1 hp).1
  obtain rfl := eq_none_of_opens hc hd
  exact ⟨rfl, (exactly_nil_mul _).ge hw⟩

/-- Blanks mean nothing. -/
theorem tokens_blanks (hw : ∀ c ∈ w, isBlank c = true) :
    tokens p (w ++ rest) = tokens (w.foldl Place.after p) rest := by
  induction w generalizing p with
  | nil => rfl
  | cons c w ih =>
    rw [List.forall_mem_cons] at hw
    rw [List.cons_append, tokens, if_pos hw.1, ih hw.2, List.foldl_cons]

theorem tokens_token (hcut : cut cs = some (k, w, rest)) :
    tokens p cs = (tokens (w.foldl Place.after p) rest).map fun ts => ⟨k, w, p⟩ :: ts := by
  obtain ⟨rfl, hcuts⟩ := cut_eq_some_iff.1 hcut
  obtain ⟨c, s, rfl, hc⟩ := opens_of_mem hcuts.mem
  have hblank : ¬ isBlank c = true := fun h => nomatch eq_none_of_opens h hc
  rw [List.cons_append] at hcut ⊢
  rw [tokens, if_neg hblank]
  split
  · rename_i hnone
    exact absurd (hcut.symm.trans hnone) (Option.some_ne_none _)
  · rename_i hsome
    cases hcut.symm.trans hsome
    rfl

/-- **The tokens of a text are its longest runs**, each of the first kind that it is of, with
blanks between them. -/
theorem tokens_eq_some_iff : tokens p cs = some ts ↔ Tokenised p cs ts := by
  constructor
  · -- Blanks are left out one by one and cut off as one run, so the induction is on the length.
    intro h
    induction hn : cs.length using Nat.strongRecOn generalizing p cs ts with
    | ind n ih =>
      cases cs with
      | nil =>
        simp only [tokens, Option.some.injEq] at h
        rw [← h]
        exact .nil
      | cons c cs =>
        by_cases hc : isBlank c = true
        · have hcs : c :: cs = (c :: cs.takeWhile isBlank) ++ cs.dropWhile isBlank := by simp
          have hlen : (cs.dropWhile isBlank).length < n := by
            have := congrArg List.length hcs
            simp only [List.length_append, List.length_cons] at this hn
            omega
          have hw : ∀ d ∈ c :: cs.takeWhile isBlank, isBlank d = true :=
            List.forall_mem_cons.2 ⟨hc, fun d => List.mem_takeWhile_imp⟩
          rw [hcs, tokens_blanks hw] at h
          rw [hcs]
          exact .blanks (cuts_blanks hc) (ih _ hlen h rfl)
        · obtain ⟨⟨k, w, rest⟩, hcut⟩ : ∃ t, cut (c :: cs) = some t := by
            refine Option.ne_none_iff_exists'.1 fun hnone => ?_
            rw [tokens, if_neg hc] at h
            split at h
            · cases h
            · rename_i hsome
              cases hnone.symm.trans hsome
          rw [tokens_token hcut] at h
          obtain ⟨ts', hts, rfl⟩ := Option.map_eq_some_iff.1 h
          obtain ⟨hcs, hcuts⟩ := cut_eq_some_iff.1 hcut
          rw [hcs]
          exact .token hcuts (ih _ (hn ▸ length_of_cut hcut) hts rfl)
  · intro h
    induction h with
    | nil => simp [tokens]
    | blanks cuts tail ih =>
      obtain ⟨c, s, rfl, hc, hs⟩ := mem_oneOf_mul_kstar.1 cuts.mem
      rw [tokens_blanks (List.forall_mem_cons.2 ⟨hc, hs⟩), ih]
    | token cuts tail ih =>
      rw [tokens_token (cut_eq_some_iff.2 ⟨rfl, cuts⟩), ih]
      rfl

end Tokens

end Residency.Text

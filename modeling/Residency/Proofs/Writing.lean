import Residency.Proofs.Language

/-!
# What is written is read back

What is written for a phrase is read back as that phrase wherever it stands, as long as what
follows does not go on with the last word (`Residency.Text.Writes`). What is written for the parts
of a phrase is put together by one rule for each kind of part – a word, a mark of one character, a
blank, a phrase, a phrase that is left out – and a production makes one phrase of it
(`Residency.Text.Writes.of_production`). So whoever writes a phrase only has to see to what stands
between two words.

A word ends at any character that could not go on with a name
(`Residency.Text.Stops`): no token, whatever its kind, has such a character but as its first one.
-/

namespace Residency.Text

/-! ### Where a word ends -/

/-- A text that goes on with no word. -/
def Stops (cs : List Char) : Prop := ∀ c ∈ cs.head?, continuesName c = false

section Ends

variable {k : Kind} {r : Option Kind} {c : Char} {u v w cs rest more : List Char} {p : Place}
  {ts : List Token}

theorem stops_nil : Stops [] := nofun

theorem stops_cons (h : continuesName c = false) : Stops (c :: cs) := by
  rintro d ⟨⟩
  exact h

theorem Stops.append (hu : Stops u) (hv : Stops v) : Stops (u ++ v) := by
  cases u with
  | nil => exact hv
  | cons c u => exact stops_cons (hu c rfl)

theorem continuesName_of_isDigit (h : isDigit c = true) : continuesName c = true := by
  simp [continuesName, isAlphanumeric, h]

theorem continuesName_of_isAlphanumeric (h : isAlphanumeric c = true) : continuesName c = true := by
  simp [continuesName, h]

theorem continuesName_of_isLetter (h : isLetter c = true) : continuesName c = true := by
  simp [continuesName, isAlphanumeric, h]

theorem continuesName_of_mem_digits (h : w ∈ digits) : ∀ c ∈ w, continuesName c = true := by
  obtain ⟨c, s, rfl, hc, hs⟩ := mem_digits.1 h
  exact List.forall_mem_cons.2
    ⟨continuesName_of_isDigit hc, fun d hd => continuesName_of_isDigit (hs d hd)⟩

/-- Every character of a token but the first could go on with a name. -/
theorem continuesName_of_mem_tail (h : w ∈ k.language) : ∀ c ∈ w.tail, continuesName c = true := by
  by_cases hk : k ∈ wordKinds
  · obtain ⟨c, s, rfl, -, hs⟩ := mem_oneOf_mul_kstar.1 (mem_name_of_mem_wordKinds hk h)
    exact hs
  cases k with
  | number =>
    rcases mem_number.1 h with hd | hm
    · exact fun c hc => continuesName_of_mem_digits hd c (List.mem_of_mem_tail hc)
    · obtain ⟨u, hu, rfl⟩ := mem_exactly_mul.1 hm
      exact continuesName_of_mem_digits hu
  | virtual =>
    obtain ⟨u, hu, rfl⟩ := mem_exactly_mul.1 h
    exact continuesName_of_mem_digits hu
  | label =>
    obtain ⟨u, hu, rfl⟩ := mem_exactly_mul.1 h
    exact List.forall_mem_cons.2 ⟨by decide, List.forall_mem_cons.2
      ⟨by decide, continuesName_of_mem_digits hu⟩⟩
  | physical =>
    obtain ⟨u, hu, rfl⟩ := mem_exactly_mul.1 h
    obtain ⟨c, s, rfl, hc, hs⟩ := mem_oneOf_mul_kstar.1 hu
    exact List.forall_mem_cons.2 ⟨continuesName_of_isLetter hc,
      fun d hd => continuesName_of_isAlphanumeric (hs d hd)⟩
  | colon | comma | leftBracket | rightBracket | plus | leftParen | rightParen =>
    rw [mem_exactly.1 h]
    exact fun c hc => absurd hc List.not_mem_nil
  | _ => exact absurd (by decide) hk

/-- Behind the first character of a token, no rule takes more than up to where the words end. -/
theorem prefix_of_stops (hu : u ∈ k.language) (huv : u <+: v) (hw : w ∈ ruleLanguage r)
    (hwv : w <+: v ++ rest) (hrest : Stops rest) : w <+: v := by
  rcases List.prefix_or_prefix_of_prefix hwv (List.prefix_append v rest) with h | h
  · exact h
  -- The run is the longer one, so it goes on with the first character of `rest`.
  obtain ⟨x, rfl⟩ := h
  have hx : x <+: rest := (List.prefix_append_right_inj v).1 hwv
  cases x with
  | nil =>
    rw [List.append_nil]
  | cons d x =>
    exfalso
    obtain ⟨y, rfl⟩ := hx
    have hd : continuesName d = false := hrest d rfl
    obtain ⟨c, s, rfl, hc⟩ := opens_of_mem (r := some k) hu
    obtain ⟨z, rfl⟩ := huv
    have hcw : opens r c = true := opens_of_cons_mem hw
    cases r with
    | none => exact absurd (eq_none_of_opens hcw hc) nofun
    | some k' =>
      have := continuesName_of_mem_tail hw d (by simp)
      exact absurd (hd.symm.trans this) nofun

/-- A token is cut off where the words end. -/
theorem Kind.Takes.cuts (hk : k.Takes w) (hrest : Stops rest) : Cuts (some k) w rest :=
  ⟨hk.mem, fun _ _ hw' hp =>
    (prefix_of_stops hk.mem (List.prefix_refl w) hw' hp hrest).length_le, hk.first⟩

/-- What follows where the words end does not matter. -/
theorem Cuts.append (h : Cuts (some k) w rest) (hmore : Stops more) :
    Cuts (some k) w (rest ++ more) := by
  refine ⟨h.mem, fun r' w' hw' hp => h.longest r' w' hw' ?_, h.first⟩
  rw [← List.append_assoc] at hp
  exact prefix_of_stops h.mem (List.prefix_append w rest) hw' hp hmore

/-- The tokens of a text go on with those of what follows where the words end. -/
theorem Tokenised.append {ts' : List Token} (h : Tokenised p cs ts) (hmore : Stops more)
    (hts' : tokens (cs.foldl Place.after p) more = some ts') :
    tokens p (cs ++ more) = some (ts ++ ts') := by
  induction h with
  | nil => exact hts'
  | blanks cuts tail ih =>
    obtain ⟨c, s, rfl, hc, hs⟩ := mem_oneOf_mul_kstar.1 cuts.mem
    rw [List.foldl_append] at hts'
    rw [List.append_assoc, tokens_blanks (List.forall_mem_cons.2 ⟨hc, hs⟩), ih hts']
  | token cuts tail ih =>
    rw [List.foldl_append] at hts'
    rw [List.append_assoc, tokens_token (cut_eq_some_iff.2 ⟨rfl, cuts.append hmore⟩), ih hts']
    rfl

end Ends

/-! ### Words that are written -/

section Words

variable {k : Kind} {c : Char} {s w : List Char}

/-- A token is of the one kind that its first character allows. -/
theorem Kind.Takes.of_opens (hw : c :: s ∈ k.language)
    (hopens : ∀ r, opens r c = true → r = some k) : k.Takes (c :: s) :=
  ⟨hw, fun r hr => by rw [hopens r (opens_of_cons_mem hr)]⟩

/-- A run that is a name by its characters is a token of the kind that `Residency.Text.wordKind`
gives it. -/
theorem takes_wordKind (hw : w ∈ Kind.name.language) : (wordKind w).Takes w := by
  refine ⟨mem_language_wordKind hw, fun r hr => ?_⟩
  obtain ⟨c, s, rfl, hc, -⟩ := mem_oneOf_mul_kstar.1 hw
  obtain ⟨k, hk, rfl⟩ := mem_wordKinds_of_opens hc (opens_of_cons_mem hr)
  exact idxOf_wordKind_le hk hr

theorem mem_name_iff :
    w ∈ Kind.name.language ↔ w.head?.any startsName = true ∧ w.tail.all continuesName = true := by
  rw [Kind.language, mem_oneOf_mul_kstar]
  cases w with
  | nil => simp
  | cons c s => simp

/-- A word that is made up as a name is and has a kind of its own. -/
theorem takes_keyword (hk : wordKind w = k)
    (hw : w.head?.any startsName = true ∧ w.tail.all continuesName = true) : k.Takes w :=
  hk ▸ takes_wordKind (mem_name_iff.2 hw)

/-- The kinds of what is made up as names are, but is no name. -/
def reservedKinds : List Kind :=
  [.block, .defMark, .usedefMark, .foldMark, .regMark, .slotMark, .clobberMark, .termMark]

theorem wordKind_mem_reservedKinds (w : List Char) :
    wordKind w ∈ reservedKinds ∨ wordKind w = .name := by
  have hkinds : ∀ k ∈ wordKinds, k ∈ reservedKinds ∨ k = .name := by decide
  exact hkinds _ (wordKind_mem_wordKinds w)

/-- A name is what is made up as one and is not reserved. -/
theorem takes_name_iff :
    Kind.name.Takes w ↔ w ∈ Kind.name.language ∧ ∀ k ∈ reservedKinds, w ∉ k.language := by
  constructor
  · intro h
    have hlater : ∀ k ∈ reservedKinds, rules.idxOf (some k) < rules.idxOf (some .name) := by decide
    exact ⟨h.mem, fun k hk hw => absurd (h.first (some k) hw) (Nat.not_le.2 (hlater k hk))⟩
  · rintro ⟨hw, hreserved⟩
    have htakes := takes_wordKind hw
    rcases wordKind_mem_reservedKinds w with hk | hk
    · exact absurd htakes.mem (hreserved _ hk)
    · rwa [hk] at htakes

/-- Whether a run is a name can be computed. -/
instance : Decidable (Kind.name.Takes w) :=
  decidable_of_iff
    ((w.head?.any startsName = true ∧ w.tail.all continuesName = true) ∧ wordKind w = .name) <| by
  constructor
  · rintro ⟨hw, hk⟩
    exact takes_keyword hk hw
  · intro h
    rcases wordKind_mem_reservedKinds w with hk | hk
    · exact absurd (mem_language_wordKind h.mem) ((takes_name_iff.1 h).2 _ hk)
    · exact ⟨mem_name_iff.1 h.mem, hk⟩

theorem toString_mem_digits (n : Nat) : (toString n).toList ∈ digits := by
  rw [Nat.toString_eq_ofList_toDigits, String.toList_ofList]
  have hdigits : ∀ c ∈ Nat.toDigits 10 n, isDigit c = true := by
    intro c hc
    simpa [Char.isDigit, isDigit, Char.le_def] using
      Nat.isDigit_of_mem_toDigits (by decide) (by decide) hc
  cases h : Nat.toDigits 10 n with
  | nil => exact absurd h Nat.toDigits_ne_nil
  | cons c s =>
    rw [h] at hdigits
    exact mem_digits.2 ⟨c, s, rfl, List.forall_mem_cons.1 hdigits⟩

theorem ofDigitChars_toString (n : Nat) : Nat.ofDigitChars 10 (toString n).toList 0 = n := by
  rw [Nat.toString_eq_ofList_toDigits, String.toList_ofList]
  exact Nat.ofDigitChars_toDigits (by decide) (by decide)

theorem takes_virtual (n : Nat) : Kind.virtual.Takes ('%' :: (toString n).toList) := by
  have hopens : ∀ r ∈ rules, opens r '%' = true → r = some .virtual := by decide
  exact .of_opens (mem_exactly_mul.2 ⟨_, toString_mem_digits n, rfl⟩)
    fun r => hopens r (mem_rules r)

theorem takes_label (n : Nat) : Kind.label.Takes ('@' :: 'b' :: 'b' :: (toString n).toList) := by
  have hopens : ∀ r ∈ rules, opens r '@' = true → r = some .label := by decide
  exact .of_opens (mem_exactly_mul.2 ⟨_, toString_mem_digits n, rfl⟩)
    fun r => hopens r (mem_rules r)

theorem takes_block (n : Nat) : Kind.block.Takes ('b' :: 'b' :: (toString n).toList) := by
  have hmem : 'b' :: 'b' :: (toString n).toList ∈ Kind.block.language :=
    mem_exactly_mul.2 ⟨_, toString_mem_digits n, rfl⟩
  have hword := takes_wordKind (mem_name_of_mem_wordKinds (by decide) hmem)
  obtain ⟨c, s, hn, hc⟩ := mem_digits.1 (toString_mem_digits n)
  rw [hn] at hword ⊢
  rwa [wordKind, if_pos (List.all_eq_true.2 (List.forall_mem_cons.2 hc))] at hword

/-- Every register has a name that can be written. -/
theorem takes_physical (r : Reg) : Kind.physical.Takes ('$' :: r.name.toList) := by
  have hname : ∀ r ∈ Reg.all, r.name.toList.head?.any isLetter = true ∧
      r.name.toList.tail.all isAlphanumeric = true := by
    decide +kernel
  have hopens : ∀ r ∈ rules, opens r '$' = true → r = some .physical := by decide
  refine .of_opens (mem_exactly_mul.2 ⟨r.name.toList, ?_, rfl⟩) fun r => hopens r (mem_rules r)
  obtain ⟨hhead, htail⟩ := hname r (Reg.mem_all r)
  obtain ⟨c, hc, hletter⟩ := (Option.any_eq_true _ _).1 hhead
  refine mem_oneOf_mul_kstar.2 ⟨c, r.name.toList.tail, ?_, hletter, List.all_eq_true.1 htail⟩
  exact (List.cons_head?_tail hc).symm

/-- A whole number is a token, and its value is the number. -/
theorem takes_number (x : Int) :
    Kind.number.Takes (toString x).toList ∧ intValue (toString x).toList = x := by
  cases x with
  | ofNat n =>
    have hdigits := toString_mem_digits n
    have htext : toString (Int.ofNat n) = toString n := rfl
    rw [htext, intValue_of_mem_digits hdigits, ofDigitChars_toString]
    obtain ⟨c, s, hn, hc, -⟩ := mem_digits.1 hdigits
    rw [hn] at hdigits ⊢
    exact ⟨.of_opens (mem_number.2 (Or.inl hdigits)) fun r => eq_number_of_opens hc, rfl⟩
  | negSucc n =>
    have htext : (toString (Int.negSucc n)).toList = '-' :: (toString (n + 1)).toList := by
      have : toString (Int.negSucc n) = "-" ++ toString (n + 1) := rfl
      rw [this, String.toList_append]
      rfl
    have hopens : ∀ r ∈ rules, opens r '-' = true → r = some .number := by decide
    have hmem : '-' :: (toString (n + 1)).toList ∈ Kind.number.language :=
      mem_number.2 (Or.inr (mem_exactly_mul.2 ⟨_, toString_mem_digits _, rfl⟩))
    rw [htext]
    refine ⟨.of_opens hmem fun r => hopens r (mem_rules r), ?_⟩
    rw [intValue, ofDigitChars_toString]
    rfl

end Words

/-! ### Phrases that are written -/

/-- `cs` is a way of writing a phrase that spells out something of which `D` is true: where it is
followed by what goes on with no word, it is cut into tokens that are derived from the phrase, and
then the tokens of what follows. -/
def Writes (n : Phrase) (D : n.Value → Prop) (cs : List Char) : Prop :=
  ∀ p rest ts', Stops rest → tokens (cs.foldl Place.after p) rest = some ts' →
    ∃ ts, tokens p (cs ++ rest) = some ts ∧ ∃ v, D v ∧ Derives n v ts ts'

/-- `cs` is a way of writing tokens and phrases, one after the other. -/
def WritesAll (ss : List Symbol) (D : Values ss → Prop) (cs : List Char) : Prop :=
  ∀ p rest ts', Stops rest → tokens (cs.foldl Place.after p) rest = some ts' →
    ∃ ts, tokens p (cs ++ rest) = some ts ∧ ∃ vs, D vs ∧ Spelt Derives ss vs ts ts'

section Writes

variable {k : Kind} {n : Phrase} {rhs ss : List Symbol} {D : Values ss → Prop} {E : n.Value → Prop}
  {c : Char} {u w cs : List Char}

theorem WritesAll.nil : WritesAll [] (fun _ => True) [] :=
  fun _ _ ts' _ h => ⟨ts', h, (), trivial, rfl⟩

/-- A blank may stand anywhere. -/
theorem WritesAll.blank (hc : isBlank c = true) (h : WritesAll ss D cs) :
    WritesAll ss D (c :: cs) := by
  intro p rest ts' hrest hts'
  obtain ⟨ts, hts, vs, hvs⟩ := h (p.after c) rest ts' hrest hts'
  refine ⟨ts, ?_, vs, hvs⟩
  rw [List.cons_append, tokens, if_pos hc, hts]

/-- A token comes first. -/
theorem WritesAll.token (hk : k.Takes w) (hcs : Stops cs) (h : WritesAll ss D cs) :
    WritesAll (.token k :: ss) (fun vs => vs.1.word = w ∧ D vs.2) (w ++ cs) := by
  intro p rest ts' hrest hts'
  rw [List.foldl_append] at hts'
  obtain ⟨ts, hts, vs, hD, hvs⟩ := h _ rest ts' hrest hts'
  have hcut := cut_eq_some_iff.2 ⟨rfl, hk.cuts (hcs.append hrest)⟩
  refine ⟨⟨k, w, p⟩ :: ts, ?_, (⟨k, w, p⟩, vs), ⟨rfl, hD⟩, rfl, ts, rfl, hvs⟩
  rw [List.append_assoc, tokens_token hcut, hts]
  rfl

/-- A token of one character comes first. -/
theorem WritesAll.mark (hk : markKind? c = some k) (h : WritesAll ss D cs) :
    WritesAll (.token k :: ss) (fun vs => D vs.2) (c :: cs) := by
  intro p rest ts' hrest hts'
  obtain ⟨ts, hts, vs, hD, hvs⟩ := h (p.after c) rest ts' hrest hts'
  have hcut := cut_eq_some_iff.2 ⟨rfl, (Cuts.mark hk : Cuts (some k) [c] (cs ++ rest))⟩
  refine ⟨⟨k, [c], p⟩ :: ts, ?_, (⟨k, [c], p⟩, vs), hD, rfl, ts, rfl, hvs⟩
  rw [List.cons_append, ← List.singleton_append, tokens_token hcut]
  exact congrArg (Option.map _) hts

/-- A phrase comes first. -/
theorem WritesAll.phrase (hu : Writes n E u) (hcs : Stops cs) (h : WritesAll ss D cs) :
    WritesAll (.phrase n :: ss) (fun vs => E vs.1 ∧ D vs.2) (u ++ cs) := by
  intro p rest ts' hrest hts'
  rw [List.foldl_append] at hts'
  obtain ⟨mid, hmid, vs, hD, hvs⟩ := h _ rest ts' hrest hts'
  obtain ⟨ts, hts, v, hE, hv⟩ := hu p _ mid (hcs.append hrest) hmid
  refine ⟨ts, ?_, (v, vs), ⟨hE, hD⟩, mid, hv, hvs⟩
  rw [List.append_assoc, hts]

theorem WritesAll.lastToken (hk : k.Takes w) :
    WritesAll [.token k] (fun vs => vs.1.word = w) w := by
  have h := WritesAll.token hk stops_nil .nil
  rw [List.append_nil] at h
  simpa only [and_true] using h

theorem WritesAll.lastPhrase (hu : Writes n E u) : WritesAll [.phrase n] (fun vs => E vs.1) u := by
  have h := WritesAll.phrase hu stops_nil .nil
  rw [List.append_nil] at h
  simpa only [and_true] using h

/-- A phrase is left out. -/
theorem WritesAll.absent (q : Production n []) (h : WritesAll ss D cs) :
    WritesAll (.phrase n :: ss) (fun vs => vs.1 = q.action () ∧ D vs.2) cs := by
  intro p rest ts' hrest hts'
  obtain ⟨ts, hts, vs, hD, hvs⟩ := h p rest ts' hrest hts'
  exact ⟨ts, hts, (q.action (), vs), ⟨rfl, hD⟩, ts, .node q () rfl, hvs⟩

/-- What is written for the parts of a phrase is written for the phrase. -/
theorem Writes.of_production {D : Values rhs → Prop} (q : Production n rhs)
    (h : WritesAll rhs D cs) (hE : ∀ vs, D vs → E (q.action vs)) : Writes n E cs := by
  intro p rest ts' hrest hts'
  obtain ⟨ts, hts, vs, hD, hvs⟩ := h p rest ts' hrest hts'
  exact ⟨ts, hts, q.action vs, hE vs hD, .node q vs hvs⟩

end Writes

end Residency.Text

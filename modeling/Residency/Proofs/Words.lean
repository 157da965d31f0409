import Mathlib.Algebra.Group.Int.Defs
import Residency.Proofs.Tokenised
import Residency.Text.Read

/-!
# What the words of a text mean

A number in a text is read digit by digit, and with every digit it is checked that the number is
in range. This file says what comes of it without the digits one by one: the number is the value of
the digits (`Nat.ofDigitChars`), and it is read just if it is in range
(`Residency.Text.tokenNat_eq_ok_iff`, `Residency.Text.tokenInt_eq_ok_iff`). A name of a register or
of a class is read just if some register or class has it, and no two have the same
(`Residency.Text.tokenReg_eq_ok_iff`, `Residency.Text.tokenClass_eq_ok_iff`).
-/

namespace Residency

/-! ### Digits -/

theorem digit?_of_isDigit {c : Char} (h : Text.isDigit c = true) :
    digit? c = some (c.toNat - '0'.toNat) := by
  rw [Text.isDigit, Bool.and_eq_true, decide_eq_true_eq, decide_eq_true_eq] at h
  rw [digit?, if_pos h]

theorem le_ofDigitChars (n : Nat) (cs : List Char) : n ≤ Nat.ofDigitChars 10 cs n := by
  rw [Nat.ofDigitChars_eq_ofDigitChars_zero]
  have : 0 < 10 ^ cs.length := Nat.pow_pos (by decide)
  exact Nat.le_add_right_of_le (Nat.le_mul_of_pos_left n this)

/-- Digits are read as their value, just if it is in range. -/
theorem readDigits_eq_ok_iff {bound n m : Nat} {beyond : NumeralError} {cs : List Char}
    (hn : n ≤ bound) (hcs : ∀ c ∈ cs, Text.isDigit c = true) :
    readDigits bound beyond n cs = .ok m ↔ m = Nat.ofDigitChars 10 cs n ∧ m ≤ bound := by
  induction cs generalizing n with
  | nil =>
    rw [readDigits, Nat.ofDigitChars_nil, Except.ok.injEq]
    exact ⟨fun h => ⟨h.symm, h ▸ hn⟩, fun h => h.1.symm⟩
  | cons c cs ih =>
    obtain ⟨hc, hcs⟩ := List.forall_mem_cons.1 hcs
    rw [readDigits, digit?_of_isDigit hc, Nat.ofDigitChars_cons, Nat.mul_comm 10 n]
    dsimp only
    split
    · rename_i hle
      exact ih hle hcs
    · rename_i hle
      refine ⟨nofun, ?_⟩
      -- More digits make no number smaller.
      rintro ⟨rfl, hm⟩
      exact absurd (Nat.le_trans (le_ofDigitChars _ cs) hm) hle

theorem readNat_eq_ok_iff {bound m : Nat} {w : List Char} (hw : w ∈ Text.digits) :
    readNat bound w = .ok m ↔ m = Nat.ofDigitChars 10 w 0 ∧ m ≤ bound := by
  obtain ⟨c, s, rfl, hc, hs⟩ := Text.mem_digits.1 hw
  have hread : readNat bound (c :: s) = readDigits bound .tooLarge 0 (c :: s) := by
    unfold readNat
    split
    case h_4 => rfl
    all_goals
      rename_i h
      cases h
      try exact absurd hc (by decide)
  rw [hread]
  exact readDigits_eq_ok_iff (Nat.zero_le _) (List.forall_mem_cons.2 ⟨hc, hs⟩)

/-- The value of decimal digits, perhaps behind a minus. -/
def intValue : List Char → Int
  | '-' :: ds => -(Nat.ofDigitChars 10 ds 0 : Int)
  | ds => Nat.ofDigitChars 10 ds 0

theorem intValue_of_mem_digits {w : List Char} (hw : w ∈ Text.digits) :
    intValue w = Nat.ofDigitChars 10 w 0 := by
  obtain ⟨c, s, rfl, hc, -⟩ := Text.mem_digits.1 hw
  unfold intValue
  split
  · rename_i h
    cases h
    exact absurd hc (by decide)
  · rfl

theorem readInt_eq_ok_iff {bits : Nat} {x : Int} {w : List Char}
    (hw : w ∈ Text.Kind.number.language) :
    readInt bits w = .ok x ↔ x = intValue w ∧ -2 ^ (bits - 1) ≤ x ∧ x < 2 ^ (bits - 1) := by
  have hpos : 0 < 2 ^ (bits - 1) := Nat.two_pow_pos _
  have hcast : ((2 ^ (bits - 1) : Nat) : Int) = 2 ^ (bits - 1) := by simp
  rcases Text.mem_number.1 hw with hd | hm
  · rw [intValue_of_mem_digits hd]
    obtain ⟨c, s, rfl, hc, hs⟩ := Text.mem_digits.1 hd
    have hread : readInt bits (c :: s) =
        (readDigits (2 ^ (bits - 1) - 1) .tooLarge 0 (c :: s)).map Int.ofNat := by
      rw [← Nat.one_shiftLeft]
      unfold readInt
      split
      case h_6 => rfl
      all_goals
        rename_i h
        cases h
        try exact absurd hc (by decide)
    rw [hread, map_eq_ok_iff]
    simp only [readDigits_eq_ok_iff (Nat.zero_le _) (List.forall_mem_cons.2 ⟨hc, hs⟩)]
    simp only [Int.ofNat_eq_natCast]
    constructor
    · rintro ⟨n, ⟨rfl, hn⟩, rfl⟩
      refine ⟨rfl, ?_, ?_⟩ <;> omega
    · rintro ⟨rfl, hlo, hhi⟩
      exact ⟨_, ⟨rfl, by omega⟩, rfl⟩
  · obtain ⟨u, hu, rfl⟩ := Text.mem_exactly_mul.1 hm
    obtain ⟨c, s, rfl, hc, hs⟩ := Text.mem_digits.1 hu
    have hread : readInt bits ('-' :: c :: s) = .ok x ↔
        ∃ n : Nat, readDigits (2 ^ (bits - 1)) .tooSmall 0 (c :: s) = .ok n ∧ -(n : Int) = x := by
      rw [readInt, map_eq_ok_iff, Nat.one_shiftLeft]
      · simp only [except_bind_eq_ok_iff, pure, Except.pure, Except.ok.injEq]
        constructor
        · rintro ⟨_, ⟨n, hn, rfl⟩, rfl⟩
          exact ⟨n, hn, rfl⟩
        · rintro ⟨n, hn, rfl⟩
          exact ⟨_, ⟨n, hn, rfl⟩, rfl⟩
      · exact nofun
    rw [List.singleton_append, hread, intValue]
    simp only [readDigits_eq_ok_iff (Nat.zero_le _) (List.forall_mem_cons.2 ⟨hc, hs⟩)]
    constructor
    · rintro ⟨n, ⟨rfl, hn⟩, rfl⟩
      refine ⟨rfl, ?_, ?_⟩ <;> omega
    · rintro ⟨rfl, hlo, hhi⟩
      exact ⟨_, ⟨rfl, by omega⟩, rfl⟩

/-! ### Names -/

theorem Reg.name_injective : Function.Injective Reg.name := by
  have h : ∀ r ∈ Reg.all, ∀ s ∈ Reg.all, r.name = s.name → r = s := by decide +kernel
  exact fun r s => h r (Reg.mem_all r) s (Reg.mem_all s)

/-- A name is looked up as that of the register which has it. -/
theorem Reg.ofName?_eq_some_iff {s : String} {r : Reg} : Reg.ofName? s = some r ↔ r.name = s := by
  have hsound {r : Reg} (h : Reg.ofName? s = some r) : r.name = s := by
    obtain ⟨l, l', hl, -⟩ := List.lookup_eq_some_iff.1 h
    have hmem : (s, r) ∈ Reg.names := hl ▸ List.mem_append_right _ List.mem_cons_self
    obtain ⟨r', -, hr'⟩ := List.mem_map.1 hmem
    cases hr'
    rfl
  refine ⟨hsound, ?_⟩
  rintro rfl
  cases h : Reg.ofName? r.name with
  | some r' => rw [Reg.name_injective (hsound h)]
  | none =>
    have hmem : (r.name, r) ∈ Reg.names := List.mem_map.2 ⟨r, Reg.mem_all r, rfl⟩
    exact absurd (List.lookup_eq_none_iff.1 h _ hmem) (by simp)

/-- A name is looked up as that of the class which has it. -/
theorem RegClass.ofName?_eq_some_iff {s : String} {c : RegClass} :
    RegClass.ofName? s = some c ↔ c.name = s := by
  constructor
  · intro h
    unfold RegClass.ofName? at h
    split at h <;> cases h <;> rfl
  · rintro rfl
    cases c <;> rfl

namespace Text

/-! ### Numbers -/

/-- A token of a kind: it is marked so, and its characters are a token of that kind. -/
structure Token.Is (t : Token) (k : Kind) : Prop where
  /-- It is marked so. -/
  kind : t.kind = k
  /-- Its characters are a token of that kind. -/
  takes : k.Takes t.word

theorem Token.Is.mem {t : Token} {k : Kind} (h : t.Is k) : t.word ∈ k.language := h.takes.mem

/-- The number behind the first `skip` characters of a token. -/
def Token.nat (skip : Nat) (t : Token) : Nat := Nat.ofDigitChars 10 (t.word.drop skip) 0

/-- The number that a token is. -/
def Token.int (t : Token) : Int := intValue t.word

variable {t : Token}

theorem tokenNat_eq_ok_iff {skip n : Nat} (h : t.word.drop skip ∈ digits) :
    tokenNat skip t = .ok n ↔ n = t.nat skip ∧ n < 2 ^ 64 := by
  have hbound : n < 2 ^ 64 ↔ n ≤ UInt64.size - 1 := (Nat.le_sub_one_iff_lt (by decide)).symm
  rw [tokenNat, Token.nat, hbound, ← readNat_eq_ok_iff h]
  split
  · rename_i m hm
    rw [hm, Except.ok.injEq, Except.ok.injEq]
  · rename_i e he
    rw [he, refuse]
    exact ⟨nofun, nofun⟩

theorem tokenInt_eq_ok_iff {bits : Nat} {x : Int} (h : t.word ∈ Kind.number.language) :
    tokenInt bits t = .ok x ↔ x = t.int ∧ -2 ^ (bits - 1) ≤ x ∧ x < 2 ^ (bits - 1) := by
  rw [tokenInt, Token.int, ← readInt_eq_ok_iff h]
  split
  · rename_i m hm
    rw [hm, Except.ok.injEq, Except.ok.injEq]
  · rename_i e he
    rw [he, refuse]
    exact ⟨nofun, nofun⟩

/-- A virtual register is read just if it is declared. -/
theorem tokenVReg_eq_ok_iff {declared : Nat} {v : VReg} (h : t.word.drop 1 ∈ digits)
    (hdecl : declared ≤ 2 ^ 32) :
    tokenVReg declared t = .ok v ↔ v.index = t.nat 1 ∧ t.nat 1 < declared := by
  rw [tokenVReg, except_bind_eq_ok_iff]
  simp only [tokenNat_eq_ok_iff h]
  constructor
  · rintro ⟨n, ⟨rfl, -⟩, hv⟩
    split at hv
    · rename_i hlt
      obtain ⟨w, hw, hv⟩ := except_bind_eq_ok_iff.1 hv
      cases hv
      exact ⟨toNat_of_word hw, hlt⟩
    · cases hv
  · rintro ⟨hv, hlt⟩
    refine ⟨_, ⟨rfl, by omega⟩, ?_⟩
    rw [if_pos hlt, ← hv, VReg.index, word_toNat]
    rfl

/-! ### Names -/

/-- A token names a register behind its dollar sign. -/
def Token.Names (t : Token) (r : Reg) : Prop := r.name.toList = t.word.drop 1

/-- A token names a class. -/
def Token.NamesClass (t : Token) (c : RegClass) : Prop := c.name.toList = t.word

theorem tokenReg_eq_ok_iff {r : Reg} : tokenReg t = .ok r ↔ t.Names r := by
  have h : Reg.ofName? (String.ofList (t.word.drop 1)) = some r ↔ t.Names r := by
    rw [Reg.ofName?_eq_some_iff, Token.Names, ← String.toList_inj, String.toList_ofList]
  rw [← h, tokenReg]
  split
  · rename_i s hs
    rw [hs, Except.ok.injEq, Option.some.injEq]
  · rename_i hs
    rw [hs]
    exact ⟨nofun, nofun⟩

theorem tokenClass_eq_ok_iff {c : RegClass} : tokenClass t = .ok c ↔ t.NamesClass c := by
  have h : RegClass.ofName? (String.ofList t.word) = some c ↔ t.NamesClass c := by
    rw [RegClass.ofName?_eq_some_iff, Token.NamesClass, ← String.toList_inj, String.toList_ofList]
  rw [← h, tokenClass]
  split
  · rename_i d hd
    rw [hd, Except.ok.injEq, Option.some.injEq]
  · rename_i hd
    rw [hd]
    exact ⟨nofun, nofun⟩

end Text

end Residency

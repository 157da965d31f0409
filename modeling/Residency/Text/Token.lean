import Residency.Failure

/-!
# The words of a text

A text is cut into tokens: runs of characters of twenty kinds, with blanks between
them that mean nothing. Each token is the **longest** one that starts where the
token before it ends, and a run that two kinds share belongs to the one that is
listed first. So `bb1` is a block, but `bb1x` is a name, and `3abc` is a number
followed by a name.

The kinds are told apart by their first character, except that a run of letters,
digits, underscores and points is looked at as a whole (`Residency.Text.wordKind`).
That is why `Residency.Text.cut` never has to take characters back: a run that
begins a token and is not one cannot be continued otherwise, and the text is then
unreadable.
-/

namespace Residency.Text

/-- The kinds of tokens. -/
inductive Kind
  /-- A number, perhaps with a minus. -/
  | number
  /-- A virtual register. -/
  | virtual
  /-- A physical register. -/
  | physical
  /-- A block where it starts. -/
  | block
  /-- A block as a target. -/
  | label
  /-- The mark of an operand that is written. -/
  | defMark
  /-- The mark of an operand that is read and written. -/
  | usedefMark
  /-- The mark of a folded operand. -/
  | foldMark
  /-- The mark of a register in a declaration. -/
  | regMark
  /-- The mark of a slot in a declaration. -/
  | slotMark
  /-- The mark of the registers that an instruction overwrites besides. -/
  | clobberMark
  /-- The mark of a terminator. -/
  | termMark
  /-- A name. -/
  | name
  /-- A colon. -/
  | colon
  /-- A comma. -/
  | comma
  /-- An opening bracket. -/
  | leftBracket
  /-- A closing bracket. -/
  | rightBracket
  /-- A plus. -/
  | plus
  /-- An opening parenthesis. -/
  | leftParen
  /-- A closing parenthesis. -/
  | rightParen
  deriving DecidableEq, Repr

/-- A token. -/
structure Token where
  /-- Its kind. -/
  kind : Kind
  /-- Its characters. -/
  word : List Char
  /-- Where it starts. -/
  place : Place
  deriving DecidableEq, Repr

/-! ### Classes of characters -/

/-- The characters between tokens: blank, tab and the two ends of a line. -/
def isBlank (c : Char) : Bool := c == ' ' || c == '\t' || c == '\n' || c == '\r'

/-- The decimal digits. -/
def isDigit (c : Char) : Bool := '0' ≤ c && c ≤ '9'

/-- The letters without accents. -/
def isLetter (c : Char) : Bool := ('a' ≤ c && c ≤ 'z') || ('A' ≤ c && c ≤ 'Z')

/-- Letters and digits. -/
def isAlphanumeric (c : Char) : Bool := isLetter c || isDigit c

/-- What a name starts with. -/
def startsName (c : Char) : Bool := isLetter c || c == '_'

/-- What a name goes on with. -/
def continuesName (c : Char) : Bool := isAlphanumeric c || c == '_' || c == '.'

/-! ### Cutting off one token -/

/-- The kind of a run that starts as a name does: a keyword, a block or a name. -/
def wordKind : List Char → Kind
  | ['d', 'e', 'f'] => .defMark
  | ['u', 's', 'e', 'd', 'e', 'f'] => .usedefMark
  | ['f', 'o', 'l', 'd'] => .foldMark
  | ['r', 'e', 'g'] => .regMark
  | ['s', 'l', 'o', 't'] => .slotMark
  | ['c', 'l', 'o', 'b', 'b', 'e', 'r'] => .clobberMark
  | ['t', 'e', 'r', 'm'] => .termMark
  | 'b' :: 'b' :: d :: rest => if (d :: rest).all isDigit then .block else .name
  | _ => .name

/-- The kind of a mark of one character. -/
def markKind? : Char → Option Kind
  | ':' => some .colon
  | ',' => some .comma
  | '[' => some .leftBracket
  | ']' => some .rightBracket
  | '+' => some .plus
  | '(' => some .leftParen
  | ')' => some .rightParen
  | _ => none

/-- A token that goes on, behind `lead`, with the characters of a class: its kind, its
characters, and what follows. -/
def run (k : Kind) (lead : List Char) (p : Char → Bool) (cs : List Char) :
    Kind × List Char × List Char :=
  (k, lead ++ cs.takeWhile p, cs.dropWhile p)

/-- A token that goes on, behind `lead`, with at least one character of `p` and then with
those of `q`. -/
def run? (k : Kind) (lead : List Char) (p q : Char → Bool) :
    List Char → Option (Kind × List Char × List Char)
  | d :: cs => if p d then some (run k (lead ++ [d]) q cs) else none
  | [] => none

/-- The token at the start of a text: its kind, its characters, and what follows. -/
def cut : List Char → Option (Kind × List Char × List Char)
  | [] => none
  | '-' :: cs => run? .number ['-'] isDigit isDigit cs
  | '%' :: cs => run? .virtual ['%'] isDigit isDigit cs
  | '$' :: cs => run? .physical ['$'] isLetter isAlphanumeric cs
  | '@' :: 'b' :: 'b' :: cs => run? .label ['@', 'b', 'b'] isDigit isDigit cs
  | c :: cs =>
    if isDigit c then some (run .number [c] isDigit cs)
    else if startsName c then
      -- The longest run decides, and only then its kind.
      let w := c :: cs.takeWhile continuesName
      some (wordKind w, w, cs.dropWhile continuesName)
    else (markKind? c).map fun k => (k, [c], cs)

/-! ### A token is cut off the front -/

theorem run_append (k : Kind) (lead : List Char) (p : Char → Bool) (cs : List Char) :
    (run k lead p cs).2.1 ++ (run k lead p cs).2.2 = lead ++ cs := by
  rw [run, List.append_assoc, List.takeWhile_append_dropWhile]

theorem run?_eq_some {k : Kind} {lead : List Char} {p q : Char → Bool} {cs : List Char}
    {t : Kind × List Char × List Char} (h : run? k lead p q cs = some t) :
    ∃ d rest, cs = d :: rest ∧ p d = true ∧ t = run k (lead ++ [d]) q rest := by
  cases cs with
  | nil => cases h
  | cons d rest =>
    rw [run?] at h
    split at h
    · rename_i hd
      exact ⟨d, rest, rfl, hd, (Option.some.inj h).symm⟩
    · cases h

theorem run?_append {k : Kind} {lead : List Char} {p q : Char → Bool} {cs : List Char}
    {t : Kind × List Char × List Char} (h : run? k lead p q cs = some t) :
    t.2.1 ++ t.2.2 = lead ++ cs := by
  obtain ⟨d, rest, rfl, -, rfl⟩ := run?_eq_some h
  rw [run_append, List.append_assoc, List.singleton_append]

/-- The characters of a token and what follows it are the text that it was cut off. -/
theorem cut_append {cs : List Char} {k : Kind} {w rest : List Char}
    (h : cut cs = some (k, w, rest)) : w ++ rest = cs := by
  unfold cut at h
  split at h
  · cases h
  · exact run?_append h
  · exact run?_append h
  · exact run?_append h
  · exact run?_append h
  · split at h
    · exact (congrArg (fun t => t.2.1 ++ t.2.2) (Option.some.inj h)).symm.trans (run_append ..)
    · split at h
      · obtain ⟨-, rfl, rfl⟩ := h
        rw [List.cons_append, List.takeWhile_append_dropWhile]
      · obtain ⟨k', -, hk⟩ := Option.map_eq_some_iff.1 h
        obtain ⟨-, rfl, rfl⟩ := hk
        rfl

theorem run?_word_ne_nil {k : Kind} {lead : List Char} {p q : Char → Bool} {cs : List Char}
    {t : Kind × List Char × List Char} (h : run? k lead p q cs = some t) : t.2.1 ≠ [] := by
  obtain ⟨d, rest, -, -, rfl⟩ := run?_eq_some h
  simp [run]

/-- A token has a character. -/
theorem cut_word_ne_nil {cs : List Char} {k : Kind} {w rest : List Char}
    (h : cut cs = some (k, w, rest)) : w ≠ [] := by
  unfold cut at h
  split at h
  · cases h
  · exact run?_word_ne_nil h
  · exact run?_word_ne_nil h
  · exact run?_word_ne_nil h
  · exact run?_word_ne_nil h
  · split at h
    · obtain ⟨-, rfl, -⟩ := h
      exact List.cons_ne_nil _ _
    · split at h
      · obtain ⟨-, rfl, -⟩ := h
        exact List.cons_ne_nil _ _
      · obtain ⟨k', -, hk⟩ := Option.map_eq_some_iff.1 h
        obtain ⟨-, rfl, -⟩ := hk
        exact List.cons_ne_nil _ _

/-- What follows a token is shorter than the text. -/
theorem length_of_cut {cs : List Char} {k : Kind} {w rest : List Char}
    (h : cut cs = some (k, w, rest)) : rest.length < cs.length := by
  rw [← cut_append h, List.length_append]
  exact Nat.lt_add_of_pos_left (List.length_pos_iff.2 (cut_word_ne_nil h))

/-! ### Cutting a text -/

/-- The tokens of a text that starts at a place, if it can be cut into tokens. -/
def tokens (p : Place) : List Char → Option (List Token)
  | [] => some []
  | c :: cs =>
    if isBlank c then tokens (p.after c) cs
    else
      match _h : cut (c :: cs) with
      | none => none
      | some (k, w, rest) =>
        (tokens (w.foldl Place.after p) rest).map fun ts => ⟨k, w, p⟩ :: ts
  termination_by cs => cs.length
  decreasing_by
    · simp
    · exact length_of_cut _h

end Residency.Text

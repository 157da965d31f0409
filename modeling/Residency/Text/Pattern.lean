import Residency.Text.Visible

/-!
# Patterns of lines

A pattern says what a text looks like without spelling it out. It is a text of lines
itself. Blanks at the ends of a line mean nothing, and neither do blank lines at the
ends of the pattern. A line of a pattern is one of

* `...` and `..~`, a **skip**, which stands for any number of lines
  (`Residency.Text.Skip`). It cuts the pattern into groups of other lines;
* `...X...` and `...X`, a line that contains `X`, or ends with it;
* `X...` and `X`, a line that starts with `X`, or is `X`. Here `X` may have holes.

A hole `{{name}}` stands for the longest run of letters, digits, points and
underscores at its place. Holes of one name stand for the same text in all lines, but
the name `_` says nothing about the text.

Two skips in a row, and a hole in a line that starts with `...`, make a pattern
useless: it is refused before any text is looked at (`Residency.Text.Pattern.read`). Of
several such faults the skips are named first, then the first hole of the name `_`, then
the first hole of any name.

Patterns stand outside the model: see `Residency.Text.Matching`.
-/

namespace Residency.Text

/-! ### What can be wrong -/

/-- Why a pattern is of no use, or cannot be compared with a text. -/
inductive PatternFault
  /-- The line of a number and the next one are both skips. -/
  | skipsInARow (line : Nat)
  /-- The line of a number starts with dots and has a hole. -/
  | holeBehindDots (line : Nat)
  /-- The dots that a line starts with and those that it ends with have a dot in common. -/
  | dotsOverlap (length : Nat)
  /-- A character of several bytes, the first at `start`, is to be compared as one byte. -/
  | indivisible (start : Nat) (c : Char)
  deriving DecidableEq, Repr

/-- The wording of a fault that lies in a pattern itself. -/
def refusal (what : String) : String :=
  "called `Result::unwrap()` on an `Err` value: \"" ++ what ++ "\""

/-- The wording of a fault of a pattern. -/
def PatternFault.text : PatternFault → String
  | .skipsInARow line =>
    refusal ("Can't have two consecutive interline wildcards lines at lines " ++
      toString line ++ " and " ++ toString (line + 1) ++ ".")
  | .holeBehindDots line =>
    refusal ("Can't mix name matching with start-of-line wildcards at line " ++
      toString line ++ ".")
  | .dotsOverlap length =>
    "byte range starts at 3 but ends at " ++ toString (length - 3)
  | .indivisible start c =>
    "end byte index " ++ toString (start + 1) ++ " is not a char boundary; it is inside " ++
      quoted c ++ " (bytes " ++ toString start ++ ".." ++ toString (start + c.utf8Size) ++
      " of string)"

/-! ### Lines -/

/-- The characters that mean nothing at the ends of a line: those that Unicode calls white
space. -/
def isSpace (c : Char) : Bool :=
  let n := c.toNat
  (9 ≤ n && n ≤ 13) || n == 0x20 || n == 0x85 || n == 0xA0 || n == 0x1680 ||
    (0x2000 ≤ n && n ≤ 0x200A) || n == 0x2028 || n == 0x2029 || n == 0x202F ||
    n == 0x205F || n == 0x3000

/-- A line without the spaces at its ends. -/
def trim (cs : List Char) : List Char :=
  ((cs.dropWhile isSpace).reverse.dropWhile isSpace).reverse

/-- The lines of a text, cut at the ends of lines. There is always one more than there are ends. -/
def splitLines : List Char → List (List Char)
  | [] => [[]]
  | c :: cs =>
    if c = '\n' then [] :: splitLines cs
    else
      match splitLines cs with
      | [] => [[c]]
      | l :: rest => (c :: l) :: rest

/-- The lines of a text, without the spaces at their ends. -/
def trimmedLines (cs : List Char) : List (List Char) := (splitLines cs).map trim

/-- Lines without the empty ones at the ends. -/
def dropBlankEnds (ls : List (List Char)) : List (List Char) :=
  ((ls.dropWhile List.isEmpty).reverse.dropWhile List.isEmpty).reverse

/-- Does a line contain some characters, one after the other? -/
def containsRun (cs : List Char) : List Char → Bool
  | [] => cs.isEmpty
  | l@(_ :: rest) => cs.isPrefixOf l || containsRun cs rest

/-! ### Holes -/

/-- A part of a line of a pattern. -/
inductive Piece
  /-- A character that stands for itself. -/
  | char (c : Char)
  /-- A hole of a name. -/
  | hole (name : List Char)
  deriving DecidableEq, Repr

/-- Is a piece a hole? -/
def Piece.isHole : Piece → Bool
  | .char _ => false
  | .hole _ => true

/-- The characters up to the closing braces of a hole, and those behind them. -/
def untilBraces : List Char → Option (List Char × List Char)
  | '\x7d' :: '\x7d' :: rest => some ([], rest)
  | c :: rest => (untilBraces rest).map fun r => (c :: r.1, r.2)
  | [] => none

theorem length_of_untilBraces {cs name rest : List Char}
    (h : untilBraces cs = some (name, rest)) : rest.length < cs.length := by
  induction cs using untilBraces.induct generalizing name with
  | case1 =>
    cases h
    simp only [List.length_cons]
    omega
  | case2 c cs hne ih =>
    rw [untilBraces.eq_2 c cs hne] at h
    obtain ⟨⟨n, r⟩, hr, he⟩ := Option.map_eq_some_iff.1 h
    cases he
    exact Nat.lt_succ_of_lt (ih hr)
  | case3 => cases h

/-- The name of the hole at the start of a text, and what follows. A name has at least one
character. -/
def hole? : List Char → Option (List Char × List Char)
  | '\x7b' :: '\x7b' :: c :: rest => (untilBraces rest).map fun r => (c :: r.1, r.2)
  | _ => none

theorem length_of_hole? {cs name rest : List Char} (h : hole? cs = some (name, rest)) :
    rest.length < cs.length := by
  unfold hole? at h
  split at h
  · obtain ⟨⟨n, r⟩, hr, he⟩ := Option.map_eq_some_iff.1 h
    cases he
    have := length_of_untilBraces hr
    simp only [List.length_cons]
    omega
  · cases h

/-- The pieces of a line. -/
def pieces (cs : List Char) : List Piece :=
  match _h : hole? cs with
  | some (name, rest) => .hole name :: pieces rest
  | none =>
    match cs with
    | [] => []
    | c :: rest => .char c :: pieces rest
  termination_by cs.length
  decreasing_by
    · exact length_of_hole? _h
    · simp

/-- Does a line have a hole? -/
def hasHole (l : List Char) : Bool := (pieces l).any Piece.isHole

/-- Is the hole of the name `_` written in a line? It may overlap another hole there. -/
def hasNamelessHole (l : List Char) : Bool :=
  containsRun ['\x7b', '\x7b', '_', '\x7d', '\x7d'] l

/-! ### Lines of a pattern -/

/-- A line of a pattern that stands for one line of a text. -/
inductive LinePattern
  /-- A line that contains some characters. -/
  | contains (cs : List Char)
  /-- A line that ends with some characters. -/
  | endsWith (cs : List Char)
  /-- A line that starts with some pieces. -/
  | startsWith (ps : List Piece)
  /-- A line made of some pieces. -/
  | whole (ps : List Piece)
  /-- Dots at both ends that have a dot in common: there is no telling what they hold. -/
  | onlyDots (length : Nat)
  deriving DecidableEq, Repr

/-- A line of a pattern that stands for any number of lines of a text. -/
inductive Skip
  /-- The lines before the first one that the next line of the pattern fits. That line is
  not given up when the rest of its group does not fit there. -/
  | toLine
  /-- The lines before the first place where all of the next group fits. -/
  | toGroup
  deriving DecidableEq, Repr

/-- The mark of what is left open in a line. -/
def dots : List Char := ['.', '.', '.']

/-- The skip that a line is, if it is one. -/
def skip? (l : List Char) : Option Skip :=
  if l = dots then some .toLine else if l = ['.', '.', '~'] then some .toGroup else none

/-- The pattern that a line spells out. -/
def linePattern (l : List Char) : LinePattern :=
  if dots.isPrefixOf l then
    if dots.isSuffixOf l then
      if l.length < 6 then .onlyDots l.length
      else .contains ((l.drop 3).take (l.length - 6))
    else .endsWith (l.drop 3)
  else if dots.isSuffixOf l then .startsWith (pieces (l.take (l.length - 3)))
  else .whole (pieces l)

/-! ### Whole patterns -/

/-- A pattern: the group at its start, and its skips, each with the group behind it. -/
structure Pattern where
  /-- The lines before the first skip. -/
  head : List LinePattern
  /-- The skips, and the lines between them. -/
  tail : List (Skip × List LinePattern)
  deriving DecidableEq, Repr

/-- The pattern that lines spell out. -/
def Pattern.ofLines : List (List Char) → Pattern
  | [] => ⟨[], []⟩
  | l :: ls =>
    let p := Pattern.ofLines ls
    match skip? l with
    | some s => ⟨[], (s, p.head) :: p.tail⟩
    | none => ⟨linePattern l :: p.head, p.tail⟩

/-- Lines from number `n` on have no two skips in a row. -/
def checkSkips : Nat → List (List Char) → Except PatternFault Unit
  | n, l :: m :: ls =>
    if (skip? l).isSome && (skip? m).isSome then .error (.skipsInARow n)
    else checkSkips (n + 1) (m :: ls)
  | _, _ => .ok ()

/-- Lines from number `n` on that start with dots have no hole, told by `hole`. -/
def checkHoles (hole : List Char → Bool) : Nat → List (List Char) → Except PatternFault Unit
  | _, [] => .ok ()
  | n, l :: ls =>
    if dots.isPrefixOf l && hole l then .error (.holeBehindDots n)
    else checkHoles hole (n + 1) ls

/-- The pattern of a text, if it is of use. A hole without a name of its own is looked for
in all lines before any other hole is. -/
def Pattern.read (text : String) : Except PatternFault Pattern := do
  let ls := trimmedLines text.toList
  checkSkips 1 ls
  checkHoles hasNamelessHole 1 ls
  checkHoles hasHole 1 ls
  return Pattern.ofLines (dropBlankEnds ls)

end Residency.Text

import Residency.Text.Pattern
import Residency.Text.Token

/-!
# Comparing a pattern with a text

Pattern and text are compared line by line, blank lines at the ends of the text left
out. A group of a pattern fits at a place of a text when each of its lines fits a line
there, one after the other; a skip looks for the place (`Residency.Text.seek`), and
what is found first is not taken back when a later group does not fit.

Where a line of a pattern may have holes, it is compared with a line of a text
character by character, and only characters of one byte can be compared that way. At
any other character the comparison is **stuck** (`Residency.Text.Comparison.stuck`).
That is worse than a line that does not fit, for then the lines behind it are not tried
either. `...X...` and `...X` look for `X` as a whole and get stuck at no character.

The matcher stands outside the model. A lowered function is held against a pattern only where a
lowering is tested, and by a matcher that comes from elsewhere; this module, with
`Residency.Text.Pattern` and `Residency.Text.Visible`, stands in for it. No other module uses the
three, and no theorem speaks of them.
-/

namespace Residency.Text

/-! ### Outcomes -/

/-- What comes of comparing a part of a pattern with a part of a text. -/
inductive Comparison (α : Type)
  /-- They fit. -/
  | fit (x : α)
  /-- They do not. -/
  | unfit
  /-- It cannot be told. -/
  | stuck (f : PatternFault)
  deriving DecidableEq, Repr

namespace Comparison

variable {α β : Type}

/-- Does a part of a pattern not fit? -/
def isUnfit : Comparison α → Bool
  | .fit _ => false
  | .unfit => true
  | .stuck _ => false

/-- One comparison after another. -/
def bind (x : Comparison α) (f : α → Comparison β) : Comparison β :=
  match x with
  | .fit a => f a
  | .unfit => .unfit
  | .stuck e => .stuck e

end Comparison

/-- What the holes stand for. -/
abbrev Bindings := List (List Char × List Char)

/-- The bindings when a hole stands for a text, if nothing speaks against it. -/
def bind? (b : Bindings) (name text : List Char) : Option Bindings :=
  if text = [] then none
  else if name = ['_'] then some b
  else
    match b.lookup name with
    | some old => if old = text then some b else none
    | none => some ((name, text) :: b)

/-! ### One line -/

/-- The bytes that characters take. -/
def byteCount (cs : List Char) : Nat := (String.ofList cs).utf8ByteSize

/-- Pieces and the start of a line, after `p` bytes of the one and `t` bytes of the other:
the bindings when they fit, and the rest of the line. -/
def comparePieces (b : Bindings) (p t : Nat) :
    List Piece → List Char → Comparison (Bindings × List Char)
  | [], cs => .fit (b, cs)
  | .char _ :: _, [] => .unfit
  | .char c :: ps, d :: cs =>
    if c.utf8Size ≠ 1 then .stuck (.indivisible p c)
    else if d.utf8Size ≠ 1 then .stuck (.indivisible t d)
    else if c = d then comparePieces b (p + 1) (t + 1) ps cs
    else .unfit
  | .hole name :: ps, cs =>
    let text := cs.takeWhile continuesName
    match bind? b name text with
    -- A hole has two braces on either side of its name.
    | some b =>
      comparePieces b (p + byteCount name + 4) (t + byteCount text) ps
        (cs.dropWhile continuesName)
    | none => .unfit

/-- A line of a pattern and a line of a text: the bindings when they fit. -/
def LinePattern.compare (b : Bindings) (l : List Char) : LinePattern → Comparison Bindings
  | .contains cs => if containsRun cs l then .fit b else .unfit
  | .endsWith cs => if cs.isSuffixOf l then .fit b else .unfit
  | .startsWith ps => (comparePieces b 0 0 ps l).bind fun r => .fit r.1
  | .whole ps =>
    (comparePieces b 0 0 ps l).bind fun r => if r.2.isEmpty then .fit r.1 else .unfit
  | .onlyDots length => .stuck (.dotsOverlap length)

/-! ### Many lines -/

/-- A group and the lines from a place on: the bindings when it fits, and the lines behind
it. -/
def compareGroup (b : Bindings) :
    List LinePattern → List (List Char) → Comparison (Bindings × List (List Char))
  | [], ls => .fit (b, ls)
  | _ :: _, [] => .unfit
  | p :: ps, l :: ls => (p.compare b l).bind fun b => compareGroup b ps ls

/-- What a skip looks for when a group follows: as many lines of the group. -/
def Skip.goal (group : List LinePattern) : Skip → List LinePattern
  | .toLine => group.take 1
  | .toGroup => group

/-- A group at the first place that its goal fits: the bindings, and the lines behind it. -/
def seek (b : Bindings) (goal group : List LinePattern) :
    List (List Char) → Comparison (Bindings × List (List Char))
  | [] => compareGroup b group []
  | l :: ls =>
    if (compareGroup b goal (l :: ls)).isUnfit then seek b goal group ls
    else compareGroup b group (l :: ls)

/-- Skips with their groups, and the lines that are left. All lines must be used up, but a
skip at the end takes whatever is there. -/
def compareTail (b : Bindings) :
    List (Skip × List LinePattern) → List (List Char) → Comparison Unit
  | [], ls => if ls.isEmpty then .fit () else .unfit
  | [(_, [])], _ => .fit ()
  | (s, group) :: rest, ls =>
    (seek b (s.goal group) group ls).bind fun r => compareTail r.1 rest r.2

/-- A pattern and the lines of a text. -/
def Pattern.compare (p : Pattern) (ls : List (List Char)) : Comparison Unit :=
  (compareGroup [] p.head ls).bind fun r => compareTail r.1 p.tail r.2

/-- Does a pattern fit a text? Both are texts, and the pattern may be of no use. -/
def fits (pattern text : String) : Except PatternFault Bool := do
  match (← Pattern.read pattern).compare (dropBlankEnds (trimmedLines text.toList)) with
  | .fit () => return true
  | .unfit => return false
  | .stuck f => throw f

end Residency.Text

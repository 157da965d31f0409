/-!
# Reading whole numbers

Decimal numbers of a bounded range, read from the left. A number may start with a
sign: a plus anywhere, a minus only where negative numbers are in range. The first
character that makes the number unreadable decides the error – a character that is
no digit, or the digit at which the value leaves the range.
-/

namespace Residency

/-- Why a text is not a number of the range asked for. -/
inductive NumeralError
  /-- There is nothing to read. -/
  | empty
  /-- A character is no digit, or there is a sign and nothing else. -/
  | invalidDigit
  /-- The value is above the range. -/
  | tooLarge
  /-- The value is below the range. -/
  | tooSmall
  deriving DecidableEq, Repr

/-- The wording of a numeral error. -/
def NumeralError.text : NumeralError → String
  | .empty => "cannot parse integer from empty string"
  | .invalidDigit => "invalid digit found in string"
  | .tooLarge => "number too large to fit in target type"
  | .tooSmall => "number too small to fit in target type"

/-- The value of a decimal digit. -/
def digit? (c : Char) : Option Nat :=
  if '0' ≤ c ∧ c ≤ '9' then some (c.toNat - '0'.toNat) else none

/-- Digits read from the left onto the value `n`; `beyond` is raised at the digit that
takes the value above `bound`. -/
def readDigits (bound : Nat) (beyond : NumeralError) : Nat → List Char → Except NumeralError Nat
  | n, [] => .ok n
  | n, c :: rest =>
    match digit? c with
    | none => .error .invalidDigit
    | some d =>
      if n * 10 + d ≤ bound then readDigits bound beyond (n * 10 + d) rest else .error beyond

/-- A number from 0 to `bound`. -/
def readNat (bound : Nat) : List Char → Except NumeralError Nat
  | [] => .error .empty
  | ['+'] => .error .invalidDigit
  | '+' :: rest => readDigits bound .tooLarge 0 rest
  | cs => readDigits bound .tooLarge 0 cs

/-- A number from `-2 ^ (bits - 1)` to `2 ^ (bits - 1) - 1`. -/
def readInt (bits : Nat) : List Char → Except NumeralError Int
  | [] => .error .empty
  | ['+'] => .error .invalidDigit
  | ['-'] => .error .invalidDigit
  | '-' :: rest => (readDigits (1 <<< (bits - 1)) .tooSmall 0 rest).map fun n => -(n : Int)
  | '+' :: rest => (readDigits (1 <<< (bits - 1) - 1) .tooLarge 0 rest).map Int.ofNat
  | cs => (readDigits (1 <<< (bits - 1) - 1) .tooLarge 0 cs).map Int.ofNat

end Residency

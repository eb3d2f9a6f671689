/-!
Scalars written as text: integers with a sign and decimal digits, and the two truth values. A text
is read as a whole, so blanks, a missing digit or a number out of range are refused.
-/

namespace LeasePool.Text

/-- The number that decimal digits write; nothing for a text without digits or with anything else.
-/
def natural? (cs : List Char) : Option Nat :=
  if !cs.isEmpty && cs.all Char.isDigit then some (Nat.ofDigitChars 10 cs 0) else none

/-- A range of integers that a reader accepts, both ends included. -/
structure IntRange where
  least : Int
  greatest : Int
deriving Repr, DecidableEq

namespace IntRange

def unsigned (bits : Nat) : IntRange := ⟨0, Nat.pow 2 bits - 1⟩

def signed (bits : Nat) : IntRange := ⟨-Nat.pow 2 (bits - 1), Nat.pow 2 (bits - 1) - 1⟩

/-- The range holds negative integers, so that a minus sign may be written. -/
def hasNegatives (range : IntRange) : Bool := range.least < 0

def check (range : IntRange) (n : Int) : Option Int :=
  if range.least ≤ n && n ≤ range.greatest then some n else none

/-- The integer that a text writes: an optional sign (a minus only where the range has negative
integers), then digits, with any number of zeros in front. -/
def read? (range : IntRange) : List Char → Option Int
  | '+' :: rest => (natural? rest).bind fun n => range.check n
  | '-' :: rest =>
      if range.hasNegatives then (natural? rest).bind fun n => range.check (-n) else none
  | cs => (natural? cs).bind fun n => range.check n

end IntRange

def truth? (s : String) : Option Bool :=
  if s = "true" then some true else if s = "false" then some false else none

end LeasePool.Text

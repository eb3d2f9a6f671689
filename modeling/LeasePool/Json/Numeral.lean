/-!
Written numbers. Integers of 64 bits are read exactly. Any other number is read as a double by a
quick rule, which rounds up to three times: of the digits only those at the front that fit 64 bits
count, these are rounded to a double, and the double is multiplied or divided by a power of ten. So
the result need not be the nearest double, and a number just below the largest one may be refused.
-/

namespace LeasePool.Json

/-- A written number, by its parts. -/
structure Numeral where
  negative : Bool
  /-- The digits before the point. -/
  whole : List Char
  /-- The digits after the point. -/
  places : List Char
  /-- The power of ten behind the exponent mark. -/
  power : Option Int
deriving Repr, DecidableEq

/-- The integers that a number without point and exponent keeps exactly: those of 64 bits, with a
sign if they are negative. -/
def Numeral.toInt? (numeral : Numeral) : Option Int :=
  let size := Nat.ofDigitChars 10 numeral.whole 0
  if !numeral.places.isEmpty || numeral.power.isSome then none
  else if numeral.negative then
    if 0 < size && size ≤ Nat.pow 2 63 then some (-(size : Int)) else none
  else if size < Nat.pow 2 64 then some (size : Int)
  else none

/-- Append digits to a number up to the first that would take it beyond 64 bits; also gives the
number of digits that are left. -/
def absorb (number : Nat) : List Char → Nat × Nat
  | [] => (number, 0)
  | c :: rest =>
      let next := number * 10 + (c.toNat - 48)
      if next < Nat.pow 2 64 then absorb next rest else (number, rest.length + 1)

/-- The double nearest to a power of ten. -/
def tenTo (power : Nat) : Float := Float.ofScientific 1 false power

/-- The largest power of ten that is at most the largest double. -/
def maxPower : Nat := 308

/-- Multiply by a power of ten; none if the product is too large. -/
def raise? (x : Float) (power : Nat) : Option Float :=
  if power ≤ maxPower then
    let product := x * tenTo power
    if product.isInf then none else some product
  else if x == 0 then some x
  else none

/-- Divide by a power of ten, in steps if the power is too large for a double. -/
def lower (x : Float) (power : Nat) : Float :=
  if power ≤ maxPower then x / tenTo power
  else if x == 0 then x
  else lower (x / tenTo maxPower) (power - maxPower)
termination_by power
decreasing_by simp only [maxPower] at *; omega

/-- Multiply by a power of ten or divide by one. -/
def scale? (x : Float) : Int → Option Float
  | .ofNat power => raise? x power
  | .negSucc power => some (lower x (power + 1))

/-- The double that a number is read as; none if it is too large for one. Digits before the point
that do not count still stand for a place each. -/
def Numeral.toReal? (numeral : Numeral) : Option Float :=
  let (front, left) := absorb 0 numeral.whole
  let (all, skipped) := absorb front numeral.places
  let place : Int := left + skipped - numeral.places.length + numeral.power.getD 0
  (scale? (UInt64.ofNat all).toFloat place).map fun x => if numeral.negative then -x else x

end LeasePool.Json

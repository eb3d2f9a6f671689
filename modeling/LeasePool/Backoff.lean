/-!
Delays between attempts: they start at a first delay, grow by a constant factor, and stay at a
greatest delay. The growth is computed in doubles.
-/

namespace LeasePool

/-- The greater of two doubles, or the one that is a number. -/
def greater (x y : Float) : Float :=
  if x.isNaN then y else if y.isNaN then x else if x < y then y else x

/-- The smaller of two doubles, or the one that is a number. -/
def smaller (x y : Float) : Float :=
  if x.isNaN then y else if y.isNaN then x else if y < x then y else x

/-- Multiply onto `product` the powers of `base` that the binary digits of `n` call for, from the
least digit on; `base` is squared from digit to digit. -/
def powerOnto (base product : Float) (n : Nat) : Float :=
  let product := if n % 2 = 1 then product * base else product
  if n / 2 = 0 then product else powerOnto (base * base) product (n / 2)
termination_by n

/-- A double to an integer power, by repeated squaring; a negative power is the inverse of the
positive one. -/
def power (base : Float) (n : Int) : Float :=
  let product := powerOnto base 1 n.natAbs
  if n < 0 then 1 / product else product

/-- The delays between attempts. Times are in milliseconds. -/
structure Backoff where
  initial : UInt64
  max : UInt64
  multiplier : Float

namespace Backoff

/-- Delays that double from the first one on, never above `max` or the first one. -/
def new (initial max : UInt64) : Backoff :=
  ⟨initial, if max < initial then initial else max, 2⟩

def none : Backoff := new 0 0

/-- From a tenth of a second to five seconds. -/
def usual : Backoff := new 100 5000

/-- Set the factor of growth; it is at least one. -/
def withMultiplier (backoff : Backoff) (multiplier : Float) : Backoff :=
  { backoff with multiplier := greater multiplier 1 }

/-- The power of the factor before retry number `attempt`: the number read as an integer of 32 bits
with a sign. -/
def exponent (attempt : UInt32) : Int := attempt.toInt32.toInt

/-- The delay before retry number `attempt`, counted from zero. -/
def delay (backoff : Backoff) (attempt : UInt32) : UInt64 :=
  let grown := backoff.initial.toFloat * power backoff.multiplier (exponent attempt)
  (smaller grown backoff.max.toFloat).toUInt64

/-- Equality of strategies, factors compared as numbers. -/
def same (first second : Backoff) : Bool :=
  first.initial == second.initial && first.max == second.max &&
    first.multiplier == second.multiplier

end Backoff
end LeasePool

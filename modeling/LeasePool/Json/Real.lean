/-!
Doubles in JSON text: the fewest digits that round to the number, the nearest of those, and of two
equally near ones the even one; written positionally for exponents from -5 to 15 and otherwise with
an exponent that has a sign.
-/

namespace LeasePool.Json

/-- A finite double other than zero, as `significand * 2 ^ exponent`. -/
structure Binary where
  significand : Nat
  exponent : Int

/-- The magnitude that the bits of a finite double stand for. -/
def Binary.ofBits (bits : Nat) : Binary :=
  let fraction := bits % Nat.pow 2 52
  let biased : Nat := bits / Nat.pow 2 52 % Nat.pow 2 11
  if biased = 0 then ⟨fraction, -1074⟩ else ⟨fraction + Nat.pow 2 52, (biased : Int) - 1075⟩

/-- The integer part of `value / 10 ^ place`. -/
def Binary.scaled (value : Binary) (place : Int) : Nat :=
  let top := value.significand * Nat.pow 2 value.exponent.toNat * Nat.pow 10 (-place).toNat
  let bottom := Nat.pow 2 (-value.exponent).toNat * Nat.pow 10 place.toNat
  top / bottom

/-- Twice the distance of `digits * 10 ^ place` from the value, over a denominator that hangs on
the value and the place alone. -/
def Binary.distance (value : Binary) (digits : Nat) (place : Int) : Nat :=
  let top := value.significand * Nat.pow 2 value.exponent.toNat * Nat.pow 10 (-place).toNat
  let bottom := Nat.pow 2 (-value.exponent).toNat * Nat.pow 10 place.toNat
  (top - digits * bottom) + (digits * bottom - top)

/-- The double nearest to `digits * 10 ^ place`. -/
def ofDecimal (digits : Nat) (place : Int) : Float :=
  Float.ofScientific digits (place < 0) place.natAbs

/-- The digits below the value come before those above it: they are nearer, or as near and even. -/
def Binary.prefersBelow (value : Binary) (place : Int) : Bool :=
  let below := value.scaled place
  let toBelow := value.distance below place
  let toAbove := value.distance (below + 1) place
  toBelow < toAbove || (toBelow = toAbove && below % 2 = 0)

/-- The better one of the neighbours of the value among the multiples of `10 ^ place`, of those
that round to `x`. -/
def roundingTo? (x : Float) (value : Binary) (place : Int) : Option Nat :=
  let below := value.scaled place
  let ordered := if value.prefersBelow place then [below, below + 1] else [below + 1, below]
  ordered.find? fun digits => (ofDecimal digits place).toBits == x.toBits

/-- The decimal place of the first digit of the value. -/
def Binary.leadingPlace (value : Binary) : Int :=
  let estimate : Int := (((value.significand.log2 : Int) + value.exponent) * 30103) / 100000
  if value.scaled (estimate + 1) = 0 then
    if value.scaled estimate = 0 then estimate - 1 else estimate
  else estimate + 1

/-- The shortest decimal that rounds to the positive double `x`: digits and place. -/
def shortest (x : Float) : Nat × Int :=
  let value := Binary.ofBits x.toBits.toNat
  let leading := value.leadingPlace
  let places := (List.range 18).map fun (count : Nat) => leading - (count : Int)
  let found := places.findSome? fun place => (roundingTo? x value place).map fun d => (d, place)
  found.getD (value.scaled (leading - 17), leading - 17)

def exponentText : Int → List Char
  | .ofNat size => '+' :: Nat.toDigits 10 size
  | .negSucc size => '-' :: Nat.toDigits 10 (size + 1)

/-- Positional or scientific text of `digits * 10 ^ place`. -/
def decimalText (digits : List Char) (place : Int) : List Char :=
  let count := digits.length
  let point : Int := count + place
  if 0 ≤ place && point ≤ 16 then digits ++ List.replicate place.toNat '0' ++ ['.', '0']
  else if 0 < point && point ≤ 16 then
    digits.take point.toNat ++ '.' :: digits.drop point.toNat
  else if -5 < point && point ≤ 0 then
    '0' :: '.' :: List.replicate (-point).toNat '0' ++ digits
  else
    let exponent := exponentText (point - 1)
    match digits with
    | [only] => only :: 'e' :: exponent
    | first :: rest => first :: '.' :: rest ++ 'e' :: exponent
    | [] => []

/-- Drop the zeros at the end of a decimal. -/
def trimZeros (digits : Nat) (place : Int) : List Char × Int :=
  let all := (Nat.toDigits 10 digits).reverse
  let kept := all.dropWhile (· == '0')
  (kept.reverse, place + (all.length - kept.length : Nat))

/-- The text of a double; what is not finite has none in JSON and is written as null. -/
def realText (x : Float) : List Char :=
  let bits := x.toBits.toNat
  let magnitude := Float.ofBits (UInt64.ofNat (bits % Nat.pow 2 63))
  let sign := if bits < Nat.pow 2 63 then [] else ['-']
  if bits / Nat.pow 2 52 % Nat.pow 2 11 = Nat.pow 2 11 - 1 then "null".toList
  else if bits % Nat.pow 2 63 = 0 then sign ++ ['0', '.', '0']
  else
    let (digits, place) := shortest magnitude
    let (digits, place) := trimZeros digits place
    sign ++ decimalText digits place

end LeasePool.Json

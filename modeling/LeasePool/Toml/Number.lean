import LeasePool.Json.Token

/-!
Numbers of TOML documents. Digits may be set apart by single underscores. Integers fit 64 bits with
a sign; of the other numbers only infinities that are written as such may be positive and infinite.
-/

namespace LeasePool.Toml

/-- Digits at the front with single underscores between them, the underscores left out. -/
def digitsWith? (isDigit : Char → Bool) : List Char → Option (List Char × List Char)
  | [] => none
  | [c] => if isDigit c then some ([c], []) else none
  | c :: '_' :: rest =>
      if isDigit c then
        match digitsWith? isDigit rest with
        | some (more, rest) => some (c :: more, rest)
        | none => none
      else none
  | c :: next :: rest =>
      if isDigit c then
        if isDigit next then
          match digitsWith? isDigit (next :: rest) with
          | some (more, rest) => some (c :: more, rest)
          | none => none
        else some ([c], next :: rest)
      else none

/-- An optional sign at the front; tells whether it is a minus. -/
def sign : List Char → Bool × List Char
  | '+' :: rest => (false, rest)
  | '-' :: rest => (true, rest)
  | cs => (false, cs)

/-- The digits of an integer in base ten: one zero, or digits that do not start with a zero. -/
def wholeDigits? : List Char → Option (List Char × List Char)
  | '0' :: rest => some (['0'], rest)
  | cs => digitsWith? Char.isDigit cs

/-- The integer, if it fits 64 bits with a sign. -/
def fit? (n : Int) : Option Int :=
  if -(Nat.pow 2 63) ≤ n && n < Nat.pow 2 63 then some n else none

/-- The integer that digits of a base write. -/
def ofDigits (base : Nat) (digits : List Char) : Nat :=
  digits.foldl (fun n c => n * base + (Json.hexValue? c).getD 0) 0

/-- The digits of a base other than ten. -/
def isBaseDigit (base : Nat) (c : Char) : Bool :=
  match Json.hexValue? c with
  | some value => decide (value < base)
  | none => false

/-- An integer in another base, after its mark. -/
def basedInteger? (base : Nat) (cs : List Char) : Option (Int × List Char) := do
  let (digits, rest) ← digitsWith? (isBaseDigit base) cs
  let n ← fit? (ofDigits base digits)
  some (n, rest)

/-- The integer at the front. Bases other than ten have a mark and no sign. -/
def integer? : List Char → Option (Int × List Char)
  | '0' :: 'x' :: rest => basedInteger? 16 rest
  | '0' :: 'o' :: rest => basedInteger? 8 rest
  | '0' :: 'b' :: rest => basedInteger? 2 rest
  | cs => do
      let (negative, cs) := sign cs
      let (digits, rest) ← wholeDigits? cs
      let size : Int := ofDigits 10 digits
      let n ← fit? (if negative then -size else size)
      some (n, rest)

def places? : List Char → Option (List Char × List Char)
  | '.' :: rest => digitsWith? Char.isDigit rest
  | _ => none

/-- The integer after the mark of an exponent. -/
def power? : List Char → Option (Int × List Char)
  | c :: rest =>
      if c = 'e' || c = 'E' then
        let (negative, rest) := sign rest
        (digitsWith? Char.isDigit rest).map fun (digits, rest) =>
          let size : Int := ofDigits 10 digits
          (if negative then -size else size, rest)
      else none
  | [] => none

/-- A number with a point or an exponent: its size is `digits * 10 ^ power`. -/
structure Decimal where
  negative : Bool
  digits : Nat
  power : Int
deriving Repr, DecidableEq

/-- The least size that rounds to infinity and to no double. -/
def overflow : Nat := Nat.pow 2 1024 - Nat.pow 2 970

def Decimal.isBounded (decimal : Decimal) : Bool :=
  let top : Int := (Nat.toDigits 10 decimal.digits).length + decimal.power
  if decimal.digits = 0 || top ≤ 308 then true
  else if 309 < top then false
  else
    decimal.digits * Nat.pow 10 decimal.power.toNat < overflow * Nat.pow 10 (-decimal.power).toNat

def decimal? (cs : List Char) : Option (Decimal × List Char) := do
  let (negative, cs) := sign cs
  let (whole, cs) ← wholeDigits? cs
  match places? cs with
  | some (places, cs) =>
      let (power, cs) := (power? cs).getD (0, cs)
      some (⟨negative, ofDigits 10 (whole ++ places), power - places.length⟩, cs)
  | none =>
      let (power, cs) ← power? cs
      some (⟨negative, ofDigits 10 whole, power⟩, cs)

/-- The text after a number with a point or an exponent. The number must not be too large for a
double, unless it is negative. -/
def afterDecimal? (cs : List Char) : Option (List Char) := do
  let (decimal, rest) ← decimal? cs
  if decimal.negative || decimal.isBounded then some rest else none

/-- The text after an infinity or what is not a number, with an optional sign. -/
def special? (cs : List Char) : Option (List Char) :=
  let (_, cs) := sign cs
  match Json.after? ['i', 'n', 'f'] cs with
  | some rest => some rest
  | none => Json.after? ['n', 'a', 'n'] cs

end LeasePool.Toml

/-!
The text of a span of time. A duration is a number of nanoseconds; it is written in the largest unit
of which it holds at least one, with the exact remainder behind a point and no zeros at the end.
-/

namespace LeasePool

/-- A span of time in nanoseconds. -/
abbrev Duration := Nat

namespace Duration

def second : Duration := 1000000000

def millisecond : Duration := 1000000

def microsecond : Duration := 1000

def ofMillis (ms : Nat) : Duration := ms * millisecond

def toMillis (d : Duration) : Nat := d / millisecond

/-- The digits of `n` without its zeros at the end, padded on the left to `width` digits: what
stands behind the point for `n` out of `10 ^ width`. -/
def fraction (width n : Nat) : List Char :=
  let digits := Nat.toDigits 10 n
  let padded := List.replicate (width - digits.length) '0' ++ digits
  (padded.reverse.dropWhile (· == '0')).reverse

/-- A quantity of `unit`s of `10 ^ places` nanoseconds each. -/
def inUnit (d : Duration) (places : Nat) (unit : String) : String :=
  let size := Nat.pow 10 places
  let rest := fraction places (d % size)
  let point := if rest.isEmpty then [] else '.' :: rest
  String.ofList (Nat.toDigits 10 (d / size) ++ point) ++ unit

/-- The text of a duration, such as 20s, 1.5s, 1.05ms, 1.001µs or 999ns. -/
def text (d : Duration) : String :=
  if second ≤ d then inUnit d 9 "s"
  else if millisecond ≤ d then inUnit d 6 "ms"
  else if microsecond ≤ d then inUnit d 3 "µs"
  else inUnit d 0 "ns"

end Duration
end LeasePool

/-!
Dates and times of TOML documents, read into the text in which they are told: upper-case marks, and
fractions of a second of at most nine digits without zeros at the end.
-/

namespace LeasePool.Toml

/-- A number of exactly `count` digits within bounds: its digits, its value, and the rest. -/
def field? (count least greatest : Nat) (cs : List Char) :
    Option ((List Char × Nat) × List Char) :=
  let digits := cs.take count
  let value := Nat.ofDigitChars 10 digits 0
  if digits.length = count && digits.all Char.isDigit && least ≤ value && value ≤ greatest then
    some ((digits, value), cs.drop count)
  else none

/-- The text after a mark. -/
def mark? (mark : Char) : List Char → Option (List Char)
  | c :: rest => if c = mark then some rest else none
  | [] => none

def isLeapYear (year : Nat) : Bool :=
  year % 4 = 0 && (year % 100 ≠ 0 || year % 400 = 0)

def daysIn (year month : Nat) : Nat :=
  if month = 2 then (if isLeapYear year then 29 else 28)
  else if [4, 6, 9, 11].contains month then 30
  else 31

def date? (cs : List Char) : Option (List Char × List Char) := do
  let ((year, y), cs) ← field? 4 0 9999 cs
  let cs ← mark? '-' cs
  let ((month, m), cs) ← field? 2 1 12 cs
  let cs ← mark? '-' cs
  let ((day, _), cs) ← field? 2 1 (daysIn y m) cs
  some (year ++ '-' :: month ++ '-' :: day, cs)

/-- A fraction of a second, empty where none is written or it is zero. -/
def secondFraction : List Char → List Char × List Char
  | '.' :: rest =>
      match rest.takeWhile Char.isDigit with
      | [] => ([], '.' :: rest)
      | digits =>
          let kept := ((digits.take 9).reverse.dropWhile (· = '0')).reverse
          (if kept.isEmpty then [] else '.' :: kept, rest.dropWhile Char.isDigit)
  | cs => ([], cs)

def time? (cs : List Char) : Option (List Char × List Char) := do
  let ((hour, _), cs) ← field? 2 0 23 cs
  let cs ← mark? ':' cs
  let ((minute, _), cs) ← field? 2 0 59 cs
  let cs ← mark? ':' cs
  let ((second, _), cs) ← field? 2 0 60 cs
  let (fraction, cs) := secondFraction cs
  some (hour ++ ':' :: minute ++ ':' :: second ++ fraction, cs)

/-- A distance from universal time, empty where none is written. No distance has a plus sign. -/
def offset : List Char → List Char × List Char
  | [] => ([], [])
  | c :: rest =>
      if c = 'Z' || c = 'z' then (['Z'], rest)
      else if c = '+' || c = '-' then
        let found : Option (List Char × List Char) := do
          let ((hour, h), rest) ← field? 2 0 23 rest
          let rest ← mark? ':' rest
          let ((minute, m), rest) ← field? 2 0 59 rest
          some ((if h = 0 && m = 0 then '+' else c) :: hour ++ ':' :: minute, rest)
        found.getD ([], c :: rest)
      else ([], c :: rest)

/-- The time after the mark that sets it apart from a date, empty where none is written. -/
def timeOfDate : List Char → List Char × List Char
  | [] => ([], [])
  | c :: rest =>
      if c = 'T' || c = 't' || c = ' ' then
        match time? rest with
        | some (time, rest) =>
            let (distance, rest) := offset rest
            ('T' :: time ++ distance, rest)
        | none => ([], c :: rest)
      else ([], c :: rest)

/-- The date, the date and time, or the time at the front. -/
def moment? (cs : List Char) : Option (String × List Char) :=
  match date? cs with
  | some (date, cs) =>
      let (time, cs) := timeOfDate cs
      some (String.ofList (date ++ time), cs)
  | none => (time? cs).map fun (time, cs) => (String.ofList time, cs)

end LeasePool.Toml

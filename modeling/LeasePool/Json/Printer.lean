import LeasePool.Json.Basic
import LeasePool.Json.Real

/-!
JSON text of a value: compact, members in the order the value holds them, and in strings only the
quote, the backslash and the controls below U+0020 escaped.
-/

namespace LeasePool.Json

def hexDigit (n : Nat) : Char := Nat.digitChar (n % 16)

/-- The written form of one character of a string. -/
def escapeChar (c : Char) : List Char :=
  if c = '"' then ['\\', '"']
  else if c = '\\' then ['\\', '\\']
  else if c = '\x08' then ['\\', 'b']
  else if c = '\x0c' then ['\\', 'f']
  else if c = '\n' then ['\\', 'n']
  else if c = '\r' then ['\\', 'r']
  else if c = '\t' then ['\\', 't']
  else if c.toNat < 0x20 then
    ['\\', 'u', '0', '0', hexDigit (c.toNat / 16), hexDigit c.toNat]
  else [c]

def quote (s : String) : List Char := '"' :: s.toList.flatMap escapeChar ++ ['"']

def intText : Int → List Char
  | .ofNat n => Nat.toDigits 10 n
  | .negSucc n => '-' :: Nat.toDigits 10 (n + 1)

mutual

def print : Json → List Char
  | .null => ['n', 'u', 'l', 'l']
  | .bool true => ['t', 'r', 'u', 'e']
  | .bool false => ['f', 'a', 'l', 's', 'e']
  | .int n => intText n
  | .real x => realText x
  | .text s => quote s
  | .array items => '[' :: printItems items
  | .object members => '\x7b' :: printMembers members

def printItems : List Json → List Char
  | [] => [']']
  | [item] => print item ++ [']']
  | item :: next :: rest => print item ++ ',' :: printItems (next :: rest)

def printMembers : List (String × Json) → List Char
  | [] => ['\x7d']
  | [(key, value)] => quote key ++ ':' :: print value ++ ['\x7d']
  | (key, value) :: next :: rest =>
      quote key ++ ':' :: print value ++ ',' :: printMembers (next :: rest)

end

def render (value : Json) : String := String.ofList (print value)

end LeasePool.Json

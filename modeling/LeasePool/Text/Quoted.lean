import LeasePool.Text.Unprintable

/-!
Quoted text as it stands in descriptions of values: between double quotes, with the usual short
escapes, and with every character that cannot be shown written as its code in hexadecimal. Which
characters these are is a matter of tables that change with the version of Unicode.
-/

namespace LeasePool.Text

namespace Quoted

/-- The code of a character that cannot be shown, as \u and the hexadecimal digits in braces. -/
def byCode (c : Char) : List Char :=
  ['\\', 'u', '\x7b'] ++ Nat.toDigits 16 c.toNat ++ ['\x7d']

/-- The written form of one character, if those that `hidden` selects cannot be shown. -/
def encodeChar (hidden : Char → Bool) (c : Char) : List Char :=
  if c = '"' then ['\\', '"']
  else if c = '\\' then ['\\', '\\']
  else if c = '\t' then ['\\', 't']
  else if c = '\r' then ['\\', 'r']
  else if c = '\n' then ['\\', 'n']
  else if c = '\x00' then ['\\', '0']
  else if hidden c then byCode c
  else [c]

def encode (hidden : Char → Bool) (s : List Char) : List Char :=
  '"' :: s.flatMap (encodeChar hidden) ++ ['"']

end Quoted

/-- A text between quotes, if the characters that `hidden` selects cannot be shown. -/
def quotedWith (hidden : Char → Bool) (s : String) : String :=
  String.ofList (Quoted.encode hidden s.toList)

/-- A character of a text inside another one: a new line is indented. -/
def indentChar (c : Char) : List Char := if c = '\n' then ['\n', ' ', ' ', ' ', ' '] else [c]

/-- A text inside another one: its further lines are indented. -/
def indented (s : String) : String := String.ofList (s.toList.flatMap indentChar)

end LeasePool.Text

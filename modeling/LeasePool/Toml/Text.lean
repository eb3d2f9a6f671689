import LeasePool.Json.Token

/-!
The characters of TOML documents: blanks, line ends and comments, and the four forms of strings.
Each reader gives what it read and the text after it.
-/

namespace LeasePool.Toml

def isBlank (c : Char) : Bool := c = ' ' || c = '\t'

def skipBlanks (cs : List Char) : List Char := cs.dropWhile isBlank

/-- The text after the line end at its front. -/
def newline? : List Char → Option (List Char)
  | '\n' :: rest => some rest
  | '\r' :: '\n' :: rest => some rest
  | _ => none

/-- The characters that may stand anywhere in a line: all but the controls, the tab excepted. -/
def isPlain (c : Char) : Bool := c = '\t' || (0x20 ≤ c.toNat && c.toNat ≠ 0x7f)

def skipComment : List Char → List Char
  | '#' :: rest => rest.dropWhile isPlain
  | cs => cs

/-- The text after the rest of a line, which may hold a comment and nothing else. -/
def lineEnd? (cs : List Char) : Option (List Char) :=
  match skipComment (skipBlanks cs) with
  | [] => some []
  | rest => newline? rest

/-- The text after blanks, line ends and comments that are ended by a line end. The first argument
bounds the number of lines. -/
def skipLines? : Nat → List Char → Option (List Char)
  | 0, cs => some cs
  | lines + 1, cs =>
      match skipBlanks cs with
      | '#' :: rest => (newline? (skipComment ('#' :: rest))).bind (skipLines? lines)
      | '\n' :: rest => skipLines? lines rest
      | '\r' :: rest => (newline? ('\r' :: rest)).bind (skipLines? lines)
      | rest => some rest

/-- The character of an escape that has one letter. -/
def shortEscape? (c : Char) : Option Char :=
  if c = 'b' then some '\x08'
  else if c = 't' then some '\t'
  else if c = 'n' then some '\n'
  else if c = 'f' then some '\x0c'
  else if c = 'r' then some '\r'
  else if c = '"' then some '"'
  else if c = '\\' then some '\\'
  else none

/-- The character that a number stands for; half a surrogate pair stands for none. -/
def charOf? (code : Nat) : Option Char := if code.isValidChar then some (Char.ofNat code) else none

def hexNumber? (cs : List Char) : Option Nat :=
  cs.foldlM (fun n c => (Json.hexValue? c).map (n * 16 + ·)) 0

/-- What follows a backslash: the character it stands for, and the text after it. -/
def escape? : List Char → Option (Char × List Char)
  | 'u' :: rest =>
      if 4 ≤ rest.length then
        ((hexNumber? (rest.take 4)).bind charOf?).map fun c => (c, rest.drop 4)
      else none
  | 'U' :: rest =>
      if 8 ≤ rest.length then
        ((hexNumber? (rest.take 8)).bind charOf?).map fun c => (c, rest.drop 8)
      else none
  | c :: rest => (shortEscape? c).map fun c => (c, rest)
  | [] => none

/-- The content of a string between double quotes, up to its closing quote. The first argument
bounds the number of characters. -/
def basic? : Nat → List Char → Option (List Char × List Char)
  | 0, _ => none
  | _ + 1, [] => none
  | _ + 1, '"' :: rest => some ([], rest)
  | steps + 1, '\\' :: rest => do
      let (c, rest) ← escape? rest
      let (more, rest) ← basic? steps rest
      some (c :: more, rest)
  | steps + 1, c :: rest => do
      if !isPlain c then none
      let (more, rest) ← basic? steps rest
      some (c :: more, rest)

def literal? : List Char → Option (List Char × List Char)
  | [] => none
  | '\'' :: rest => some ([], rest)
  | c :: rest =>
      if isPlain c then (literal? rest).map fun (more, rest) => (c :: more, rest) else none

def skipBreaks : List Char → List Char
  | [] => []
  | '\r' :: '\n' :: rest => skipBreaks rest
  | c :: rest => if isBlank c || c = '\n' then skipBreaks rest else c :: rest

/-- The text after a backslash that ends its line, without the blanks and line ends that follow;
none if the line goes on. -/
def joinLines? (cs : List Char) : Option (List Char) :=
  (newline? (skipBlanks cs)).map skipBreaks

/-- The content of a string between three double quotes. Up to two quotes may stand before the
closing ones. The first argument bounds the number of characters. -/
def longBasic? : Nat → List Char → Option (List Char × List Char)
  | 0, _ => none
  | _ + 1, [] => none
  | _ + 1, '"' :: '"' :: '"' :: '"' :: '"' :: rest => some (['"', '"'], rest)
  | _ + 1, '"' :: '"' :: '"' :: '"' :: rest => some (['"'], rest)
  | _ + 1, '"' :: '"' :: '"' :: rest => some ([], rest)
  | steps + 1, '\\' :: rest =>
      match joinLines? rest with
      | some rest => longBasic? steps rest
      | none => do
          let (c, rest) ← escape? rest
          let (more, rest) ← longBasic? steps rest
          some (c :: more, rest)
  | steps + 1, c :: rest =>
      match newline? (c :: rest) with
      | some rest => (longBasic? steps rest).map fun (more, rest) => ('\n' :: more, rest)
      | none =>
          if isPlain c then (longBasic? steps rest).map fun (more, rest) => (c :: more, rest)
          else none

/-- The content of a string between three single quotes, in which nothing is escaped. -/
def longLiteral? : Nat → List Char → Option (List Char × List Char)
  | 0, _ => none
  | _ + 1, [] => none
  | _ + 1, '\'' :: '\'' :: '\'' :: '\'' :: '\'' :: rest => some (['\'', '\''], rest)
  | _ + 1, '\'' :: '\'' :: '\'' :: '\'' :: rest => some (['\''], rest)
  | _ + 1, '\'' :: '\'' :: '\'' :: rest => some ([], rest)
  | steps + 1, c :: rest =>
      match newline? (c :: rest) with
      | some rest => (longLiteral? steps rest).map fun (more, rest) => ('\n' :: more, rest)
      | none =>
          if isPlain c then (longLiteral? steps rest).map fun (more, rest) => (c :: more, rest)
          else none

def skipNewline (cs : List Char) : List Char := (newline? cs).getD cs

def lineString? : List Char → Option (String × List Char)
  | '"' :: rest => (basic? (rest.length + 1) rest).map fun (s, rest) => (String.ofList s, rest)
  | '\'' :: rest => (literal? rest).map fun (s, rest) => (String.ofList s, rest)
  | _ => none

/-- The string at the front, in any of its forms. -/
def string? : List Char → Option (String × List Char)
  | '"' :: '"' :: '"' :: rest =>
      (longBasic? (rest.length + 1) (skipNewline rest)).map fun (s, rest) =>
        (String.ofList s, rest)
  | '\'' :: '\'' :: '\'' :: rest =>
      (longLiteral? (rest.length + 1) (skipNewline rest)).map fun (s, rest) =>
        (String.ofList s, rest)
  | cs => lineString? cs

/-- The characters of a key without quotes. -/
def isKeyChar (c : Char) : Bool := c.isAlphanum || c = '-' || c = '_'

def keyPart? : List Char → Option (String × List Char)
  | '"' :: rest => lineString? ('"' :: rest)
  | '\'' :: rest => lineString? ('\'' :: rest)
  | cs =>
      match cs.takeWhile isKeyChar with
      | [] => none
      | part => some (String.ofList part, cs.dropWhile isKeyChar)

/-- A key of at most so many parts with points between them, and blanks around each part. -/
def keyOf? : Nat → List Char → Option (List String × List Char)
  | 0, _ => none
  | parts + 1, cs => do
      let (part, rest) ← keyPart? (skipBlanks cs)
      match skipBlanks rest with
      | '.' :: rest => (keyOf? parts rest).map fun (more, rest) => (part :: more, rest)
      | rest => some ([part], rest)

/-- How deep values may nest, and how many parts a key may have: fewer than this. -/
def nestingLimit : Nat := 80

def key? (cs : List Char) : Option (List String × List Char) := keyOf? (nestingLimit - 1) cs

end LeasePool.Toml

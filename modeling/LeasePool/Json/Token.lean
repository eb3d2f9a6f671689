import LeasePool.Json.Numeral

/-!
The tokens of JSON text. A number token keeps its digits and a string token is none when
one of its escapes names half of a surrogate pair, because whether such tokens are accepted
depends on where they stand.
-/

namespace LeasePool.Json

/-- The smallest pieces of JSON text that mean something. -/
inductive Token where
  | beginObject
  | endObject
  | beginArray
  | endArray
  | comma
  | colon
  | null
  | bool (value : Bool)
  | number (numeral : Numeral)
  | string (value : Option String)
deriving Repr, DecidableEq

/-- One element of a string: a character, or the code unit of an escape. -/
inductive Piece where
  | char (c : Char)
  | unit (code : Nat)
deriving Repr, DecidableEq

/-- The value of a hexadecimal digit in either case. -/
def hexValue? (c : Char) : Option Nat :=
  if c.isDigit then some (c.toNat - 48)
  else if 97 ≤ c.toNat && c.toNat ≤ 102 then some (c.toNat - 87)
  else if 65 ≤ c.toNat && c.toNat ≤ 70 then some (c.toNat - 55)
  else none

/-- The code unit that four hexadecimal digits write. -/
def codeUnit? (a b c d : Char) : Option Nat := do
  let a ← hexValue? a
  let b ← hexValue? b
  let c ← hexValue? c
  let d ← hexValue? d
  some (((a * 16 + b) * 16 + c) * 16 + d)

/-- The character of an escape that has one letter. -/
def shortEscape? (c : Char) : Option Char :=
  if c = '"' then some '"'
  else if c = '\\' then some '\\'
  else if c = '/' then some '/'
  else if c = 'b' then some '\x08'
  else if c = 'f' then some '\x0c'
  else if c = 'n' then some '\n'
  else if c = 'r' then some '\r'
  else if c = 't' then some '\t'
  else none

/-- The pieces up to the closing quote, and what follows it. -/
def pieces? : List Char → Option (List Piece × List Char)
  | [] => none
  | '"' :: rest => some ([], rest)
  | '\\' :: 'u' :: a :: b :: c :: d :: rest =>
      match codeUnit? a b c d, pieces? rest with
      | some code, some (more, rest) => some (.unit code :: more, rest)
      | _, _ => none
  | '\\' :: e :: rest =>
      match shortEscape? e, pieces? rest with
      | some c, some (more, rest) => some (.char c :: more, rest)
      | _, _ => none
  | c :: rest =>
      if c.toNat < 0x20 then none
      else match pieces? rest with
        | some (more, rest) => some (.char c :: more, rest)
        | none => none

/-- The code unit opens a surrogate pair. -/
def isLead (code : Nat) : Bool := 0xd800 ≤ code && code < 0xdc00

/-- The code unit closes a surrogate pair. -/
def isTrail (code : Nat) : Bool := 0xdc00 ≤ code && code < 0xe000

/-- The characters of pieces; none if half of a surrogate pair stands alone. -/
def joinPieces : List Piece → Option (List Char)
  | [] => some []
  | .char c :: rest => (joinPieces rest).map (c :: ·)
  | .unit lead :: .unit trail :: rest =>
      if isLead lead then
        if isTrail trail then
          (joinPieces rest).map
            (Char.ofNat (0x10000 + (lead - 0xd800) * 0x400 + (trail - 0xdc00)) :: ·)
        else none
      else if isTrail lead then none
      else (joinPieces (.unit trail :: rest)).map (Char.ofNat lead :: ·)
  | .unit code :: rest =>
      if isLead code || isTrail code then none
      else (joinPieces rest).map (Char.ofNat code :: ·)

theorem length_of_pieces? {cs : List Char} {found : List Piece} {rest : List Char}
    (h : pieces? cs = some (found, rest)) : rest.length < cs.length := by
  fun_induction pieces? cs generalizing found rest <;> simp_all <;> grind

def digits (cs : List Char) : List Char × List Char :=
  (cs.takeWhile Char.isDigit, cs.dropWhile Char.isDigit)

/-- The digits after a point, none where no point follows. -/
def fraction? : List Char → Option (List Char × List Char)
  | '.' :: rest =>
      let (found, rest) := digits rest
      if found.isEmpty then none else some (found, rest)
  | cs => some ([], cs)

def natural? (cs : List Char) : Option (Nat × List Char) :=
  let (found, rest) := digits cs
  if found.isEmpty then none else some (Nat.ofDigitChars 10 found 0, rest)

def signed? : List Char → Option (Int × List Char)
  | '+' :: rest => (natural? rest).map fun found => ((found.1 : Int), found.2)
  | '-' :: rest => (natural? rest).map fun found => (-(found.1 : Int), found.2)
  | cs => (natural? cs).map fun found => ((found.1 : Int), found.2)

def exponent? : List Char → Option (Option Int × List Char)
  | c :: rest =>
      if c = 'e' || c = 'E' then
        match signed? rest with
        | some (size, rest) => some (some size, rest)
        | none => none
      else some (none, c :: rest)
  | [] => some (none, [])

/-- The digits before the point: one zero, or digits that do not start with a zero. -/
def wholeDigits? (cs : List Char) : Option (List Char × List Char) :=
  match digits cs with
  | ([], _) => none
  | ('0' :: _ :: _, _) => none
  | (found, rest) => some (found, rest)

def unsigned? (negative : Bool) (cs : List Char) : Option (Numeral × List Char) := do
  let (whole, cs) ← wholeDigits? cs
  let (places, cs) ← fraction? cs
  let (power, cs) ← exponent? cs
  some (⟨negative, whole, places, power⟩, cs)

def number? : List Char → Option (Numeral × List Char)
  | '-' :: rest => unsigned? true rest
  | cs => unsigned? false cs

/-- What follows `word` at the front. -/
def after? : List Char → List Char → Option (List Char)
  | [], cs => some cs
  | _ :: _, [] => none
  | w :: word, c :: cs => if w = c then after? word cs else none

/-- The token that a word stands for, and what follows the word. -/
def word? (word : List Char) (token : Token) (cs : List Char) : Option (Token × List Char) :=
  match after? word cs with
  | some rest => some (token, rest)
  | none => none

def isBlank (c : Char) : Bool := c = ' ' || c = '\n' || c = '\t' || c = '\r'

/-- The token that a single character is. -/
def mark? (c : Char) : Option Token :=
  if c = '\x7b' then some .beginObject
  else if c = '\x7d' then some .endObject
  else if c = '[' then some .beginArray
  else if c = ']' then some .endArray
  else if c = ',' then some .comma
  else if c = ':' then some .colon
  else none

/-- The token that starts with `c`, and what follows it. -/
def token? (c : Char) (rest : List Char) : Option (Token × List Char) :=
  match mark? c with
  | some token => some (token, rest)
  | none =>
      if c = '"' then
        match pieces? rest with
        | some (found, rest) => some (.string ((joinPieces found).map String.ofList), rest)
        | none => none
      else if c = 'n' then word? ['u', 'l', 'l'] .null rest
      else if c = 't' then word? ['r', 'u', 'e'] (.bool true) rest
      else if c = 'f' then word? ['a', 'l', 's', 'e'] (.bool false) rest
      else
        match number? (c :: rest) with
        | some (numeral, rest) => some (.number numeral, rest)
        | none => none

theorem length_digits (cs : List Char) :
    (digits cs).1.length + (digits cs).2.length = cs.length := by
  rw [digits, ← List.length_append, List.takeWhile_append_dropWhile]

theorem length_of_after? {word cs rest : List Char} (h : after? word cs = some rest) :
    rest.length ≤ cs.length := by
  fun_induction after? word cs <;> grind

theorem length_of_word? {word cs rest : List Char} {token found : Token}
    (h : word? word token cs = some (found, rest)) : rest.length ≤ cs.length := by
  have := fun rest => @length_of_after? word cs rest
  unfold word? at h
  grind

theorem length_of_wholeDigits? {cs found rest : List Char}
    (h : wholeDigits? cs = some (found, rest)) : rest.length < cs.length := by
  have hsplit := length_digits cs
  unfold wholeDigits? at h
  split at h
  · simp at h
  · simp at h
  · next first rest' hnil _ heq =>
    rw [heq] at hsplit
    simp only [Option.some.injEq, Prod.mk.injEq] at h
    have := List.length_pos_iff.2 hnil
    simp only [h.2] at hsplit
    omega

theorem length_of_fraction? {cs found rest : List Char}
    (h : fraction? cs = some (found, rest)) : rest.length ≤ cs.length := by
  unfold fraction? at h
  have hsplit := length_digits
  split at h <;> grind

theorem length_of_natural? {cs rest : List Char} {n : Nat} (h : natural? cs = some (n, rest)) :
    rest.length ≤ cs.length := by
  unfold natural? at h
  have hsplit := length_digits
  grind

theorem length_of_signed? {cs rest : List Char} {n : Int} (h : signed? cs = some (n, rest)) :
    rest.length ≤ cs.length := by
  have hnat := fun tail n rest => @length_of_natural? tail rest n
  unfold signed? at h
  split at h <;> simp only [Option.map_eq_some_iff, Prod.exists, Prod.mk.injEq] at h <;> grind

theorem length_of_exponent? {cs rest : List Char} {size : Option Int}
    (h : exponent? cs = some (size, rest)) : rest.length ≤ cs.length := by
  unfold exponent? at h
  have hsplit := fun tail rest size => @length_of_signed? tail rest size
  split at h
  · split at h
    · split at h <;> grind
    · grind
  · grind

theorem length_of_unsigned? {negative : Bool} {cs rest : List Char} {numeral : Numeral}
    (h : unsigned? negative cs = some (numeral, rest)) : rest.length < cs.length := by
  unfold unsigned? at h
  simp only [Option.bind_eq_bind, Option.bind_eq_some_iff, Prod.exists, Option.some.injEq,
    Prod.mk.injEq] at h
  obtain ⟨_, _, hwhole, _, _, hplaces, _, _, hpower, _, rfl⟩ := h
  have := length_of_wholeDigits? hwhole
  have := length_of_fraction? hplaces
  have := length_of_exponent? hpower
  omega

theorem length_of_number? {cs rest : List Char} {numeral : Numeral}
    (h : number? cs = some (numeral, rest)) : rest.length < cs.length := by
  unfold number? at h
  split at h
  · have := length_of_unsigned? h
    simp only [List.length_cons]
    omega
  · exact length_of_unsigned? h

theorem length_of_token? {c : Char} {cs rest : List Char} {token : Token}
    (h : token? c cs = some (token, rest)) : rest.length < cs.length + 1 := by
  have hstring := fun found rest => @length_of_pieces? cs found rest
  have hnumber := fun numeral rest => @length_of_number? (c :: cs) rest numeral
  have hword := fun word token rest token' => @length_of_word? word cs rest token token'
  unfold token? at h
  split at h
  · grind
  · grind

/-- The tokens of a text, blanks between them skipped; none where no token can be read. -/
def Token.scan? : List Char → Option (List Token)
  | [] => some []
  | c :: rest =>
      if isBlank c then Token.scan? rest
      else match _h : token? c rest with
        | some (token, rest) => (Token.scan? rest).map (token :: ·)
        | none => none
termination_by cs => cs.length
decreasing_by
  · simp
  · simpa using length_of_token? (by assumption)

end LeasePool.Json

import LeasePool.Json.Printer
import LeasePool.Json.Tree
import Mathlib.Tactic.SplitIfs

/-!
The texts of a string. A character may be written as itself, by a letter behind a backslash, or by
its code units, with digits in lower or upper case. A reader makes the same of all of them. The text
of the printer is one.
-/

namespace LeasePool.Json

/-- The letters behind a backslash, with the characters they stand for. -/
def letters : List (Char × Char) :=
  [('"', '"'), ('\\', '\\'), ('/', '/'), ('b', '\x08'), ('f', '\x0c'), ('n', '\n'), ('r', '\r'),
    ('t', '\t')]

/-- The character is a hexadecimal digit of this value, in lower or upper case. -/
def IsHexDigit (value : Nat) (c : Char) : Prop :=
  value < 16 ∧ (c = Nat.digitChar value ∨ c = (Nat.digitChar value).toUpper)

/-- A text of four hexadecimal digits that writes a code unit. -/
inductive WritesUnit : Nat → List Char → Prop where
  | digits {i j k l : Nat} {a b c d : Char} (ha : IsHexDigit i a) (hb : IsHexDigit j b)
      (hc : IsHexDigit k c) (hd : IsHexDigit l d) :
      WritesUnit (((i * 16 + j) * 16 + k) * 16 + l) ['\\', 'u', a, b, c, d]

/-- A text that writes a character inside a string. -/
inductive WritesChar : Char → List Char → Prop where
  | self {c : Char} (hquote : c ≠ '"') (hslash : c ≠ '\\') (hshown : 0x20 ≤ c.toNat) :
      WritesChar c [c]
  | letter {c d : Char} (h : (c, d) ∈ letters) : WritesChar d ['\\', c]
  | unit {c : Char} {text : List Char} (h : WritesUnit c.toNat text) : WritesChar c text
  /-- A character beyond the code units is written by a surrogate pair. -/
  | pair {c : Char} {lead trail : Nat} {first second : List Char}
      (hlead : 0xd800 ≤ lead ∧ lead < 0xdc00) (htrail : 0xdc00 ≤ trail ∧ trail < 0xe000)
      (hcode : c.toNat = 0x10000 + (lead - 0xd800) * 0x400 + (trail - 0xdc00))
      (hfirst : WritesUnit lead first) (hsecond : WritesUnit trail second) :
      WritesChar c (first ++ second)

inductive WritesChars : List Char → List Char → Prop where
  | nil : WritesChars [] []
  | cons {c : Char} {cs text more : List Char} (h : WritesChar c text)
      (hrest : WritesChars cs more) : WritesChars (c :: cs) (text ++ more)

/-- A text that writes a string, with its quotes. -/
inductive WritesString (s : String) : List Char → Prop where
  | quoted {inner : List Char} (h : WritesChars s.toList inner) :
      WritesString s ('"' :: inner ++ ['"'])

/-- The text is some pieces, which stand for the character. -/
def IsRead (c : Char) (text : List Char) : Prop :=
  ∀ cs, ∃ found, pieces? (text ++ cs) =
      (pieces? cs).map (fun rest => (found ++ rest.1, rest.2)) ∧
    ∀ more, joinPieces (found ++ more) = (joinPieces more).map (c :: ·)

/-- After a backslash any letter but `u`, which four digits follow, is an escape of its own. -/
theorem isRead_letter {c letter : Char} (hletter : letter ≠ 'u')
    (hshort : shortEscape? letter = some c) : IsRead c ['\\', letter] := by
  intro cs
  refine ⟨[.char c], ?_, fun more => rfl⟩
  rw [List.cons_append, List.cons_append, List.nil_append, pieces?]
  · rw [hshort]
    cases pieces? cs <;> rfl
  · exact fun a b c d rest hunit => absurd hunit hletter

theorem isRead_self {c : Char} (hquote : c ≠ '"') (hslash : c ≠ '\\')
    (hcontrol : ¬c.toNat < 0x20) : IsRead c [c] := by
  intro cs
  refine ⟨[.char c], ?_, fun more => rfl⟩
  rw [List.cons_append, List.nil_append, pieces?, if_neg hcontrol]
  · cases pieces? cs <;> rfl
  · exact hquote
  · exact fun _ _ _ _ _ hc => absurd hc hslash
  · exact fun _ _ hc => absurd hc hslash

theorem hexValue?_of_isHexDigit {value : Nat} {c : Char} (h : IsHexDigit value c) :
    hexValue? c = some value := by
  have hall : ∀ n < 16, hexValue? (Nat.digitChar n) = some n ∧
      hexValue? (Nat.digitChar n).toUpper = some n := by decide
  obtain ⟨hlt, rfl | rfl⟩ := h
  · exact (hall value hlt).1
  · exact (hall value hlt).2

/-- Four digits are read as one code unit. -/
theorem WritesUnit.pieces? {code : Nat} {text : List Char} (h : WritesUnit code text)
    (cs : List Char) : Json.pieces? (text ++ cs) =
      (Json.pieces? cs).map (fun rest => (.unit code :: rest.1, rest.2)) := by
  cases h with
  | digits ha hb hc hd =>
      simp only [List.cons_append, List.nil_append]
      rw [Json.pieces?, codeUnit?]
      simp only [hexValue?_of_isHexDigit ha, hexValue?_of_isHexDigit hb,
        hexValue?_of_isHexDigit hc, hexValue?_of_isHexDigit hd, Option.bind_eq_bind,
        Option.bind_some]
      cases Json.pieces? cs <;> rfl

/-- No character is half of a surrogate pair. -/
theorem not_surrogate (c : Char) : isLead c.toNat = false ∧ isTrail c.toNat = false := by
  have hvalid : c.toNat < 0xd800 ∨ 0xdfff < c.toNat ∧ c.toNat < 0x110000 := c.valid
  simp only [isLead, isTrail, Bool.and_eq_false_iff, decide_eq_false_iff_not]
  omega

theorem joinPieces_unit_of_char (c : Char) (more : List Piece) :
    joinPieces (.unit c.toNat :: more) = (joinPieces more).map (c :: ·) := by
  obtain ⟨hlead, htrail⟩ := not_surrogate c
  cases more with
  | nil => simp [joinPieces, hlead, htrail]
  | cons piece rest => cases piece <;> simp [joinPieces, hlead, htrail]

theorem joinPieces_pair {lead trail : Nat} (hlead : 0xd800 ≤ lead ∧ lead < 0xdc00)
    (htrail : 0xdc00 ≤ trail ∧ trail < 0xe000) (more : List Piece) :
    joinPieces (.unit lead :: .unit trail :: more) = (joinPieces more).map
      (Char.ofNat (0x10000 + (lead - 0xd800) * 0x400 + (trail - 0xdc00)) :: ·) := by
  simp [joinPieces, isLead, isTrail, hlead, htrail]

theorem WritesChar.isRead {c : Char} {text : List Char} (h : WritesChar c text) :
    IsRead c text := by
  cases h with
  | self hquote hslash hshown => exact isRead_self hquote hslash (Nat.not_lt.2 hshown)
  | @letter e _ h =>
      have hall : ∀ pair ∈ letters, shortEscape? pair.1 = some pair.2 ∧ pair.1 ≠ 'u' := by decide
      exact isRead_letter (hall _ h).2 (hall _ h).1
  | unit h => exact fun cs => ⟨[.unit c.toNat], h.pieces? cs, joinPieces_unit_of_char c⟩
  | @pair _ lead trail first second hlead htrail hcode hfirst hsecond =>
      refine fun cs => ⟨[.unit lead, .unit trail], ?_, fun more => ?_⟩
      · rw [List.append_assoc, hfirst.pieces?, hsecond.pieces?, Option.map_map]
        rfl
      · rw [List.cons_append, List.cons_append, List.nil_append, joinPieces_pair hlead htrail,
          ← hcode, Char.ofNat_toNat]

theorem WritesChars.pieces? {cs text : List Char} (h : WritesChars cs text) (rest : List Char) :
    ∃ found, Json.pieces? (text ++ '"' :: rest) = some (found, rest) ∧
      joinPieces found = some cs := by
  induction h with
  | nil => exact ⟨[], rfl, rfl⟩
  | @cons c cs text more h hrest ih =>
      obtain ⟨later, hpieces, hjoin⟩ := ih
      obtain ⟨found, hfound, hchar⟩ := h.isRead (more ++ '"' :: rest)
      refine ⟨found ++ later, ?_, ?_⟩
      · rw [List.append_assoc, hfound, hpieces]
        rfl
      · rw [hchar, hjoin]
        rfl

theorem isHexDigit_hexDigit (n : Nat) : IsHexDigit (n % 16) (hexDigit n) :=
  ⟨Nat.mod_lt n (by decide), .inl rfl⟩

theorem writesChar_control {c : Char} (hcontrol : c.toNat < 0x20) :
    WritesChar c ['\\', 'u', '0', '0', hexDigit (c.toNat / 16), hexDigit c.toNat] := by
  have hzero : IsHexDigit 0 '0' := ⟨by decide, .inl rfl⟩
  have hunit := WritesUnit.digits hzero hzero (isHexDigit_hexDigit (c.toNat / 16))
    (isHexDigit_hexDigit c.toNat)
  have hcode : ((0 * 16 + 0) * 16 + c.toNat / 16 % 16) * 16 + c.toNat % 16 = c.toNat := by omega
  rw [hcode] at hunit
  exact .unit hunit

theorem writesChar_escapeChar (c : Char) : WritesChar c (escapeChar c) := by
  have hletter : ∀ {d e : Char}, c = d → (e, d) ∈ letters → WritesChar c ['\\', e] := by
    rintro d e rfl hmem
    exact .letter hmem
  simp only [escapeChar]
  split_ifs with hquote hslash hback hform hline hreturn htab hcontrol
  · exact hletter hquote (by decide)
  · exact hletter hslash (by decide)
  · exact hletter hback (by decide)
  · exact hletter hform (by decide)
  · exact hletter hline (by decide)
  · exact hletter hreturn (by decide)
  · exact hletter htab (by decide)
  · exact writesChar_control hcontrol
  · exact .self hquote hslash (Nat.le_of_not_lt hcontrol)

theorem writesChars_escape (cs : List Char) : WritesChars cs (cs.flatMap escapeChar) := by
  induction cs with
  | nil => exact .nil
  | cons c cs ih => exact .cons (writesChar_escapeChar c) ih

theorem writesString_quote (s : String) : WritesString s (quote s) :=
  .quoted (writesChars_escape s.toList)

end LeasePool.Json

import LeasePool.Proofs.JsonStrings
import Mathlib.Tactic.ByContra

/-!
The tokens of printed values. A text that a printer wrote scans to the tokens of its value, whatever
follows it; only a number must not be followed by more of a number. So the texts of the parts of a
value are scanned apart.
-/

namespace LeasePool.Json

def Numeral.ofInt : Int → Numeral
  | .ofNat n => ⟨false, Nat.toDigits 10 n, [], none⟩
  | .negSucc n => ⟨true, Nat.toDigits 10 (n + 1), [], none⟩

/-- An integer of 64 bits: without a sign, or with one bit for it. -/
def Is64 (n : Int) : Prop := -(Nat.pow 2 63 : Nat) ≤ n ∧ n < (Nat.pow 2 64 : Nat)

theorem toInt?_ofInt {n : Int} (h : Is64 n) : (Numeral.ofInt n).toInt? = some n := by
  obtain ⟨hlow, hhigh⟩ := h
  cases n with
  | ofNat n =>
      have hsize : n < Nat.pow 2 64 := Int.ofNat_lt.1 hhigh
      simp [Numeral.ofInt, Numeral.toInt?, hsize]
  | negSucc n =>
      have hsize : n + 1 ≤ Nat.pow 2 63 := by
        rw [Int.negSucc_eq] at hlow
        omega
      simp [Numeral.ofInt, Numeral.toInt?, hsize, Int.negSucc_eq]

/-- What follows a number in a text does not go on with it. -/
def Ends (rest : List Char) : Prop :=
  ∀ c ∈ rest.head?, c.isDigit = false ∧ c ≠ '.' ∧ c ≠ 'e' ∧ c ≠ 'E'

theorem ends_nil : Ends [] := by
  rintro c ⟨⟩

theorem digits_append {found rest : List Char} (hfound : ∀ c ∈ found, c.isDigit = true)
    (hrest : Ends rest) : digits (found ++ rest) = (found, rest) := by
  induction found with
  | nil =>
      cases rest with
      | nil => rfl
      | cons c rest =>
          have hc := (hrest c rfl).1
          simp [digits, hc]
  | cons c found ih =>
      obtain ⟨hc, hfound⟩ := List.forall_mem_cons.1 hfound
      have ih := ih hfound
      simp only [digits, Prod.mk.injEq] at ih
      simp [digits, hc, ih]

theorem fraction?_of_ends {rest : List Char} (hrest : Ends rest) :
    fraction? rest = some ([], rest) := by
  cases rest with
  | nil => rfl
  | cons c rest =>
      rw [fraction?]
      rintro tail ⟨⟩
      exact (hrest _ rfl).2.1 rfl

theorem exponent?_of_ends {rest : List Char} (hrest : Ends rest) :
    exponent? rest = some (none, rest) := by
  cases rest with
  | nil => rfl
  | cons c rest =>
      obtain ⟨-, -, hlower, hupper⟩ := hrest c rfl
      simp [exponent?, hlower, hupper]

/-- The first digit of a positive number is not zero. -/
theorem head?_toDigits {n : Nat} (hn : 0 < n) : (Nat.toDigits 10 n).head? ≠ some '0' := by
  induction n using Nat.strongRecOn with
  | ind n ih =>
      by_cases hlt : n < 10
      · rw [Nat.toDigits_of_lt_base hlt]
        simpa using Nat.ne_of_gt hn
      · have hfirst := ih (n / 10) (by omega) (by omega)
        obtain ⟨c, cs, hdigits⟩ := List.exists_cons_of_ne_nil (@Nat.toDigits_ne_nil (n / 10) 10)
        rw [hdigits] at hfirst
        rw [Nat.toDigits_of_base_le (by decide) (Nat.le_of_not_lt hlt), hdigits]
        exact hfirst

theorem toDigits_ne_zero_cons (n : Nat) (c : Char) (cs : List Char) :
    Nat.toDigits 10 n ≠ '0' :: c :: cs := by
  intro h
  by_cases hn : n = 0
  · subst hn
    simp at h
  · apply head?_toDigits (Nat.pos_of_ne_zero hn)
    rw [h, List.head?_cons]

theorem wholeDigits?_toDigits {n : Nat} {rest : List Char} (hrest : Ends rest) :
    wholeDigits? (Nat.toDigits 10 n ++ rest) = some (Nat.toDigits 10 n, rest) := by
  have hdigit : ∀ c ∈ Nat.toDigits 10 n, c.isDigit = true :=
    fun c => Nat.isDigit_of_mem_toDigits (by decide) (by decide)
  rw [wholeDigits?, digits_append hdigit hrest]
  split
  · next hnil => exact absurd (congrArg Prod.fst hnil) Nat.toDigits_ne_nil
  · next hzero => exact absurd (congrArg Prod.fst hzero) (toDigits_ne_zero_cons n _ _)
  · next heq => rw [heq]

theorem unsigned?_toDigits (negative : Bool) {n : Nat} {rest : List Char} (hrest : Ends rest) :
    unsigned? negative (Nat.toDigits 10 n ++ rest) =
      some (⟨negative, Nat.toDigits 10 n, [], none⟩, rest) := by
  simp [unsigned?, wholeDigits?_toDigits hrest, fraction?_of_ends hrest, exponent?_of_ends hrest]

theorem exists_toDigits_eq_cons (n : Nat) :
    ∃ c cs, Nat.toDigits 10 n = c :: cs ∧ c.isDigit = true := by
  obtain ⟨c, cs, hdigits⟩ := List.exists_cons_of_ne_nil (@Nat.toDigits_ne_nil n 10)
  have hmem : c ∈ Nat.toDigits 10 n := hdigits ▸ List.mem_cons_self
  exact ⟨c, cs, hdigits, Nat.isDigit_of_mem_toDigits (by decide) (by decide) hmem⟩

theorem number?_intText (n : Int) {rest : List Char} (hrest : Ends rest) :
    number? (intText n ++ rest) = some (Numeral.ofInt n, rest) := by
  cases n with
  | ofNat n =>
      obtain ⟨c, cs, hdigits, hc⟩ := exists_toDigits_eq_cons n
      have hunsigned := unsigned?_toDigits (n := n) false hrest
      rw [intText, Numeral.ofInt]
      rw [hdigits, List.cons_append] at hunsigned ⊢
      rw [number?, hunsigned]
      rintro tail ⟨⟩
      cases hc
  | negSucc n =>
      rw [intText, List.cons_append, number?, unsigned?_toDigits true hrest, Numeral.ofInt]

/-- The text scans to the tokens, whatever follows it. -/
def Scans (text : List Char) (tokens : List Token) : Prop :=
  ∀ rest, Token.scan? (text ++ rest) = (Token.scan? rest).map (tokens ++ ·)

/-- The text scans to the tokens, if what follows does not go on with a number. -/
def ScansBefore (text : List Char) (tokens : List Token) : Prop :=
  ∀ rest, Ends rest → Token.scan? (text ++ rest) = (Token.scan? rest).map (tokens ++ ·)

variable {first second : List Char} {before after : List Token} {c : Char}

theorem Scans.scansBefore (h : Scans first before) : ScansBefore first before :=
  fun rest _ => h rest

theorem scan?_append {tail : List Char}
    (hfirst : Token.scan? (first ++ (second ++ tail)) =
      (Token.scan? (second ++ tail)).map (before ++ ·))
    (hsecond : Token.scan? (second ++ tail) = (Token.scan? tail).map (after ++ ·)) :
    Token.scan? (first ++ second ++ tail) = (Token.scan? tail).map (before ++ after ++ ·) := by
  rw [List.append_assoc, hfirst, hsecond, Option.map_map]
  congr 1
  funext tokens
  exact (List.append_assoc _ _ _).symm

theorem Scans.append (hfirst : Scans first before) (hsecond : Scans second after) :
    Scans (first ++ second) (before ++ after) :=
  fun rest => scan?_append (hfirst _) (hsecond rest)

theorem Scans.append_before (hfirst : Scans first before) (hsecond : ScansBefore second after) :
    ScansBefore (first ++ second) (before ++ after) :=
  fun rest hrest => scan?_append (hfirst _) (hsecond rest hrest)

theorem mem_of_mark? {mark : Token} (hmark : mark? c = some mark) :
    c ∈ ['\x7b', '\x7d', '[', ']', ',', ':'] := by
  by_contra hnot
  simp only [List.mem_cons, List.not_mem_nil, or_false, not_or] at hnot
  simp [mark?, hnot] at hmark

theorem ends_of_mark? {mark : Token} (hmark : mark? c = some mark) (rest : List Char) :
    Ends (c :: rest) := by
  have hall : ∀ c ∈ ['\x7b', '\x7d', '[', ']', ',', ':'],
      c.isDigit = false ∧ c ≠ '.' ∧ c ≠ 'e' ∧ c ≠ 'E' := by simp
  rintro _ ⟨⟩
  exact hall c (mem_of_mark? hmark)

theorem ScansBefore.append {mark : Token} (hfirst : ScansBefore first before)
    (hmark : mark? c = some mark) (hsecond : Scans (c :: second) after) :
    Scans (first ++ c :: second) (before ++ after) :=
  fun rest => scan?_append (hfirst _ (ends_of_mark? hmark _)) (hsecond rest)

theorem scan?_of_token? {cs rest : List Char} {token : Token} (hblank : isBlank c = false)
    (htoken : token? c cs = some (token, rest)) :
    Token.scan? (c :: cs) = (Token.scan? rest).map (token :: ·) := by
  rw [Token.scan?, if_neg (by simp [hblank])]
  split
  · next found tail hfound =>
    rw [htoken] at hfound
    cases hfound
    rfl
  · next hnone =>
    rw [htoken] at hnone
    cases hnone

theorem scans_mark {mark : Token} (hmark : mark? c = some mark) : Scans [c] [mark] := by
  have hall : ∀ c ∈ ['\x7b', '\x7d', '[', ']', ',', ':'], isBlank c = false := by
    simp [isBlank]
  intro rest
  apply scan?_of_token? (hall c (mem_of_mark? hmark))
  simp [token?, hmark]

theorem scans_null : Scans ['n', 'u', 'l', 'l'] [.null] := fun _ => scan?_of_token? rfl rfl

theorem scans_true : Scans ['t', 'r', 'u', 'e'] [.bool true] := fun _ => scan?_of_token? rfl rfl

theorem scans_false : Scans ['f', 'a', 'l', 's', 'e'] [.bool false] :=
  fun _ => scan?_of_token? rfl rfl

/-- Every text of a string is one token. -/
theorem WritesString.scans {s : String} {text : List Char} (h : WritesString s text) :
    Scans text [.string (some s)] := by
  cases h with
  | @quoted inner h =>
      intro rest
      obtain ⟨found, hpieces, hjoin⟩ := h.pieces? rest
      have hmark : mark? '"' = none := rfl
      have htoken : token? '"' (inner ++ '"' :: rest) = some (.string (some s), rest) := by
        rw [token?, hmark, if_pos rfl, hpieces]
        simp [hjoin]
      rw [List.cons_append, List.cons_append, List.append_assoc]
      exact scan?_of_token? rfl htoken

theorem scans_quote (s : String) : Scans (quote s) [.string (some s)] :=
  (writesString_quote s).scans

/-- No other token begins like a number. -/
theorem scansBefore_of_number? {text : List Char} {numeral : Numeral}
    (htext : ∃ c cs, text = c :: cs ∧ (c = '-' ∨ c.isDigit = true))
    (hnumber : ∀ rest, Ends rest → number? (text ++ rest) = some (numeral, rest)) :
    ScansBefore text [.number numeral] := by
  obtain ⟨c, cs, rfl, hc⟩ := htext
  have hne : ∀ d : Char, d ≠ '-' → d.isDigit = false → c ≠ d := by
    rintro d hminus hdigit rfl
    exact hc.elim hminus (by simp [hdigit])
  have hmark : mark? c = none := by simp [mark?, hne]
  have hblank : isBlank c = false := by simp [isBlank, hne]
  intro rest hrest
  have hfound := hnumber rest hrest
  rw [List.cons_append] at hfound ⊢
  apply scan?_of_token? hblank
  simp [token?, hmark, hne, hfound]

theorem scansBefore_intText (n : Int) : ScansBefore (intText n) [.number (Numeral.ofInt n)] := by
  apply scansBefore_of_number? ?_ fun rest => number?_intText n
  cases n with
  | ofNat n =>
      obtain ⟨c, cs, hdigits, hc⟩ := exists_toDigits_eq_cons n
      exact ⟨c, cs, hdigits, .inr hc⟩
  | negSucc n => exact ⟨'-', _, rfl, .inl rfl⟩

mutual

def Tree.tokens : Tree → List Token
  | .null => [.null]
  | .bool value => [.bool value]
  | .number numeral => [.number numeral]
  | .text value => [.string value]
  | .array items => .beginArray :: Tree.itemTokens items
  | .object members => .beginObject :: Tree.memberTokens members

def Tree.itemTokens : List Tree → List Token
  | [] => [.endArray]
  | [item] => item.tokens ++ [.endArray]
  | item :: next :: rest => item.tokens ++ .comma :: Tree.itemTokens (next :: rest)

def Tree.memberTokens : List (Option String × Tree) → List Token
  | [] => [.endObject]
  | [(key, value)] => .string key :: .colon :: value.tokens ++ [.endObject]
  | (key, value) :: next :: rest =>
      .string key :: .colon :: value.tokens ++ .comma :: Tree.memberTokens (next :: rest)

end

mutual

/-- The tree that the text of a value without doubles writes. -/
def tree : Json → Tree
  | .null => .null
  | .bool value => .bool value
  | .int n => .number (Numeral.ofInt n)
  | .real _ => .null
  | .text s => .text (some s)
  | .array items => .array (itemTrees items)
  | .object members => .object (memberTrees members)

def itemTrees : List Json → List Tree
  | [] => []
  | item :: rest => item.tree :: itemTrees rest

def memberTrees : List (String × Json) → List (Option String × Tree)
  | [] => []
  | (key, value) :: rest => (some key, value.tree) :: memberTrees rest

end

/-- All numbers in the value are integers. -/
inductive Whole : Json → Prop where
  | null : Whole .null
  | bool (value : Bool) : Whole (.bool value)
  | int (n : Int) : Whole (.int n)
  | text (s : String) : Whole (.text s)
  | array {items : List Json} (h : ∀ item ∈ items, Whole item) : Whole (.array items)
  | object {members : List (String × Json)} (h : ∀ member ∈ members, Whole member.2) :
      Whole (.object members)

theorem scans_printItems {items : List Json}
    (h : ∀ item ∈ items, ScansBefore (print item) item.tree.tokens) :
    Scans (printItems items) (Tree.itemTokens (itemTrees items)) := by
  induction items with
  | nil => exact scans_mark rfl
  | cons item rest ih =>
      obtain ⟨hitem, hrest⟩ := List.forall_mem_cons.1 h
      cases rest with
      | nil => exact hitem.append rfl (scans_mark rfl)
      | cons next rest => exact hitem.append rfl ((scans_mark (c := ',') rfl).append (ih hrest))

theorem scansBefore_member {value : Json} (key : String)
    (h : ScansBefore (print value) value.tree.tokens) :
    ScansBefore (quote key ++ ':' :: print value)
      (.string (some key) :: .colon :: value.tree.tokens) :=
  (scans_quote key).append_before ((scans_mark (c := ':') rfl).append_before h)

theorem scans_printMembers {members : List (String × Json)}
    (h : ∀ member ∈ members, ScansBefore (print member.2) member.2.tree.tokens) :
    Scans (printMembers members) (Tree.memberTokens (memberTrees members)) := by
  induction members with
  | nil => exact scans_mark rfl
  | cons member rest ih =>
      obtain ⟨hmember, hrest⟩ := List.forall_mem_cons.1 h
      have hfirst := scansBefore_member member.1 hmember
      cases rest with
      | nil => exact hfirst.append rfl (scans_mark rfl)
      | cons next rest => exact hfirst.append rfl ((scans_mark (c := ',') rfl).append (ih hrest))

/-- The text of a value scans to the tokens of its tree. -/
theorem Whole.scansBefore_print {value : Json} (h : Whole value) :
    ScansBefore (print value) value.tree.tokens := by
  induction h with
  | null => exact scans_null.scansBefore
  | bool value =>
      cases value with
      | true => exact scans_true.scansBefore
      | false => exact scans_false.scansBefore
  | int n => exact scansBefore_intText n
  | text s => exact (scans_quote s).scansBefore
  | array h ih => exact ((scans_mark (c := '[') rfl).append (scans_printItems ih)).scansBefore
  | object h ih =>
      exact ((scans_mark (c := '\x7b') rfl).append (scans_printMembers ih)).scansBefore

theorem Whole.scan?_print {value : Json} (h : Whole value) :
    Token.scan? (print value) = some value.tree.tokens := by
  have hscan := h.scansBefore_print [] ends_nil
  simpa [Token.scan?] using hscan

end LeasePool.Json

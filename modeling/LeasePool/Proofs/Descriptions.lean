import LeasePool.Proofs.Bundles

/-!
What descriptions reveal. Quoted text is written so that it tells which text it is and where it
ends, and so are the entries of a bundle. Hence two descriptions are the same exactly if the bundles
have the same keys, and the same values under every key that is not secret.
-/

namespace LeasePool

namespace Text

universe u v

variable {α : Type u} {β : Type v} {write : α → List Char} {put : β → List Char}

/-- A written text tells what it writes, whatever follows it. -/
def Unambiguous (write : α → List Char) : Prop :=
  ∀ ⦃x y : α⦄ ⦃rest more : List Char⦄, write x ++ rest = write y ++ more → x = y ∧ rest = more

/-- No written text starts like this one. -/
def Stops (write : α → List Char) (rest : List Char) : Prop := ∀ x tail, write x ++ tail ≠ rest

/-- The same text may stand before all of them. -/
theorem Unambiguous.prepend (h : Unambiguous write) (before : List Char) :
    Unambiguous fun x => before ++ write x := by
  intro x y rest more heq
  simp only [List.append_assoc, List.append_cancel_left_eq] at heq
  exact h heq

/-- The same text may stand behind all of them. -/
theorem Unambiguous.append (h : Unambiguous write) (after : List Char) :
    Unambiguous fun x => write x ++ after := by
  intro x y rest more heq
  simp only [List.append_assoc] at heq
  obtain ⟨rfl, hrest⟩ := h heq
  exact ⟨rfl, List.append_cancel_left hrest⟩

theorem stops_prepend {before rest : List Char} (h : ∀ tail, before ++ tail ≠ rest) :
    Stops (fun x => before ++ write x) rest := by
  intro x tail
  simp only [List.append_assoc]
  exact h _

theorem Unambiguous.pair (hwrite : Unambiguous write) (hput : Unambiguous put)
    (between : List Char) :
    Unambiguous fun pair : α × β => write pair.1 ++ between ++ put pair.2 := by
  intro x y rest more heq
  simp only [List.append_assoc] at heq
  obtain ⟨hfirst, hbetween⟩ := hwrite heq
  obtain ⟨hsecond, hrest⟩ := hput (List.append_cancel_left hbetween)
  exact ⟨Prod.ext hfirst hsecond, hrest⟩

/-- Texts one after the other, up to where none of them starts. -/
theorem Unambiguous.flatMap (h : Unambiguous write) {rest more : List Char}
    (hrest : Stops write rest) (hmore : Stops write more) {xs ys : List α}
    (heq : xs.flatMap write ++ rest = ys.flatMap write ++ more) : xs = ys ∧ rest = more := by
  induction xs generalizing ys with
  | nil =>
      cases ys with
      | nil => exact ⟨rfl, heq⟩
      | cons y ys =>
          rw [List.flatMap_cons, List.append_assoc] at heq
          exact absurd heq.symm (hrest _ _)
  | cons x xs ih =>
      cases ys with
      | nil =>
          rw [List.flatMap_cons, List.append_assoc] at heq
          exact absurd heq (hmore _ _)
      | cons y ys =>
          simp only [List.flatMap_cons, List.append_assoc] at heq
          obtain ⟨rfl, htail⟩ := h heq
          obtain ⟨rfl, hlast⟩ := ih htail
          exact ⟨rfl, hlast⟩

theorem intercalate_cons (between : List Char) (x : α) (xs : List α) :
    between.intercalate ((x :: xs).map write) =
      write x ++ xs.flatMap fun other => between ++ write other := by
  induction xs generalizing x with
  | nil => rw [List.map_singleton, List.intercalate_singleton, List.flatMap_nil, List.append_nil]
  | cons y ys ih =>
      rw [List.map_cons, List.map_cons, List.intercalate_cons_cons, ← List.map_cons, ih,
        List.flatMap_cons]
      simp only [List.append_assoc]

/-- Texts with the same text between each two of them, up to where nothing goes on. -/
theorem Unambiguous.intercalate (h : Unambiguous write) {between rest more : List Char}
    (hrest : Stops write rest) (hmore : Stops write more)
    (hlast : ∀ tail, between ++ tail ≠ rest) (hfinal : ∀ tail, between ++ tail ≠ more)
    {xs ys : List α} (heq : between.intercalate (xs.map write) ++ rest =
      between.intercalate (ys.map write) ++ more) : xs = ys ∧ rest = more := by
  cases xs with
  | nil =>
      cases ys with
      | nil => exact ⟨rfl, heq⟩
      | cons y ys =>
          rw [intercalate_cons, List.append_assoc] at heq
          exact absurd heq.symm (hrest _ _)
  | cons x xs =>
      cases ys with
      | nil =>
          rw [intercalate_cons, List.append_assoc] at heq
          exact absurd heq (hmore _ _)
      | cons y ys =>
          rw [intercalate_cons, intercalate_cons, List.append_assoc, List.append_assoc] at heq
          obtain ⟨rfl, htail⟩ := h heq
          obtain ⟨rfl, hend⟩ :=
            (h.prepend between).flatMap (stops_prepend hlast) (stops_prepend hfinal) htail
          exact ⟨rfl, hend⟩

namespace Quoted

variable {c d : Char} {text other rest more : List Char}

/-- The last hexadecimal digit behind the others. -/
theorem toDigits_eq_append (n : Nat) : Nat.toDigits 16 n =
    (if n < 16 then [] else Nat.toDigits 16 (n / 16)) ++ [Nat.digitChar (n % 16)] := by
  rw [Nat.toDigits_eq_if (by decide)]
  split
  · next hlt => rw [Nat.mod_eq_of_lt hlt, List.nil_append]
  · rfl

/-- Hexadecimal digits tell the number. -/
theorem toDigits_injective : Function.Injective (Nat.toDigits 16) := by
  have hdigit : ∀ m < 16, ∀ n < 16, Nat.digitChar m = Nat.digitChar n → m = n := by decide
  intro m
  induction m using Nat.strongRecOn with
  | ind m ih =>
      intro n heq
      rw [toDigits_eq_append m, toDigits_eq_append n] at heq
      obtain ⟨hfront, hlast⟩ := List.append_inj' heq rfl
      have hmod : m % 16 = n % 16 :=
        hdigit _ (Nat.mod_lt _ (by decide)) _ (Nat.mod_lt _ (by decide))
          (List.singleton_inj.1 hlast)
      by_cases hm : m < 16 <;> by_cases hn : n < 16 <;>
        simp only [hm, hn, if_true, if_false] at hfront
      · omega
      · exact absurd hfront.symm Nat.toDigits_ne_nil
      · exact absurd hfront Nat.toDigits_ne_nil
      · have hdiv : m / 16 = n / 16 := ih _ (by omega) hfront
        omega

/-- No digit is a brace. -/
theorem brace_not_mem_toDigits (n : Nat) : '\x7d' ∉ Nat.toDigits 16 n := by
  have hdigit : ∀ m < 16, Nat.digitChar m ≠ '\x7d' := by decide
  induction n using Nat.strongRecOn with
  | ind n ih =>
      rw [toDigits_eq_append, List.mem_append, List.mem_singleton, not_or]
      refine ⟨?_, (hdigit _ (Nat.mod_lt _ (by decide))).symm⟩
      split
      · exact List.not_mem_nil
      · exact ih _ (by omega)

/-- The characters that a letter behind a backslash writes. -/
def letters : List (Char × Char) :=
  [('"', '"'), ('\\', '\\'), ('\t', 't'), ('\r', 'r'), ('\n', 'n'), ('\x00', '0')]

/-- The ways to write a character. -/
inductive Encodes (c : Char) : List Char → Prop where
  | letter {letter : Char} (h : (c, letter) ∈ letters) : Encodes c ['\\', letter]
  | code : Encodes c (byCode c)
  | self (hquote : c ≠ '"') (hslash : c ≠ '\\') : Encodes c [c]

theorem encodes_encodeChar (hidden : Char → Bool) (c : Char) :
    Encodes c (encodeChar hidden c) := by
  have hletter : ∀ {d letter : Char}, c = d → (d, letter) ∈ letters → Encodes c ['\\', letter] := by
    rintro d letter rfl hmem
    exact .letter hmem
  simp only [encodeChar]
  split_ifs with hquote hslash htab hreturn hline hnull hcode
  · exact hletter hquote (by decide)
  · exact hletter hslash (by decide)
  · exact hletter htab (by decide)
  · exact hletter hreturn (by decide)
  · exact hletter hline (by decide)
  · exact hletter hnull (by decide)
  · exact .code
  · exact .self hquote hslash

/-- Texts without a mark end where the mark stands. -/
theorem append_mark_inj {mark : Char} (htext : mark ∉ text) (hother : mark ∉ other)
    (heq : text ++ mark :: rest = other ++ mark :: more) : text = other ∧ rest = more := by
  rcases List.append_eq_append_iff.1 heq with ⟨front, rfl, htail⟩ | ⟨front, rfl, htail⟩ <;>
    cases front <;> simp_all

/-- A code ends at its brace. -/
theorem byCode_unambiguous : Unambiguous byCode := by
  intro c d rest more heq
  simp only [byCode, List.append_assoc, List.append_cancel_left_eq, List.singleton_append] at heq
  obtain ⟨hdigits, hrest⟩ :=
    append_mark_inj (brace_not_mem_toDigits _) (brace_not_mem_toDigits _) heq
  exact ⟨Char.toNat_inj.1 (toDigits_injective hdigits), hrest⟩

theorem eq_of_letter {letter : Char} (hc : (c, letter) ∈ letters) (hd : (d, letter) ∈ letters) :
    c = d := by
  have hall : ∀ first ∈ letters, ∀ second ∈ letters,
      first.2 = second.2 → first.1 = second.1 := by decide
  exact hall _ hc _ hd rfl

theorem ne_of_letter {letter : Char} (h : (c, letter) ∈ letters) : letter ≠ 'u' := by
  have hall : ∀ entry ∈ letters, entry.2 ≠ 'u' := by decide
  exact hall _ h

theorem Encodes.unambiguous (hc : Encodes c text) (hd : Encodes d other)
    (heq : text ++ rest = other ++ more) : c = d ∧ rest = more := by
  cases hc with
  | letter hletter =>
      cases hd with
      | letter hother =>
          simp only [List.cons_append, List.nil_append, List.cons.injEq, true_and] at heq
          obtain ⟨rfl, hrest⟩ := heq
          exact ⟨eq_of_letter hletter hother, hrest⟩
      | code =>
          simp only [byCode, List.cons_append, List.cons.injEq, true_and] at heq
          exact absurd heq.1 (ne_of_letter hletter)
      | self _ hslash =>
          simp only [List.cons_append, List.cons.injEq] at heq
          exact absurd heq.1.symm hslash
  | code =>
      cases hd with
      | letter hother =>
          simp only [byCode, List.cons_append, List.cons.injEq, true_and] at heq
          exact absurd heq.1.symm (ne_of_letter hother)
      | code => exact byCode_unambiguous heq
      | self _ hslash =>
          simp only [byCode, List.cons_append, List.cons.injEq] at heq
          exact absurd heq.1.symm hslash
  | self _ hslash =>
      cases hd with
      | letter _ =>
          simp only [List.cons_append, List.cons.injEq] at heq
          exact absurd heq.1 hslash
      | code =>
          simp only [byCode, List.cons_append, List.cons.injEq] at heq
          exact absurd heq.1 hslash
      | self _ _ => exact List.cons_eq_cons.1 heq

theorem encodeChar_unambiguous (hidden : Char → Bool) : Unambiguous (encodeChar hidden) :=
  fun c d _ _ heq => (encodes_encodeChar hidden c).unambiguous (encodes_encodeChar hidden d) heq

theorem Encodes.ne_quote (h : Encodes c text) : text ++ rest ≠ '"' :: more := by
  cases h with
  | letter h => simp
  | code => simp [byCode]
  | self hquote _ => simp [hquote]

/-- A quoted text ends at its second quote. -/
theorem encode_unambiguous (hidden : Char → Bool) : Unambiguous (encode hidden) := by
  have hstops : ∀ more, Stops (encodeChar hidden) ('"' :: more) := fun _ c _ =>
    (encodes_encodeChar hidden c).ne_quote
  intro first second rest more heq
  simp only [encode, List.cons_append, List.append_assoc, List.cons.injEq,
    true_and] at heq
  obtain ⟨rfl, hrest⟩ := (encodeChar_unambiguous hidden).flatMap (hstops rest) (hstops more) heq
  exact ⟨rfl, List.tail_eq_of_cons_eq hrest⟩

end Quoted

theorem indentChar_unambiguous : Unambiguous indentChar := by
  intro c d rest more heq
  unfold indentChar at heq
  split at heq <;> split at heq
  · next hc hd => exact ⟨hc.trans hd.symm, List.append_cancel_left heq⟩
  · next hd => exact absurd (List.cons_eq_cons.1 heq).1.symm hd
  · next hc _ => exact absurd (List.cons_eq_cons.1 heq).1 hc
  · exact List.cons_eq_cons.1 heq

theorem indentChar_ne_nil (c : Char) (tail : List Char) : indentChar c ++ tail ≠ [] := by
  unfold indentChar
  split <;> simp

/-- The indentation of a text can be undone. -/
theorem indented_injective : Function.Injective indented := by
  intro first second heq
  have hlist := String.ofList_injective heq
  rw [← List.append_nil (List.flatMap _ first.toList),
    ← List.append_nil (List.flatMap _ second.toList)] at hlist
  exact String.toList_inj.1
    (indentChar_unambiguous.flatMap indentChar_ne_nil indentChar_ne_nil hlist).1

end Text

namespace Params

/-- The entries of a bundle as its descriptions show them. -/
def shownEntries (params : Params) : List (String × String) :=
  params.toList.map fun entry => (entry.1, shown entry.1 entry.2)

/-- The bundles have the same keys, and the same values under those that are not secret. -/
def Alike (first second : Params) : Prop :=
  ∀ key, (first.get? key).isSome = (second.get? key).isSome ∧
    (isSecret key = false → first.get? key = second.get? key)

variable {first second : Params}

theorem get?_shownEntries (params : Params) (key : String) :
    Keyed.find? key params.shownEntries = (params.get? key).map (shown key) := by
  rw [shownEntries, toList, get?]
  induction params.entries with
  | nil => rfl
  | cons entry rest ih =>
      rw [List.map_cons, Keyed.find?, Keyed.find?, ih]
      split
      · next hkey => rw [hkey, Option.map_some]
      · rfl

theorem keyed_shownEntries (params : Params) : Keyed params.shownEntries :=
  List.pairwise_map.2 params.keyed

theorem map_shown_eq_iff {key : String} {value other : Option String} :
    value.map (shown key) = other.map (shown key) ↔
      value.isSome = other.isSome ∧ (isSecret key = false → value = other) := by
  unfold shown
  cases hsecret : isSecret key <;> cases value <;> cases other <;> simp

/-- Alike are the bundles of which the same is shown. -/
theorem shownEntries_eq_iff : first.shownEntries = second.shownEntries ↔ first.Alike second := by
  constructor
  · intro heq key
    rw [← map_shown_eq_iff, ← get?_shownEntries, heq, get?_shownEntries]
  · intro halike
    refine Keyed.ext (keyed_shownEntries first) (keyed_shownEntries second) fun key => ?_
    rw [get?_shownEntries, get?_shownEntries, map_shown_eq_iff]
    exact halike key

/-- The text of an entry as it is shown. -/
def writeEntry (hidden : Char → Bool) (entry : String × String) : List Char :=
  Text.Quoted.encode hidden entry.1.toList ++ [':', ' '] ++
    Text.Quoted.encode hidden entry.2.toList

theorem writeEntry_unambiguous (hidden : Char → Bool) :
    Text.Unambiguous (writeEntry hidden) := by
  have hquoted : Text.Unambiguous fun s : String => Text.Quoted.encode hidden s.toList := by
    intro x y rest more heq
    obtain ⟨hlist, hrest⟩ := Text.Quoted.encode_unambiguous hidden heq
    exact ⟨String.toList_inj.1 hlist, hrest⟩
  exact hquoted.pair hquoted [':', ' ']

/-- An entry starts with a quote. -/
theorem stops_writeEntry (hidden : Char → Bool) {c : Char} (hc : c ≠ '"') (rest : List Char) :
    Text.Stops (writeEntry hidden) (c :: rest) := by
  intro entry tail heq
  exact hc (List.cons_eq_cons.1 heq).1.symm

theorem toList_describeEntry (hidden : Char → Bool) (entry : String × String) :
    (describeEntry hidden entry).toList =
      writeEntry hidden (entry.1, shown entry.1 entry.2) := by
  simp only [describeEntry, Text.quotedWith, String.toList_append, String.toList_ofList, writeEntry]
  rfl

theorem toList_describeWith (hidden : Char → Bool) (params : Params) :
    (params.describeWith hidden).toList = '\x7b' ::
      ([',', ' '].intercalate (params.shownEntries.map (writeEntry hidden)) ++ ['\x7d']) := by
  have hentries : (params.entries.map (describeEntry hidden)).map String.toList =
      params.shownEntries.map (writeEntry hidden) := by
    rw [shownEntries, List.map_map, List.map_map]
    exact List.map_congr_left fun entry _ => toList_describeEntry hidden entry
  rw [describeWith, String.toList_append, String.toList_append, String.toList_intercalate, hentries]
  rfl

theorem describeWith_eq_iff (hidden : Char → Bool) :
    first.describeWith hidden = second.describeWith hidden ↔
      first.shownEntries = second.shownEntries := by
  rw [← String.toList_inj, toList_describeWith, toList_describeWith]
  constructor
  · intro heq
    have hstops := stops_writeEntry hidden (c := '\x7d') (by decide) []
    exact ((writeEntry_unambiguous hidden).intercalate hstops hstops (by simp) (by simp)
      (List.cons_eq_cons.1 heq).2).1
  · intro heq
    rw [heq]

/-- The line of an entry as it is shown. -/
def writeLine (hidden : Char → Bool) (entry : String × String) : List Char :=
  [' ', ' ', ' ', ' '] ++ writeEntry hidden entry ++ [',', '\n']

theorem toList_describeLinesWith (hidden : Char → Bool) (params : Params) :
    (params.describeLinesWith hidden).toList = '\x7b' ::
      ((if params.shownEntries.isEmpty then [] else ['\n']) ++
        params.shownEntries.flatMap (writeLine hidden) ++ ['\x7d']) := by
  have hempty : params.shownEntries.isEmpty = params.isEmpty := by
    rw [shownEntries, List.isEmpty_map, toList, isEmpty]
  rw [describeLinesWith, hempty]
  split
  · next h =>
    rw [isEmpty, List.isEmpty_iff] at h
    rw [shownEntries, toList, h]
    rfl
  · have hlines : (params.entries.map fun entry =>
        ("    " ++ describeEntry hidden entry ++ ",\n").toList) =
        params.shownEntries.map (writeLine hidden) := by
      rw [shownEntries, toList, List.map_map]
      refine List.map_congr_left fun entry _ => ?_
      rw [String.toList_append, String.toList_append, toList_describeEntry]
      rfl
    rw [String.toList_append, String.toList_append, String.toList_join, List.flatMap_def,
      List.map_map, Function.comp_def, hlines]
    rfl

theorem describeLinesWith_eq_iff (hidden : Char → Bool) :
    first.describeLinesWith hidden = second.describeLinesWith hidden ↔
      first.shownEntries = second.shownEntries := by
  rw [← String.toList_inj, toList_describeLinesWith, toList_describeLinesWith]
  constructor
  · intro heq
    have hlines : Text.Unambiguous (writeLine hidden) :=
      ((writeEntry_unambiguous hidden).prepend _).append _
    have hstops : Text.Stops (writeLine hidden) ['\x7d'] := by
      intro entry tail
      simp [writeLine]
    generalize first.shownEntries = xs, second.shownEntries = ys at heq
    cases xs with
    | nil => cases ys <;> simp_all
    | cons x xs =>
        cases ys with
        | nil => simp at heq
        | cons y ys =>
          rw [List.isEmpty_cons, List.isEmpty_cons, List.append_assoc, List.append_assoc] at heq
          exact (hlines.flatMap hstops hstops
            (List.append_cancel_left (List.cons_eq_cons.1 heq).2)).1
  · intro heq
    rw [heq]

end Params

namespace Config

variable {config : Config} {first second : Params}

/-- The parameters stand at one place of a description. -/
theorem exists_describeWith_eq (hidden : Char → Bool) (config : Config) : ∃ front, ∀ params,
    { config with params := params }.describeWith hidden =
      front ++ params.describeWith hidden ++ " \x7d" := by
  dsimp only [describeWith]
  exact ⟨_, fun _ => rfl⟩

theorem exists_describeLinesWith_eq (hidden : Char → Bool) (config : Config) : ∃ front, ∀ params,
    { config with params := params }.describeLinesWith hidden =
      front ++ Text.indented (params.describeLinesWith hidden) ++ ",\n\x7d" := by
  dsimp only [describeLinesWith]
  exact ⟨_, fun _ => rfl⟩

/-- Configurations that differ only in their parameters are described by these. -/
theorem describeWith_params_eq_iff (hidden : Char → Bool) :
    { config with params := first }.describeWith hidden =
        { config with params := second }.describeWith hidden ↔
      first.describeWith hidden = second.describeWith hidden := by
  obtain ⟨front, hfront⟩ := exists_describeWith_eq hidden config
  rw [hfront, hfront, String.append_left_inj, String.append_right_inj]

theorem describeLinesWith_params_eq_iff (hidden : Char → Bool) :
    { config with params := first }.describeLinesWith hidden =
        { config with params := second }.describeLinesWith hidden ↔
      first.describeLinesWith hidden = second.describeLinesWith hidden := by
  obtain ⟨front, hfront⟩ := exists_describeLinesWith_eq hidden config
  rw [hfront, hfront, String.append_left_inj, String.append_right_inj,
    Text.indented_injective.eq_iff]

end Config

/-- A description tells the keys and the values that are not secret, and nothing else: whichever
characters cannot be shown, two bundles have the same description on one line, or over several, if
and only if they are alike, and so have two configurations that differ only in their bundles. -/
theorem Params.describe_eq_iff_alike (hidden : Char → Bool) (first second : Params) :
    (first.describeWith hidden = second.describeWith hidden ↔ first.Alike second) ∧
      (first.describeLinesWith hidden = second.describeLinesWith hidden ↔ first.Alike second) ∧
      ∀ config : Config,
        ({ config with params := first }.describeWith hidden =
            { config with params := second }.describeWith hidden ↔ first.Alike second) ∧
        ({ config with params := first }.describeLinesWith hidden =
            { config with params := second }.describeLinesWith hidden ↔ first.Alike second) := by
  have hline : first.describeWith hidden = second.describeWith hidden ↔ first.Alike second :=
    (describeWith_eq_iff hidden).trans shownEntries_eq_iff
  have hlines : first.describeLinesWith hidden = second.describeLinesWith hidden ↔
      first.Alike second := (describeLinesWith_eq_iff hidden).trans shownEntries_eq_iff
  exact ⟨hline, hlines, fun config => ⟨(Config.describeWith_params_eq_iff hidden).trans hline,
    (Config.describeLinesWith_params_eq_iff hidden).trans hlines⟩⟩

end LeasePool

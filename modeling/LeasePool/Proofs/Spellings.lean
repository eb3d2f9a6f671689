import LeasePool.Proofs.JsonTrees

/-!
Spellings of an object of strings. Blanks may stand around its tokens, and each key and value has
many texts. A reader makes the same of all of them. The text of the printer is one.
-/

namespace LeasePool.Json

def IsSpace (text : List Char) : Prop := ∀ c ∈ text, c ∈ [' ', '\n', '\t', '\r']

inductive WritesMember (key value : String) : List Char → Prop where
  | spaced {a b c d first second : List Char} (ha : IsSpace a) (hb : IsSpace b) (hc : IsSpace c)
      (hd : IsSpace d) (hkey : WritesString key first) (hvalue : WritesString value second) :
      WritesMember key value (a ++ first ++ (b ++ ':' :: (c ++ second ++ d)))

/-- A text that writes members, and the brace behind them. -/
inductive WritesMembers : List (String × String) → List Char → Prop where
  | last {key value : String} {text : List Char} (h : WritesMember key value text) :
      WritesMembers [(key, value)] (text ++ ['\x7d'])
  | cons {key value : String} {pairs : List (String × String)} {text more : List Char}
      (h : WritesMember key value text) (hrest : WritesMembers pairs more) :
      WritesMembers ((key, value) :: pairs) (text ++ ',' :: more)

/-- A text that writes an object with these members in this order; a key may stand there more than
once. -/
inductive WritesObject : List (String × String) → List Char → Prop where
  | empty {a b c : List Char} (ha : IsSpace a) (hb : IsSpace b) (hc : IsSpace c) :
      WritesObject [] (a ++ '\x7b' :: (b ++ '\x7d' :: c))
  | members {pairs : List (String × String)} {a c text : List Char} (ha : IsSpace a)
      (hc : IsSpace c) (h : WritesMembers pairs text) :
      WritesObject pairs (a ++ '\x7b' :: (text ++ c))

def textObject (pairs : List (String × String)) : Json :=
  .object (pairs.map fun (key, value) => (key, .text value))

theorem IsSpace.scans {text : List Char} (h : IsSpace text) : Scans text [] := by
  have hall : [' ', '\n', '\t', '\r'].all isBlank = true := by decide
  intro rest
  induction text with
  | nil => simp
  | cons c text ih =>
      obtain ⟨hc, htext⟩ := List.forall_mem_cons.1 h
      rw [List.cons_append, Token.scan?, if_pos (List.all_eq_true.1 hall c hc)]
      exact ih htext

theorem WritesMember.scans {key value : String} {text : List Char}
    (h : WritesMember key value text) :
    Scans text [.string (some key), .colon, .string (some value)] := by
  cases h with
  | spaced ha hb hc hd hkey hvalue =>
      exact (ha.scans.append hkey.scans).append (hb.scans.append
        ((scans_mark (c := ':') rfl).append ((hc.scans.append hvalue.scans).append hd.scans)))

theorem WritesMembers.scans {pairs : List (String × String)} {text : List Char}
    (h : WritesMembers pairs text) :
    Scans text (Tree.memberTokens (memberTrees (pairs.map fun (key, value) =>
      (key, .text value)))) := by
  induction h with
  | last h => exact h.scans.append (scans_mark rfl)
  | @cons key value pairs text more h hrest ih =>
      have hall := h.scans.append ((scans_mark (c := ',') rfl).append ih)
      cases hrest with
      | last | cons => exact hall

theorem WritesObject.scans {pairs : List (String × String)} {text : List Char}
    (h : WritesObject pairs text) : Scans text (textObject pairs).tree.tokens := by
  cases h with
  | empty ha hb hc =>
      exact ha.scans.append ((scans_mark (c := '\x7b') rfl).append
        (hb.scans.append ((scans_mark (c := '\x7d') rfl).append hc.scans)))
  | members ha hc h =>
      have hall := ha.scans.append ((scans_mark (c := '\x7b') rfl).append (h.scans.append hc.scans))
      rw [List.append_nil] at hall
      exact hall

/-- Every text of an object of strings is read as the object's tree. -/
theorem WritesObject.parse? {pairs : List (String × String)} {text : List Char}
    (h : WritesObject pairs text) : Tree.parse? text = some (textObject pairs).tree := by
  have hscan := h.scans []
  rw [List.append_nil] at hscan
  rw [Tree.parse?, hscan]
  simp [Token.scan?, Tree.ofTokens?_tokens]

theorem isSpace_nil : IsSpace [] := by
  rintro c ⟨⟩

theorem writesMember_print (key value : String) :
    WritesMember key value (quote key ++ ':' :: print (.text value)) := by
  have hspaced := WritesMember.spaced isSpace_nil isSpace_nil isSpace_nil isSpace_nil
    (writesString_quote key) (writesString_quote value)
  rw [List.append_nil] at hspaced
  exact hspaced

theorem writesMembers_print {pairs : List (String × String)} (hne : pairs ≠ []) :
    WritesMembers pairs (printMembers (pairs.map fun (key, value) => (key, .text value))) := by
  induction pairs with
  | nil => exact absurd rfl hne
  | cons pair rest ih =>
      have hfirst := writesMember_print pair.1 pair.2
      cases rest with
      | nil => exact .last hfirst
      | cons next rest => exact .cons hfirst (ih (List.cons_ne_nil _ _))

theorem writesObject_print (pairs : List (String × String)) :
    WritesObject pairs (print (textObject pairs)) := by
  cases pairs with
  | nil => exact .empty isSpace_nil isSpace_nil isSpace_nil
  | cons pair rest =>
      have hmembers := WritesObject.members isSpace_nil isSpace_nil
        (writesMembers_print (List.cons_ne_nil pair rest))
      rw [List.append_nil] at hmembers
      exact hmembers

end LeasePool.Json

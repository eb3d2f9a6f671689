import LeasePool.Json.Reader
import LeasePool.Proofs.JsonTokens
import Mathlib.Data.List.Nodup

/-!
The trees of printed values. Tokens of a tree are read as this tree, and the tree of a value is
judged to be the value, if it nests no deeper than a reader goes, its integers are of 64 bits and
the keys of its objects are in order. A record is read field by field from the object that was
written with them.
-/

namespace LeasePool.Json

namespace Tree

/-- Induction on a tree: its items, or the values of its members, come before it. -/
@[elab_as_elim]
theorem induct {motive : Tree → Prop} (null : motive .null) (bool : ∀ value, motive (.bool value))
    (number : ∀ numeral, motive (.number numeral)) (text : ∀ value, motive (.text value))
    (array : ∀ items, (∀ item ∈ items, motive item) → motive (.array items))
    (object : ∀ members, (∀ member ∈ members, motive member.2) → motive (.object members)) :
    ∀ tree, motive tree
  | .null => null
  | .bool value => bool value
  | .number numeral => number numeral
  | .text value => text value
  | .array items =>
      array items fun item _ => induct null bool number text array object item
  | .object members =>
      object members fun member _ => induct null bool number text array object member.2
termination_by tree => sizeOf tree
decreasing_by
  · have hlt := List.sizeOf_lt_of_mem ‹_›
    simp only [Tree.array.sizeOf_spec]
    omega
  · have hlt := List.sizeOf_lt_of_mem ‹_›
    obtain ⟨key, value⟩ := member
    simp only [Tree.object.sizeOf_spec, Prod.mk.sizeOf_spec] at hlt ⊢
    omega

/-- The tokens of the tree, with others behind them, are read as the tree. -/
def Reads (tree : Tree) : Prop :=
  ∀ steps rest, 2 * tree.tokens.length ≤ steps →
    value? steps (tree.tokens ++ rest) = some (tree, rest)

variable {items : List Tree} {members : List (Option String × Tree)} {rest : List Token}
  {steps : Nat}

theorem items?_itemTokens (h : ∀ item ∈ items, item.Reads) (hne : items ≠ [])
    (hsteps : 2 * (itemTokens items).length ≤ steps) :
    items? steps (itemTokens items ++ rest) = some (items, rest) := by
  induction items generalizing steps with
  | nil => exact absurd rfl hne
  | cons item more ih =>
      obtain ⟨hitem, hmore⟩ := List.forall_mem_cons.1 h
      cases more with
      | nil =>
          simp only [itemTokens, List.length_append, List.length_singleton] at hsteps ⊢
          obtain ⟨steps, rfl⟩ : ∃ n, steps = n + 1 := ⟨steps - 1, by omega⟩
          rw [items?, List.append_assoc, hitem steps _ (by omega)]
          rfl
      | cons next more =>
          simp only [itemTokens, List.length_append, List.length_cons] at hsteps ⊢
          obtain ⟨steps, rfl⟩ : ∃ n, steps = n + 1 := ⟨steps - 1, by omega⟩
          rw [items?, List.append_assoc, hitem steps _ (by omega), List.cons_append]
          simp only [ih hmore (List.cons_ne_nil _ _) (show _ ≤ steps by omega)]

theorem members?_memberTokens (h : ∀ member ∈ members, member.2.Reads) (hne : members ≠ [])
    (hsteps : 2 * (memberTokens members).length ≤ steps) :
    members? steps (memberTokens members ++ rest) = some (members, rest) := by
  induction members generalizing steps with
  | nil => exact absurd rfl hne
  | cons member more ih =>
      obtain ⟨hmember, hmore⟩ := List.forall_mem_cons.1 h
      obtain ⟨key, value⟩ := member
      have hvalue : value.Reads := hmember
      cases more with
      | nil =>
          simp only [memberTokens, List.length_append, List.length_cons] at hsteps ⊢
          obtain ⟨steps, rfl⟩ : ∃ n, steps = n + 1 := ⟨steps - 1, by omega⟩
          simp only [List.cons_append, List.append_assoc, members?]
          rw [hvalue steps _ (by omega)]
          rfl
      | cons next more =>
          simp only [memberTokens, List.length_append, List.length_cons] at hsteps ⊢
          obtain ⟨steps, rfl⟩ : ∃ n, steps = n + 1 := ⟨steps - 1, by omega⟩
          simp only [List.cons_append, List.append_assoc, members?]
          rw [hvalue steps _ (by omega)]
          simp only [ih hmore (List.cons_ne_nil _ _) (show _ ≤ steps by omega)]

theorem exists_tokens_eq_cons (tree : Tree) :
    ∃ token more, tree.tokens = token :: more ∧ token ≠ .endArray := by
  cases tree with
  | null | bool | number | text | array | object => exact ⟨_, _, rfl, Token.noConfusion⟩

theorem itemTokens_append_ne (hne : items ≠ []) (more : List Token) :
    itemTokens items ++ rest ≠ .endArray :: more := by
  obtain ⟨item, others, rfl⟩ := List.exists_cons_of_ne_nil hne
  obtain ⟨token, tokens, htokens, htoken⟩ := item.exists_tokens_eq_cons
  cases others with
  | nil | cons =>
      rw [itemTokens, htokens]
      rintro ⟨⟩
      exact htoken rfl

theorem memberTokens_append_ne (hne : members ≠ []) (more : List Token) :
    memberTokens members ++ rest ≠ .endObject :: more := by
  obtain ⟨⟨key, value⟩, others, rfl⟩ := List.exists_cons_of_ne_nil hne
  cases others with
  | nil | cons =>
      rw [memberTokens]
      rintro ⟨⟩

theorem reads (tree : Tree) : tree.Reads := by
  induction tree using induct with
  | null | bool | number | text =>
      intro steps rest hsteps
      simp only [tokens, List.length_singleton] at hsteps
      obtain ⟨steps, rfl⟩ : ∃ n, steps = n + 1 := ⟨steps - 1, by omega⟩
      rfl
  | array items ih =>
      intro steps rest hsteps
      simp only [tokens, List.length_cons] at hsteps
      obtain ⟨steps, rfl⟩ : ∃ n, steps = n + 1 := ⟨steps - 1, by omega⟩
      rw [tokens, List.cons_append]
      -- An empty array is told by its second token, which no item begins with.
      by_cases hne : items = []
      · subst hne
        rfl
      · rw [value?, items?_itemTokens ih hne (by omega)]
        exact itemTokens_append_ne hne
  | object members ih =>
      intro steps rest hsteps
      simp only [tokens, List.length_cons] at hsteps
      obtain ⟨steps, rfl⟩ : ∃ n, steps = n + 1 := ⟨steps - 1, by omega⟩
      rw [tokens, List.cons_append]
      by_cases hne : members = []
      · subst hne
        rfl
      · rw [value?, members?_memberTokens ih hne (by omega)]
        exact memberTokens_append_ne hne

/-- The tokens of a tree are read as this tree. -/
theorem ofTokens?_tokens (tree : Tree) : ofTokens? tree.tokens = some tree := by
  have hreads := tree.reads _ [] (Nat.le_refl _)
  rw [List.append_nil] at hreads
  rw [ofTokens?, hreads]

end Tree

/-- The text of a value is read as the tree of the value. -/
theorem Whole.parse?_print {value : Json} (h : Whole value) :
    Tree.parse? (print value) = some value.tree := by
  rw [Tree.parse?, h.scan?_print, Option.bind_some, Tree.ofTokens?_tokens]

/-- At most as many arrays and objects stand inside each other as the first argument says, the
numbers are integers of 64 bits, and the keys of each object are in order. -/
inductive Plain : Nat → Json → Prop where
  | null {depth : Nat} : Plain depth .null
  | bool {depth : Nat} (value : Bool) : Plain depth (.bool value)
  | int {depth : Nat} {n : Int} (h : Is64 n) : Plain depth (.int n)
  | text {depth : Nat} (s : String) : Plain depth (.text s)
  | array {depth : Nat} {items : List Json} (h : ∀ item ∈ items, Plain depth item) :
      Plain (depth + 1) (.array items)
  | object {depth : Nat} {members : List (String × Json)} (hkeyed : Keyed members)
      (h : ∀ member ∈ members, Plain depth member.2) : Plain (depth + 1) (.object members)

theorem Plain.whole {depth : Nat} {value : Json} (h : Plain depth value) : Whole value := by
  induction h with
  | null => exact .null
  | bool value => exact .bool value
  | int h => exact .int _
  | text s => exact .text s
  | array h ih => exact .array ih
  | object hkeyed h ih => exact .object ih

namespace Tree

variable {depth : Nat}

theorem toItems?_itemTrees {items : List Json}
    (h : ∀ item ∈ items, item.tree.toJson? depth = some item) :
    toItems? depth (itemTrees items) = some items := by
  induction items with
  | nil => rfl
  | cons item rest ih =>
      obtain ⟨hitem, hrest⟩ := List.forall_mem_cons.1 h
      simp only [itemTrees, toItems?, hitem, ih hrest]

theorem toMembers?_memberTrees {members : List (String × Json)}
    (h : ∀ member ∈ members, member.2.tree.toJson? depth = some member.2) :
    toMembers? depth (memberTrees members) = some members := by
  induction members with
  | nil => rfl
  | cons member rest ih =>
      obtain ⟨hmember, hrest⟩ := List.forall_mem_cons.1 h
      simp only [memberTrees, toMembers?, hmember, ih hrest]

end Tree

/-- The tree of a value is judged to be the value. -/
theorem Plain.toJson?_tree {depth : Nat} {value : Json} (h : Plain depth value) :
    value.tree.toJson? depth = some value := by
  induction h with
  | null | bool | text => rfl
  | int h => simp only [tree, Tree.toJson?, toInt?_ofInt h]
  | array h ih => simp only [tree, Tree.toJson?, Tree.toItems?_itemTrees ih, Option.map_some]
  | object hkeyed h ih =>
      simp only [tree, Tree.toJson?, Tree.toMembers?_memberTrees ih, Option.map_some,
        Keyed.ofPairs_eq_self hkeyed]

/-- The text of a value is read as the value. -/
theorem Plain.parse?_print {value : Json} (h : Plain depthLimit value) :
    parse? (print value) = some value := by
  rw [parse?, h.whole.parse?_print, Option.bind_some, h.toJson?_tree]

namespace Tree

theorem memberTrees_eq_map (members : List (String × Json)) :
    memberTrees members = members.map fun member => (some member.1, member.2.tree) := by
  induction members with
  | nil => rfl
  | cons member rest ih => rw [memberTrees, ih, List.map_cons]

/-- The member of an object under a key that stands there once. -/
theorem find?_eq_some_of_mem {members : List (String × Json)} {member : String × Json}
    (hnodup : (members.map Prod.fst).Nodup) (hmem : member ∈ members) :
    (memberTrees members).find? (·.1 == some member.1) = some (some member.1, member.2.tree) := by
  induction members with
  | nil => cases hmem
  | cons first rest ih =>
      rw [List.map_cons, List.nodup_cons] at hnodup
      rcases List.mem_cons.1 hmem with rfl | hrest
      · simp [memberTrees]
      · have hne : first.1 ≠ member.1 := by
          intro heq
          exact hnodup.1 (heq ▸ List.mem_map_of_mem hrest)
        simp [memberTrees, hne, ih hnodup.2 hrest]

theorem countP_memberTrees (name : String) (members : List (String × Json)) :
    (memberTrees members).countP (·.1 == some name) = (members.map Prod.fst).count name := by
  rw [memberTrees_eq_map, List.countP_map, List.count, List.countP_map]
  congr 1

/-- A record's fields are found in the object that was written with them. -/
theorem fields?_tree {members : List (String × Json)} (hnodup : (members.map Prod.fst).Nodup) :
    (Json.object members).tree.fields? (members.map Prod.fst) =
      some (members.map fun member => some member.2.tree) := by
  have hkeys : (memberTrees members).all (·.1.isSome) = true := by
    simp [memberTrees_eq_map]
  have hcount : (members.map Prod.fst).all
      (fun name => (memberTrees members).countP (·.1 == some name) ≤ 1) = true := by
    simp only [List.all_eq_true, decide_eq_true_eq, countP_memberTrees]
    exact fun name _ => List.nodup_iff_count_le_one.1 hnodup name
  rw [tree, fields?, hkeys, hcount, Bool.and_self, if_pos rfl, List.map_map]
  congr 1
  apply List.map_congr_left
  intro member hmem
  simp [find?_eq_some_of_mem hnodup hmem]

theorem toUInt64?_nat (n : UInt64) : (Json.nat n.toNat).tree.toUInt64? = some n := by
  have hlt : n.toNat < Nat.pow 2 64 := n.toNat_lt
  have hint : Is64 n.toNat :=
    ⟨Int.le_trans (Int.neg_nonpos_of_nonneg (Int.natCast_nonneg _)) (Int.natCast_nonneg _),
      Int.ofNat_lt.2 hlt⟩
  have htoInt : (Numeral.ofInt n.toNat).toInt? = some (.ofNat n.toNat) := toInt?_ofInt hint
  rw [Json.nat, tree, toUInt64?, toWord?, htoInt]
  simp only [if_pos hlt, Option.map_some, UInt64.ofNat_toNat]

/-- The pairs of an object are those that it was written with. -/
theorem toPairs?_texts (pairs : List (String × String)) :
    (Json.object (pairs.map fun (key, value) => (key, .text value))).tree.toPairs? =
      some pairs := by
  rw [tree, memberTrees_eq_map, toPairs?, List.map_map, List.mapM_map]
  induction pairs with
  | nil => rfl
  | cons pair rest ih =>
      rw [List.mapM_cons, ih]
      rfl

end Tree

end LeasePool.Json

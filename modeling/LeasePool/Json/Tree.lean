import LeasePool.Json.Token

/-!
The shape of a JSON text: which values stand inside which, before its numbers and strings are
judged. What a reader skips only needs this shape; what it keeps is judged by `Tree.toJson?` and
the other readers of trees.
-/

namespace LeasePool.Json

/-- A JSON text as its tokens nest. -/
inductive Tree where
  | null
  | bool (value : Bool)
  | number (numeral : Numeral)
  | text (value : Option String)
  | array (items : List Tree)
  | object (members : List (Option String × Tree))

namespace Tree

mutual

/-- The value at the front of the tokens. The first argument bounds the steps. -/
def value? : Nat → List Token → Option (Tree × List Token)
  | 0, _ => none
  | _ + 1, .null :: rest => some (.null, rest)
  | _ + 1, .bool value :: rest => some (.bool value, rest)
  | _ + 1, .number numeral :: rest => some (.number numeral, rest)
  | _ + 1, .string value :: rest => some (.text value, rest)
  | _ + 1, .beginArray :: .endArray :: rest => some (.array [], rest)
  | steps + 1, .beginArray :: rest =>
      match items? steps rest with
      | some (items, rest) => some (.array items, rest)
      | none => none
  | _ + 1, .beginObject :: .endObject :: rest => some (.object [], rest)
  | steps + 1, .beginObject :: rest =>
      match members? steps rest with
      | some (members, rest) => some (.object members, rest)
      | none => none
  | _ + 1, _ => none

/-- The items at the front of the tokens, up to the bracket that closes their array. -/
def items? : Nat → List Token → Option (List Tree × List Token)
  | 0, _ => none
  | steps + 1, tokens =>
      match value? steps tokens with
      | some (item, .endArray :: rest) => some ([item], rest)
      | some (item, .comma :: rest) =>
          match items? steps rest with
          | some (more, rest) => some (item :: more, rest)
          | none => none
      | _ => none

/-- The members at the front of the tokens, up to the brace that closes their object. -/
def members? : Nat → List Token → Option (List (Option String × Tree) × List Token)
  | steps + 1, .string key :: .colon :: tokens =>
      match value? steps tokens with
      | some (value, .endObject :: rest) => some ([(key, value)], rest)
      | some (value, .comma :: rest) =>
          match members? steps rest with
          | some (more, rest) => some ((key, value) :: more, rest)
          | none => none
      | _ => none
  | _, _ => none

end

/-- The tree of tokens that write exactly one value. Each step takes a token or goes one level
into a value, so twice their number of steps is enough. -/
def ofTokens? (tokens : List Token) : Option Tree :=
  match value? (2 * tokens.length) tokens with
  | some (tree, []) => some tree
  | _ => none

def parse? (cs : List Char) : Option Tree := (Token.scan? cs).bind ofTokens?

end Tree
end LeasePool.Json

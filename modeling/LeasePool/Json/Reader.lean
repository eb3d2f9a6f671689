import LeasePool.Json.Basic
import LeasePool.Json.Tree
import LeasePool.Keyed

/-!
Reading JSON text: as a value of any shape, or field by field into a record. Integers must fit 64
bits to stay exact, strings must be whole, and values nest at most `depthLimit` deep. What a
record's reader skips is held to none of this.
-/

namespace LeasePool.Json

/-- How many arrays and objects may stand inside each other. -/
def depthLimit : Nat := 127

namespace Tree

mutual

/-- The value of a tree that nests at most `depth` deep. -/
def toJson? (depth : Nat) : Tree → Option Json
  | .null => some .null
  | .bool value => some (.bool value)
  | .number numeral =>
      match numeral.toInt? with
      | some n => some (.int n)
      | none => numeral.toReal?.map .real
  | .text value => value.map .text
  | .array items =>
      match depth with
      | 0 => none
      | depth + 1 => (toItems? depth items).map .array
  | .object members =>
      match depth with
      | 0 => none
      | depth + 1 => (toMembers? depth members).map fun pairs => .object (Keyed.ofPairs pairs)

def toItems? (depth : Nat) : List Tree → Option (List Json)
  | [] => some []
  | item :: rest =>
      match toJson? depth item, toItems? depth rest with
      | some value, some more => some (value :: more)
      | _, _ => none

/-- The values of an object's members, in the order of the text. -/
def toMembers? (depth : Nat) : List (Option String × Tree) → Option (List (String × Json))
  | [] => some []
  | (some key, item) :: rest =>
      match toJson? depth item, toMembers? depth rest with
      | some value, some more => some ((key, value) :: more)
      | _, _ => none
  | (none, _) :: _ => none

end

/-- An integer without a sign of at most `bits` bits. -/
def toWord? (bits : Nat) : Tree → Option Nat
  | .number numeral =>
      match numeral.toInt? with
      | some (.ofNat n) => if n < Nat.pow 2 bits then some n else none
      | _ => none
  | _ => none

def toUInt64? (tree : Tree) : Option UInt64 := (tree.toWord? 64).map UInt64.ofNat

def toBool? : Tree → Option Bool
  | .bool value => some value
  | _ => none

def toText? : Tree → Option String
  | .text value => value
  | _ => none

/-- The items of an array whose values nest at most `depth` deep. -/
def toArray? (depth : Nat) : Tree → Option (List Json)
  | .array items => toItems? depth items
  | _ => none

/-- Null, or what `read` makes of another tree. -/
def toOption? {α : Type} (read : Tree → Option α) : Tree → Option (Option α)
  | .null => some none
  | tree => (read tree).map some

/-- The pairs of an object whose values are strings. -/
def toPairs? : Tree → Option (List (String × String))
  | .object members => members.mapM fun (key, value) =>
      match key, value.toText? with
      | some key, some value => some (key, value)
      | _, _ => none
  | _ => none

/-- The trees that a record's text gives for its fields, in the order of `names`. The record is an
object, in which each field stands at most once and other members are skipped, or an array of the
fields from the first on. -/
def fields? (names : List String) : Tree → Option (List (Option Tree))
  | .object members =>
      if members.all (·.1.isSome) &&
          names.all (fun name => members.countP (·.1 == some name) ≤ 1) then
        some (names.map fun name => (members.find? (·.1 == some name)).map (·.2))
      else none
  | .array items =>
      if items.length ≤ names.length then
        some ((List.range names.length).map fun place => items[place]?)
      else none
  | _ => none

def required? {α : Type} (read : Tree → Option α) : Option Tree → Option α
  | some tree => read tree
  | none => none

def optional? {α : Type} (default : α) (read : Tree → Option α) : Option Tree → Option α
  | some tree => read tree
  | none => some default

end Tree

def parse? (cs : List Char) : Option Json := (Tree.parse? cs).bind (Tree.toJson? depthLimit)

end LeasePool.Json

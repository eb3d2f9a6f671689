import LeasePool.Toml.Moment
import LeasePool.Toml.Number
import LeasePool.Toml.Text

/-!
The values of TOML documents, and the tables they stand in. A table remembers how it came about,
because that decides what may be added to it later: one that was only named on the way to another
is implicit, and one that was named by a key with points is dotted.
-/

namespace LeasePool.Toml

inductive Node where
  | text (value : String)
  | integer (value : Int)
  /-- A number that is no integer. -/
  | real
  | bool (value : Bool)
  /-- A date or a time. -/
  | moment (text : String)
  | array (items : List Node)
  /-- A table written as a value, which is complete. -/
  | inline (entries : List (String × Node))
  | table (implicit dotted : Bool) (entries : List (String × Node))
  /-- Tables that were written one by one under the same name; the latest one first. -/
  | tables (all : List (List (String × Node)))

abbrev Entries := List (String × Node)

namespace Entries

def find? (entries : Entries) (key : String) : Option Node := entries.lookup key

/-- Change the node under a key, or add one. -/
def put : Entries → String → Node → Entries
  | [], key, node => [(key, node)]
  | (k, old) :: rest, key, node =>
      if k = key then (k, node) :: rest else (k, old) :: put rest key node

/-- Change the table that a path leads to, by way of the latest of several tables. Tables that are
missing on the way come about, dotted or not; a path of points (`dotted`) leads through no table
that was named otherwise. `change` is told whether the table it gets is dotted. -/
def changeAt? (dotted : Bool) (change : Bool → Entries → Option Entries) :
    List String → Bool → Entries → Option Entries
  | [], isDotted, entries => change isDotted entries
  | key :: rest, _, entries =>
      match entries.find? key with
      | none =>
          (changeAt? dotted change rest dotted []).map fun inner =>
            entries.put key (.table true dotted inner)
      | some (.table implicit isDotted inner) =>
          if dotted && !implicit then none
          else
            (changeAt? dotted change rest isDotted inner).map fun inner =>
              entries.put key (.table implicit isDotted inner)
      | some (.tables (latest :: earlier)) =>
          (changeAt? dotted change rest false latest).map fun latest =>
            entries.put key (.tables (latest :: earlier))
      | some _ => none

/-- Add a value under a key with points. The key must be new, and the table that its last part
stands in must have come about by such keys, if there are any parts before the last. -/
def insert? (entries : Entries) (key : List String) (value : Node) : Option Entries :=
  let path := key.dropLast
  let name := key.getLastD ""
  changeAt? true
    (fun isDotted inner =>
      if isDotted == path.isEmpty then none
      else if (inner.find? name).isSome then none
      else some (inner.put name value))
    path false entries

/-- The entries of an inline table, from its keys and values. -/
def ofPairs? (pairs : List (List String × Node)) : Option Entries :=
  pairs.foldlM (fun entries pair => entries.insert? pair.1 pair.2) []

end Entries

def scalar? (cs : List Char) : Option (Node × List Char) :=
  match moment? cs with
  | some (text, rest) => some (.moment text, rest)
  | none =>
      match afterDecimal? cs with
      | some rest => some (.real, rest)
      | none =>
          match special? cs with
          | some rest => some (.real, rest)
          | none => (integer? cs).map fun (n, rest) => (.integer n, rest)

/-- The value at the front that is no array and no table. -/
def simple? (cs : List Char) : Option (Node × List Char) :=
  match cs with
  | [] => none
  | c :: _ =>
      if c = '"' || c = '\'' then (string? cs).map fun (s, rest) => (.text s, rest)
      else if c = 't' then
        (Json.after? ['t', 'r', 'u', 'e'] cs).map fun rest => (.bool true, rest)
      else if c = 'f' then
        (Json.after? ['f', 'a', 'l', 's', 'e'] cs).map fun rest => (.bool false, rest)
      else scalar? cs

mutual

/-- The value at the front, which nests at most `depth` deep. The first argument bounds the
steps. -/
def value? : Nat → Nat → List Char → Option (Node × List Char)
  | 0, _, _ => none
  | steps + 1, depth + 1, '[' :: rest => do
      let rest ← skipLines? rest.length rest
      let (items, rest) ← items? steps depth rest
      some (.array items, rest)
  | steps + 1, depth + 1, '\x7b' :: rest =>
      match skipBlanks rest with
      | '\x7d' :: rest => some (.inline [], rest)
      | rest => do
          let (pairs, rest) ← pairs? steps depth rest
          let entries ← Entries.ofPairs? pairs
          some (.inline entries, rest)
  | _ + 1, 0, '[' :: _ => none
  | _ + 1, 0, '\x7b' :: _ => none
  | _ + 1, _, cs => simple? cs

/-- The items of an array at the front, up to its closing bracket; a comma may stand before it. -/
def items? : Nat → Nat → List Char → Option (List Node × List Char)
  | 0, _, _ => none
  | _ + 1, _, ']' :: rest => some ([], rest)
  | steps + 1, depth, cs => do
      let (item, rest) ← value? steps depth cs
      let rest ← skipLines? rest.length rest
      match rest with
      | ']' :: rest => some ([item], rest)
      | ',' :: rest =>
          let rest ← skipLines? rest.length rest
          let (more, rest) ← items? steps depth rest
          some (item :: more, rest)
      | _ => none

/-- The keys and values of an inline table at the front, up to its closing brace. -/
def pairs? : Nat → Nat → List Char → Option (List (List String × Node) × List Char)
  | 0, _, _ => none
  | steps + 1, depth, cs => do
      let (key, rest) ← key? cs
      match rest with
      | '=' :: rest =>
          let (value, rest) ← value? steps depth (skipBlanks rest)
          match skipBlanks rest with
          | '\x7d' :: rest => some ([(key, value)], rest)
          | ',' :: rest =>
              let (more, rest) ← pairs? steps depth rest
              some ((key, value) :: more, rest)
          | _ => none
      | _ => none

end

end LeasePool.Toml

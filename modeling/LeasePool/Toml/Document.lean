import LeasePool.Toml.Node

/-!
TOML documents: lines that give a key its value, or name the table that the lines after them
belong to.
-/

namespace LeasePool.Toml

/-- What one line says. -/
inductive Statement where
  | pair (key : List String) (value : Node)
  /-- A table in brackets. -/
  | table (path : List String)
  /-- One of several tables of the same name, in double brackets. -/
  | element (path : List String)

/-- The text after a byte order mark. -/
def skipMark : List Char → List Char
  | '\ufeff' :: rest => rest
  | cs => cs

/-- A key and its value at the front, and the text after their line. -/
def pairLine? (cs : List Char) : Option (Statement × List Char) := do
  let (key, rest) ← key? cs
  match rest with
  | '=' :: rest =>
      let (value, rest) ← value? (rest.length + 1) (nestingLimit - 1) (skipBlanks rest)
      let rest ← lineEnd? rest
      some (.pair key value, rest)
  | _ => none

/-- The name of a table at the front, after its opening bracket, and the text after its line. -/
def tableLine? : List Char → Option (Statement × List Char)
  | '[' :: cs => do
      let (path, rest) ← key? cs
      match rest with
      | ']' :: ']' :: rest => (lineEnd? rest).map fun rest => (.element path, rest)
      | _ => none
  | cs => do
      let (path, rest) ← key? cs
      match rest with
      | ']' :: rest => (lineEnd? rest).map fun rest => (.table path, rest)
      | _ => none

/-- What the lines of a text say. The first argument bounds the number of lines. -/
def statements? : Nat → List Char → Option (List Statement)
  | 0, _ => none
  | lines + 1, cs =>
      match skipBlanks cs with
      | [] => some []
      | '#' :: rest => (lineEnd? ('#' :: rest)).bind (statements? lines)
      | '\n' :: rest => statements? lines rest
      | '\r' :: rest => (newline? ('\r' :: rest)).bind (statements? lines)
      | '[' :: rest => do
          let (statement, rest) ← tableLine? rest
          (statements? lines rest).map (statement :: ·)
      | rest => do
          let (statement, rest) ← pairLine? rest
          (statements? lines rest).map (statement :: ·)

/-- A document while it is read: its root table, and the path of the table that lines belong to. -/
structure Document where
  root : Entries
  current : List String

namespace Document

/-- Begin a table. It must be new, or have been named only on the way to others. -/
def openTable? (name : String) (entries : Entries) : Option Entries :=
  match entries.find? name with
  | none => some (entries.put name (.table false false []))
  | some (.table true false inner) => some (entries.put name (.table false false inner))
  | some _ => none

/-- Begin one more of several tables of the same name. -/
def openElement? (name : String) (entries : Entries) : Option Entries :=
  match entries.find? name with
  | none => some (entries.put name (.tables [[]]))
  | some (.tables all) => some (entries.put name (.tables ([] :: all)))
  | some _ => none

/-- What a line adds to a document. -/
def add? (document : Document) : Statement → Option Document
  | .pair key value =>
      (document.root.changeAt? false (fun _ entries => entries.insert? key value) document.current
        false).map fun root => { document with root := root }
  | .table path =>
      (document.root.changeAt? false (fun _ entries => openTable? (path.getLastD "") entries)
        path.dropLast false).map fun root => ⟨root, path⟩
  | .element path =>
      (document.root.changeAt? false (fun _ entries => openElement? (path.getLastD "") entries)
        path.dropLast false).map fun root => ⟨root, path⟩

def parse? (cs : List Char) : Option Entries := do
  let cs := skipMark cs
  let statements ← statements? (cs.length + 1) cs
  let document ← statements.foldlM (fun document statement => document.add? statement)
    (⟨[], []⟩ : Document)
  some document.root

end Document
end LeasePool.Toml

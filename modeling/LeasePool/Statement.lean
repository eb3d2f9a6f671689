import LeasePool.Json.Printer
import LeasePool.Json.Reader

/-!
What a statement that runs on a resource gives: the number of rows it changed and the rows it
found.
-/

namespace LeasePool

structure StatementResult where
  affectedRows : UInt64
  rows : List Json

namespace StatementResult

/-- The result of a statement that changed rows. -/
def affected (affectedRows : UInt64) : StatementResult := ⟨affectedRows, []⟩

/-- The result of a query. -/
def ofRows (rows : List Json) : StatementResult := ⟨0, rows⟩

instance : Inhabited StatementResult := ⟨affected 0⟩

/-- Nothing was changed and nothing was found. -/
def isEmpty (result : StatementResult) : Bool := result.affectedRows = 0 && result.rows.isEmpty

def toJson (result : StatementResult) : Json :=
  .object [("affected_rows", .nat result.affectedRows.toNat), ("rows", .array result.rows)]

/-- The result that a tree writes; both fields must be given. The record and the array of its rows
are two of the levels that may nest. -/
def ofTree? (tree : Json.Tree) : Option StatementResult :=
  match tree.fields? ["affected_rows", "rows"] with
  | some [affectedRows, rows] => do
      let affectedRows ← Json.Tree.required? Json.Tree.toUInt64? affectedRows
      let rows ← Json.Tree.required? (Json.Tree.toArray? (Json.depthLimit - 2)) rows
      some ⟨affectedRows, rows⟩
  | _ => none

def ofJson? (cs : List Char) : Option StatementResult := (Json.Tree.parse? cs).bind ofTree?

end StatementResult
end LeasePool

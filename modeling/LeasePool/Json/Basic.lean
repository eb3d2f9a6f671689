/-!
JSON values. An object keeps its members in a fixed order; what a reader makes has them in
increasing order of their keys, each key once.
-/

namespace LeasePool

/-- A JSON value. Integers are exact; any other number is a double. -/
inductive Json where
  | null
  | bool (value : Bool)
  | int (value : Int)
  | real (value : Float)
  | text (value : String)
  | array (items : List Json)
  | object (members : List (String × Json))

namespace Json

instance : Inhabited Json := ⟨.null⟩

def nat (n : Nat) : Json := .int n

def orNull : Option Json → Json
  | some value => value
  | none => .null

end Json
end LeasePool

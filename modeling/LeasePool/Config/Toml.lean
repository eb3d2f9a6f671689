import LeasePool.Config
import LeasePool.Toml.Document

/-!
Pool configurations in TOML: the root table of a document gives the fields, the parameters are a
table of strings. Keys that are no field are skipped, and the configuration must be valid.
-/

namespace LeasePool

namespace Toml.Node

/-- An integer that is not negative. -/
def toUInt64? : Node → Option UInt64
  | .integer (.ofNat n) => some (UInt64.ofNat n)
  | _ => none

def toBool? : Node → Option Bool
  | .bool value => some value
  | _ => none

def toText? : Node → Option String
  | .text value => some value
  | _ => none

/-- The key under which a date or a time stands for a table. -/
def momentKey : String := "$__toml_private_datetime"

/-- The entries of a table, written inline or not. A date or a time stands for a table with its
text alone. -/
def toEntries? : Node → Option Entries
  | .inline entries => some entries
  | .table _ _ entries => some entries
  | .moment written => some [(momentKey, .text written)]
  | _ => none

def toParams? (node : Node) : Option Params := do
  let entries ← node.toEntries?
  let pairs ← entries.mapM fun (key, value) => value.toText?.map fun text => (key, text)
  some (Params.ofList pairs)

end Toml.Node

namespace Config

/-- A field of a table, or its usual value where the table has none. -/
def tableField? {α : Type} (entries : Toml.Entries) (name : String) (usual : α)
    (read : Toml.Node → Option α) : Option α :=
  match entries.find? name with
  | some node => read node
  | none => some usual

def ofEntries? (entries : Toml.Entries) : Option Config := do
  let usual : Config := default
  some
    { maxSize := ← tableField? entries "max_size" usual.maxSize Toml.Node.toUInt64?
      acquireTimeout :=
        ← tableField? entries "acquire_timeout_ms" usual.acquireTimeout Toml.Node.toUInt64?
      idleTimeout := ← tableField? entries "idle_timeout_ms" none fun node =>
        node.toUInt64?.map some
      maxLifetime := ← tableField? entries "max_lifetime_ms" none fun node =>
        node.toUInt64?.map some
      testOnCheckout := ← tableField? entries "test_on_checkout" false Toml.Node.toBool?
      params := ← tableField? entries "params" Params.empty Toml.Node.toParams? }

/-- How the refusal of a document that gives no configuration begins. -/
def documentRefusal : String := "invalid pool config: "

/-- The valid configuration that a TOML document gives. -/
def ofToml (cs : List Char) : Except Failure Config :=
  match (Toml.Document.parse? cs).bind ofEntries? with
  | some config => config.validate.map fun _ => config
  | none => .error (.configuration documentRefusal)

end Config
end LeasePool

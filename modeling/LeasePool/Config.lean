import LeasePool.Failure
import LeasePool.Json.Printer
import LeasePool.Json.Reader
import LeasePool.Params

/-!
The configuration of a pool: its size, its limits of time, whether idle resources are checked
before they are lent, and the parameters of its factory; how a configuration is written and read,
and when it is valid.
-/

namespace LeasePool

/-- The configuration of a pool. Times are in milliseconds. -/
structure Config where
  /-- How many resources may exist at once. -/
  maxSize : UInt64
  /-- How long an acquisition waits for a slot. -/
  acquireTimeout : UInt64
  /-- How long a resource may lie idle and still be lent. -/
  idleTimeout : Option UInt64
  /-- How old a resource may be and still be lent. -/
  maxLifetime : Option UInt64
  /-- Ask the factory whether an idle resource is still valid before lending it. -/
  testOnCheckout : Bool
  /-- What the factory is given for every new resource. -/
  params : Params
deriving DecidableEq

namespace Config

/-- A configuration of the given size with the usual times: twenty seconds to acquire, no limit on
idle time or age, no check before lending. -/
def ofSize (maxSize : UInt64) : Config where
  maxSize := maxSize
  acquireTimeout := 20000
  idleTimeout := none
  maxLifetime := none
  testOnCheckout := false
  params := Params.empty

def defaultSize : UInt64 := 50

instance : Inhabited Config := ⟨ofSize defaultSize⟩

/-- Why a pool cannot be built with room for nothing. -/
def sizeRefusal : String := "max_size must be greater than 0"

def new (maxSize : UInt64) : Except String Config :=
  if maxSize = 0 then .error (sizeRefusal ++ ", got 0") else .ok (ofSize maxSize)

def withParam (config : Config) (key value : String) : Config :=
  { config with params := config.params.insert key value }

def validate (config : Config) : Except Failure Unit :=
  if config.maxSize = 0 then .error (.configuration sizeRefusal) else .ok ()

/-- An idle timeout beyond the lifetime, which can never apply: both limits. -/
def idleBeyondLifetime (config : Config) : Option (UInt64 × UInt64) :=
  match config.idleTimeout, config.maxLifetime with
  | some idle, some lifetime => if lifetime < idle then some (idle, lifetime) else none
  | _, _ => none

def fieldNames : List String :=
  ["max_size", "acquire_timeout_ms", "idle_timeout_ms", "max_lifetime_ms", "test_on_checkout",
    "params"]

def limitJson (limit : Option UInt64) : Json := Json.orNull (limit.map fun ms => .nat ms.toNat)

def paramsJson (params : Params) : Json :=
  .object (params.entries.map fun (key, value) => (key, .text value))

def toJson (config : Config) : Json :=
  .object
    [("max_size", .nat config.maxSize.toNat),
     ("acquire_timeout_ms", .nat config.acquireTimeout.toNat),
     ("idle_timeout_ms", limitJson config.idleTimeout),
     ("max_lifetime_ms", limitJson config.maxLifetime),
     ("test_on_checkout", .bool config.testOnCheckout),
     ("params", paramsJson config.params)]

def paramsOfTree? (tree : Json.Tree) : Option Params := tree.toPairs?.map Params.ofList

/-- The configuration that a tree writes; a field that is not given has its usual value. -/
def ofTree? (tree : Json.Tree) : Option Config := do
  let usual : Config := default
  let [maxSize, acquireTimeout, idleTimeout, maxLifetime, testOnCheckout, params] ←
    tree.fields? fieldNames | none
  some
    { maxSize := ← Json.Tree.optional? usual.maxSize Json.Tree.toUInt64? maxSize
      acquireTimeout :=
        ← Json.Tree.optional? usual.acquireTimeout Json.Tree.toUInt64? acquireTimeout
      idleTimeout :=
        ← Json.Tree.optional? none (Json.Tree.toOption? Json.Tree.toUInt64?) idleTimeout
      maxLifetime :=
        ← Json.Tree.optional? none (Json.Tree.toOption? Json.Tree.toUInt64?) maxLifetime
      testOnCheckout := ← Json.Tree.optional? false Json.Tree.toBool? testOnCheckout
      params := ← Json.Tree.optional? Params.empty paramsOfTree? params }

/-- The configuration that a JSON text writes. It need not be valid. -/
def ofJson? (cs : List Char) : Option Config := (Json.Tree.parse? cs).bind ofTree?

def describeLimit : Option UInt64 → String
  | none => "None"
  | some ms => "Some(" ++ toString ms.toNat ++ ")"

def describeLimitLines : Option UInt64 → String
  | none => "None"
  | some ms => "Some(\n    " ++ toString ms.toNat ++ ",\n)"

/-- The description of a configuration on one line, with the values of secret parameters hidden, if
the characters that `hidden` selects cannot be shown. -/
def describeWith (hidden : Char → Bool) (config : Config) : String :=
  "PoolConfig \x7b max_size: " ++ toString config.maxSize.toNat ++
    ", acquire_timeout_ms: " ++ toString config.acquireTimeout.toNat ++
    ", idle_timeout_ms: " ++ describeLimit config.idleTimeout ++
    ", max_lifetime_ms: " ++ describeLimit config.maxLifetime ++
    ", test_on_checkout: " ++ toString config.testOnCheckout ++
    ", params: " ++ config.params.describeWith hidden ++ " \x7d"

/-- The description of a configuration with one indented line for each field. -/
def describeLinesWith (hidden : Char → Bool) (config : Config) : String :=
  "PoolConfig \x7b\n    max_size: " ++ toString config.maxSize.toNat ++
    ",\n    acquire_timeout_ms: " ++ toString config.acquireTimeout.toNat ++
    ",\n    idle_timeout_ms: " ++ Text.indented (describeLimitLines config.idleTimeout) ++
    ",\n    max_lifetime_ms: " ++ Text.indented (describeLimitLines config.maxLifetime) ++
    ",\n    test_on_checkout: " ++ toString config.testOnCheckout ++
    ",\n    params: " ++ Text.indented (config.params.describeLinesWith hidden) ++ ",\n\x7d"

def describe (config : Config) : String := config.describeWith Text.isUnprintable

end Config
end LeasePool

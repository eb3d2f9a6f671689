import LeasePool.Json.Printer
import LeasePool.Json.Reader

/-!
Statistics of a pool: how its slots are used at one moment, and how often it made, failed to make
and failed to lend a resource so far.
-/

namespace LeasePool

structure Stats where
  maxSize : UInt64
  /-- Resources that wait in the free list. -/
  idle : UInt64
  /-- Slots whose resource is lent or being made. -/
  active : UInt64
  /-- Slots that no resource has been made for yet. -/
  vacant : UInt64
  /-- Acquisitions that wait for a slot. -/
  waiting : UInt64
  created : UInt64
  creationFailures : UInt64
  timeouts : UInt64
  resets : UInt64
deriving Repr, DecidableEq

namespace Stats

/-- A snapshot with all counters at zero. -/
def ofOccupancy (maxSize idle active vacant waiting : UInt64) : Stats :=
  ⟨maxSize, idle, active, vacant, waiting, 0, 0, 0, 0⟩

instance : Inhabited Stats := ⟨ofOccupancy 0 0 0 0 0⟩

/-- The live resources, idle or lent. -/
def total (stats : Stats) : Nat := stats.idle.toNat + stats.active.toNat

/-- An acquisition would have to wait. -/
def isFull (stats : Stats) : Bool := stats.idle = 0 && stats.vacant = 0

/-- The part of the size that is lent; zero for a pool without room. -/
def utilization (stats : Stats) : Float :=
  if stats.maxSize = 0 then 0 else stats.active.toFloat / stats.maxSize.toFloat

/-- Every number of a snapshot under its name, in the order of the record. -/
def fields (stats : Stats) : List (String × UInt64) :=
  [("max_size", stats.maxSize), ("idle", stats.idle), ("active", stats.active),
   ("vacant", stats.vacant), ("waiting", stats.waiting), ("created", stats.created),
   ("creation_failures", stats.creationFailures), ("timeouts", stats.timeouts),
   ("resets", stats.resets)]

def fieldNames : List String :=
  ["max_size", "idle", "active", "vacant", "waiting", "created", "creation_failures", "timeouts",
    "resets"]

def toJson (stats : Stats) : Json :=
  .object (stats.fields.map fun (name, n) => (name, .nat n.toNat))

/-- The snapshot that a tree writes; every number must be given. -/
def ofTree? (tree : Json.Tree) : Option Stats := do
  let given ← tree.fields? fieldNames
  let numbers ← given.mapM (Json.Tree.required? Json.Tree.toUInt64?)
  match numbers with
  | [maxSize, idle, active, vacant, waiting, created, creationFailures, timeouts, resets] =>
      some ⟨maxSize, idle, active, vacant, waiting, created, creationFailures, timeouts, resets⟩
  | _ => none

def ofJson? (cs : List Char) : Option Stats := (Json.Tree.parse? cs).bind ofTree?

def describe (stats : Stats) : String :=
  "PoolStats \x7b " ++
    String.intercalate ", " (stats.fields.map fun (name, n) => name ++ ": " ++ toString n.toNat) ++
    " \x7d"

end Stats
end LeasePool

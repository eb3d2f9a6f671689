import LeasePool.Json.Printer
import LeasePool.Keyed
import LeasePool.Notice
import LeasePool.Scenario.Script
import LeasePool.Statement
import LeasePool.Stats

/-!
Traces: what a script leaves behind. A trace lists events in the order in which they happen, and
after each step what it answered and how the pools stand. Where several callers act at once the
order of events says nothing, so these are listed in the order of their JSON text.
-/

namespace LeasePool.Scenario

structure OwnerView where
  pool : String
  pid : Pid
  epoch : Nat

structure PoolView where
  name : String
  owner : OwnerView
  stats : Stats

/-- A lease that a step got: the name of its resource, and its owner. -/
structure LeaseView where
  resource : String
  owner : OwnerView

/-- What a scripted resource looks like from outside. -/
structure ResourceView where
  serial : Nat
  kind : String
  closed : Bool
  broken : Bool
  closeCalls : Nat
  owner : OwnerView
  params : List (String × String)

inductive Answer where
  | nothing
  /-- The label names no lease. -/
  | noLease
  | failed (failure : Failure)
  | lent (lease : LeaseView)
  | count (n : Nat)
  | flag (value : Bool)
  | text (value : String)
  | statement (result : StatementResult)
  | resource (view : ResourceView)
  | config (config : Config)
  | factory (make : Make) (created : Nat)
  | ran (result : Except Failure Json) (attempts : Nat)
  | blocked (before : List PoolView) (got : List LeaseView) (failed : List Failure)
  | raced (got : List LeaseView) (failed : List Failure)

/-- One entry of a trace. -/
inductive Entry where
  | event (text : String)
  /-- A step came to its end; `state` is left out where callers act at once. -/
  | step (name : String) (answer : Answer) (state : Option (List PoolView))

namespace Entry

def event? : Entry → Option String
  | .event text => some text
  | .step .. => none

/-- A step without the state of the pools; none for an event. -/
def stateless? : Entry → Option Entry
  | .event _ => none
  | .step name answer _ => some (.step name answer none)

end Entry

/-- Texts in the order of how they are written as JSON strings. -/
def sortByJson (texts : List String) : List String :=
  texts.mergeSort fun first second =>
    decide ((Json.text first).render ≤ (Json.text second).render)

/-- The entries of a time in which several callers act at once: all events in order of their text,
then the steps in order of their ends. -/
def unordered (entries : List Entry) : List Entry :=
  (sortByJson (entries.filterMap Entry.event?)).map Entry.event ++
    entries.filterMap Entry.stateless?

/-- A failure with the name of its cause and its wording. -/
def failureJson (failure : Failure) : Json :=
  .object [("error", .text failure.label), ("message", .text failure.message)]

def sortFailures (failures : List Failure) : List Failure :=
  failures.mergeSort fun first second =>
    decide ((failureJson first).render ≤ (failureJson second).render)

/-- A value of a notice; the identity of a pool is not shown. -/
def valueJson : Notice.Value → Json
  | .number n => .nat n
  | .text s => .text s
  | .pool _ => .text "_"

def noticeEvent (notice : Notice) : String :=
  "log " ++ notice.level.name ++ " " ++ notice.message ++ " " ++
    (Json.object (notice.values.map fun (name, value) => (name, valueJson value))).render

end LeasePool.Scenario

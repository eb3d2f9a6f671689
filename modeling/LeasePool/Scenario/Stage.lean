import LeasePool.Scenario.Script
import LeasePool.Scenario.Trace
import LeasePool.World.Step

/-!
Stages: the world of a script with its scripted factories and resources, the leases that the
script named, and the trace so far.
-/

namespace LeasePool.Scenario

structure Device where
  pool : PoolId
  /-- The number of resources its factory had made before it. -/
  serial : Nat
  params : Params
  broken : Bool
  closed : Bool
  closeCalls : Nat

def deviceKind : String := "mock"

namespace Device

def close (device : Device) : Device :=
  { device with closed := true, closeCalls := device.closeCalls + 1 }

/-- Run a statement. A broken or closed resource fails, a query finds one row that repeats it, and
any other statement changes one row. -/
def execute (device : Device) (statement : String) : Except Failure StatementResult :=
  if device.broken || device.closed then .error (.connection "server has gone away")
  else if "SELECT".toList.isPrefixOf statement.toList then
    .ok (.ofRows [.object [("q", .text statement)]])
  else .ok (.affected 1)

end Device

/-- The factory of a pool: how it is built, what it will do when it is asked, and how many
resources it has made. -/
structure Maker where
  make : Make
  create : List (Reaction Step (Option Failure))
  close : List (Reaction Step (Option Failure))
  valid : List (Reaction Step (Option Bool))
  made : Nat

/-- An acquisition by another caller that waits for a slot, with the number of its group: the
callers of one step act together. -/
structure Other where
  group : Nat
  task : Task

/-- A stage. -/
structure Stage where
  world : World
  names : List String
  makers : List Maker
  /-- The scripted resources, in the order of the world's resources. -/
  devices : List Device
  /-- The leases that the script named. -/
  leases : List (String × Lease)
  /-- The latest entry first. -/
  trace : List Entry
  notices : Bool
  /-- Acquisitions by others that wait for a slot, the first to come first. -/
  queue : List Other
  /-- How acquisitions by others ended, each with its group, the latest first. -/
  settled : List (Nat × Outcome)
  /-- The number of groups whose step has not ended, which is the number of the next group. -/
  groups : Nat
  /-- The script waits for something that never comes. -/
  stuck : Bool

namespace Stage

def tell (stage : Stage) (event : String) : Stage :=
  { stage with trace := .event event :: stage.trace }

/-- The name of a resource: its pool and its serial number. -/
def resourceName (stage : Stage) (resource : ResourceId) : String :=
  match stage.devices[resource]? with
  | some device => stage.names.getD device.pool "" ++ ":" ++ toString device.serial
  | none => ""

/-- What the journal of the world shows in the trace. -/
def tellSignal (stage : Stage) : Signal → Stage
  | .notice notice => if stage.notices then stage.tell (noticeEvent notice) else stage
  | .destroyed resource => stage.tell ("drop " ++ stage.resourceName resource)
  | _ => stage

/-- Go on with a changed world; its journal becomes part of the trace. -/
def enter (stage : Stage) (world : World) : Stage :=
  world.journal.foldr (fun signal stage => stage.tellSignal signal)
    { stage with world := { world with journal := [] } }

/-- The stage of a script before its first step. -/
def ofScript (script : Script) : Stage :=
  let world := script.pools.foldl (fun world spec => world.addPool spec.process spec.config)
    (World.ofPids script.pids)
  let stage : Stage :=
    { world := default
      names := script.pools.map (·.name)
      makers := script.pools.map fun spec => ⟨spec.make, [], [], [], 0⟩
      devices := []
      leases := []
      trace := []
      notices := script.notices
      queue := []
      settled := []
      groups := 0
      stuck := false }
  stage.enter world

def ownerView (stage : Stage) (owner : Owner) : OwnerView :=
  ⟨stage.names.getD owner.pool "", owner.pid, owner.epoch⟩

def leaseView (stage : Stage) (lease : Lease) : LeaseView :=
  ⟨stage.resourceName lease.resource, stage.ownerView lease.owner⟩

def state (stage : Stage) : List PoolView :=
  List.zipWith (fun name pool => ⟨name, stage.ownerView pool.owner, pool.stats⟩) stage.names
    stage.world.pools

/-- A step came to its end. -/
def record (stage : Stage) (name : String) (answer : Answer) : Stage :=
  { stage with trace := .step name answer (some stage.state) :: stage.trace }

/-- The description of a lease; the identity of its pool and its age are not shown. -/
def describeLease (lease : Lease) : String :=
  "Pooled \x7b owner: Owner \x7b pool: _, pid: " ++ toString lease.owner.pid ++ ", epoch: " ++
    toString lease.owner.epoch ++ " \x7d, age: _, .. \x7d"

/-- A leased resource as the trace shows it. -/
def resourceView? (stage : Stage) (lease : Lease) : Option ResourceView :=
  stage.devices[lease.resource]?.map fun device =>
    { serial := device.serial
      kind := stage.world.kindOf lease.resource
      closed := device.closed
      broken := device.broken
      closeCalls := device.closeCalls
      owner := stage.ownerView lease.owner
      params := device.params.toList }

def lease? (stage : Stage) (label : String) : Option Lease := stage.leases.lookup label

def unlabel (stage : Stage) (label : String) : Stage :=
  { stage with leases := stage.leases.filter (·.1 != label) }

/-- Put a lease under a label; a lease that is there already is dropped. -/
def label (stage : Stage) (label : String) (lease : Lease) : Stage :=
  let old := stage.lease? label
  let stage := { stage.unlabel label with leases := (label, lease) :: (stage.unlabel label).leases }
  match old with
  | some dropped => stage.enter (stage.world.dropLease dropped)
  | none => stage

def labelAll (stage : Stage) (base : String) (leases : List Lease) : Stage :=
  leases.zipIdx.foldl (fun stage (lease, number) => stage.label (base ++ toString number) lease)
    stage

def modifyMaker (stage : Stage) (pool : PoolId) (change : Maker → Maker) : Stage :=
  { stage with makers := stage.makers.modify pool change }

def modifyDevice (stage : Stage) (resource : ResourceId) (change : Device → Device) : Stage :=
  { stage with devices := stage.devices.modify resource change }

def closeDevice (stage : Stage) (resource : ResourceId) : Stage :=
  (stage.modifyDevice resource Device.close).tell ("close " ++ stage.resourceName resource)

def breakDevice (stage : Stage) (resource : ResourceId) : Stage :=
  stage.modifyDevice resource fun device => { device with broken := true }

def damage (stage : Stage) (resource : ResourceId) (damage : Damage) : Stage :=
  let stage := if damage.breaks then stage.breakDevice resource else stage
  if damage.closes then stage.closeDevice resource else stage

def isOpen (stage : Stage) (resource : ResourceId) : Bool :=
  match stage.devices[resource]? with
  | some device => !device.closed
  | none => false

def execute (stage : Stage) (resource : ResourceId) (statement : String) :
    Except Failure StatementResult :=
  match stage.devices[resource]? with
  | some device => device.execute statement
  | none => .ok default

def addDevice (stage : Stage) (pool : PoolId) : Stage :=
  let serial := (stage.makers[pool]?.map (·.made)).getD 0
  let stage := stage.modifyMaker pool fun maker => { maker with made := maker.made + 1 }
  let device : Device := ⟨pool, serial, (stage.world.pool pool).config.params, false, false, 0⟩
  let stage := { stage with devices := stage.devices ++ [device] }
  stage.tell ("create " ++ stage.names.getD pool "" ++ ":" ++ toString serial)

/-- Take the next planned reaction; none is planned where the list is empty. -/
def next {α : Type} (planned : List (Reaction Step (Option α))) :
    Reaction Step (Option α) × List (Reaction Step (Option α)) :=
  match planned with
  | reaction :: rest => (reaction, rest)
  | [] => (⟨[], none⟩, [])

/-- What the factory of a pool does when it is asked to make a resource. -/
def nextCreate (stage : Stage) (pool : PoolId) : Reaction Step (Option Failure) × Stage :=
  match stage.makers[pool]? with
  | some maker =>
      let (reaction, rest) := next maker.create
      (reaction, stage.modifyMaker pool fun maker => { maker with create := rest })
  | none => (⟨[], none⟩, stage)

/-- What the factory of a pool does when it is asked to close a resource. -/
def nextClose (stage : Stage) (pool : PoolId) : Reaction Step (Option Failure) × Stage :=
  match stage.makers[pool]? with
  | some maker =>
      if maker.make.plansClose then
        let (reaction, rest) := next maker.close
        (reaction, stage.modifyMaker pool fun maker => { maker with close := rest })
      else (⟨[], none⟩, stage)
  | none => (⟨[], none⟩, stage)

/-- What the factory of a pool does when it is asked whether a resource is valid; none if it only
looks whether the resource is closed. -/
def nextValid? (stage : Stage) (pool : PoolId) : Option (Reaction Step (Option Bool) × Stage) :=
  match stage.makers[pool]? with
  | some maker =>
      if maker.make.plansValid then
        let (reaction, rest) := next maker.valid
        some (reaction, stage.modifyMaker pool fun maker => { maker with valid := rest })
      else none
  | none => none

def plan (stage : Stage) (pool : PoolId) (create close : List (Reaction Step (Option Failure)))
    (valid : List (Reaction Step (Option Bool))) : Stage :=
  stage.modifyMaker pool fun maker =>
    { maker with
      create := maker.create ++ create
      close := maker.close ++ close
      valid := maker.valid ++ valid }

def canServe (stage : Stage) : Task → Bool
  | .waiting pool .. => !(stage.world.pool pool).free.isEmpty
  | _ => false

/-- The other at a place of the queue, and the stage without it. -/
def takeOther? (stage : Stage) (place : Nat) : Option (Other × Stage) :=
  stage.queue[place]?.map fun other =>
    (other, { stage with queue := stage.queue.eraseIdx place })

/-- The first other that a slot is there for, and the stage without it. -/
def nextServed? (stage : Stage) : Option (Other × Stage) :=
  (stage.queue.findIdx? fun other => stage.canServe other.task).bind stage.takeOther?

/-- The first instant at which the patience of an other ends, if it is not after `limit`, with the
other and the stage without it. -/
def nextDue? (stage : Stage) (limit : Instant) : Option (Instant × Other × Stage) := do
  let due ← (stage.queue.filterMap fun other => other.task.due?).min?
  if limit < due then none
  let place ← stage.queue.findIdx? fun other => other.task.due? == some due
  let (other, stage) ← stage.takeOther? place
  some (due, other, stage)

/-- The end of an acquisition by another is known. -/
def settle (stage : Stage) (group : Nat) (outcome : Outcome) : Stage :=
  { stage with settled := (group, outcome) :: stage.settled }

def openGroup (stage : Stage) : Stage := { stage with groups := stage.groups + 1 }

def closeGroup (stage : Stage) (group : Nat) : Stage :=
  { stage with groups := group, settled := stage.settled.filter (·.1 != group) }

/-- How the acquisitions of a group ended, the first one first. -/
def outcomes (stage : Stage) (group : Nat) : List Outcome :=
  stage.settled.reverse.filterMap fun (number, outcome) =>
    if number = group then some outcome else none

/-- The leases that a group got, in the order of the serial numbers of their resources. -/
def gotten (stage : Stage) (group : Nat) : List Lease :=
  let leases := (stage.outcomes group).filterMap fun
    | .lent lease => some lease
    | _ => none
  let serial (lease : Lease) : Nat := (stage.devices[lease.resource]?.map (·.serial)).getD 0
  leases.mergeSort fun first second => decide (serial first ≤ serial second)

/-- The failures of a group, in the order of their text. -/
def failures (stage : Stage) (group : Nat) : List Failure :=
  sortFailures ((stage.outcomes group).filterMap fun
    | .failed failure => some failure
    | _ => none)

end Stage
end LeasePool.Scenario

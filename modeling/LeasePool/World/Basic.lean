import LeasePool.Notice
import LeasePool.Pool

/-!
The world that pools work in: the pools, the pids of their processes, every resource ever made
with the number of its holders, the leases that callers hold, the clock, and a journal of what
happened. A resource is destroyed at the moment its last holder lets it go; a forgotten one keeps
its holder for ever.
-/

namespace LeasePool

structure Resource where
  /-- The short name of what backs it. -/
  kind : String
  /-- The owner its pool had when its slot was taken. -/
  owner : Owner
  /-- How many leases, idle slots and operations hold it. -/
  holders : Nat
  /-- It was given up without letting it go, so that it is never destroyed. -/
  forgotten : Bool
deriving Repr, DecidableEq

inductive Signal where
  | notice (notice : Notice)
  /-- An acquisition took a slot of a pool with this owner. -/
  | slotTaken (owner : Owner)
  /-- The pool of this owner got back the slot of a lease it had issued under it. -/
  | slotReturned (owner : Owner)
  /-- An acquisition lent a resource. -/
  | lent (lease : Lease)
  /-- The last holder of a resource let it go. -/
  | destroyed (resource : ResourceId)
deriving Repr, DecidableEq

/-- All there is outside the operations that are under way. -/
structure World where
  pools : List Pool
  /-- The pid that each process sees now. -/
  pids : List Pid
  resources : List Resource
  /-- The leases that callers hold. -/
  held : List Lease
  clock : Instant
  /-- What happened, the latest first. -/
  journal : List Signal
deriving Inhabited

namespace World

/-- A world with processes and without pools. -/
def ofPids (pids : List Pid) : World := ⟨[], pids, [], [], 0, []⟩

def emit (world : World) (signal : Signal) : World :=
  { world with journal := signal :: world.journal }

def note (world : World) (notice : Notice) : World := world.emit (.notice notice)

def pool (world : World) (id : PoolId) : Pool := world.pools.getD id default

def modifyPool (world : World) (id : PoolId) (change : Pool → Pool) : World :=
  { world with pools := world.pools.modify id change }

def pidOf (world : World) (process : ProcessId) : Pid := world.pids.getD process 0

def currentPid (world : World) (id : PoolId) : Pid := world.pidOf (world.pool id).process

def fork (world : World) (process : ProcessId) (pid : Pid) : World :=
  { world with pids := world.pids.set process pid }

def advance (world : World) (time : Duration) : World :=
  { world with clock := world.clock + time }

/-- Time passes up to an instant, unless it is past already. -/
def advanceTo (world : World) (instant : Instant) : World :=
  { world with clock := max world.clock instant }

def addPool (world : World) (process : ProcessId) (config : Config) : World :=
  let id := world.pools.length
  let pid := world.pidOf process
  let world := world.note
    (.poolCreated config.maxSize.toNat config.acquireTimeout.toNat pid id)
  { world with pools := world.pools ++ [Pool.new config process ⟨id, pid, 0⟩] }

def kindOf (world : World) (resource : ResourceId) : String :=
  match world.resources[resource]? with
  | some entry => entry.kind
  | none => ""

def isAlive (world : World) (resource : ResourceId) : Bool :=
  match world.resources[resource]? with
  | some entry => decide (0 < entry.holders)
  | none => false

def hold (world : World) (resource : ResourceId) : World :=
  { world with
    resources := world.resources.modify resource fun entry =>
      { entry with holders := entry.holders + 1 } }

/-- A holder lets the resource go, and the last one destroys it. -/
def letGo (world : World) (resource : ResourceId) : World :=
  match world.resources[resource]? with
  | none => world
  | some entry =>
      let world :=
        { world with
          resources := world.resources.set resource
            { entry with holders := entry.holders - 1 } }
      if entry.holders = 1 then world.emit (.destroyed resource) else world

def letGoAll (world : World) (resources : List ResourceId) : World := resources.foldl letGo world

/-- A holder gives the resource up without letting it go. -/
def forget (world : World) (resource : ResourceId) : World :=
  { world with
    resources := world.resources.modify resource fun entry => { entry with forgotten := true } }

def forgetAll (world : World) (resources : List ResourceId) : World := resources.foldl forget world

def addResource (world : World) (kind : String) (owner : Owner) : World :=
  { world with resources := world.resources ++ [⟨kind, owner, 1, false⟩] }

def keep (world : World) (lease : Lease) : World := { world with held := lease :: world.held }

def part (world : World) (lease : Lease) : World :=
  { world with held := world.held.erase lease }

def dropLease (world : World) (lease : Lease) : World :=
  (world.part lease).letGo lease.resource

/-- Start a pool over under a new owner. The idle resources of a pool that is inherited from
another process are forgotten, because destroying them here would reach into that process; others
are let go. -/
def reset (world : World) (id : PoolId) (owner : Owner) (inherited : Bool) : World :=
  let old := world.pool id
  let world := world.modifyPool id fun pool => pool.reset owner inherited
  let world := world.note (.reset old.registry.length owner.pid owner.epoch)
  if inherited then world.forgetAll (idleFromBottom old.free)
  else world.letGoAll (idleFromBottom old.free)

/-- Reset a pool that now runs in another process than the one it knows. -/
def checkOwner (world : World) (id : PoolId) : World :=
  let pool := world.pool id
  let pid := world.currentPid id
  if pid = pool.notedPid then world
  else
    (world.note (.processChanged pool.notedPid pid)).reset id (pool.owner.withPid pid) true

/-- Discard every resource of a pool and start over, whatever process it runs in. -/
def invalidate (world : World) (id : PoolId) : World :=
  let owner := (world.pool id).owner.nextEpoch
  (world.note (.invalidated owner.epoch)).reset id owner false

/-- Check a pool's configuration; limits that cannot both apply are noted. -/
def checkConfig (world : World) (id : PoolId) : World :=
  let config := (world.pool id).config
  match config.validate, config.idleBeyondLifetime with
  | .ok _, some (idle, lifetime) => world.note (.idleBeyondLifetime idle.toNat lifetime.toNat)
  | _, _ => world

end World
end LeasePool

import LeasePool.Config
import LeasePool.Owner
import LeasePool.Stats

/-!
The state of one pool: a stack of free slots, counts of the slots that are out, a registry of the
resources made under the current owner, and counters. The functions here change one pool at once
and run no factory; `LeasePool.World` adds the resources themselves and the clock.
-/

namespace LeasePool

/-- A resource that waits to be lent again. -/
structure IdleResource where
  resource : ResourceId
  createdAt : Instant
  idleSince : Instant
deriving Repr, DecidableEq

/-- One entry of the free list. -/
inductive Slot where
  /-- Permission to make one more resource. -/
  | vacant
  /-- A resource that waits to be lent again. -/
  | idle (entry : IdleResource)
deriving Repr, DecidableEq

/-- The idle resource of a slot. -/
def Slot.idle? : Slot → Option IdleResource
  | .vacant => none
  | .idle entry => some entry

/-- The idle resources of a free list, from the bottom to the top. -/
def idleFromBottom (free : List Slot) : List ResourceId :=
  free.reverse.filterMap fun slot => slot.idle?.map (·.resource)

structure Pool where
  config : Config
  /-- The process whose pid the pool looks at. -/
  process : ProcessId
  owner : Owner
  /-- The pid that the pool was last told, which tells a fork when it differs from the pid now. -/
  notedPid : Pid
  /-- The free slots, the one to take next first. -/
  free : List Slot
  /-- The resources made under the current owner, oldest first. Those that died since stay until
  the next one is registered. -/
  registry : List ResourceId
  /-- Slots taken under the current owner and not yet given back. -/
  leased : Nat
  /-- Slots taken under earlier owners that still come back. -/
  staleLeased : Nat
  /-- The oldest epoch whose leases still hold a slot. -/
  reclaimFloor : Nat
  /-- Acquisitions that wait for a slot. -/
  waiting : Nat
  created : Nat
  creationFailures : Nat
  timeouts : Nat
  resets : Nat
deriving DecidableEq, Inhabited

namespace Pool

/-- A new pool: all slots are free and no resource is made. -/
def new (config : Config) (process : ProcessId) (owner : Owner) : Pool where
  config := config
  process := process
  owner := owner
  notedPid := owner.pid
  free := List.replicate config.maxSize.toNat .vacant
  registry := []
  leased := 0
  staleLeased := 0
  reclaimFloor := 0
  waiting := 0
  created := 0
  creationFailures := 0
  timeouts := 0
  resets := 0

/-- The number of resources that may exist at once. -/
def maxSize (pool : Pool) : Nat := pool.config.maxSize.toNat

def idleCount (pool : Pool) : Nat := pool.free.countP fun slot => slot.idle?.isSome

/-- The statistics of a pool. Slots out under earlier owners count as active. -/
def stats (pool : Pool) : Stats where
  maxSize := pool.config.maxSize
  idle := UInt64.ofNat pool.idleCount
  active := UInt64.ofNat (pool.leased + pool.staleLeased)
  vacant := UInt64.ofNat (pool.free.length - pool.idleCount)
  waiting := UInt64.ofNat pool.waiting
  created := UInt64.ofNat pool.created
  creationFailures := UInt64.ofNat pool.creationFailures
  timeouts := UInt64.ofNat pool.timeouts
  resets := UInt64.ofNat pool.resets

/-- Put a slot on top of the free list, unless the list is full. -/
def push (pool : Pool) (slot : Slot) : Pool :=
  if pool.free.length < pool.maxSize then { pool with free := slot :: pool.free } else pool

/-- An acquisition begins to wait for a slot. -/
def enqueue (pool : Pool) : Pool := { pool with waiting := pool.waiting + 1 }

/-- An acquisition that waits has run out of patience. -/
def giveUp (pool : Pool) : Pool :=
  { pool with waiting := pool.waiting - 1, timeouts := pool.timeouts + 1 }

/-- An acquisition that waits gets the top slot of the free list. -/
def take (pool : Pool) : Pool :=
  { pool with
    free := pool.free.tail
    waiting := pool.waiting - 1
    leased := pool.leased + 1 }

def countFailure (pool : Pool) : Pool :=
  { pool with creationFailures := pool.creationFailures + 1 }

/-- The slot of a lease of the present owner comes back as `slot`. -/
def giveBack (pool : Pool) (slot : Slot) : Pool :=
  { pool with leased := pool.leased - 1 }.push slot

/-- A lease of an earlier owner still holds a slot: this pool and process issued it, not before the
floor, and such leases are out. -/
def canReclaim (pool : Pool) (owner : Owner) : Bool :=
  owner.pool == pool.owner.pool && owner.pid == pool.owner.pid &&
    decide (pool.reclaimFloor ≤ owner.epoch) && decide (owner.epoch < pool.owner.epoch) &&
    decide (0 < pool.staleLeased)

/-- Give back the slot of a lease of an earlier owner, if it still holds one. -/
def reclaim (pool : Pool) (owner : Owner) : Pool :=
  if pool.canReclaim owner then
    { pool with staleLeased := pool.staleLeased - 1 }.push .vacant
  else pool

/-- Give back the slot of a lease whose resource does not come back. -/
def restoreVacant (pool : Pool) (owner : Owner) : Pool :=
  if pool.owner = owner then pool.giveBack .vacant else pool.reclaim owner

/-- Start over under a new owner with fresh vacant slots. If the pool is inherited from another
process its leases never come back; else they keep their slots until they are given back. -/
def reset (pool : Pool) (owner : Owner) (inherited : Bool) : Pool :=
  let stale := if inherited then 0 else pool.staleLeased + pool.leased
  { pool with
    owner := owner
    notedPid := owner.pid
    free := List.replicate (pool.maxSize - stale) .vacant
    registry := []
    leased := 0
    staleLeased := stale
    reclaimFloor := if inherited then owner.epoch else pool.reclaimFloor
    resets := pool.resets + 1 }

/-- Take everything out of the pool, so that it lends nothing before it is reset. -/
def tearDown (pool : Pool) : Pool :=
  { pool with
    owner := pool.owner.nextEpoch
    free := []
    registry := []
    leased := 0
    staleLeased := 0
    reclaimFloor := pool.owner.epoch + 1 }

/-- Enter a resource in the registry, after dropping those that are not alive from it. -/
def register (pool : Pool) (alive : ResourceId → Bool) (resource : ResourceId) : Pool :=
  { pool with registry := pool.registry.filter alive ++ [resource] }

/-- A resource was made under `owner`. It is registered unless the pool has another owner by now. -/
def enroll (pool : Pool) (owner : Owner) (alive : ResourceId → Bool) (resource : ResourceId) :
    Pool :=
  let pool := { pool with created := pool.created + 1 }
  if pool.owner = owner then pool.register alive resource else pool

/-- The time has reached a limit, if there is one. -/
def reached (limit : Option UInt64) (elapsed : Duration) : Bool :=
  match limit with
  | some ms => decide (Duration.ofMillis ms.toNat ≤ elapsed)
  | none => false

/-- An idle resource is past its idle timeout or its lifetime. -/
def isExpired (pool : Pool) (now : Instant) (entry : IdleResource) : Bool :=
  reached pool.config.idleTimeout (now - entry.idleSince) ||
    reached pool.config.maxLifetime (now - entry.createdAt)

/-- How long an acquisition waits that names no timeout. -/
def acquireTimeout (pool : Pool) : Duration := Duration.ofMillis pool.config.acquireTimeout.toNat

/-- Make the slots of the idle resources that `takes` selects vacant, in their places. -/
def vacate (pool : Pool) (takes : IdleResource → Bool) : Pool :=
  { pool with free := pool.free.map fun
      | .idle entry => if takes entry then .vacant else .idle entry
      | .vacant => .vacant }

/-- The idle resources that `takes` selects, from the bottom of the free list to the top. -/
def selected (pool : Pool) (takes : IdleResource → Bool) : List ResourceId :=
  pool.free.reverse.filterMap fun
    | .idle entry => if takes entry then some entry.resource else none
    | .vacant => none

end Pool
end LeasePool

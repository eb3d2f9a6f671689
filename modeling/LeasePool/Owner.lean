import LeasePool.Text.Duration

/-!
Owners: the context that a pool and each of its leases belongs to. A pool gets a new owner when it
notices that it runs in another process, when it is invalidated and when it is torn down; each
time the epoch grows, so no owner ever comes back.
-/

namespace LeasePool

/-- A pool, by its place in the world. -/
abbrev PoolId := Nat

/-- A resource, by the order of creation over all pools. -/
abbrev ResourceId := Nat

/-- A process whose identity pools look at, by its place in the world. -/
abbrev ProcessId := Nat

/-- The number by which a process tells which process it is; a fork changes it. -/
abbrev Pid := Nat

/-- A reading of the clock, in nanoseconds. -/
abbrev Instant := Nat

/-- The context that a resource or the pool itself belongs to. -/
structure Owner where
  pool : PoolId
  pid : Pid
  epoch : Nat
deriving Repr, DecidableEq, Inhabited

namespace Owner

/-- The owner after an invalidation or a teardown in the same process. -/
def nextEpoch (owner : Owner) : Owner := { owner with epoch := owner.epoch + 1 }

def withPid (owner : Owner) (pid : Pid) : Owner :=
  { owner with pid := pid, epoch := owner.epoch + 1 }

end Owner

/-- A resource in the hands of a caller. -/
structure Lease where
  resource : ResourceId
  /-- The owner the pool had when the slot was taken. -/
  owner : Owner
  createdAt : Instant
deriving Repr, DecidableEq

namespace Lease

/-- The time since the resource of the lease was created. -/
def age (lease : Lease) (now : Instant) : Duration := now - lease.createdAt

def sameResource (first second : Lease) : Bool := first.resource == second.resource

end Lease
end LeasePool

import LeasePool.World.Acquire

/-!
The ways back of a lease. A released resource lies on top of the free list, if the pool still has
the owner that the lease was issued under; else it is let go, and only its slot comes back, if it
still has one. A discarded resource is closed and let go before its slot comes back. What comes
from another process is forgotten.
-/

namespace LeasePool.World

/-- A lease came back to a pool; if the pool issued it, its slot is returned. -/
def noteReturn (world : World) (id : PoolId) (owner : Owner) : World :=
  if owner.pool = id then world.emit (.slotReturned owner) else world

/-- A lease comes back that the pool has no use for: its resource is let go, or forgotten if it
belongs to another process, and a slot that the lease still holds becomes vacant. -/
def turnAway (world : World) (id : PoolId) (lease : Lease) : World :=
  let inherited := lease.owner.pid != (world.pool id).owner.pid
  let world :=
    if inherited then world else world.modifyPool id fun pool => pool.reclaim lease.owner
  let world := world.note
    (if lease.owner.pool = id then .staleReleased lease.owner.pid lease.owner.epoch
     else .foreignReleased id lease.owner.pool)
  if inherited then world.forget lease.resource else world.letGo lease.resource

def release (world : World) (id : PoolId) (lease : Lease) : World :=
  let world := world.checkOwner id
  let pool := world.pool id
  let world := world.noteReturn id lease.owner
  if lease.owner ≠ pool.owner then world.turnAway id lease
  else if pool.free.length < pool.maxSize then
    world.modifyPool id fun pool =>
      pool.giveBack (.idle ⟨lease.resource, lease.createdAt, world.clock⟩)
  else
    let world := world.modifyPool id fun pool => { pool with leased := pool.leased - 1 }
    (world.note (.freeListFull pool.maxSize)).letGo lease.resource

/-- Go on after a discard: end, or acquire a resource for the next attempt, after the delay if there
is one. -/
def afterDiscard (world : World) (id : PoolId) : Sequel → World × Progress
  | .finish => (world, .done .finished)
  | .retry policy retries failure =>
      if policy.maxRetries ≤ retries then (world, .done (.failed failure))
      else
        let delay := (policy.backoff.delay retries).toNat
        let world := world.note
          (.retrying (retries.toNat + 1) policy.maxRetries.toNat delay failure)
        if delay = 0 then
          world.acquire id (world.usualPatience id) (.attempt policy (retries + 1))
        else
          (world, .pending
            (.pausing id (world.clock + Duration.ofMillis delay) policy (retries + 1)))

/-- A unit of work that waits for its next attempt acquires a resource when its time has come. -/
def awaitAttempt (world : World) (id : PoolId) (due : Instant) (policy : RetryPolicy)
    (retries : UInt32) : World × Progress :=
  if due ≤ world.clock then world.acquire id (world.usualPatience id) (.attempt policy retries)
  else (world, .pending (.pausing id due policy retries))

/-- Close the resource of a lease instead of taking it back. A lease from another process is
forgotten and one of another pool is dropped. -/
def discard (world : World) (id : PoolId) (lease : Lease) (sequel : Sequel) : World × Progress :=
  if lease.owner.pid ≠ world.currentPid id then
    (world.forget lease.resource).afterDiscard id sequel
  else if lease.owner.pool ≠ id then
    ((world.note (.foreignDiscarded id lease.owner.pool)).letGo lease.resource).afterDiscard id
      sequel
  else
    (world.note (.discarded (world.kindOf lease.resource)),
      .pending (.discarding id lease.owner lease.resource sequel))

def discarded (world : World) (id : PoolId) (owner : Owner) (resource : ResourceId)
    (sequel : Sequel) (failure : Option Failure) : World × Progress :=
  let world := (world.noteClose resource failure).letGo resource
  (world.restoreVacant id owner).afterDiscard id sequel

def worked (world : World) (id : PoolId) (lease : Lease) (value : Json) : World × Progress :=
  (world.release id lease, .done (.worked value))

/-- A unit of work failed: a resource that may be broken is discarded, any other is released. -/
def broke (world : World) (id : PoolId) (lease : Lease) (policy : RetryPolicy) (retries : UInt32)
    (failure : Failure) : World × Progress :=
  if policy.shouldDiscard failure then world.discard id lease (.retry policy retries failure)
  else (world.release id lease, .done (.failed failure))

end LeasePool.World

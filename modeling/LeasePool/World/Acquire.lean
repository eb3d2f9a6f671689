import LeasePool.Task
import LeasePool.World.Basic

/-!
Acquisition: a call takes the top slot of the free list, or waits for one until its patience ends.
An idle resource is lent again unless it is past a limit or found invalid; such a resource is
closed and destroyed first, and a new one is made in its slot, as for a vacant slot.
-/

namespace LeasePool.World

/-- An acquisition has its resource. -/
def lend (world : World) (id : PoolId) (lease : Lease) (purpose : Purpose) : World × Progress :=
  let world := world.emit (.lent lease)
  match purpose with
  | .lend => (world.keep lease, .done (.lent lease))
  | .attempt policy retries => (world, .pending (.working id lease policy retries))

def reuse (world : World) (id : PoolId) (owner : Owner) (entry : IdleResource)
    (purpose : Purpose) : World × Progress :=
  (world.note (.reused (world.kindOf entry.resource))).lend id
    ⟨entry.resource, owner, entry.createdAt⟩ purpose

/-- Close an idle resource, to make a new one in its slot. -/
def replace (world : World) (id : PoolId) (owner : Owner) (resource : ResourceId)
    (purpose : Purpose) : World × Progress :=
  (world.note (.replaced (world.kindOf resource)), .pending (.replacing id owner resource purpose))

/-- The top slot leaves the free list and an acquisition goes on with it. -/
def takeSlot (world : World) (id : PoolId) (slot : Slot) (purpose : Purpose) : World × Progress :=
  let world := world.modifyPool id Pool.take
  let pool := world.pool id
  let world := world.emit (.slotTaken pool.owner)
  match slot with
  | .vacant => (world, .pending (.creating id pool.owner purpose))
  | .idle entry =>
      if pool.isExpired world.clock entry then world.replace id pool.owner entry.resource purpose
      else if pool.config.testOnCheckout then
        (world, .pending (.validating id pool.owner entry purpose))
      else world.reuse id pool.owner entry purpose

def exhaust (world : World) (id : PoolId) (timeout : Duration) : World × Progress :=
  let maxSize := (world.pool id).maxSize
  let world := world.modifyPool id Pool.giveUp
  (world.note (.exhausted maxSize timeout.toMillis),
    .done (.failed (.poolExhausted maxSize timeout)))

/-- Take a slot if there is one; else give up if the time has come, and wait if it has not. -/
def awaitSlot (world : World) (id : PoolId) (patience : Patience) (since : Instant)
    (purpose : Purpose) : World × Progress :=
  match (world.pool id).free, patience with
  | slot :: _, _ => world.takeSlot id slot purpose
  | [], .within timeout =>
      if since + timeout ≤ world.clock then world.exhaust id timeout
      else (world, .pending (.waiting id patience since purpose))
  | [], .forever => (world, .pending (.waiting id patience since purpose))

def acquire (world : World) (id : PoolId) (patience : Patience) (purpose : Purpose) :
    World × Progress :=
  let world := (world.checkOwner id).modifyPool id Pool.enqueue
  world.awaitSlot id patience world.clock purpose

def usualPatience (world : World) (id : PoolId) : Patience :=
  .within (world.pool id).acquireTimeout

/-- The factory said whether an idle resource is valid. -/
def validated (world : World) (id : PoolId) (owner : Owner) (entry : IdleResource)
    (purpose : Purpose) (isValid : Bool) : World × Progress :=
  if isValid then world.reuse id owner entry purpose
  else world.replace id owner entry.resource purpose

/-- The factory closed a resource; a failure is noted and does not matter further. -/
def noteClose (world : World) (resource : ResourceId) : Option Failure → World
  | some failure => world.note (.closeFailed (world.kindOf resource) failure)
  | none => world

/-- The factory closed the resource to be replaced. -/
def replaced (world : World) (id : PoolId) (owner : Owner) (resource : ResourceId)
    (purpose : Purpose) (failure : Option Failure) : World × Progress :=
  ((world.noteClose resource failure).letGo resource, .pending (.creating id owner purpose))

def created (world : World) (id : PoolId) (owner : Owner) (purpose : Purpose) (kind : String) :
    World × Progress :=
  let resource := world.resources.length
  let world := world.addResource kind owner
  let world := world.modifyPool id fun pool => pool.enroll owner world.isAlive resource
  let world := world.note (.created kind (world.pool id).created)
  world.lend id ⟨resource, owner, world.clock⟩ purpose

/-- Give back the slot of a lease whose resource does not come back. -/
def restoreVacant (world : World) (id : PoolId) (owner : Owner) : World :=
  (world.emit (.slotReturned owner)).modifyPool id fun pool => pool.restoreVacant owner

def notCreated (world : World) (id : PoolId) (owner : Owner) (failure : Failure) :
    World × Progress :=
  let world := world.modifyPool id Pool.countFailure
  ((world.note (.creationFailed failure)).restoreVacant id owner, .done (.failed failure))

end LeasePool.World
